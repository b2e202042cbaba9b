import JosSched.Kern.EnvSpec
import JosSched.Lib.Scan

/-!
# One scheduling decision

What `sched_yield` does when it leaves the kernel: it runs one ready environment, or goes on
with the one that was running, or halts the CPU.  Apart from the switch itself it only writes
wait counters and statistics.
-/

namespace JosSched

variable {c : Cpu} {L : Act → Prop} {s s₁ s' : Kernel}

/-- The states differ in wait counters and statistics at most. -/
structure SameButWait (s s₁ : Kernel) : Prop where
  mem : s₁.mem = s.mem
  envFreeList : s₁.envFreeList = s.envFreeList
  cpus : s₁.cpus = s.cpus
  ticks : s₁.ticks = s.ticks
  policy : s₁.policy = s.policy
  envs : ∀ e, s₁.envs e = { s.envs e with envWaitTicks := (s₁.envs e).envWaitTicks }

theorem SameButWait.refl : SameButWait s s := ⟨rfl, rfl, rfl, rfl, rfl, fun _ => rfl⟩

/-- The end of a decision. -/
inductive Decided (c : Cpu) (s : Kernel) : Kernel → Prop
  | ran {s₁ s' : Kernel} {e : Slot} : SameButWait s s₁ →
      (s.envs e).envStatus = .runnable ∨ s.curenv c = some e ∧ (s.envs e).envStatus = .running →
      Ran c s₁ e s' → Decided c s s'
  | halted {s₁ : Kernel} : SameButWait s s₁ →
      (∀ cur, s.curenv c = some cur → (s.envs cur).envStatus ≠ .running) →
      Decided c s (halted c s₁)

/-! ## The pick of the priority policy -/

/-- Who may be picked. -/
abbrev Candidate (c : Cpu) (s : Kernel) (e : Slot) : Prop :=
  (s.envs e).envStatus = .runnable ∨ s.curenv c = some e ∧ (s.envs e).envStatus = .running

/-- The key of the scan: the effective priority, as a number. -/
def effective (s : Kernel) (e : Slot) : ℕ := (schedEffectivePriority (s.envs e)).toNat

def Kernel.IsReady (s : Kernel) (e : Slot) : Prop := (s.envs e).envStatus = .runnable

instance (s : Kernel) : DecidablePred s.IsReady := fun _ => inferInstanceAs (Decidable (_ = _))

/-- What `sched_yield` picks: the first maximum of the scan, unless the running environment has
a strictly higher priority. -/
inductive Picked (c : Cpu) (s : Kernel) (best : Slot) : Prop
  | scan : FirstMax s.IsReady (effective s) (circular NENV (scanStart c s)) best →
      (∀ cur, s.curenv c = some cur → (s.envs cur).envStatus = .running →
        effective s cur ≤ effective s best) → Picked c s best
  | current : s.curenv c = some best → (s.envs best).envStatus = .running →
      (∀ e, s.IsReady e → effective s e < effective s best) → Picked c s best

theorem schedBest_eq_scanMax :
    schedBest s = scanMax s.IsReady (fun e => schedEffectivePriority (s.envs e)) BitVec.toNat := by
  funext best e
  unfold schedBest scanMax
  by_cases h : s.IsReady e
  · rw [if_pos h, if_neg fun hne => hne h]
    cases best <;> rfl
  · have hne : (s.envs e).envStatus ≠ .runnable := h
    rw [if_neg h, if_pos hne]

theorem foldl_schedBest : (scanFrom (scanStart c s)).foldl (schedBest s) none =
    (circular NENV (scanStart c s)).foldl (scanMax s.IsReady
      (fun e => schedEffectivePriority (s.envs e)) BitVec.toNat) none := by
  rw [schedBest_eq_scanMax]
  rfl

/-- An environment is picked with its effective priority. -/
theorem schedPick_prio {best : Slot} {prio : Word} (h : schedPick c s = some (best, prio)) :
    prio = schedEffectivePriority (s.envs best) := by
  obtain ⟨hsome, -⟩ := foldl_scanMax s.IsReady (fun e => schedEffectivePriority (s.envs e))
    BitVec.toNat (circular NENV (scanStart c s))
  unfold schedPick at h
  rw [foldl_schedBest] at h
  generalize (circular NENV (scanStart c s)).foldl _ _ = found at h hsome
  have hfound : found = some (best, prio) → prio = schedEffectivePriority (s.envs best) :=
    fun heq => (hsome best prio heq).1
  have hcurrent : ∀ {cur : Slot},
      some (cur, schedEffectivePriority (s.envs cur)) = some (best, prio) →
      prio = schedEffectivePriority (s.envs best) := by
    intro cur heq
    obtain ⟨rfl, hprio⟩ := Prod.mk.inj (Option.some.inj heq)
    exact hprio.symm
  dsimp only at h
  split at h
  · split at h
    · split at h
      · exact hcurrent h
      · split at h
        · exact hcurrent h
        · exact hfound h
    · exact hfound h
  · exact hfound h

theorem schedPick_picked {best : Slot} {prio : Word} (h : schedPick c s = some (best, prio)) :
    Picked c s best := by
  obtain ⟨hsome, hnone⟩ := foldl_scanMax s.IsReady (fun e => schedEffectivePriority (s.envs e))
    BitVec.toNat (circular NENV (scanStart c s))
  unfold schedPick at h
  rw [foldl_schedBest] at h
  generalize (circular NENV (scanStart c s)).foldl _ _ = found at h hsome hnone
  cases hcur : s.curenv c with
  | none =>
      simp only [hcur] at h
      refine .scan (hsome best prio h).2 fun cur hcur' => ?_
      rw [hcur] at hcur'
      cases hcur'
  | some cur =>
      simp only [hcur] at h
      by_cases hrun : (s.envs cur).envStatus = .running
      · rw [if_pos hrun] at h
        rcases found with _ | ⟨first, firstPrio⟩
        · obtain ⟨rfl, -⟩ := Prod.mk.inj (Option.some.inj h)
          exact .current hcur hrun fun e he => absurd he (hnone rfl e (mem_circular _ e))
        · obtain ⟨rfl, hmax⟩ := hsome first firstPrio rfl
          dsimp only at h
          split at h
          · next hlt =>
              obtain ⟨rfl, -⟩ := Prod.mk.inj (Option.some.inj h)
              exact .current hcur hrun fun e he => (hmax.le (mem_circular _ e) he).trans_lt hlt
          · next hge =>
              obtain ⟨rfl, -⟩ := Prod.mk.inj (Option.some.inj h)
              refine .scan hmax fun cur' hcur' _ => ?_
              obtain rfl : cur = cur' := Option.some.inj (hcur.symm.trans hcur')
              exact BitVec.not_lt.mp hge
      · rw [if_neg hrun] at h
        refine .scan (hsome best prio h).2 fun cur' hcur' hrun' => ?_
        obtain rfl : cur = cur' := Option.some.inj (hcur.symm.trans hcur')
        exact absurd hrun' hrun

/-- Nothing is picked only when nothing is ready, and nothing was running. -/
theorem not_contending_of_schedPick (h : schedPick c s = none) (e : Slot) :
    ¬ Candidate c s e := by
  obtain ⟨-, hnone⟩ := foldl_scanMax s.IsReady (fun e => schedEffectivePriority (s.envs e))
    BitVec.toNat (circular NENV (scanStart c s))
  unfold schedPick at h
  rw [foldl_schedBest] at h
  generalize (circular NENV (scanStart c s)).foldl _ _ = found at h hnone
  cases found with
  | none =>
      rintro (hready | ⟨hcur, hrun⟩)
      · exact hnone rfl e (mem_circular _ e) hready
      · simp only [hcur, if_pos hrun] at h
        cases h
  | some best =>
      dsimp only at h
      split at h
      · split at h
        · split at h <;> cases h
        · cases h
      · cases h

theorem Picked.candidate {best : Slot} (h : Picked c s best) : Candidate c s best := by
  cases h with
  | scan hmax => exact .inl hmax.candidate
  | current hcur hrun => exact .inr ⟨hcur, hrun⟩

/-! ## The state after a decision -/

theorem sameButWait_countCall : SameButWait s (countCall s) :=
  ⟨rfl, rfl, rfl, rfl, rfl, fun _ => rfl⟩

theorem sameButWait_schedAge {best : Slot} : SameButWait s (schedAge (countCall s) best) := by
  refine ⟨rfl, rfl, rfl, rfl, rfl, fun e => ?_⟩
  simp only [schedAge]
  split
  · rfl
  · split <;> rfl

theorem schedIdle_decided {effective : Env → Word} (hsame : SameButWait s s₁)
    (h : schedIdle c s₁ effective = .leave s') : Decided c s s' := by
  have hcur : s₁.curenv c = s.curenv c := congrArg CpuInfo.cpuEnv (congrFun hsame.cpus c)
  have hstatus : ∀ e, (s₁.envs e).envStatus = (s.envs e).envStatus := fun e => by
    rw [hsame.envs e]
  unfold schedIdle at h
  rw [hcur] at h
  split at h
  · next cur hcur' =>
      rw [hstatus] at h
      split at h
      · next hrun => exact .ran hsame (.inr ⟨hcur', hrun⟩) (schedRun_eq_leave h)
      · next hrun =>
          rw [schedHalt_eq_leave h]
          refine .halted hsame fun cur' hcur'' => ?_
          obtain rfl := Option.some.inj (hcur'.symm.trans hcur'')
          exact hrun
  · next hnone =>
      rw [schedHalt_eq_leave h]
      refine .halted hsame fun cur' hcur'' => ?_
      rw [hnone] at hcur''
      cases hcur''

theorem schedYield_decided (h : schedYield c s = .leave s') : Decided c s s' := by
  unfold schedYield at h
  dsimp only at h
  split at h
  · split at h
    · next e he =>
        have hrun := List.find?_some he
        exact .ran sameButWait_countCall (.inl (of_decide_eq_true hrun)) (schedRun_eq_leave h)
    · exact schedIdle_decided sameButWait_countCall h
  · split at h
    · next best prio hbest =>
        have hspec := (schedPick_picked hbest).candidate
        exact .ran sameButWait_schedAge hspec (schedRun_eq_leave h)
    · exact schedIdle_decided sameButWait_countCall h

theorem exists_schedRun {e : Slot} {prio : Word} {pgdir : Ppn}
    (h : (s.envs e).envPgdir = some pgdir) : ∃ s', schedRun c s e prio = .leave s' := by
  have henvs : (schedRecord s e prio).envs = s.envs := by
    unfold schedRecord schedAccountCputicks
    dsimp only
    split <;> rfl
  have hpgdir : ((schedRecord s e prio).envs e).envPgdir = some pgdir := by rw [henvs, h]
  exact exists_envRun hpgdir

/-- With somebody to pick, and page directories for all who may be, the decision goes through. -/
theorem exists_schedYield {e : Slot} (he : Candidate c s e)
    (hpgdir : ∀ t, Candidate c s t → (s.envs t).envPgdir.isSome = true) :
    ∃ s', schedYield c s = .leave s' := by
  have hrun : ∀ (s₁ : Kernel) (t : Slot) (prio : Word), SameButWait s s₁ → Candidate c s t →
      ∃ s', schedRun c s₁ t prio = .leave s' := by
    intro s₁ t prio hsame ht
    obtain ⟨pgdir, hpgdir⟩ := Option.isSome_iff_exists.mp (hpgdir t ht)
    have hpgdir' : (s₁.envs t).envPgdir = some pgdir := by
      rw [hsame.envs t]
      exact hpgdir
    exact exists_schedRun hpgdir'
  unfold schedYield
  dsimp only
  cases hpolicy : (countCall s).policy with
  | roundRobin =>
      dsimp only
      cases hfind : (scanFrom (scanStart c (countCall s))).find?
          fun e => ((countCall s).envs e).envStatus = .runnable with
      | none =>
          have hno := List.find?_eq_none.mp hfind e (mem_circular _ e)
          rcases he with he | ⟨hcur, hst⟩
          · exact absurd (decide_eq_true he) hno
          · obtain ⟨s', h⟩ := hrun (countCall s) e (s.envs e).envPriority sameButWait_countCall
              (.inr ⟨hcur, hst⟩)
            refine ⟨s', ?_⟩
            have hcur' : (countCall s).curenv c = some e := hcur
            unfold schedIdle
            rw [hcur']
            exact (if_pos hst).trans h
      | some next =>
          have hnext := List.find?_some hfind
          exact hrun _ next _ sameButWait_countCall (.inl (of_decide_eq_true hnext))
  | priorities =>
      dsimp only
      cases hpick : schedPick c (countCall s) with
      | none => exact absurd he (not_contending_of_schedPick hpick e)
      | some pick => exact hrun _ pick.1 _ sameButWait_schedAge (schedPick_picked hpick).candidate

/-- `sched_halt` gives up when there is nobody to wait for. -/
theorem schedHalt_finished {why : Panic} (h : schedHalt c s = .stuck why s') :
    s'.envs = s.envs ∧ ∀ e, (s.envs e).pending = false := by
  unfold schedHalt at h
  split at h
  · cases h
  · next hany =>
      cases h
      refine ⟨?_, fun e => ?_⟩
      · unfold schedAccountCputicks
        dsimp only
        split <;> rfl
      · rw [Bool.not_eq_true, List.any_eq_false] at hany
        exact Bool.eq_false_iff.mpr (hany e (List.mem_finRange e))

theorem schedRun_ne_finished {e : Slot} {effective : Word} :
    schedRun c s e effective ≠ .stuck .noRunnable s' := fun h => envRun_stuck h rfl

theorem schedIdle_finished {effective : Env → Word}
    (h : schedIdle c s effective = .stuck .noRunnable s') :
    s'.envs = s.envs ∧ ∀ e, (s.envs e).pending = false := by
  unfold schedIdle at h
  split at h
  · split at h
    · exact absurd h schedRun_ne_finished
    · exact schedHalt_finished h
  · exact schedHalt_finished h

theorem schedYield_finished (h : schedYield c s = .stuck .noRunnable s') :
    s'.envs = s.envs ∧ ∀ e, (s.envs e).pending = false := by
  have hcount : s'.envs = (countCall s).envs ∧ (∀ e, ((countCall s).envs e).pending = false) := by
    unfold schedYield at h
    dsimp only at h
    split at h
    · split at h
      · exact absurd h schedRun_ne_finished
      · exact schedIdle_finished h
    · split at h
      · exact absurd h schedRun_ne_finished
      · exact schedIdle_finished h
  exact hcount

/-! ## Leaving the kernel -/

/-- A CPU leaves by a decision, or back to the environment it came from. -/
theorem Departs.cases (h : Departs c L s s') :
    Decided c s s' ∨ ∃ e, s.curenv c = some e ∧ Ran c s e s' := by
  cases h with
  | preempt _ h | idle _ h => exact .inl (schedYield_decided h)
  | resume hcur h => exact .inr ⟨_, hcur, envRun_eq_leave h⟩

theorem Departs.settled (h : Departs c L s s') : Settled c s' := by
  rcases h.cases with hdec | ⟨e, -, hran⟩
  · cases hdec with
    | ran _ _ hran => exact hran.settled
    | halted _ => exact settled_halted
  · exact hran.settled

/-- Leaving the kernel writes who runs and for how long, and nothing else. -/
structure Departed (c : Cpu) (s s' : Kernel) : Prop where
  mem : s'.mem = s.mem
  envFreeList : s'.envFreeList = s.envFreeList
  ticks : s'.ticks = s.ticks
  policy : s'.policy = s.policy
  frame : ∀ d, d ≠ c → s'.cpus d = s.cpus d
  envs : ∀ t, s'.envs t = { s.envs t with
    envStatus := (s'.envs t).envStatus
    envRuns := (s'.envs t).envRuns
    envCpunum := (s'.envs t).envCpunum
    envWaitTicks := (s'.envs t).envWaitTicks }

theorem SameButWait.departed_ran {e : Slot} (hsame : SameButWait s s₁) (hran : Ran c s₁ e s') :
    Departed c s s' where
  mem := hran.mem.trans hsame.mem
  envFreeList := hran.envFreeList.trans hsame.envFreeList
  ticks := hran.ticks.trans hsame.ticks
  policy := hran.policy.trans hsame.policy
  frame d hd := (hran.frame d hd).trans (congrFun hsame.cpus d)
  envs t := by
    rw [hran.envs t, hsame.envs t]

theorem Decided.departed (h : Decided c s s') : Departed c s s' := by
  cases h with
  | ran hsame _ hran => exact hsame.departed_ran hran
  | halted hsame =>
      refine ⟨hsame.mem, hsame.envFreeList, hsame.ticks, hsame.policy, fun d hd => ?_, fun t => ?_⟩
      · exact (halted_cpus_ne hd).trans (congrFun hsame.cpus d)
      · rw [halted_envs, hsame.envs t]

theorem Departs.departed (h : Departs c L s s') : Departed c s s' := by
  rcases h.cases with hdec | ⟨e, -, hran⟩
  · exact hdec.departed
  · exact SameButWait.refl.departed_ran hran

theorem Departed.proj {α : Type} (g : Env → α) {t : Slot} (h : Departed c s s')
    (hg : ∀ (env : Env) st runs cpu wait, g { env with
      envStatus := st, envRuns := runs, envCpunum := cpu, envWaitTicks := wait } = g env) :
    g (s'.envs t) = g (s.envs t) := by
  rw [h.envs t]
  exact hg _ _ _ _ _

end JosSched
