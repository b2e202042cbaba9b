import JosSched.Kern.Frame
import JosSched.Kern.Replay
import JosSched.Kern.TrapSpec

/-!
# Priorities are confined

On any number of CPUs, whatever the environments do: no priority ever exceeds
`ENV_PRIORITY_MAX`, the bonus that `sched_run` records stays between zero and that, a new
environment starts with the priority of its creator, and a system call raises the priority of
nobody but a child of the caller.
-/

open Except

namespace JosSched

variable {c : Cpu} {s s₀ s₁ s' : Kernel} {a : Act} {ev : Event} {e cur t : Slot} {tf : Trapframe}
  {inp : Input} {L : Act → Prop}

/-! ## The maximum -/

def PrioritiesBounded (s : Kernel) : Prop := ∀ e, (s.envs e).envPriority ≤ ENV_PRIORITY_MAX

theorem PrioritiesBounded.of_proj (h : PrioritiesBounded s)
    (henvs : ∀ e, (s'.envs e).envPriority = (s.envs e).envPriority) : PrioritiesBounded s' :=
  fun e => (henvs e).symm ▸ h e

/-- A slot that is handed out gets the default priority, or that of its creator. -/
theorem PrioritiesBounded.takes (h : PrioritiesBounded s) (hm : Micro c a s s') (ha : a.Takes e)
    (hnew : (s'.envs e).envPriority ≤ ENV_PRIORITY_MAX) : PrioritiesBounded s' := fun t => by
  by_cases ht : t = e
  · exact ht ▸ hnew
  · rw [(hm.frame_of_takes ha).1 t ht]
    exact h t

theorem PrioritiesBounded.envAlloc (h : PrioritiesBounded s) {parentId : Word}
    (halloc : envAlloc s parentId = .ok (.ok e, s')) : PrioritiesBounded s' := fun t => by
  by_cases ht : t = e
  · obtain ⟨p, m, -, -, rfl⟩ := envAlloc_eq_ok halloc
    rw [ht]
    simp [initEnv, ENV_PRIORITY_DEFAULT, ENV_PRIORITY_MAX]
  · rw [envAlloc_envs_ne halloc ht]
    exact h t

theorem PrioritiesBounded.micro (h : PrioritiesBounded s) (hm : Micro c a s s') :
    PrioritiesBounded s' := by
  cases hm with
  | start | pageNew | pageShare | pageDrop | kstore => exact h
  | save | ret | redirect | dying | status | deliver | ipcPerm | recving | block | sleep | upcall
  | entry =>
      refine h.of_proj fun e => modEnv_proj Env.envPriority fun _ => ?_
      rfl
  | tick => exact h.of_proj fun e => wakeup_proj Env.envPriority fun _ => rfl
  | @priority _ _ t p _ _ hmax _ =>
      -- the new priority has passed the check of `sys_setpriority`
      intro u
      by_cases hut : u = t
      · rw [hut, Kernel.modEnv_self]
        exact BitVec.not_lt.mp hmax
      · rw [Kernel.modEnv_ne _ _ hut]
        exact h u
  | create halloc => exact h.envAlloc halloc
  | @exofork _ s₁ _ cur hcur halloc =>
      -- a child starts with the priority of the environment that made it
      refine h.takes (.exofork hcur halloc) rfl ?_
      rw [Kernel.modEnv_self]
      exact h.envAlloc halloc cur
  | @thread _ s₁ s₂ _ cur _ _ _ _ hcur h₁ h₂ halloc h₄ hdrop h₆ =>
      refine h.takes (.thread hcur h₁ h₂ halloc h₄ hdrop h₆) rfl ?_
      rw [Kernel.modEnv_self]
      obtain ⟨m', -, rfl⟩ := dropPgdir_eq_ok hdrop
      have hprio := h.envAlloc halloc cur
      simp only [Kernel.setMem_envs]
      rw [modEnv_proj Env.envPriority]
      · exact hprio
      · exact fun _ => rfl
  | freeThread _ _ _ hfree =>
      obtain ⟨pgdir, m, -, -, rfl⟩ := envFreeThread_eq_ok hfree
      refine h.of_proj fun e => ?_
      rw [forget_envs]
      exact freed_proj Env.envPriority fun _ _ => rfl
  | freeProcess _ _ _ _ hfree =>
      obtain ⟨pgdir, m₁, m, -, -, -, rfl⟩ := envFreeProcess_eq_ok hfree
      refine h.of_proj fun e => ?_
      rw [forget_envs]
      exact freed_proj Env.envPriority fun _ _ => rfl

theorem Departs.bounded (hdep : Departs c L s s') (h : PrioritiesBounded s) :
    PrioritiesBounded s' :=
  h.of_proj fun _ => hdep.departed.proj Env.envPriority fun _ _ _ _ _ => rfl

/-! ## The bonus -/

/-- The aging bonus neither wraps nor exceeds the maximum. -/
theorem effectivePriority_bonus {env : Env} (h : env.envPriority ≤ ENV_PRIORITY_MAX) :
    env.envPriority ≤ schedEffectivePriority env ∧
      schedEffectivePriority env - env.envPriority ≤ ENV_PRIORITY_MAX := by
  have hmax : ENV_PRIORITY_MAX.toNat = 15 := rfl
  have hbonus : ∃ bonus : Word, bonus ≤ ENV_PRIORITY_MAX ∧
      schedEffectivePriority env = env.envPriority + bonus := by
    refine ⟨_, ?_, rfl⟩
    split
    · exact BitVec.le_refl _
    · next hle => exact BitVec.not_lt.mp hle
  obtain ⟨bonus, hle, heq⟩ := hbonus
  rw [heq]
  rw [BitVec.le_def, hmax] at h hle
  constructor
  · rw [BitVec.le_def, BitVec.toNat_add]
    omega
  · rw [add_sub_cancel_left]
    exact hle

/-- What `sched_run` has recorded: `effective - env_priority` was between zero and the maximum
each time. -/
structure Recorded (st : SchedStats) : Prop where
  history : ∀ h, (st.schedHistory h).priority ≤ (st.schedHistory h).effective ∧
    (st.schedHistory h).effective - (st.schedHistory h).priority ≤ ENV_PRIORITY_MAX
  maxbonus : ∀ e, (st.schedEnvStats e).maxbonus ≤ ENV_PRIORITY_MAX

theorem Recorded.account (h : Recorded s.stats) : Recorded (schedAccountCputicks s).stats := by
  unfold schedAccountCputicks
  dsimp only
  split
  · exact h
  · rw [Kernel.setStats_stats]
    have hmax : ∀ e, ((Function.update s.stats.schedEnvStats (envx s.stats.schedRunningId)
        { s.stats.schedEnvStats (envx s.stats.schedRunningId) with
          cputicks := (s.stats.schedEnvStats (envx s.stats.schedRunningId)).cputicks +
            (s.ticks - s.stats.schedRunningSince) }) e).maxbonus ≤ ENV_PRIORITY_MAX := by
      intro e
      by_cases he : e = envx s.stats.schedRunningId
      · rw [he, Function.update_self]
        exact h.maxbonus _
      · rw [Function.update_of_ne he]
        exact h.maxbonus e
    split <;> exact ⟨h.history, hmax⟩

theorem Recorded.run {effective : Word} (h : Recorded s.stats)
    (hle : (s.envs e).envPriority ≤ effective)
    (hbonus : effective - (s.envs e).envPriority ≤ ENV_PRIORITY_MAX) :
    Recorded (schedRecord s e effective).stats := by
  have h := h.account
  unfold schedRecord
  dsimp only
  rw [Kernel.setStats_stats]
  refine ⟨fun i => ?_, fun t => ?_⟩
  · dsimp only
    rw [Function.update_apply]
    split
    · exact ⟨hle, hbonus⟩
    · exact h.history i
  · dsimp only
    rw [Function.update_apply]
    split
    · -- the record starts over when the slot has a new owner
      dsimp only
      split <;> split <;> first | exact hbonus | exact Nat.zero_le _ | exact h.maxbonus _
    · exact h.maxbonus t

theorem Recorded.schedRun {effective : Word} (h : Recorded s.stats)
    (hle : (s.envs e).envPriority ≤ effective)
    (hbonus : effective - (s.envs e).envPriority ≤ ENV_PRIORITY_MAX)
    (hrun : schedRun c s e effective = .leave s') : Recorded s'.stats := by
  rw [envRun_stats hrun]
  exact h.run hle hbonus

/-- Every decision hands `sched_run` a priority with such a bonus. -/
theorem Recorded.schedYield (h : Recorded s.stats) (hbounded : PrioritiesBounded s)
    (hyield : schedYield c s = .leave s') : Recorded s'.stats := by
  have hcount : Recorded (countCall s).stats := ⟨h.history, h.maxbonus⟩
  have hbase : ∀ e, (s.envs e).envPriority - (s.envs e).envPriority ≤ ENV_PRIORITY_MAX :=
    fun e => by
    rw [sub_self]
    exact Nat.zero_le _
  have hidle : ∀ eff : Env → Word, (∀ e, (s.envs e).envPriority ≤ eff (s.envs e) ∧
      eff (s.envs e) - (s.envs e).envPriority ≤ ENV_PRIORITY_MAX) →
      schedIdle c (countCall s) eff = .leave s' → Recorded s'.stats := by
    intro eff heff hidle
    unfold schedIdle at hidle
    split at hidle
    · next cur _ =>
        split at hidle
        · exact hcount.schedRun (heff cur).1 (heff cur).2 hidle
        · rw [schedHalt_eq_leave hidle]
          exact hcount
    · rw [schedHalt_eq_leave hidle]
      exact hcount
  unfold JosSched.schedYield at hyield
  dsimp only at hyield
  split at hyield
  · split at hyield
    · next e _ => exact hcount.schedRun (BitVec.le_refl _) (hbase e) hyield
    · exact hidle _ (fun e => ⟨BitVec.le_refl _, hbase e⟩) hyield
  · split at hyield
    · next best prio hpick =>
        have hbonus := effectivePriority_bonus (hbounded best)
        have hprio : ((schedAge (countCall s) best).envs best).envPriority =
            (s.envs best).envPriority := by
          simp [schedAge, countCall]
        rw [schedPick_prio hpick] at hyield
        exact Recorded.schedRun (s := schedAge (countCall s) best) hcount (hprio ▸ hbonus.1)
          (hprio ▸ hbonus.2) hyield
    · exact hidle _ (fun e => effectivePriority_bonus (hbounded e)) hyield

theorem Departs.recorded (hdep : Departs c L s s') (h : Recorded s.stats)
    (hbounded : PrioritiesBounded s) : Recorded s'.stats := by
  cases hdep with
  | preempt _ hyield | idle _ hyield => exact h.schedYield hbounded hyield
  | resume _ hrun =>
      rw [envRun_stats hrun]
      exact h

theorem bounded_step (hstep : Step s ev s') (h : PrioritiesBounded s) : PrioritiesBounded s' :=
  hstep.invariant h (fun _ _ _ _ hm hs => hs.micro hm) (fun _ _ _ _ hdep hs => hdep.bounded hs)
    fun _ _ hs => hs

theorem recorded_step (hstep : Step s ev s') (hbounded : PrioritiesBounded s)
    (h : Recorded s.stats) : Recorded s'.stats :=
  (hstep.invariant (I := fun s => PrioritiesBounded s ∧ Recorded s.stats) ⟨hbounded, h⟩
    (fun _ _ _ _ hm hs => ⟨hs.1.micro hm, hm.constants.2 ▸ hs.2⟩)
    (fun _ _ _ _ hdep hs => ⟨hdep.bounded hs.1, hdep.recorded hs.2 hs.1⟩) fun _ _ hs => hs).2

theorem bounded_booted (h : Booted s) : PrioritiesBounded s := fun e => by
  rw [h.envs]
  exact Nat.zero_le _

theorem recorded_booted (h : Booted s) : Recorded s.stats := by
  rw [h.stats]
  have hbonus : (0 : Word) - 0 ≤ ENV_PRIORITY_MAX := by decide
  exact ⟨fun _ => ⟨BitVec.le_refl _, hbonus⟩, fun _ => Nat.zero_le _⟩

/-- `sys_getpriority` is negative only when there is no such environment. -/
theorem sysGetpriority_neg_iff (h : PrioritiesBounded s) (envid : Word) :
    sysGetpriority c s envid < 0 ↔ ∀ e, envid2env c s envid true ≠ .ok e := by
  unfold sysGetpriority
  cases hlookup : envid2env c s envid true with
  | error r =>
      rw [envid2env_error hlookup]
      have hneg : -E_BAD_ENV < 0 := by decide
      exact ⟨fun _ _ h => (by cases h), fun _ => hneg⟩
  | ok e =>
      have hle := h e
      have hmax : ENV_PRIORITY_MAX.toNat = 15 := rfl
      rw [BitVec.le_def, hmax] at hle
      refine ⟨fun hneg => ?_, fun hne => absurd rfl (hne e)⟩
      dsimp only at hneg
      rw [BitVec.toInt_eq_toNat_cond] at hneg
      split at hneg <;> omega

/-! ## System calls -/

/-- What a system call of `cur` may do to a priority: a new environment gets that of its creator,
and nobody but a child of the caller gets a higher one. -/
structure PriorityConfined (cur : Slot) (s s' : Kernel) (e : Slot) : Prop where
  inherited : (s'.envs e).envId ≠ (s.envs e).envId →
    (s'.envs e).envPriority = (s'.envs cur).envPriority ∧
      (e ≠ cur → (s'.envs e).envPriority = (s.envs cur).envPriority)
  raised : (s'.envs e).envId = (s.envs e).envId →
    (s.envs e).envPriority < (s'.envs e).envPriority →
      e ≠ cur ∧ (s.envs e).envParentId = (s.envs cur).envId

/-- A call that creates nobody: identities stay, and priorities only grow for children. -/
structure Ruled (cur : Slot) (s s₁ : Kernel) : Prop where
  who : ∀ e, (s₁.envs e).who = (s.envs e).who
  raised : ∀ e, (s₁.envs e).envPriority ≤ (s.envs e).envPriority ∨
    e ≠ cur ∧ (s.envs e).envParentId = (s.envs cur).envId

theorem Ruled.confined (h : Ruled cur s s') : PriorityConfined cur s s' e where
  inherited hid := absurd (Env.who_inj (h.who e)).1 hid
  raised _ hlt := (h.raised e).resolve_left fun hle => absurd hlt (BitVec.not_lt.mpr hle)

theorem Ruled.of_rank (h : Ruled cur s s₁) (hrank : ∀ e, (s'.envs e).rank = (s₁.envs e).rank) :
    Ruled cur s s' where
  who e := (Prod.mk.inj (hrank e)).1.trans (h.who e)
  raised e := by
    rw [(Prod.mk.inj (hrank e)).2]
    exact h.raised e

theorem Ruled.micro (h : Ruled cur s s₁) (hcur : s.curenv c = some cur) (ha : Allowed c s tf a)
    (hnew : ¬ a.Allocates) (hm : Micro c a s₁ s') : Ruled cur s s' := by
  by_cases hpriority : ∃ cur t p, a = .priority cur t p
  · obtain ⟨cur', t, p, rfl⟩ := hpriority
    cases ha with
    | destroy _ hdestroy => exact absurd hdestroy id
    | priority hcall hcur' ht =>
        obtain rfl := Option.some.inj (hcur'.symm.trans hcur)
        cases hm with
        | priority _ _ _ hself =>
            refine ⟨fun e => ?_, fun e => ?_⟩
            · refine (modEnv_proj Env.who fun _ => ?_).trans (h.who e)
              rfl
            · by_cases het : e = t
              · rw [het, Kernel.modEnv_self]
                obtain ⟨cur'', hcur'', hchild⟩ := self_or_child_of_envid2env ht
                obtain rfl := Option.some.inj (hcur''.symm.trans hcur)
                by_cases htc : cur'' = t
                · refine .inl (BitVec.le_trans (BitVec.not_lt.mp (hself htc)) ?_)
                  exact (h.raised t).resolve_right fun hother => hother.1 htc.symm
                · exact .inr ⟨Ne.symm htc, hchild.resolve_left (Ne.symm htc)⟩
              · rw [Kernel.modEnv_ne _ _ het]
                exact h.raised e
  · exact h.of_rank (hm.rank hnew fun cur t p heq => hpriority ⟨cur, t, p, heq⟩)

/-- A call that creates an environment. -/
theorem Creates.confined {act : Slot → Act} (hact : act = Act.exofork cur ∨ act = Act.thread cur)
    (h : Creates c act s s₁) (hrank : ∀ t, (s'.envs t).rank = (s₁.envs t).rank) :
    PriorityConfined cur s s' e := by
  have hruled : (∀ t, (s₁.envs t).rank = (s.envs t).rank) → PriorityConfined cur s s' e :=
    fun hsame => Ruled.confined (⟨fun t => (Prod.mk.inj ((hrank t).trans (hsame t))).1,
      fun t => .inl (BitVec.le_of_eq (Prod.mk.inj ((hrank t).trans (hsame t))).2)⟩)
  cases h with
  | nothing => exact hruled fun _ => rfl
  | @created t _ hfree _ hm =>
      have htakes : (act t).Takes t := by rcases hact with rfl | rfl <;> rfl
      have hframe := (hm.frame_of_takes htakes).1
      have hprio : ∀ u, (s'.envs u).envPriority = (s₁.envs u).envPriority :=
        fun u => (Prod.mk.inj (hrank u)).2
      by_cases het : e = t
      · have hid : (s'.envs e).envId ≠ (s.envs e).envId := by
          rw [(Env.who_inj (Prod.mk.inj (hrank e)).1).1, het, hm.id_of_takes htakes]
          exact nextEnvId_ne t _
        refine ⟨fun _ => ?_, fun heq => absurd heq hid⟩
        by_cases hcur : e = cur
        · exact ⟨by rw [hcur], fun hne => absurd hcur hne⟩
        · have hne : cur ≠ t := fun heq => hcur (het.trans heq.symm)
          have hinherits := hm.inherits cur t (by rcases hact with rfl | rfl <;> simp) hne
          rw [hprio, hprio, het, hinherits, hframe cur hne]
          exact ⟨rfl, fun _ => rfl⟩
      · have hsame : (s'.envs e).rank = (s.envs e).rank := by rw [hrank, hframe e het]
        have hwho := Env.who_inj (Prod.mk.inj hsame).1
        refine ⟨fun hid => absurd hwho.1 hid, fun _ hlt => ?_⟩
        rw [(Prod.mk.inj hsame).2] at hlt
        exact absurd hlt (BitVec.lt_irrefl _)

/-- Every system call confines the priorities it sets. -/
theorem confined_trap (hcur : s.curenv c = some cur) (hstep : Step s (.trap c inp tf) s') :
    PriorityConfined cur s s' e := by
  have hexec : trap c s inp tf = .leave s' := hstep.2
  by_cases hdying : (s.envs cur).envStatus = .dying
  · have hpath : (trap c s inp tf).Path c (fun a => a = .start ∨ a.OfDestroy c s cur) s :=
      trap_zombie_path hcur hdying (.inl rfl) fun _ ha => .inr ha
    have hruled : Ruled cur s s' :=
      hpath.invariant hexec ⟨fun _ => rfl, fun _ => .inl (BitVec.le_refl _)⟩
        (fun a _ _ ha hm hs => hs.of_rank (hm.rank
          (by rcases ha with rfl | ha; · exact id
              · cases a <;> first | exact id | exact absurd ha id)
          (by rcases ha with rfl | ha; · exact fun _ _ _ => Act.noConfusion
              · cases a <;> first | exact fun _ _ _ => Act.noConfusion | exact absurd ha id)))
        fun _ _ hdep hs => hs.of_rank hdep.rank
    exact hruled.confined
  · by_cases hcall : Calls tf .exofork ∨ Calls tf .threadCreate
    · obtain ⟨act, s₁, r, hact, hcreates, hdep⟩ :=
        trap_creates (L := fun _ => True) hcur hdying hcall hexec
      have hconfined : PriorityConfined cur (saved c s cur tf) s' e :=
        hcreates.confined hact fun t => (hdep.rank t).trans (modEnv_proj Env.rank fun _ => rfl)
      constructor
      · have hinherited := hconfined.inherited
        rwa [saved_envs, saved_envs] at hinherited
      · have hraised := hconfined.raised
        rwa [saved_envs, saved_envs] at hraised
    · have hruled : Ruled cur s s' :=
        (trap_path s inp tf).invariant hexec ⟨fun _ => rfl, fun _ => .inl (BitVec.le_refl _)⟩
          (fun a _ _ ha hm hs => hs.micro hcur ha (by
            cases ha with
            | exofork hcall' _ _ => exact absurd (.inl hcall') hcall
            | thread hcall' _ _ => exact absurd (.inr hcall') hcall
            | destroy _ hdestroy => cases a <;> first | exact id | exact absurd hdestroy id
            | _ => exact id) hm)
          fun _ _ hdep hs => hs.of_rank hdep.rank
      exact hruled.confined

/-! ## Runs -/

/-- What confinement means in a state `s`. -/
structure Confined (s : Kernel) : Prop where
  bounded : ∀ e, (s.envs e).envStatus ≠ .free → (s.envs e).envPriority ≤ ENV_PRIORITY_MAX
  getpriority : ∀ c envid, sysGetpriority c s envid < 0 ↔ ∀ e, envid2env c s envid true ≠ .ok e
  recorded : Recorded s.stats
  syscall : ∀ {c inp tf cur s'}, s.curenv c = some cur → tf.tfTrapno = T_SYSCALL →
    Step s (.trap c inp tf) s' → ∀ e, PriorityConfined cur s s' e

theorem bounded_of_run {evs : List Event} (hboot : Booted s₀) (hrun : Trace Step s₀ evs s) :
    PrioritiesBounded s :=
  hrun.invariant (bounded_booted hboot) fun _ _ _ hs hstep => bounded_step hstep hs

theorem statsRecorded_of_run {evs : List Event} (hboot : Booted s₀) (hrun : Trace Step s₀ evs s) :
    Recorded s.stats := by
  induction hrun with
  | nil => exact recorded_booted hboot
  | snoc hrun hstep ih => exact recorded_step hstep (bounded_of_run hboot hrun) ih

/-- In every reachable state, with any number of CPUs, priorities are confined. -/
theorem priority_confined {evs : List Event} (hboot : Booted s₀) (hrun : Trace Step s₀ evs s) :
    Confined s := by
  have hbounded := bounded_of_run hboot hrun
  exact ⟨fun e _ => hbounded e, fun _ envid => sysGetpriority_neg_iff hbounded envid,
    statsRecorded_of_run hboot hrun, fun hcur _ hstep _ => confined_trap hcur hstep⟩

/-- Two processes, the first of which has set its priority to zero and created a thread. -/
def lowered : List Event :=
  [.boot emptyImage, .boot emptyImage, .start 0, sysTrap 0 .setpriority 0 0 0 0 0,
    sysTrap 0 .threadCreate 0x800020 0xeebfe000 0 0 0]

/-- In that run the thread has priority zero and the other process the default. -/
theorem priority_confined_lowered : ∃ s, Trace Step (bootedMachine .priorities 64) lowered s ∧
    ((s.envs 1).envPriority = ENV_PRIORITY_DEFAULT ∧ (s.envs 2).envStatus = .runnable ∧
      (s.envs 2).envPriority = 0) ∧ Confined s := by
  have heval : (replay (fun _ _ => True) (bootedMachine .priorities 64) lowered).any
      (fun s => decide ((s.envs 1).envPriority = ENV_PRIORITY_DEFAULT ∧
        (s.envs 2).envStatus = .runnable ∧ (s.envs 2).envPriority = 0)) = true := by
    decide +kernel
  obtain ⟨s, hrun, hs⟩ := exists_trace _ _ _ _ heval
  have hrun : Trace Step (bootedMachine .priorities 64) lowered s :=
    hrun.mono fun _ _ _ hstep => hstep.1
  have hboot : Booted (bootedMachine .priorities 64) :=
    booted_bootedMachine .priorities (by decide) (by decide)
  exact ⟨s, hrun, decide_eq_true_iff.mp hs, priority_confined hboot hrun⟩

end JosSched
