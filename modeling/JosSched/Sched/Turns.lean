import JosSched.Kern.Replay
import JosSched.Kern.TrapSpec
import JosSched.Sched.Solo

/-!
# Waiting for a turn

An environment that stays ready and is not picked loses one decision after another
(`PassedOver`).  This module says what one step of a machine with one CPU does in between: a step
that calls the scheduler does so in a state that nobody but sleepers has joined (`Contest`,
`CpuStep.decision`), and any other step leaves the waiting environment and the start of the next
scan alone (`CpuStep.keeps`).  The two policies are in `Sched/RoundRobin.lean` and
`Sched/Aging.lean`.
-/

namespace JosSched

/-- `sched_yield` was called in the step: it counts its calls. -/
def Decides (s s' : Kernel) : Prop := s'.stats.schedCalls ≠ s.stats.schedCalls

/-- A run from `s` in which `e` stays ready while `n` decisions of CPU `c`, all of them `ok`, go
to others. -/
inductive PassedOver (c : Cpu) (ok : Kernel → Kernel → Prop) (e : Slot) (s : Kernel) :
    ℕ → Kernel → Prop
  | start : s.IsReady e → PassedOver c ok e s 0 s
  | wait {n s₁ ev s₂} : PassedOver c ok e s n s₁ → CpuStep c s₁ ev s₂ → s₂.IsReady e →
      ¬ Decides s₁ s₂ → PassedOver c ok e s n s₂
  | lose {n s₁ ev s₂} : PassedOver c ok e s n s₁ → CpuStep c s₁ ev s₂ → s₂.IsReady e →
      Decides s₁ s₂ → ok s₁ s₂ → PassedOver c ok e s (n + 1) s₂

variable {c : Cpu} {s s₁ s₂ s' : Kernel} {a : Act} {ev : Event} {e t cur : Slot} {tf : Trapframe}
  {inp : Input} {L : Act → Prop}

/-! ## Joining the competition -/

/-- The fields the policies read, but for the status. -/
def Env.seat (env : Env) : Word × Word × Word := (env.envId, env.envPriority, env.envWaitTicks)

/-- The environment may be picked by a decision made when `ticks` is the time: it was ready or
running before, or the clock has just woken it up. -/
def Contends (s : Kernel) (ticks : Word) (t : Slot) : Prop :=
  s.IsReady t ∨ (s.envs t).envStatus = .running ∨
    ticks ≠ s.ticks ∧ (wakeup ticks (s.envs t)).envStatus = .runnable

/-- `s₁` is the state of a stay in the kernel that began in `s`, as far as the competition for
the CPU goes: the clock may have woken somebody up, or the current environment may have been
freed, but not both. -/
structure Contest (c : Cpu) (s s₁ : Kernel) : Prop where
  curenv : s₁.curenv c = s.curenv c ∨ s₁.curenv c = none ∧ s₁.ticks = s.ticks ∧
    ∃ cur, s.curenv c = some cur ∧ (s₁.envs cur).envStatus = .free
  seat : ∀ t, (s₁.envs t).seat = (s.envs t).seat
  stays : ∀ t, (s₁.envs t).envStatus = .running → (s.envs t).envStatus = .running
  ready : ∀ t, s₁.IsReady t → Contends s s₁.ticks t

namespace Contest

theorem refl : Contest c s s := ⟨.inl rfl, fun _ => rfl, fun _ h => h, fun _ h => .inl h⟩

theorem cur_eq (h : Contest c s s₁) (hcur : s₁.curenv c = some cur) : s.curenv c = some cur := by
  rcases h.curenv with heq | ⟨hnone, -⟩
  · exact heq.symm.trans hcur
  · rw [hnone] at hcur
    cases hcur

/-- Nothing but statuses change, and nobody becomes ready or running. -/
theorem of_eq (h : Contest c s s₁) (hticks : s₂.ticks = s₁.ticks)
    (hcurenv : s₂.curenv c = s₁.curenv c) (hseat : ∀ t, (s₂.envs t).seat = (s₁.envs t).seat)
    (hstatus : ∀ t, (s₂.envs t).envStatus = (s₁.envs t).envStatus ∨
      (s₂.envs t).envStatus ≠ .runnable ∧ (s₂.envs t).envStatus ≠ .running ∧
        (s₁.envs t).envStatus ≠ .free ∨ (s.envs t).envStatus = .running ∧
        (s₁.envs t).envStatus ≠ .free ∧ (s₂.envs t).envStatus = .runnable) :
    Contest c s s₂ where
  curenv := by
    rw [hcurenv, hticks]
    refine h.curenv.imp id fun ⟨hnone, hticks, cur, hcur, hfree⟩ => ⟨hnone, hticks, cur, hcur, ?_⟩
    rcases hstatus cur with heq | ⟨-, -, hne⟩ | ⟨-, hne, -⟩
    · exact heq.trans hfree
    · exact absurd hfree hne
    · exact absurd hfree hne
  seat t := (hseat t).trans (h.seat t)
  stays t ht := by
    rcases hstatus t with heq | ⟨-, hne, -⟩ | ⟨hrun, -⟩
    · exact h.stays t (heq.symm.trans ht)
    · exact absurd ht hne
    · exact hrun
  ready t ht := by
    rw [hticks]
    rcases hstatus t with heq | ⟨hne, -⟩ | ⟨hrun, -⟩
    · exact h.ready t (heq.symm.trans ht)
    · exact absurd ht hne
    · exact .inr (.inl hrun)

/-- Changing one environment. -/
theorem modEnv (h : Contest c s s₁) {f : Env → Env} (hseat : ∀ env, (f env).seat = env.seat)
    (hstatus : (f (s₁.envs t)).envStatus = (s₁.envs t).envStatus ∨
      (f (s₁.envs t)).envStatus ≠ .runnable ∧ (f (s₁.envs t)).envStatus ≠ .running ∧
        (s₁.envs t).envStatus ≠ .free ∨ (s.envs t).envStatus = .running ∧
        (s₁.envs t).envStatus ≠ .free ∧ (f (s₁.envs t)).envStatus = .runnable) :
    Contest c s (s₁.modEnv t f) := by
  refine h.of_eq rfl rfl (fun u => modEnv_proj Env.seat hseat) fun u => ?_
  by_cases hut : u = t
  · rw [hut, Kernel.modEnv_self]
    exact hstatus
  · rw [Kernel.modEnv_ne _ _ hut]
    exact .inl rfl

theorem freed (h : Contest c s s₁) (hticks : s₁.ticks = s.ticks) {m : Mem} :
    Contest c s (forget c (JosSched.freed c s₁ t m) t) where
  curenv := by
    have hst : ∀ u, (s₁.envs u).envStatus = .free ∨ u = t →
        ((forget c (JosSched.freed c s₁ t m) t).envs u).envStatus = .free := by
      intro u hu
      rw [forget_envs]
      by_cases hut : u = t
      · rw [hut, freed_envs_self]
      · rw [freed_envs_ne hut]
        exact hu.resolve_right hut
    rw [forget_ticks, freed_ticks, hticks]
    -- the current environment is let go only if it is the one that is freed
    by_cases hcur : s₁.curenv c = some t
    · refine .inr ⟨?_, rfl, t, h.cur_eq hcur, hst t (.inr rfl)⟩
      rw [forget, if_pos (freed_curenv.trans hcur), Kernel.setCurenv_curenv_self]
    · rw [forget_eq_self (by rwa [freed_curenv]), freed_curenv]
      refine h.curenv.imp id fun hcurenv => ?_
      obtain ⟨hnone, -, cur, hcur, hfree⟩ := hcurenv
      refine ⟨hnone, rfl, cur, hcur, ?_⟩
      have hfree := hst cur (.inl hfree)
      rwa [forget_envs] at hfree
  seat u := by
    rw [forget_envs, freed_proj Env.seat fun _ _ => rfl]
    exact h.seat u
  stays u hu := by
    rw [forget_envs] at hu
    by_cases hut : u = t
    · rw [hut, freed_envs_self] at hu
      cases hu
    · rw [freed_envs_ne hut] at hu
      exact h.stays u hu
  ready u hu := by
    rw [Kernel.IsReady, forget_envs] at hu
    rw [forget_ticks, freed_ticks]
    by_cases hut : u = t
    · rw [hut, freed_envs_self] at hu
      cases hu
    · rw [freed_envs_ne hut] at hu
      exact h.ready u hu

end Contest

/-! ## Inside the kernel -/

/-- The action lets nobody join the competition but the caller itself. -/
def Act.Steady : Act → Prop
  | .status cur t _ | .deliver cur t _ => t = cur
  | .priority _ _ _ | .create _ | .exofork _ _ | .thread _ _ | .entry _ _ | .tick => False
  | _ => True

/-- What holds after a path of steady actions. -/
structure Standing (c : Cpu) (s s₁ : Kernel) : Prop extends Contest c s s₁, Lone c s₁ where
  ticks : s₁.ticks = s.ticks
  custody : Custody c s s₁

theorem Standing.contest_micro (h : Standing c s s₁) (hsolo : Solo c s) (hm : Micro c a s₁ s₂)
    (ha : a.Steady) : Contest c s s₂ := by
  have hcontest := h.toContest
  have hown : ∀ {cur}, s₁.curenv c = some cur → (s.envs cur).envStatus = .running ∧
      (s₁.envs cur).envStatus ≠ .free :=
    fun hcur => ⟨hsolo.cur_running (hcontest.cur_eq hcur), h.custody.own _ hcur⟩
  cases hm with
  | start => exact hcontest.of_eq rfl started_curenv (fun _ => rfl) fun _ => .inl rfl
  | save | ret | redirect | ipcPerm | recving | upcall =>
      exact hcontest.modEnv (fun _ => rfl) (.inl rfl)
  | block hcur _ | sleep hcur _ =>
      exact hcontest.modEnv (fun _ => rfl)
        (.inr (.inl ⟨EnvStatus.noConfusion, EnvStatus.noConfusion, (hown hcur).2⟩))
  | status hcur _ hst =>
      obtain rfl := ha
      refine hcontest.modEnv (fun _ => rfl) (.inr ?_)
      rcases hst with rfl | rfl
      · exact .inr ⟨(hown hcur).1, (hown hcur).2, rfl⟩
      · exact .inl ⟨EnvStatus.noConfusion, EnvStatus.noConfusion, (hown hcur).2⟩
  | deliver hcur _ _ =>
      obtain rfl := ha
      exact hcontest.modEnv (fun _ => rfl) (.inr (.inr ⟨(hown hcur).1, (hown hcur).2, rfl⟩))
  | dying hrun hcur => exact absurd (h.toLone.running _ hrun) hcur
  | freeThread _ _ _ hfree =>
      obtain ⟨pgdir, m, -, -, rfl⟩ := envFreeThread_eq_ok hfree
      exact hcontest.freed h.ticks
  | freeProcess _ _ _ _ hfree =>
      obtain ⟨pgdir, m₁, m, -, -, -, rfl⟩ := envFreeProcess_eq_ok hfree
      exact hcontest.freed h.ticks
  | pageNew | pageShare | pageDrop | kstore =>
      exact hcontest.of_eq rfl rfl (fun _ => rfl) fun _ => .inl rfl
  | tick | priority | create | exofork | thread | entry => exact absurd ha id

theorem Standing.micro (h : Standing c s s₁) (hsolo : Solo c s) (hm : Micro c a s₁ s₂)
    (ha : a.Steady) : Standing c s s₂ := by
  have hne : a ≠ .tick := by
    rintro rfl
    exact ha
  exact ⟨h.contest_micro hsolo hm ha, h.toLone.micro hm, (hm.ticks hne).trans h.ticks,
    h.custody.micro hm hsolo.safe⟩

theorem Standing.path (hsolo : Solo c s) (hpath : Path c L s s₁) (hL : ∀ a, L a → a.Steady) :
    Standing c s s₁ :=
  hpath.invariant ⟨.refl, hsolo.toLone, rfl, hsolo.exclusive.custody⟩
    fun a _ _ ha hm hs => hs.micro hsolo hm (hL a ha)

/-- The action leaves `cur`, which the CPU executes, running. -/
def Act.Spares (cur : Slot) : Act → Prop
  | .status _ t _ | .deliver _ t _ => t ≠ cur
  | .create e | .exofork _ e | .thread _ e => e ≠ cur
  | .block _ _ | .sleep _ _ | .freeThread _ _ | .freeProcess _ _ => False
  | _ => True

theorem Micro.spares (hm : Micro c a s s') (ha : a.Spares cur) (hcur : s.curenv c = some cur)
    (hrun : (s.envs cur).envStatus = .running) :
    s'.curenv c = some cur ∧ (s'.envs cur).envStatus = .running := by
  have hfrees : ¬ a.Frees := by cases a <;> first | exact id | exact fun _ => ha
  refine ⟨(hm.curenv_eq hfrees c).trans hcur, ?_⟩
  by_cases htakes : ∃ e, a.Takes e
  · obtain ⟨e, htakes⟩ := htakes
    have hne : e ≠ cur := by cases a <;> first | exact htakes ▸ ha | exact absurd htakes id
    rw [(hm.frame_of_takes htakes).1 cur hne.symm, hrun]
  · cases hm with
    | save | ret | redirect | ipcPerm | recving | upcall | priority | entry =>
        refine (modEnv_proj Env.envStatus fun _ => ?_).trans hrun
        rfl
    | @dying _ t _ hne =>
        have hct : cur ≠ t := fun heq => hne (heq ▸ hcur)
        rw [Kernel.modEnv_ne _ _ hct, hrun]
    | status | deliver =>
        have ha := Ne.symm ha
        exact (congrArg Env.envStatus (Kernel.modEnv_ne _ _ ha)).trans hrun
    | start | pageNew | pageShare | pageDrop | kstore => exact hrun
    | tick =>
        show (wakeup _ (s.envs cur)).envStatus = .running
        unfold wakeup
        rw [if_pos (.inl (by rw [hrun]; decide)), hrun]
    | create | exofork | thread => exact absurd ⟨_, rfl⟩ htakes
    | block | sleep | freeThread | freeProcess => exact absurd ha id

/-! ## Decisions -/

theorem add_one_ne (w : Word) : w + 1 ≠ w := by simp

theorem schedAccountCputicks_schedCalls :
    (schedAccountCputicks s).stats.schedCalls = s.stats.schedCalls := by
  unfold schedAccountCputicks
  dsimp only
  split
  · rfl
  · rw [Kernel.setStats_stats]
    split <;> rfl

theorem schedRun_schedCalls {prio : Word} (h : schedRun c s e prio = .leave s') :
    s'.stats.schedCalls = s.stats.schedCalls := by
  rw [envRun_stats h]
  exact schedAccountCputicks_schedCalls

theorem schedIdle_schedCalls {eff : Env → Word} (h : schedIdle c s eff = .leave s') :
    s'.stats.schedCalls = s.stats.schedCalls := by
  have hhalt : schedHalt c s = .leave s' → s'.stats.schedCalls = s.stats.schedCalls := fun h => by
    rw [schedHalt_eq_leave h]
    rfl
  unfold schedIdle at h
  split at h
  · split at h
    · exact schedRun_schedCalls h
    · exact hhalt h
  · exact hhalt h

theorem schedYield_schedCalls (h : schedYield c s = .leave s') :
    s'.stats.schedCalls = s.stats.schedCalls + 1 := by
  unfold schedYield at h
  dsimp only at h
  split at h
  · split at h
    · exact schedRun_schedCalls h
    · exact schedIdle_schedCalls h
  · split at h
    · exact schedRun_schedCalls h
    · exact schedIdle_schedCalls h

/-- Whatever else it does, a departure that is a decision is a call of `sched_yield`. -/
theorem Departs.decides (h : Departs c L s₁ s') (hstats : s₁.stats = s.stats)
    (hdec : Decides s s') :
    schedYield c s₁ = .leave s' := by
  cases h with
  | preempt _ h | idle _ h => exact h
  | resume _ h =>
      refine absurd ?_ hdec
      rw [envRun_stats h, hstats]

/-! ## One step -/

/-- A call that lets others join the competition, or gives them another place in it. -/
inductive Lifts (c : Cpu) (s : Kernel) (tf : Trapframe) : Prop
  | priority : Calls tf .setpriority → Lifts c s tf
  | exofork : Calls tf .exofork → Lifts c s tf
  | thread : Calls tf .threadCreate → Lifts c s tf
  | status {u} : Calls tf .envSetStatus → envid2env c s tf.tfRegs.regEdx true = .ok u →
      s.curenv c ≠ some u → Lifts c s tf
  | deliver {u} : Calls tf .ipcTrySend → envid2env c s tf.tfRegs.regEdx false = .ok u →
      s.curenv c ≠ some u → Lifts c s tf

theorem Lifts.calls (h : Lifts c s tf) : ∃ no, Calls tf no ∧
    no ∈ [Sysno.setpriority, .exofork, .threadCreate, .envSetStatus, .ipcTrySend] := by
  cases h with
  | priority h | exofork h | thread h | status h | deliver h => exact ⟨_, h, by decide⟩

/-- It is none of the other calls. -/
theorem Lifts.not_calls (h : Lifts c s tf) {no : Sysno} (hcall : Calls tf no)
    (hno : no ∉ [Sysno.setpriority, .exofork, .threadCreate, .envSetStatus, .ipcTrySend]) :
    False := by
  obtain ⟨no', hcall', hmem⟩ := h.calls
  exact hno (hcall'.unique hcall ▸ hmem)

theorem trapno_ne_timer (h : tf.tfTrapno = T_SYSCALL) : tf.tfTrapno ≠ IRQ_OFFSET + IRQ_TIMER := by
  rw [h]
  decide

/-- The other calls only touch the caller and what it frees. -/
theorem Allowed.steady (ha : Allowed c s tf a) (hlifts : ¬ Lifts c s tf)
    (htimer : tf.tfTrapno ≠ IRQ_OFFSET + IRQ_TIMER) : a.Steady := by
  cases ha with
  | tick h => exact absurd h htimer
  | destroy _ hdestroy => cases a <;> first | exact trivial | exact absurd hdestroy id
  | @status cur t _ hcall hcur ht _ =>
      by_contra hne
      exact hlifts (.status hcall ht fun h => hne (Option.some.inj (h.symm.trans hcur)))
  | @deliver cur t hcall hcur ht _ =>
      by_contra hne
      exact hlifts (.deliver hcall ht fun h => hne (Option.some.inj (h.symm.trans hcur)))
  | priority hcall _ _ => exact hlifts (.priority hcall)
  | exofork hcall _ _ => exact hlifts (.exofork hcall)
  | thread hcall _ _ => exact hlifts (.thread hcall)
  | _ => trivial

/-- These calls leave the caller running. -/
theorem Allowed.spares (ha : Allowed c s tf a) (hsolo : Solo c s) (hcur : s.curenv c = some cur)
    (hlifts : Lifts c s tf) : a.Spares cur ∧ a ≠ .preempt := by
  have hsys : tf.tfTrapno = T_SYSCALL := by
    obtain ⟨no, hcall, -⟩ := hlifts.calls
    exact hcall.1
  have hnot : ∀ {no}, Calls tf no →
      no ∉ [Sysno.setpriority, .exofork, .threadCreate, .envSetStatus, .ipcTrySend] → False :=
    fun hcall hno => hlifts.not_calls hcall hno
  -- a slot on the free list is not the one that runs
  have hfresh : ∀ {t}, s.envFreeList = some t → t ≠ cur := by
    rintro t hfree rfl
    have hst := hsolo.exclusive.freeSlots.head hfree
    rw [hsolo.cur_running hcur] at hst
    cases hst
  cases ha with
  | preempt h =>
      refine absurd h (not_or.mpr ⟨trapno_ne_timer hsys, fun hcall => hnot hcall (by decide)⟩)
  | destroy hroot _ =>
      obtain ⟨no, hno, hcall⟩ := hroot.calls hcur (hsolo.undying _) hsys
      refine absurd (hnot hcall fun hlifting => ?_) id
      cases no <;> first | exact absurd hno (by decide) | exact absurd hlifting (by decide)
  | status hcall hcur' ht _ =>
      refine ⟨?_, Act.noConfusion⟩
      cases hlifts with
      | status _ ht' hne =>
          obtain rfl := Except.ok.inj (ht.symm.trans ht')
          exact fun heq => hne (heq ▸ hcur)
      | priority h | exofork h | thread h | deliver h => exact absurd (h.unique hcall) (by decide)
  | deliver hcall hcur' ht _ =>
      refine ⟨?_, Act.noConfusion⟩
      cases hlifts with
      | deliver _ ht' hne =>
          obtain rfl := Except.ok.inj (ht.symm.trans ht')
          exact fun heq => hne (heq ▸ hcur)
      | priority h | exofork h | thread h | status h => exact absurd (h.unique hcall) (by decide)
  | block hcall _ => exact absurd (hnot hcall (by decide)) id
  | sleep hcall _ => exact absurd (hnot hcall (by decide)) id
  | exofork _ _ hfree => exact ⟨hfresh hfree, Act.noConfusion⟩
  | thread _ _ hfree => exact ⟨hfresh hfree, Act.noConfusion⟩
  | _ => exact ⟨trivial, Act.noConfusion⟩

/-- The clock only wakes sleepers. -/
theorem contest_ticked (henvs : ∀ t, (s₁.envs t).seat = (s.envs t).seat ∧
      (s₁.envs t).envStatus = (s.envs t).envStatus ∧
      (s₁.envs t).envSleepUntil = (s.envs t).envSleepUntil)
    (hcurenv : s₁.curenv c = s.curenv c) (hticks : s₁.ticks = s.ticks) :
    Contest c s (tick s₁) where
  curenv := .inl hcurenv
  seat t := (wakeup_proj Env.seat fun _ => rfl).trans (henvs t).1
  stays t ht := by
    have ht : (wakeup (s₁.ticks + 1) (s₁.envs t)).envStatus = .running := ht
    rw [← (henvs t).2.1]
    unfold wakeup at ht
    split at ht
    · exact ht
    · split at ht
      · cases ht
      · exact ht
  ready t ht := by
    have ht : (wakeup (s₁.ticks + 1) (s₁.envs t)).envStatus = .runnable := ht
    refine .inr (.inr ⟨?_, ?_⟩)
    · show s₁.ticks + 1 ≠ s.ticks
      rw [hticks]
      exact add_one_ne _
    · show (wakeup (s₁.ticks + 1) (s.envs t)).envStatus = .runnable
      have hsame : ∀ {env env' : Env}, env'.envStatus = env.envStatus →
          env'.envSleepUntil = env.envSleepUntil → ∀ n,
          (wakeup n env').envStatus = (wakeup n env).envStatus := by
        intro env env' hst hsleep n
        simp only [wakeup, hst, hsleep]
        split
        · exact hst
        · split
          · rfl
          · exact hst
      rw [← hsame (henvs t).2.1 (henvs t).2.2]
      exact ht

/-- Only the slot that is taken loses its wait counter. -/
theorem Micro.wait (h : Micro c a s s') (ha : ¬ a.Takes e) :
    (s'.envs e).envWaitTicks = (s.envs e).envWaitTicks := by
  cases h with
  | start | pageNew | pageShare | pageDrop | kstore => rfl
  | save | ret | redirect | dying | status | deliver | ipcPerm | recving | block | sleep | priority
  | upcall | entry =>
      refine modEnv_proj Env.envWaitTicks fun _ => ?_
      rfl
  | tick => exact wakeup_proj Env.envWaitTicks fun _ => rfl
  | @create _ _ t halloc =>
      have hne : e ≠ t := fun heq => ha heq.symm
      exact congrArg Env.envWaitTicks (envAlloc_envs_ne halloc hne)
  | @exofork _ _ t _ hcur halloc =>
      have hne : e ≠ t := fun heq => ha heq.symm
      exact congrArg Env.envWaitTicks
        (((Micro.exofork hcur halloc).frame_of_takes (e := t) rfl).1 e hne)
  | @thread _ _ _ t _ _ _ _ _ hcur h₁ h₂ h₃ h₄ h₅ h₆ =>
      have hne : e ≠ t := fun heq => ha heq.symm
      exact congrArg Env.envWaitTicks
        (((Micro.thread hcur h₁ h₂ h₃ h₄ h₅ h₆).frame_of_takes (e := t) rfl).1 e hne)
  | freeThread _ _ _ hfree =>
      obtain ⟨pgdir, m, -, -, rfl⟩ := envFreeThread_eq_ok hfree
      rw [forget_envs]
      exact freed_proj Env.envWaitTicks fun _ _ => rfl
  | freeProcess _ _ _ _ hfree =>
      obtain ⟨pgdir, m₁, m, -, -, -, rfl⟩ := envFreeProcess_eq_ok hfree
      rw [forget_envs]
      exact freed_proj Env.envWaitTicks fun _ _ => rfl

theorem Solo.ne_of_ready (hsolo : Solo c s) (he : s.IsReady e) (hfree : s.envFreeList = some t) :
    t ≠ e := by
  rintro rfl
  have hst := hsolo.exclusive.freeSlots.head hfree
  rw [Kernel.IsReady, hst] at he
  cases he

/-- The step leaves alone what waiting is about. -/
structure Kept (c : Cpu) (s s' : Kernel) : Prop where
  schedCalls : s'.stats.schedCalls = s.stats.schedCalls
  curenv : s'.curenv c = s.curenv c
  wait : ∀ e, s.IsReady e → (s'.envs e).envWaitTicks = (s.envs e).envWaitTicks

theorem Path.kept (hpath : Path c L s s₁) (hready : ∀ a e, L a → s.IsReady e → ¬ a.Takes e)
    (he : s.IsReady e) : (s₁.envs e).envWaitTicks = (s.envs e).envWaitTicks :=
  hpath.invariant (I := fun s₁ => (s₁.envs e).envWaitTicks = (s.envs e).envWaitTicks) rfl
    fun a _ _ ha hm hs => (hm.wait (hready a e ha he)).trans hs

/-- A stay in the kernel that ends where it began. -/
theorem Path.resumed (hpath : Path c L s s₁) (hready : ∀ a e, L a → s.IsReady e → ¬ a.Takes e)
    (hcur : s₁.curenv c = some cur) (hrun : envRun c s₁ cur = .leave s') : Kept c s s' where
  schedCalls := by rw [envRun_stats hrun, hpath.constants.2]
  curenv := (envRun_eq_leave hrun).curenv.trans (hpath.curenv_of hcur).symm
  wait e he := by
    rw [(envRun_eq_leave hrun).proj Env.envWaitTicks fun _ _ _ _ => rfl]
    exact hpath.kept hready he

theorem Allowed.not_takes (ha : Allowed c s tf a) (hsolo : Solo c s) (he : s.IsReady e) :
    ¬ a.Takes e := by
  intro htakes
  cases ha with
  | exofork _ _ hfree | thread _ _ hfree => exact hsolo.ne_of_ready he hfree htakes
  | destroy _ hdestroy => cases a <;> first | exact absurd htakes id | exact absurd hdestroy id
  | _ => exact absurd htakes id

/-- A step either ends in a decision or keeps everything that waiting is about. -/
def Decision (c : Cpu) (s s' : Kernel) : Prop :=
  ∃ s₁, Contest c s s₁ ∧ s₁.policy = s.policy ∧ s₁.stats = s.stats ∧ schedYield c s₁ = .leave s'

theorem contest_saved : Contest c s (tick (saved c s cur tf)) :=
  contest_ticked (fun t => by rw [saved_envs]; exact ⟨rfl, rfl, rfl⟩) saved_curenv rfl

theorem trap_turn (hsolo : Solo c s) (h : trap c s inp tf = .leave s') :
    Decision c s s' ∨ Kept c s s' := by
  obtain ⟨cur, hcur⟩ : ∃ cur, s.curenv c = some cur := by
    cases hcur : s.curenv c with
    | none => simp [trap, hcur] at h
    | some cur => exact ⟨cur, rfl⟩
  by_cases htimer : tf.tfTrapno = IRQ_OFFSET + IRQ_TIMER
  · rw [trap_timer hcur (hsolo.undying cur) htimer] at h
    exact .inl ⟨_, contest_saved, rfl, rfl, h⟩
  · obtain ⟨s₁, hpath, hdep⟩ := Exit.path_leave.mp (h ▸ trap_path s inp tf)
    obtain ⟨hpolicy, hstats⟩ := hpath.constants
    have hcontest : ¬ Lifts c s tf → Contest c s s₁ := fun hlifts =>
      (Standing.path hsolo hpath fun a ha => ha.steady hlifts htimer).toContest
    cases hdep with
    | resume hcur' hrun =>
        exact .inr (hpath.resumed (fun a e ha he => ha.not_takes hsolo he) hcur' hrun)
    | preempt hL hyield =>
        refine .inl ⟨s₁, hcontest fun hlifts => ?_, hpolicy, hstats, hyield⟩
        exact (hL.spares hsolo hcur hlifts).2 rfl
    | idle hidle hyield =>
        refine .inl ⟨s₁, hcontest fun hlifts => ?_, hpolicy, hstats, hyield⟩
        -- a caller that lifts others keeps running, so the CPU goes back to it
        have hrun := hpath.invariant
          (I := fun s₁ => s₁.curenv c = some cur ∧ (s₁.envs cur).envStatus = .running)
          ⟨hcur, hsolo.cur_running hcur⟩
          fun a _ _ ha hm hs => hm.spares (ha.spares hsolo hcur hlifts).1 hs.1 hs.2
        exact hidle cur hrun.1 hrun.2

/-- What a step of a machine with one CPU comes to. -/
theorem CpuStep.turn (hsolo : Solo c s) (hstep : CpuStep c s ev s') :
    Decision c s s' ∨ Kept c s s' := by
  obtain ⟨⟨henabled, hexec⟩, hby⟩ := hstep
  cases ev with
  | boot binary =>
      obtain ⟨e, hfree, hpath⟩ := envCreate_path (c := c) (envCreate_eq_ok hexec)
      have hready : ∀ a t, Act.IsBoot e a → s.IsReady t → ¬ a.Takes t := by
        intro a t ha ht htakes
        refine hsolo.ne_of_ready ht hfree ?_
        cases a <;> first | exact absurd htakes id | exact absurd ha id | exact ha ▸ htakes
      have hfrees : ∀ a, Act.IsBoot e a → ¬ a.Frees := fun a ha => by
        cases a <;> first | exact id | exact fun _ => ha
      refine .inr ⟨congrArg SchedStats.schedCalls hpath.constants.2, ?_,
        fun t ht => hpath.kept hready ht⟩
      exact hpath.invariant (I := fun s₁ => s₁.curenv c = s.curenv c) rfl
        fun a _ _ ha hm hs => (hm.curenv_eq (hfrees a ha) c).trans hs
  | start d =>
      obtain rfl := hby
      exact .inl ⟨started d s,
        Contest.refl.of_eq rfl started_curenv (fun _ => rfl) fun _ => .inl rfl,
        rfl, rfl, hexec⟩
  | timer d =>
      obtain rfl := hby
      exact .inl ⟨tick (started d s), contest_ticked (fun _ => ⟨rfl, rfl, rfl⟩) started_curenv rfl,
        rfl, rfl, hexec⟩
  | trap d inp tf =>
      obtain rfl := hby
      exact trap_turn hsolo hexec
  | store d va byte =>
      obtain ⟨m, rfl⟩ := store_eq_setMem hexec
      exact .inr ⟨rfl, rfl, fun _ _ => rfl⟩

theorem Kept.not_decides (h : Kept c s s') : ¬ Decides s s' := fun hdec => hdec h.schedCalls

theorem Decision.decides (h : Decision c s s') : Decides s s' := by
  obtain ⟨s₁, -, -, hstats, hyield⟩ := h
  rw [Decides, schedYield_schedCalls hyield, hstats]
  exact add_one_ne _

/-- A step that calls the scheduler. -/
theorem CpuStep.decision (hsolo : Solo c s) (hstep : CpuStep c s ev s') (hdec : Decides s s') :
    Decision c s s' :=
  (hstep.turn hsolo).resolve_right fun hkept => hkept.not_decides hdec

/-- A step that does not. -/
theorem CpuStep.keeps (hsolo : Solo c s) (hstep : CpuStep c s ev s') (hdec : ¬ Decides s s') :
    Kept c s s' :=
  (hstep.turn hsolo).resolve_left fun hdecision => hdec hdecision.decides

theorem CpuStep.policy (hstep : CpuStep c s ev s') : s'.policy = s.policy :=
  hstep.1.invariant (I := fun s₁ => s₁.policy = s.policy) rfl
    (fun _ _ _ _ hm hs => hm.constants.1.trans hs)
    (fun _ _ _ _ hdep hs => hdep.departed.policy.trans hs) fun _ _ hs => hs

/-! ## Losing a turn -/

/-- The slot after that of the current environment, or slot 0. -/
theorem scanStart_eq (hsolo : Solo c s) :
    scanStart c s = (s.curenv c).elim 0 fun cur => cur.val + 1 := by
  unfold scanStart
  split
  · next cur hcur =>
      rw [hcur, hsolo.named cur (alive_of_curenv hcur)]
      rfl
  · next hnone => rw [hnone]; rfl

theorem Contest.same_start (h : Contest c s s₁) (hcur : s₁.curenv c = s.curenv c) :
    scanStart c s₁ = scanStart c s := by
  unfold scanStart
  rw [hcur]
  split
  · next cur _ => rw [(Prod.mk.inj (h.seat cur)).1]
  · rfl

/-- When the current environment has been freed, nobody else has become ready. -/
theorem Contest.ready_of_freed (h : Contest c s s₁) (hsolo : Solo c s) (hticks : s₁.ticks = s.ticks)
    (hcur : s.curenv c = some cur) (hne : e ≠ cur) (he : s₁.IsReady e) : s.IsReady e := by
  rcases h.ready e he with hready | hrun | ⟨hlater, -⟩
  · exact hready
  · have hcur' := hsolo.toLone.running e hrun
    exact absurd (Option.some.inj (hcur'.symm.trans hcur)) hne
  · exact absurd hticks hlater

/-- Whoever is ready after a decision was ready when it was made. -/
theorem ready_of_decided (hsolo : Solo c s) (hcontest : Contest c s s₁)
    (hyield : schedYield c s₁ = .leave s') (he : s.IsReady e) (he' : s'.IsReady e) :
    s₁.IsReady e := by
  cases schedYield_decided hyield with
  | @ran s₂ _ w hsame hw hran =>
      rw [Kernel.IsReady, hran.envs e, hsame.envs e] at he'
      dsimp only at he'
      split at he'
      · cases he'
      · split at he'
        · next hpre =>
            have hcur : s₁.curenv c = some e := by
              rw [← hpre.1, Kernel.curenv, Kernel.curenv, hsame.cpus]
            have hrun := hsolo.cur_running (hcontest.cur_eq hcur)
            rw [Kernel.IsReady, hrun] at he
            cases he
        · exact he'
  | halted hsame =>
      rwa [Kernel.IsReady, halted_envs, hsame.envs e] at he'

/-- A decision brings the start of the scan closer to `e` when the winner is not farther from it
than `e`; where the scan starts over, because the current environment was freed, the winner must
not be one that the last scan had already left behind. -/
theorem Contest.closer {best : Slot} (h : Contest c s s₁) (hsolo : Solo c s) (hsolo' : Solo c s')
    (hran : Ran c s₂ best s') (hstatus : ∀ t, (s₂.envs t).envStatus = (s₁.envs t).envStatus)
    (he : s.IsReady e) (hbest : s₁.IsReady best) (hne : best ≠ e)
    (hdist : circularDist (scanStart c s₁) best ≤ circularDist (scanStart c s₁) e)
    (hback : ∀ cur, s.curenv c = some cur → (s'.envs cur).envStatus = .free → cur < e →
      best < cur → ¬ s.IsReady best) :
    circularDist (scanStart c s') e < circularDist (scanStart c s) e := by
  have hstart' : scanStart c s' = best.val + 1 := by
    rw [scanStart_eq hsolo', hran.curenv]
    rfl
  rw [hstart']
  rcases h.curenv with hcur | ⟨hnone, hticks, cur, hcur, hfree⟩
  · have hstart : scanStart c s₁ = scanStart c s := h.same_start hcur
    exact circularDist_succ_lt hne (hstart ▸ hdist)
  · -- the scan started over at slot 0
    have hstart : scanStart c s = cur.val + 1 := by
      rw [scanStart_eq hsolo, hcur]
      rfl
    have hstart₁ : scanStart c s₁ = 0 := by rw [scanStart, hnone]
    have hbc : best ≠ cur := by
      rintro rfl
      rw [Kernel.IsReady, hfree] at hbest
      cases hbest
    have hec : e ≠ cur := by
      rintro rfl
      rw [Kernel.IsReady, hsolo.cur_running hcur] at he
      cases he
    have hfree' : (s'.envs cur).envStatus = .free := by
      rw [hran.envs cur]
      simp [hbc.symm, hstatus, hfree]
    have hready : s.IsReady best := h.ready_of_freed hsolo hticks hcur hbc hbest
    rw [hstart₁, circularDist_zero, circularDist_zero] at hdist
    rw [hstart]
    refine circularDist_succ_lt_of_restart (lt_of_le_of_ne hdist hne) hec.symm fun hlt => ?_
    exact lt_of_le_of_ne (not_lt.mp fun hlt' => hback cur hcur hfree' hlt hlt' hready) hbc.symm

namespace PassedOver

variable {n : ℕ} {ok : Kernel → Kernel → Prop}

theorem ready (h : PassedOver c ok e s n s') : s'.IsReady e := by
  cases h with
  | start he => exact he
  | wait _ _ he _ => exact he
  | lose _ _ he _ _ => exact he

theorem solo (h : PassedOver c ok e s n s') (hsolo : Solo c s) : Solo c s' := by
  induction h with
  | start => exact hsolo
  | wait _ hstep _ _ ih => exact ih.step hstep.1 hstep.2
  | lose _ hstep _ _ _ ih => exact ih.step hstep.1 hstep.2

theorem policy (h : PassedOver c ok e s n s') : s'.policy = s.policy := by
  induction h with
  | start => rfl
  | wait _ hstep _ _ ih => exact hstep.policy.trans ih
  | lose _ hstep _ _ _ ih => exact hstep.policy.trans ih

end PassedOver

theorem policy_of_run {s₀ : Kernel} {evs : List Event} (h : Trace (CpuStep c) s₀ evs s) :
    s.policy = s₀.policy :=
  h.invariant (I := fun s => s.policy = s₀.policy) rfl fun _ _ _ hs hstep => hstep.policy.trans hs

/-! ## A decision lost -/

/-- Three processes, and the first of them runs. -/
def threeProcesses : List Event := [.boot emptyImage, .boot emptyImage, .boot emptyImage, .start 0]

/-- The first process yields. -/
def firstYields : Event := sysTrap 0 .yield 0 0 0 0 0

/-- The third process waits while it does. -/
def thirdWaits (s : Kernel) : Bool :=
  decide (s.curenv 0 = some 0 ∧ s.IsReady 2 ∧ (s.envs 2).envWaitTicks ≤ 1) &&
  (firstYields.next s).any fun s' => decide (s'.IsReady 2 ∧
    s'.stats.schedCalls ≠ s.stats.schedCalls ∧ (s'.envs 0).envStatus ≠ .free)

theorem exists_lost (policy : Policy)
    (h : (replay (fun _ ev => ev.By 0) (bootedMachine policy 64) threeProcesses).any thirdWaits =
      true) :
    ∃ s s', Trace (CpuStep 0) (bootedMachine policy 64) threeProcesses s ∧
      CpuStep 0 s firstYields s' ∧ s.IsReady 2 ∧ s'.IsReady 2 ∧ Decides s s' ∧
      (s.envs 2).envWaitTicks ≤ 1 ∧
      ∀ cur, s.curenv 0 = some cur → (s'.envs cur).envStatus ≠ .free := by
  obtain ⟨s, hrun, hs⟩ := exists_trace _ _ _ _ h
  simp only [thirdWaits, Bool.and_eq_true, decide_eq_true_iff, Option.any_eq_true] at hs
  obtain ⟨⟨hcur, hready, hwait⟩, s', hnext, hready', hdec, hfree⟩ := hs
  refine ⟨s, s', hrun, ⟨step_of_next hnext, rfl⟩, hready, hready', hdec, hwait, fun cur hcur' => ?_⟩
  obtain rfl := Option.some.inj (hcur.symm.trans hcur')
  exact hfree

end JosSched
