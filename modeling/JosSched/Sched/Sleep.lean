import JosSched.Kern.TrapSpec
import JosSched.Sched.Solo

/-!
# Sleeping

An environment that calls `sys_sleep(n)` when the clock shows `ticks` waits until the clock shows
`ticks + n`.  The sum is taken modulo 2^32, and a deadline of zero means that nobody sleeps: the
environment is woken by exactly the `n`-th clock interrupt after the call only when the sum does
not wrap, or wraps together with the clock (`SleepFits`).

The runs are those in which nobody else targets the sleeper (`Bystander`).  An interrupt that
finds a zombie on its CPU is not counted: `trap` frees the zombie and never comes to the clock.
-/

namespace JosSched

variable {c d : Cpu} {s s₀ s₁ s₂ s' : Kernel} {a : Act} {ev : Event} {e cur : Slot} {tf : Trapframe}
  {inp : Input} {L : Act → Prop} {D n : Word}

/-! ## What others may do -/

/-- A clock interrupt, on a CPU that runs user code or on a halted one. -/
def Event.isClock : Event → Bool
  | .timer _ => true
  | .trap _ _ tf => tf.tfTrapno = IRQ_OFFSET + IRQ_TIMER
  | _ => false

/-- The event is not a trap of `e` itself, and neither sets the status of `e` nor sends to it. -/
def Event.Others (e : Slot) (s : Kernel) : Event → Prop
  | .trap c _ tf => s.curenv c ≠ some e ∧
      (Calls tf .envSetStatus → envid2env c s tf.tfRegs.regEdx true ≠ .ok e) ∧
      (Calls tf .ipcTrySend → envid2env c s tf.tfRegs.regEdx false ≠ .ok e)
  | _ => True

/-- A clock interrupt that `trap_dispatch` gets to see. -/
def Event.Counted (s : Kernel) : Event → Prop
  | .trap c _ tf => tf.tfTrapno = IRQ_OFFSET + IRQ_TIMER →
      ∀ cur, s.curenv c = some cur → (s.envs cur).envStatus ≠ .dying
  | _ => True

/-- The environment has been destroyed. -/
def Gone (e : Slot) (s : Kernel) : Prop :=
  (s.envs e).envStatus = .free ∨ (s.envs e).envStatus = .dying

/-- A step that does not target `e`. -/
structure Bystander (e : Slot) (s : Kernel) (ev : Event) (s' : Kernel) : Prop where
  step : HygienicStep s ev s'
  others : ev.Others e s
  counted : ev.Counted s
  spared : ¬ Gone e s'

/-! ## The fields of a sleeper -/

/-- Status, deadline, and the result that awaits the environment. -/
def Env.nap (env : Env) : EnvStatus × Word × Word :=
  (env.envStatus, env.envSleepUntil, env.envTf.tfRegs.regEax)

theorem Env.nap_inj {env env' : Env} (h : env.nap = env'.nap) :
    env.envStatus = env'.envStatus ∧ env.envSleepUntil = env'.envSleepUntil ∧
      env.envTf.tfRegs.regEax = env'.envTf.tfRegs.regEax := by
  simpa [Env.nap] using h

/-- The actions that may write them in slot `e`. -/
def Act.Rouses (e : Slot) : Act → Prop
  | .save t _ | .ret t _ | .dying t | .status _ t _ | .deliver _ t _ | .block t _ | .sleep t _
  | .create t | .exofork _ t | .thread _ t | .freeThread t _ | .freeProcess t _ => t = e
  | .tick => True
  | _ => False

theorem Micro.nap (h : Micro c a s s') (ha : ¬ a.Rouses e) :
    (s'.envs e).nap = (s.envs e).nap := by
  have hne : ∀ {t}, ¬ t = e → e ≠ t := fun h heq => h heq.symm
  cases h with
  | start | pageNew | pageShare | pageDrop | kstore => rfl
  | save | ret | dying | status | deliver | block | sleep =>
      exact congrArg Env.nap (Kernel.modEnv_ne _ _ (hne ha))
  | redirect | ipcPerm | recving | priority | upcall | entry =>
      exact modEnv_proj Env.nap fun _ => rfl
  | tick => exact absurd trivial ha
  | create halloc => exact congrArg Env.nap (envAlloc_envs_ne halloc (hne ha))
  | @exofork _ _ t _ hcur halloc =>
      have hframe := (Micro.exofork hcur halloc).frame_of_takes (e := t) rfl
      exact congrArg Env.nap (hframe.1 e (hne ha))
  | @thread _ _ _ t _ _ _ _ _ hcur h₁ h₂ h₃ h₄ h₅ h₆ =>
      have hframe := (Micro.thread hcur h₁ h₂ h₃ h₄ h₅ h₆).frame_of_takes (e := t) rfl
      exact congrArg Env.nap (hframe.1 e (hne ha))
  | freeThread _ _ _ hfree =>
      obtain ⟨pgdir, m, -, -, rfl⟩ := envFreeThread_eq_ok hfree
      rw [forget_envs, freed_envs_ne (hne ha)]
  | freeProcess _ _ _ _ hfree =>
      obtain ⟨pgdir, m₁, m, -, -, -, rfl⟩ := envFreeProcess_eq_ok hfree
      rw [forget_envs, freed_envs_ne (hne ha)]

theorem Env.pending_of_nap {env env' : Env} (h : env'.nap = env.nap) :
    env'.pending = env.pending := by
  obtain ⟨hst, hsleep, -⟩ := Env.nap_inj h
  simp only [Env.pending, hst, hsleep]

/-- One environment of the loop in `sched_wakeup_sleeping`. -/
theorem wakeup_eq {env : Env} {ticks : Word} (h : env.envStatus = .notRunnable) :
    wakeup ticks env = if env.envSleepUntil ≠ 0 ∧ env.envSleepUntil ≤ ticks then
      { env with envSleepUntil := 0, envStatus := .runnable } else env := by
  unfold wakeup
  by_cases hzero : env.envSleepUntil = 0
  · rw [if_pos (.inr hzero), if_neg fun hdue => hdue.1 hzero]
  · rw [if_neg (not_or.mpr ⟨not_not.mpr h, hzero⟩)]
    by_cases hdue : env.envSleepUntil ≤ ticks
    · rw [if_pos hdue, if_pos ⟨hzero, hdue⟩]
    · rw [if_neg hdue, if_neg fun hdue' => hdue hdue'.2]

/-- A sleeper that wakes up is still somebody to wait for. -/
theorem Env.pending_wakeup {env : Env} {ticks : Word} (h : env.pending = true) :
    (wakeup ticks env).pending = true := by
  unfold wakeup
  split
  · exact h
  · split
    · simp [Env.pending]
    · exact h

theorem Exclusive.head_ne (h : Exclusive s) (he : (s.envs e).envStatus ≠ .free) :
    s.envFreeList ≠ some e := by
  intro hlist
  exact he (h.freeSlots.head hlist)

/-- The actions of somebody else's trap leave the sleeper alone, or destroy it. -/
theorem Allowed.rouses (h : Allowed c s tf a) (hothers : (Event.trap c inp tf).Others e s)
    (hhead : s.envFreeList ≠ some e) (ha : a.Rouses e) :
    a = .tick ∧ tf.tfTrapno = IRQ_OFFSET + IRQ_TIMER ∨ a = .dying e ∨
      ∃ st, a = .freeThread e st ∨ a = .freeProcess e st := by
  obtain ⟨hcur, hstatus, hsend⟩ := hothers
  cases h with
  | save hcur' | ret hcur' _ =>
      obtain rfl := ha
      exact absurd hcur' hcur
  | block _ hcur' | sleep _ hcur' =>
      obtain rfl := ha
      exact absurd hcur' hcur
  | status hcall _ ht _ =>
      obtain rfl := ha
      exact absurd ht (hstatus hcall)
  | deliver hcall _ ht _ =>
      obtain rfl := ha
      exact absurd ht (hsend hcall)
  | exofork _ _ hfree | thread _ _ hfree =>
      obtain rfl := ha
      exact absurd hfree hhead
  | tick htimer => exact .inl ⟨rfl, htimer⟩
  | destroy _ hdestroy =>
      cases a with
      | dying t => exact .inr (.inl (congrArg Act.dying ha))
      | freeThread t st => exact .inr (.inr ⟨st, .inl (congrArg (Act.freeThread · st) ha)⟩)
      | freeProcess t st => exact .inr (.inr ⟨st, .inr (congrArg (Act.freeProcess · st) ha)⟩)
      | _ => exact absurd hdestroy id
  | _ => exact absurd ha id

/-- Being destroyed is final, as far as these actions go. -/
theorem Micro.gone (h : Micro c a s s')
    (ha : a = .dying e ∨ ∃ st, a = .freeThread e st ∨ a = .freeProcess e st) : Gone e s' := by
  rcases ha with rfl | ⟨st, rfl | rfl⟩
  · cases h with
    | dying => exact .inr (by simp)
  · cases h with
    | freeThread _ _ _ hfree =>
        obtain ⟨pgdir, m, -, -, rfl⟩ := envFreeThread_eq_ok hfree
        exact .inl (by rw [forget_envs, freed_envs_self])
  · cases h with
    | freeProcess _ _ _ _ hfree =>
        obtain ⟨pgdir, m₁, m, -, -, -, rfl⟩ := envFreeProcess_eq_ok hfree
        exact .inl (by rw [forget_envs, freed_envs_self])

theorem gone_of_nap (h : (s'.envs e).nap = (s.envs e).nap) (hgone : Gone e s) : Gone e s' := by
  rwa [Gone, (Env.nap_inj h).1]

/-! ## Leaving the kernel -/

/-- An environment that can run, with result `0`. -/
def Awake (e : Slot) (s : Kernel) : Prop :=
  ((s.envs e).envStatus = .runnable ∨ (s.envs e).envStatus = .running) ∧
    (s.envs e).envTf.tfRegs.regEax = 0

theorem Ran.nap {w : Slot} (hran : Ran c s₁ w s') (hsame : SameButWait s s₁) (hwe : w ≠ e)
    (hcur : s.curenv c = some e → (s.envs e).envStatus ≠ .running) :
    (s'.envs e).nap = (s.envs e).nap := by
  have hpre : ¬ (s₁.curenv c = some e ∧ (s.envs e).envStatus = .running) := by
    rw [Kernel.curenv, hsame.cpus]
    exact fun h => hcur h.1 h.2
  rw [hran.envs e, hsame.envs e]
  simp only [Env.nap, if_neg hwe.symm, if_neg hpre]

/-- A decision leaves those alone that cannot run. -/
theorem Decided.nap (hdec : Decided c s s') (hready : (s.envs e).envStatus ≠ .runnable)
    (hcur : s.curenv c = some e → (s.envs e).envStatus ≠ .running) :
    (s'.envs e).nap = (s.envs e).nap := by
  cases hdec with
  | ran hsame hw hran =>
      refine hran.nap hsame ?_ hcur
      rintro rfl
      rcases hw with hw | hw
      · exact hready hw
      · exact hcur hw.1 hw.2
  | halted hsame =>
      rw [halted_envs, hsame.envs e]
      rfl

theorem Departs.nap (hdep : Departs c L s s') (hcur : s.curenv c ≠ some e)
    (hready : (s.envs e).envStatus ≠ .runnable) : (s'.envs e).nap = (s.envs e).nap := by
  rcases hdep.cases with hdec | ⟨w, hw, hran⟩
  · exact hdec.nap hready fun heq => absurd heq hcur
  · exact hran.nap .refl (fun heq => hcur (heq ▸ hw)) fun heq => absurd heq hcur

theorem Departs.awake (hdep : Departs c L s s') (h : Awake e s) : Awake e s' := by
  have hresult : (s'.envs e).envTf.tfRegs.regEax = 0 :=
    (hdep.departed.proj (fun env => env.envTf.tfRegs.regEax) fun _ _ _ _ _ => rfl).trans h.2
  have hran : ∀ {s₁ w}, SameButWait s s₁ → Ran c s₁ w s' →
      (s'.envs e).envStatus = .runnable ∨ (s'.envs e).envStatus = .running := by
    intro s₁ w hsame hran
    rw [hran.envs e, hsame.envs e]
    dsimp only
    split
    · exact .inr rfl
    · split
      · exact .inl rfl
      · exact h.1
  refine ⟨?_, hresult⟩
  rcases hdep.cases with hdec | ⟨w, -, hran'⟩
  · cases hdec with
    | ran hsame _ hran' => exact hran hsame hran'
    | halted hsame =>
        rw [halted_envs, hsame.envs e]
        exact h.1
  · exact hran .refl hran'

theorem Departs.gone (hdep : Departs c L s s') (hcur : s.curenv c ≠ some e) (h : Gone e s) :
    Gone e s' := by
  refine gone_of_nap (hdep.nap hcur ?_) h
  rcases h with h | h <;> rw [h] <;> exact EnvStatus.noConfusion

/-! ## One step -/

/-- Somebody else's stay in the kernel, without the clock. -/
theorem Path.nap_or_gone (hpath : Path c (Allowed c s tf) s s₁)
    (hothers : (Event.trap c inp tf).Others e s) (hhead : s.envFreeList ≠ some e)
    (hclock : tf.tfTrapno ≠ IRQ_OFFSET + IRQ_TIMER) :
    (s₁.envs e).nap = (s.envs e).nap ∨ Gone e s₁ := by
  refine hpath.invariant (I := fun s₁ => (s₁.envs e).nap = (s.envs e).nap ∨ Gone e s₁) (.inl rfl)
    fun a s₁ s₂ ha hm hs => ?_
  by_cases hrouses : a.Rouses e
  · rcases ha.rouses hothers hhead hrouses with ⟨-, htimer⟩ | hdestroy
    · exact absurd htimer hclock
    · exact .inr (hm.gone hdestroy)
  · have hnap := hm.nap hrouses
    exact hs.imp hnap.trans (gone_of_nap hnap)

/-- A clock interrupt wakes up those whose time has come, and calls the scheduler. -/
theorem exec_clock (hothers : ev.Others e s) (hcounted : ev.Counted s) (hclock : ev.isClock = true)
    (hexec : ev.exec s = .leave s') : ∃ c s₁, s₁.ticks = s.ticks + 1 ∧
      s₁.envs e = wakeup (s.ticks + 1) (s.envs e) ∧ s₁.curenv c = s.curenv c ∧
      Departs c (fun _ => True) s₁ s' := by
  cases ev with
  | boot | start | store => cases hclock
  | timer c => exact ⟨c, tick (started c s), rfl, rfl, started_curenv, .preempt trivial hexec⟩
  | trap c inp tf =>
      have htimer : tf.tfTrapno = IRQ_OFFSET + IRQ_TIMER := of_decide_eq_true hclock
      obtain ⟨cur, hcur⟩ : ∃ cur, s.curenv c = some cur := by
        cases hcur : s.curenv c with
        | none => simp [Event.exec, trap, hcur] at hexec
        | some cur => exact ⟨cur, rfl⟩
      have hne : e ≠ cur := fun heq => hothers.1 (heq ▸ hcur)
      have hyield := hexec
      rw [show (Event.trap c inp tf).exec s = trap c s inp tf from rfl,
        trap_timer hcur (hcounted htimer cur hcur) htimer] at hyield
      refine ⟨c, tick (saved c s cur tf), rfl, ?_, started_curenv, .preempt trivial hyield⟩
      show wakeup _ ((saved c s cur tf).envs e) = _
      rw [saved_envs, if_neg hne]
      rfl

/-- Any other step leaves the clock and the sleeper alone. -/
theorem exec_silent (hs : Exclusive s) (hfree : (s.envs e).envStatus ≠ .free)
    (hothers : ev.Others e s) (hclock : ev.isClock = false) (hspared : ¬ Gone e s')
    (hexec : ev.exec s = .leave s') : ∃ c s₁, s₁.ticks = s.ticks ∧
      (s₁.envs e).nap = (s.envs e).nap ∧ (∀ t, s₁.curenv c = some t → s.curenv c = some t) ∧
      (s' = s₁ ∨ Departs c (fun _ => True) s₁ s') := by
  have hhead := hs.head_ne hfree
  cases ev with
  | timer => cases hclock
  | start c =>
      exact ⟨c, started c s, rfl, rfl, fun _ h => started_curenv.symm.trans h,
        .inr (.preempt trivial hexec)⟩
  | boot binary =>
      obtain ⟨t, ht, hpath⟩ := envCreate_path (c := 0) (envCreate_eq_ok hexec)
      have hne : t ≠ e := fun heq => hhead (heq ▸ ht)
      have hticks : s'.ticks = s.ticks := hpath.ticks fun a ha => by
        cases a <;> first | exact Act.noConfusion | exact absurd ha id
      refine ⟨0, s', hticks, ?_, fun _ h => hpath.curenv_of h, .inl rfl⟩
      refine hpath.invariant (I := fun s₁ => (s₁.envs e).nap = (s.envs e).nap) rfl
        fun a _ _ ha hm hs => (hm.nap fun hrouses => hne ?_).trans hs
      cases a <;> first | exact absurd hrouses id | exact absurd ha id | exact ha.symm.trans hrouses
  | store c va byte =>
      obtain ⟨m, rfl⟩ := store_eq_setMem hexec
      exact ⟨c, s.setMem m, rfl, rfl, fun _ h => h, .inl rfl⟩
  | trap c inp tf =>
      -- only the timer advances the clock
      have htimer : tf.tfTrapno ≠ IRQ_OFFSET + IRQ_TIMER := of_decide_eq_false hclock
      have hpath := trap_path (c := c) s inp tf
      rw [show trap c s inp tf = .leave s' from hexec] at hpath
      obtain ⟨s₁, hpath, hdep⟩ := Exit.path_leave.mp hpath
      have hcurenv : s₁.curenv c ≠ some e := fun hcur => hothers.1 (hpath.curenv_of hcur)
      refine ⟨c, s₁, ?_, ?_, fun _ h => hpath.curenv_of h, .inr (hdep.mono fun _ _ => trivial)⟩
      · refine hpath.ticks fun a ha => ?_
        rintro rfl
        cases ha with
        | tick h => exact htimer h
        | destroy _ hdestroy => exact hdestroy
      · rcases hpath.nap_or_gone hothers hhead htimer with hnap | hgone
        · exact hnap
        · exact absurd (hdep.gone hcurenv hgone) hspared

/-- While `e` sleeps: the deadline is still to come, and nobody runs it. -/
structure Sleeps (e : Slot) (D : Word) (s : Kernel) : Prop where
  exclusive : Exclusive s
  nap : (s.envs e).nap = (.notRunnable, D, 0)

theorem Sleeps.status (h : Sleeps e D s) : (s.envs e).envStatus = .notRunnable :=
  congrArg Prod.fst h.nap

theorem Sleeps.result (h : Sleeps e D s) : (s.envs e).envTf.tfRegs.regEax = 0 :=
  congrArg (fun x => x.2.2) h.nap

theorem Sleeps.sleepUntil (h : Sleeps e D s) : (s.envs e).envSleepUntil = D :=
  congrArg (fun x => x.2.1) h.nap

theorem Sleeps.not_current (h : Sleeps e D s) (c : Cpu) : s.curenv c ≠ some e := by
  intro hcur
  rcases h.exclusive.executing c e hcur with hst | hst <;> rw [h.status] at hst <;> cases hst

theorem Sleeps.alive (h : Sleeps e D s) : (s.envs e).envStatus ≠ .free := by
  rw [h.status]
  exact EnvStatus.noConfusion

/-- A step that is no clock interrupt. -/
theorem Sleeps.silent (h : Sleeps e D s) (hstep : Bystander e s ev s')
    (hclock : ev.isClock = false) :
    s'.ticks = s.ticks ∧ Sleeps e D s' := by
  have hexclusive := (exclusive_step h.exclusive hstep.step.1 hstep.step.2).1
  obtain ⟨c, s₁, hticks, hnap, hcurenv, hend⟩ :=
    exec_silent h.exclusive h.alive hstep.others hclock hstep.spared hstep.step.1.2
  have hnap := hnap.trans h.nap
  rcases hend with rfl | hdep
  · exact ⟨hticks, hexclusive, hnap⟩
  · have hnotready : (s₁.envs e).envStatus ≠ .runnable := by
      rw [show (s₁.envs e).envStatus = .notRunnable from congrArg Prod.fst hnap]
      exact EnvStatus.noConfusion
    have hnap' := hdep.nap (fun hcur => h.not_current c (hcurenv e hcur)) hnotready
    exact ⟨hdep.departed.ticks.trans hticks, hexclusive, hnap'.trans hnap⟩

/-- A clock interrupt. -/
theorem Sleeps.clock (h : Sleeps e D s) (hstep : Bystander e s ev s') (hclock : ev.isClock = true) :
    s'.ticks = s.ticks + 1 ∧
      if D ≠ 0 ∧ D ≤ s.ticks + 1 then Awake e s' else Sleeps e D s' := by
  have hexclusive := (exclusive_step h.exclusive hstep.step.1 hstep.step.2).1
  obtain ⟨c, s₁, hticks, hwake, hcurenv, hdep⟩ :=
    exec_clock hstep.others hstep.counted hclock hstep.step.1.2
  refine ⟨hdep.departed.ticks.trans hticks, ?_⟩
  rw [wakeup_eq h.status, h.sleepUntil] at hwake
  split at hwake
  · next hdue =>
      rw [if_pos hdue]
      refine hdep.awake ⟨.inl ?_, ?_⟩
      · rw [hwake]
      · rw [hwake]
        exact h.result
  · next hdue =>
      rw [if_neg hdue]
      have hnap : (s₁.envs e).nap = _ := (congrArg Env.nap hwake).trans h.nap
      refine ⟨hexclusive, (hdep.nap ?_ ?_).trans hnap⟩
      · rw [hcurenv]
        exact h.not_current c
      · rw [hwake, h.status]
        exact EnvStatus.noConfusion

/-- Once awake, nobody else puts it back to sleep. -/
theorem Awake.step (h : Awake e s) (hs : Exclusive s) (hstep : Bystander e s ev s') :
    Awake e s' := by
  have hfree : (s.envs e).envStatus ≠ .free := by
    rcases h.1 with hst | hst <;> rw [hst] <;> exact EnvStatus.noConfusion
  cases hclock : ev.isClock with
  | true =>
      obtain ⟨c, s₁, -, hwake, -, hdep⟩ :=
        exec_clock hstep.others hstep.counted hclock hstep.step.1.2
      refine hdep.awake ?_
      have hsame : s₁.envs e = s.envs e := by
        rw [hwake, wakeup, if_pos]
        rcases h.1 with hst | hst <;> rw [hst] <;> exact .inl EnvStatus.noConfusion
      rw [Awake, hsame]
      exact h
  | false =>
      obtain ⟨c, s₁, -, hnap, -, hend⟩ :=
        exec_silent hs hfree hstep.others hclock hstep.spared hstep.step.1.2
      obtain ⟨hst, -, heax⟩ := Env.nap_inj hnap
      have h₁ : Awake e s₁ := by
        rw [Awake, hst, heax]
        exact h
      rcases hend with rfl | hdep
      · exact h₁
      · exact hdep.awake h₁

/-! ## The system is not finished -/

/-- While there is an environment to wait for, `sched_halt` does not give up. -/
theorem exec_ne_finished (hs : Exclusive s) (hpending : (s.envs e).pending = true)
    (hothers : ev.Others e s) (hspared : ¬ Gone e s') : ev.exec s ≠ .stuck .noRunnable s' := by
  intro hexec
  have hfree : (s.envs e).envStatus ≠ .free := by
    intro hst
    simp [Env.pending, hst] at hpending
  -- if the system were finished nobody would be pending, so an action must have ended the sleep or
  -- freed `e`
  have hstop : ∀ {c L}, (Exit.stuck .noRunnable s').Path c L s →
      (∀ a s₁ s₂, L a → Micro c a s₁ s₂ → (s₁.envs e).pending = true ∨ Gone e s₁ →
        (s₂.envs e).pending = true ∨ Gone e s₂) → False := by
    intro c L hpath hL
    cases hpath with
    | panic hwhy => exact hwhy rfl
    | @finished s₁ _ hpath hyield =>
        obtain ⟨henvs, hnobody⟩ := schedYield_finished hyield
        rcases hpath.invariant (I := fun s₁ => (s₁.envs e).pending = true ∨ Gone e s₁)
          (.inl hpending) hL with hpend | hgone
        · rw [hnobody e] at hpend
          cases hpend
        · rw [Gone, ← henvs] at hgone
          exact hspared hgone
  -- entering the kernel and the tick keep a pending environment pending
  have hidle : ∀ a s₁ s₂ c, a.IsIdle → Micro c a s₁ s₂ → (s₁.envs e).pending = true ∨ Gone e s₁ →
      (s₂.envs e).pending = true ∨ Gone e s₂ := by
    intro a s₁ s₂ c ha hm hs₁
    cases hm with
    | start => exact hs₁
    | tick =>
        refine hs₁.imp Env.pending_wakeup fun hgone => ?_
        rcases hgone with hst | hst
        · exact .inl (by simp [JosSched.tick, schedWakeupSleeping, wakeup, hst])
        · exact .inr (by simp [JosSched.tick, schedWakeupSleeping, wakeup, hst])
    | _ => exact absurd ha id
  cases ev with
  | boot binary =>
      have hpanic : (envCreate s binary).Ensures (fun _ => True) Exit.IsPanic := envCreate_panics
      have hexec' : finish (envCreate s binary) .leave = .stuck .noRunnable s' := hexec
      cases hcreate : envCreate s binary with
      | ok s₁ =>
          rw [hcreate] at hexec'
          cases hexec'
      | error x =>
          rw [hcreate] at hexec'
          obtain ⟨why, s₁, rfl, hwhy⟩ := hpanic.of_error x hcreate
          obtain ⟨rfl, -⟩ := Exit.stuck.inj hexec'
          exact hwhy rfl
  | start c => exact hstop (hexec ▸ mpMain_path s) fun a s₁ s₂ ha => hidle a s₁ s₂ c ha
  | timer c => exact hstop (hexec ▸ trapHalted_path s) fun a s₁ s₂ ha => hidle a s₁ s₂ c ha
  | store c va byte =>
      unfold Event.exec at hexec
      dsimp only at hexec
      split at hexec <;> cases hexec
  | trap c inp tf =>
      have hpath : (Exit.stuck .noRunnable s').Path c (Allowed c s tf) s :=
        hexec ▸ trap_path s inp tf
      refine hstop hpath fun a s₁ s₂ ha hm hs₁ => ?_
      -- a trap: an action that touches the sleep of `e` is the tick, or frees it
      by_cases hrouses : a.Rouses e
      · rcases ha.rouses hothers (hs.head_ne hfree) hrouses with ⟨rfl, -⟩ | hdestroy
        · exact hidle .tick s₁ s₂ c trivial hm hs₁
        · exact .inr (hm.gone hdestroy)
      · have hnap := hm.nap hrouses
        exact hs₁.imp (fun hpend => (Env.pending_of_nap hnap).trans hpend) (gone_of_nap hnap)

/-! ## The deadline -/

/-- The deadline `ticks + n` does not wrap, or wraps together with the clock. -/
def SleepFits (ticks n : Word) : Prop :=
  ticks.toNat + n.toNat < 2 ^ 32 ∨ ticks.toNat = 2 ^ 32 - 1 ∧ n ≠ 1

/-- The clock after `k` interrupts. -/
theorem toNat_ticks (ticks : Word) {k : ℕ} (hk : k < 2 ^ 32) : (ticks + BitVec.ofNat 32 k).toNat =
    if ticks.toNat + k < 2 ^ 32 then ticks.toNat + k else ticks.toNat + k - 2 ^ 32 := by
  have hlt := ticks.isLt
  rw [BitVec.toNat_add, BitVec.toNat_ofNat, Nat.mod_eq_of_lt hk]
  split <;> omega

/-- Such a deadline is reached by the `n`-th interrupt, and by none before. -/
theorem SleepFits.due_iff {ticks n : Word} (h : SleepFits ticks n) (hn : n ≠ 0) {k : ℕ}
    (hk : 0 < k) (hkn : k ≤ n.toNat) :
    (ticks + n ≠ 0 ∧ ticks + n ≤ ticks + BitVec.ofNat 32 k) ↔ k = n.toNat := by
  have hlt := n.isLt
  have hltT := ticks.isLt
  have hpos : 0 < n.toNat := by
    rw [Nat.pos_iff_ne_zero]
    exact fun h0 => hn (BitVec.eq_of_toNat_eq h0)
  have hone : n ≠ 1 → n.toNat ≠ 1 := fun hne h1 => hne (BitVec.eq_of_toNat_eq h1)
  have hdeadline := toNat_ticks ticks hlt
  rw [BitVec.ofNat_toNat, BitVec.setWidth_eq] at hdeadline
  have hclock := toNat_ticks ticks (k := k) (by omega)
  have hzero : ticks + n ≠ 0 ↔ (ticks + n).toNat ≠ 0 :=
    not_congr ⟨fun h => by rw [h]; rfl, fun h => BitVec.eq_of_toNat_eq h⟩
  rw [hzero, BitVec.le_def, hclock, hdeadline]
  rcases h with hsum | ⟨hmax, hne⟩
  · split_ifs <;> omega
  · have := hone hne
    split_ifs <;> omega

/-! ## Runs -/

/-- How things stand for a sleeper after `k` of its `n` clock interrupts. -/
structure Slept (e : Slot) (n k : ℕ) (s : Kernel) : Prop where
  asleep : k < n → (s.envs e).envStatus = .notRunnable
  awake : n ≤ k → (s.envs e).envStatus = .runnable ∨ (s.envs e).envStatus = .running
  result : (s.envs e).envTf.tfRegs.regEax = 0
  unfinished : k < n → ∀ (ev : Event) (s' : Kernel), ev.Others e s → ¬ Gone e s' →
    ev.exec s ≠ .stuck .noRunnable s'

/-- The environment is woken by exactly the `n`-th clock interrupt from `s` on, whatever the
others do meanwhile. -/
def SleepsExactly (e : Slot) (n : ℕ) (s : Kernel) : Prop :=
  ∀ evs s', Trace (Bystander e) s evs s' → Slept e n (evs.countP Event.isClock) s'

/-- The run lemma: asleep until the deadline, awake from then on. -/
theorem sleeps_run {ticks : Word} {evs : List Event} (hfits : SleepFits ticks n) (hn : n ≠ 0)
    (hticks : s.ticks = ticks) (h : Sleeps e (ticks + n) s) (hrun : Trace (Bystander e) s evs s') :
    Exclusive s' ∧ if evs.countP Event.isClock < n.toNat then
      s'.ticks = ticks + BitVec.ofNat 32 (evs.countP Event.isClock) ∧ Sleeps e (ticks + n) s'
    else Awake e s' := by
  have hpos : 0 < n.toNat := by
    rw [Nat.pos_iff_ne_zero]
    exact fun h0 => hn (BitVec.eq_of_toNat_eq h0)
  induction hrun with
  | nil =>
      refine ⟨h.exclusive, ?_⟩
      rw [List.countP_nil, if_pos hpos]
      exact ⟨by simp [hticks], h⟩
  | @snoc evs ev s₁ s₂ _ hstep ih =>
      obtain ⟨hexclusive, ih⟩ := ih
      refine ⟨(exclusive_step hexclusive hstep.step.1 hstep.step.2).1, ?_⟩
      rw [List.countP_append, List.countP_singleton]
      -- `k` interrupts so far: the sleeper is due when they are `n`
      generalize evs.countP Event.isClock = k at ih ⊢
      by_cases hk : k < n.toNat
      · rw [if_pos hk] at ih
        obtain ⟨hticks₁, hsleeps⟩ := ih
        cases hclock : ev.isClock with
        | false =>
            obtain ⟨hticks₂, hsleeps₂⟩ := hsleeps.silent hstep hclock
            simp only [Bool.false_eq_true, if_false, add_zero]
            rw [if_pos hk]
            exact ⟨hticks₂.trans hticks₁, hsleeps₂⟩
        | true =>
            obtain ⟨hticks₂, hend⟩ := hsleeps.clock hstep hclock
            have hnext : s₁.ticks + 1 = ticks + BitVec.ofNat 32 (k + 1) := by
              rw [hticks₁, BitVec.ofNat_add, ← add_assoc]
              rfl
            rw [hnext] at hticks₂ hend
            -- no wrap of the counter brings the deadline forward
            have hdue := hfits.due_iff hn (Nat.succ_pos k) (Nat.succ_le_of_lt hk)
            simp only [if_true]
            by_cases hlast : k + 1 = n.toNat
            · rw [if_pos (hdue.mpr hlast)] at hend
              rw [if_neg (by omega)]
              exact hend
            · rw [if_neg (fun hdue' => hlast (hdue.mp hdue'))] at hend
              rw [if_pos (by omega)]
              exact ⟨hticks₂, hend⟩
      · rw [if_neg hk] at ih
        rw [if_neg (by omega)]
        exact ih.step hexclusive hstep

theorem SleepFits.deadline {ticks n : Word} (h : SleepFits ticks n) (hn : n ≠ 0) :
    ticks + n ≠ 0 := by
  have hpos : 0 < n.toNat := by
    rw [Nat.pos_iff_ne_zero]
    exact fun h0 => hn (BitVec.eq_of_toNat_eq h0)
  exact ((h.due_iff hn hpos le_rfl).mpr rfl).1

theorem pending_of_nap {env : Env} {r : Word} (h : env.nap = (.notRunnable, D, r)) (hD : D ≠ 0) :
    env.pending = true := by
  obtain ⟨hst, hsleep⟩ : env.envStatus = .notRunnable ∧ env.envSleepUntil = D :=
    ⟨congrArg Prod.fst h, congrArg (fun x => x.2.1) h⟩
  unfold Env.pending
  rw [hst, hsleep]
  exact decide_eq_true (.inr (.inr (.inr ⟨rfl, hD⟩)))

theorem Sleeps.exactly (hfits : SleepFits s.ticks n) (hn : n ≠ 0) (h : Sleeps e (s.ticks + n) s) :
    SleepsExactly e n.toNat s := by
  intro evs s' hrun
  obtain ⟨hexclusive, hend⟩ := sleeps_run hfits hn rfl h hrun
  split at hend
  · next hk =>
      have hpending := pending_of_nap hend.2.nap (hfits.deadline hn)
      exact ⟨fun _ => hend.2.status, fun hle => absurd hk (not_lt.mpr hle), hend.2.result,
        fun _ ev s'' hothers hspared => exec_ne_finished hexclusive hpending hothers hspared⟩
  · next hk =>
      exact ⟨fun hlt => absurd hlt hk, fun _ => hend.1, hend.2, fun hlt => absurd hlt hk⟩

/-- A call of `sys_sleep` concerns nobody but its caller. -/
theorem hygienic_sleep (hcur : s.curenv c = some e) (halive : (s.envs e).envStatus ≠ .dying)
    (hcall : Calls tf .sleep) : (Event.trap c inp tf).Hygienic s := by
  have hother : ∀ no, no ≠ .sleep → ¬ Calls tf no := fun no hno h => hno (h.unique hcall)
  refine ⟨fun _ h => absurd h (hother _ Sysno.noConfusion),
    fun _ h => absurd h (hother _ Sysno.noConfusion), fun t hroot => ?_⟩
  obtain ⟨no, hno, hcall'⟩ := hroot.calls hcur halive hcall.1
  obtain rfl := hcall'.unique hcall
  exact absurd hno (by decide)

/-- A call of `sys_sleep(n)` whose deadline fits, in any reachable state. -/
theorem sys_sleep_exact {evs : List Event} (hboot : Booted s₀) (hrun : Trace HygienicStep s₀ evs s)
    (hcur : s.curenv c = some e) (halive : (s.envs e).envStatus ≠ .dying) (hcall : Calls tf .sleep)
    (hn : tf.tfRegs.regEdx ≠ 0) (hfits : SleepFits s.ticks tf.tfRegs.regEdx) :
    (∀ s', trap c s inp tf ≠ .stuck .noRunnable s') ∧
      ∀ s₁, Step s (.trap c inp tf) s₁ → SleepsExactly e tf.tfRegs.regEdx.toNat s₁ := by
  have hs := exclusive_of_run hboot hrun
  have hself : ((asleep (saved c s e tf) e tf.tfRegs.regEdx).envs e).nap =
      (.notRunnable, s.ticks + tf.tfRegs.regEdx, 0) := by
    rw [asleep, Kernel.modEnv_self]
    rfl
  have hyield : trap c s inp tf = schedYield c (asleep (saved c s e tf) e tf.tfRegs.regEdx) :=
    trap_sleep hcur halive hcall hn
  constructor
  · intro s' hexec
    rw [hyield] at hexec
    have hpending := pending_of_nap hself (hfits.deadline hn)
    rw [(schedYield_finished hexec).2 e] at hpending
    cases hpending
  · intro s₁ hstep
    have hexclusive := (exclusive_step hs hstep (hygienic_sleep hcur halive hcall)).1
    have hexec : trap c s inp tf = .leave s₁ := hstep.2
    rw [hyield] at hexec
    have hdec := schedYield_decided hexec
    have hstatus : ((asleep (saved c s e tf) e tf.tfRegs.regEdx).envs e).envStatus = .notRunnable :=
      congrArg Prod.fst hself
    have hticks : s₁.ticks = s.ticks :=
      (Departs.preempt (L := fun _ => True) trivial hexec).departed.ticks
    refine Sleeps.exactly (hticks ▸ hfits) hn ⟨hexclusive, ?_⟩
    rw [hticks, ← hself]
    refine hdec.nap ?_ fun _ => ?_
    · rw [hstatus]
      exact EnvStatus.noConfusion
    · rw [hstatus]
      exact EnvStatus.noConfusion

/-! ## Two processes, one of which sleeps -/

/-- The first of two processes runs. -/
def twoProcesses : List Event := [.boot emptyImage, .boot emptyImage, .start 0]

/-- It calls `sys_sleep(n)`. -/
def sleepCall (n : Word) : Event := sysTrap 0 .sleep n 0 0 0 0

theorem sys_sleep_exact_two : ∃ s s₁,
    Trace HygienicStep (bootedMachine .roundRobin 64) twoProcesses s ∧
    Step s (sleepCall 2) s₁ ∧ SleepsExactly 0 2 s₁ := by
  obtain ⟨s, hrun, hs⟩ := exists_trace (fun _ ev => ev.By 0) (bootedMachine .roundRobin 64)
    twoProcesses (fun s => decide (s.curenv 0 = some 0 ∧ (s.envs 0).envStatus ≠ .dying ∧
      s.ticks = 0) &&
      ((sleepCall 2).next s).isSome) (by decide +kernel)
  rw [Bool.and_eq_true, decide_eq_true_iff, Option.isSome_iff_exists] at hs
  obtain ⟨⟨hcur, halive, hticks⟩, s₁, hnext⟩ := hs
  have hstep : Step s (sleepCall 2) s₁ := step_of_next hnext
  have hboot := booted_bootedMachine .roundRobin (n := 64) (by decide) (by decide)
  have hrun := hygienic_of_run hboot hrun
  have hfits : SleepFits s.ticks 2 := by
    rw [hticks]
    exact .inl (by decide)
  have hexact : _ ∧ ∀ s₁, Step s (.trap 0 {} (sysFrame {} .sleep 2 0 0 0 0)) s₁ →
      SleepsExactly 0 2 s₁ :=
    sys_sleep_exact hboot hrun hcur halive (by decide) (by decide) hfits
  exact ⟨s, s₁, hrun, hstep, hexact.2 s₁ hstep⟩

/-- The first process is woken by the clock interrupt that follows its call. -/
def wokenAtOnce (s : Kernel) : Bool :=
  decide (s.curenv 0 = some 0 ∧ (s.envs 0).envStatus ≠ .dying) &&
  ((sleepCall 0xffffffff).next s).any fun s₁ =>
    decide (s₁.curenv 0 = some 1 ∧ (s₁.envs 1).envStatus ≠ .dying) &&
    ((clock 0).next s₁).any fun s₂ => decide ((s₂.envs 0).envStatus = .running)

/-- At tick 2 the deadline of `sys_sleep(2^32 - 1)` is tick 1, which is in the past: the next clock
interrupt wakes the process. -/
theorem sys_sleep_wraps : ¬ ∀ (s₀ s : Kernel) (evs : List Event) (c : Cpu) (inp : Input)
    (tf : Trapframe) (e : Slot), Booted s₀ → Trace HygienicStep s₀ evs s → s.curenv c = some e →
    (s.envs e).envStatus ≠ .dying → Calls tf .sleep → tf.tfRegs.regEdx ≠ 0 →
      (∀ s', trap c s inp tf ≠ .stuck .noRunnable s') ∧
        ∀ s₁, Step s (.trap c inp tf) s₁ → SleepsExactly e tf.tfRegs.regEdx.toNat s₁ := by
  intro hclaim
  obtain ⟨s, hrun, hs⟩ := exists_trace (fun _ ev => ev.By 0) (bootedMachine .roundRobin 64)
    (twoProcesses ++ [clock 0, clock 0]) wokenAtOnce (by decide +kernel)
  simp only [wokenAtOnce, Bool.and_eq_true, decide_eq_true_iff, Option.any_eq_true] at hs
  obtain ⟨⟨hcur, halive⟩, s₁, hcall, ⟨hcur₁, halive₁⟩, s₂, hclock, hrunning⟩ := hs
  have hboot := booted_bootedMachine .roundRobin (n := 64) (by decide) (by decide)
  have hcallStep : Step s (.trap 0 {} (sysFrame {} .sleep 0xffffffff 0 0 0 0)) s₁ :=
    step_of_next hcall
  have hexact := (hclaim _ s _ 0 {} (sysFrame {} .sleep 0xffffffff 0 0 0 0) 0 hboot
    (hygienic_of_run hboot hrun) hcur halive (by decide) (by decide)).2 s₁ hcallStep
  have hsolo : Solo 0 s₁ := (solo_of_run hboot hrun).step hcallStep rfl
  have hbystander : Bystander 0 s₁ (clock 0) s₂ := by
    refine ⟨⟨step_of_next hclock, hsolo.hygienic rfl⟩, ⟨?_, fun h => ?_, fun h => ?_⟩,
      fun _ cur hcur' => ?_, ?_⟩
    · rw [hcur₁]
      decide
    · exact absurd h.1 (by decide)
    · exact absurd h.1 (by decide)
    · obtain rfl := Option.some.inj (hcur₁.symm.trans hcur')
      exact halive₁
    · rw [Gone, hrunning]
      decide
  have hasleep := (hexact _ s₂ (.single hbystander)).asleep (by decide)
  rw [hrunning] at hasleep
  cases hasleep

end JosSched
