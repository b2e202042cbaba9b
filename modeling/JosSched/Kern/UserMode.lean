import JosSched.Kern.Frame
import JosSched.Kern.Replay

/-!
# Every context switch enters preemptible user mode

`context_switch` pops whatever `env_tf` the chosen environment has, so what the CPU becomes is
decided by everybody who wrote that frame before: `env_alloc`, `trap`, the copies of `sys_exofork`,
and the calls that patch single registers.  All of them leave the segment selectors and the flags
of a user frame alone, and `trap` stores frames of user mode only, if the processor pushes what
it was given.  That last part is about the frame the CPU has *popped*, which need not be anybody's
`env_tf` any more: the environment may have been destroyed under it and its slot given away.  So
a run notes what every CPU popped last.
-/

namespace JosSched

variable {c d : Cpu} {s s' : Kernel} {a : Act} {ev : Event} {e t : Slot} {tf tf' : Trapframe}

/-- A frame of ring 3 with interrupts enabled and no access to the ports. -/
structure UserFrame (tf : Trapframe) : Prop where
  cs : tf.tfCs = GD_UT ||| 3
  ss : tf.tfSs = GD_UD ||| 3
  interrupts : tf.tfEflags &&& FL_IF ≠ 0
  iopl : tf.tfEflags &&& FL_IOPL_MASK = 0

instance (tf : Trapframe) : Decidable (UserFrame tf) :=
  decidable_of_iff
    (tf.tfCs = GD_UT ||| 3 ∧ tf.tfSs = GD_UD ||| 3 ∧ tf.tfEflags &&& FL_IF ≠ 0 ∧
      tf.tfEflags &&& FL_IOPL_MASK = 0)
    ⟨fun ⟨h₁, h₂, h₃, h₄⟩ => ⟨h₁, h₂, h₃, h₄⟩, fun ⟨h₁, h₂, h₃, h₄⟩ => ⟨h₁, h₂, h₃, h₄⟩⟩

/-! ## The frames of the table -/

/-- Every environment in use is resumed in user mode. -/
def Preemptible (s : Kernel) : Prop :=
  ∀ e, s.alive e → UserFrame (s.envs e).envTf

theorem userFrame_initEnv (e : Slot) (parentId : Word) (env : Env) :
    UserFrame (initEnv e parentId env).envTf := by
  have h : UserFrame { tfDs := GD_UD ||| 3, tfEs := GD_UD ||| 3, tfSs := GD_UD ||| 3,
                       tfEsp := USTACKTOP, tfCs := GD_UT ||| 3, tfEflags := FL_IF } := by decide
  exact h

/-- Writing the other registers of a frame in use. -/
theorem Preemptible.modEnv {f : Env → Env} (h : Preemptible s)
    (hf : UserFrame (s.envs t).envTf → UserFrame (f (s.envs t)).envTf)
    (halive : ∀ e, (s.modEnv t f).alive e → s.alive e) : Preemptible (s.modEnv t f) := by
  intro e he
  have hframe := h e (halive e he)
  by_cases het : e = t
  · subst het
    rw [Kernel.modEnv_self]
    exact hf hframe
  · rwa [Kernel.modEnv_ne _ _ het]

theorem Preemptible.of_envTf (h : Preemptible s) (halive : ∀ e, s'.alive e → s.alive e)
    (hframe : ∀ e, (s'.envs e).envTf = (s.envs e).envTf) : Preemptible s' := by
  intro e he
  rw [hframe e]
  exact h e (halive e he)

/-- The frame `env_alloc` writes and everybody else's. -/
theorem Preemptible.envAlloc {parentId : Word} (h : Preemptible s)
    (halloc : envAlloc s parentId = .ok (.ok t, s')) : Preemptible s' := by
  intro e he
  by_cases het : e = t
  · obtain ⟨p, m, -, -, rfl⟩ := envAlloc_eq_ok halloc
    subst het
    simp only [Kernel.setFreeList_envs, Kernel.modEnv_self]
    exact userFrame_initEnv e parentId _
  · rw [envAlloc_envs_ne halloc het]
    refine h e (he.imp (fun hst => ?_) fun ⟨d, hd⟩ => ⟨d, ?_⟩)
    · rwa [envAlloc_envs_ne halloc het] at hst
    · rwa [envAlloc_curenv d halloc] at hd

theorem alive_of_modEnv {f : Env → Env} (h : ∀ env, (f env).envStatus = env.envStatus) (e : Slot)
    (he : (s.modEnv t f).alive e) : s.alive e := by
  refine he.imp (fun hst => ?_) id
  rwa [modEnv_proj Env.envStatus h] at hst

theorem alive_of_envAlloc {parentId : Word} (h : envAlloc s parentId = .ok (.ok t, s')) :
    s'.alive t := by
  obtain ⟨p, m, -, -, rfl⟩ := envAlloc_eq_ok h
  exact .inl (by simp [initEnv])

/-- No action makes a frame anything else than a user frame. -/
theorem Micro.preemptible (h : Micro c a s s') (hs : Preemptible s)
    (hsave : ∀ e tf, a = .save e tf → UserFrame tf) : Preemptible s' := by
  have halive : ¬ a.Allocates → ∀ e, s'.alive e → s.alive e := fun ha _ he => h.alive ha he
  cases h with
  | start => exact hs.of_envTf (halive id) fun _ => rfl
  | save => exact hs.modEnv (fun _ => hsave _ _ rfl) (halive id)
  | ret | redirect | deliver | sleep =>
      exact hs.modEnv (fun hf => ⟨hf.cs, hf.ss, hf.interrupts, hf.iopl⟩) (halive id)
  | dying | status | ipcPerm | recving | block | priority | upcall =>
      exact hs.modEnv id (halive id)
  | tick => exact hs.of_envTf (halive id) fun e => wakeup_proj Env.envTf fun _ => rfl
  | create halloc => exact hs.envAlloc halloc
  | exofork hcur halloc =>
      have hs₁ := hs.envAlloc halloc
      have hcur₁ := hs₁ _ (alive_of_curenv ((envAlloc_curenv c halloc).trans hcur))
      refine hs₁.modEnv (fun _ => ⟨hcur₁.cs, hcur₁.ss, hcur₁.interrupts, hcur₁.iopl⟩) fun e he => ?_
      exact alive_modEnv (alive_of_envAlloc halloc) he
  | @thread _ _ _ t _ _ _ _ _ _ _ _ halloc _ hdrop _ =>
      obtain ⟨m, -, rfl⟩ := dropPgdir_eq_ok hdrop
      have hs₂ := (hs.envAlloc halloc).modEnv (t := t)
          (f := fun env => { env with envPgdir := none }) id
        (alive_of_modEnv fun _ => rfl)
      exact Preemptible.modEnv (hs₂.of_envTf (fun _ he => he) fun _ => rfl)
        (fun hf => ⟨hf.cs, hf.ss, hf.interrupts, hf.iopl⟩) (alive_of_modEnv fun _ => rfl)
  | freeThread _ _ _ hfree =>
      obtain ⟨pgdir, m, -, -, rfl⟩ := envFreeThread_eq_ok hfree
      refine hs.of_envTf (halive id) fun e => ?_
      rw [forget_envs]
      exact freed_proj Env.envTf fun _ _ => rfl
  | freeProcess _ _ _ _ hfree =>
      obtain ⟨pgdir, m₁, m, -, -, -, rfl⟩ := envFreeProcess_eq_ok hfree
      refine hs.of_envTf (halive id) fun e => ?_
      rw [forget_envs]
      exact freed_proj Env.envTf fun _ _ => rfl
  | pageNew | pageShare | pageDrop | kstore => exact hs
  | entry =>
      exact hs.modEnv (fun hf => ⟨hf.cs, hf.ss, hf.interrupts, hf.iopl⟩)
        (alive_of_modEnv fun _ => rfl)

theorem Departs.preemptible {L : Act → Prop} (h : Departs c L s s') (hs : Preemptible s) :
    Preemptible s' :=
  hs.of_envTf (fun _ he => h.alive he) fun _ => h.departed.proj Env.envTf fun _ _ _ _ _ => rfl

theorem Exit.Path.preemptible {L : Act → Prop} {x : Exit} (h : x.Path c L s) (hx : x = .leave s')
    (hs : Preemptible s) (hsave : ∀ e tf, L (.save e tf) → UserFrame tf) : Preemptible s' :=
  h.invariant hx hs (fun _ _ _ ha hm hs => hm.preemptible hs fun e tf heq => hsave e tf (heq ▸ ha))
    fun _ _ h hs => h.preemptible hs

/-- One event: all it takes is that the frame pushed by a trap is one of user mode. -/
theorem Step.preemptible (hstep : Step s ev s') (hs : Preemptible s)
    (htrap : ∀ c inp tf, ev = .trap c inp tf → UserFrame tf) : Preemptible s' := by
  obtain ⟨-, hexec⟩ := hstep
  cases ev with
  | boot binary =>
      obtain ⟨e, -, hpath⟩ := envCreate_path (c := 0) (envCreate_eq_ok hexec)
      exact hpath.invariant hs fun _ _ _ ha hm hs => hm.preemptible hs fun _ _ heq => by
        subst heq
        cases ha
  | start d => exact (mpMain_path s).preemptible hexec hs fun _ _ h => h.elim
  | timer d => exact (trapHalted_path s).preemptible hexec hs fun _ _ h => h.elim
  | trap d inp tf =>
      refine (trap_path s inp tf).preemptible hexec hs fun e tf' hsave => ?_
      cases hsave with
      | save => exact htrap d inp tf rfl
      | destroy _ hdestroy => exact hdestroy.elim
  | store d va byte =>
      obtain ⟨m, rfl⟩ := store_eq_setMem hexec
      exact hs

/-! ## CPUs in user mode -/

/-- Nothing another CPU does makes this one enter user mode. -/
theorem Micro.inUser_of (h : Micro c a s s') (ha : a ≠ .start ∨ d ≠ c) (hin : s'.inUser d) :
    s.inUser d := by
  obtain ⟨hstatus, hcur⟩ := hin
  obtain ⟨e, he⟩ := Option.isSome_iff_exists.mp hcur
  refine ⟨?_, Option.isSome_iff_exists.mpr ⟨e, h.curenv_of he⟩⟩
  rcases ha with ha | hd
  · rwa [← h.cpuStatus ha d]
  · rwa [← h.cpus_ne hd]

theorem Exit.Path.inUser_of {L : Act → Prop} {x : Exit} (h : x.Path c L s) (hx : x = .leave s')
    (hd : d ≠ c) (hin : s'.inUser d) : s.inUser d := by
  have hkeep : s'.inUser d → s.inUser d :=
    h.invariant (I := fun s₁ => s₁.inUser d → s.inUser d) hx id
      (fun _ _ _ _ hm hs hin => hs (hm.inUser_of (.inr hd) hin)) fun s₁ s₂ hdep hs hin => by
        have hcpu := hdep.departed.frame d hd
        exact hs (by rwa [Kernel.inUser, Kernel.curenv, hcpu] at hin)
  exact hkeep hin

/-- The CPU that enters the kernel, or leaves the boot loader. -/
def Event.enters : Event → Option Cpu
  | .start c | .trap c _ _ | .timer c => some c
  | .boot _ | .store _ _ _ => none

theorem Step.inUser_of (hstep : Step s ev s') (hd : ev.enters ≠ some d) (hin : s'.inUser d) :
    s.inUser d := by
  obtain ⟨-, hexec⟩ := hstep
  have hne : ∀ {c : Cpu}, some c ≠ some d → d ≠ c := fun h heq => h (congrArg some heq.symm)
  cases ev with
  | boot binary =>
      obtain ⟨e, -, hpath⟩ := envCreate_path (c := 0) (envCreate_eq_ok hexec)
      have hkeep : s'.inUser d → s.inUser d :=
        hpath.invariant (I := fun s₁ => s₁.inUser d → s.inUser d) id fun a _ _ ha hm hs h => by
          refine hs (hm.inUser_of (.inl fun heq => ?_) h)
          subst heq
          cases ha
      exact hkeep hin
  | start c => exact (mpMain_path s).inUser_of hexec (hne hd) hin
  | timer c => exact (trapHalted_path s).inUser_of hexec (hne hd) hin
  | trap c inp tf => exact (trap_path s inp tf).inUser_of hexec (hne hd) hin
  | store c va byte =>
      obtain ⟨m, rfl⟩ := store_eq_setMem hexec
      exact hin

/-! ## Runs -/

/-- The machine, with the frame every CPU popped last. -/
structure Switching where
  kern : Kernel
  popped : Cpu → Option Trapframe

/-- The frame a CPU pops as it leaves the kernel, if it does not halt. -/
def Kernel.pops (s : Kernel) (c : Cpu) : Option Trapframe :=
  (s.curenv c).map fun e => (s.envs e).envTf

/-- A step of the machine.  The processor pushes a user frame when a program that was resumed with
one traps. -/
structure SwitchStep (x : Switching) (ev : Event) (y : Switching) : Prop where
  step : Step x.kern ev y.kern
  pushed : ∀ c inp tf, ev = .trap c inp tf → ∀ tf₀, x.popped c = some tf₀ → UserFrame tf₀ →
    UserFrame tf
  popped : y.popped = fun c => if ev.enters = some c then y.kern.pops c else x.popped c

/-- What the frames of the table and of the CPUs satisfy. -/
structure UserModeInv (x : Switching) : Prop where
  table : Preemptible x.kern
  cpus : ∀ c, x.kern.inUser c → ∃ tf, x.popped c = some tf ∧ UserFrame tf

theorem SwitchStep.userModeInv {x y : Switching} (h : SwitchStep x ev y) (hx : UserModeInv x) :
    UserModeInv y := by
  have htable : Preemptible y.kern := by
    refine h.step.preemptible hx.table fun c inp tf hev => ?_
    have hin : x.kern.inUser c := by
      have henabled := h.step.1
      rw [hev] at henabled
      exact henabled.1
    obtain ⟨tf₀, hpopped, huser⟩ := hx.cpus c hin
    exact h.pushed c inp tf hev tf₀ hpopped huser
  refine ⟨htable, fun c hin => ?_⟩
  rw [h.popped]
  by_cases hc : ev.enters = some c
  · obtain ⟨e, he⟩ := Option.isSome_iff_exists.mp hin.2
    simp only [hc, if_true, Kernel.pops, he, Option.map_some]
    exact ⟨_, rfl, htable e (alive_of_curenv he)⟩
  · simp only [hc, if_false]
    exact hx.cpus c (h.step.inUser_of hc hin)

theorem Booted.userModeInv (h : Booted s) : UserModeInv ⟨s, fun _ => none⟩ := by
  refine ⟨fun e he => ?_, fun c hin => ?_⟩
  · rcases he with he | ⟨d, hd⟩
    · exact absurd (congrArg Env.envStatus (h.envs e)) he
    · rw [Kernel.curenv, (h.cpus d).2] at hd
      cases hd
  · have hstatus : (s.cpus c).cpuStatus = .started := hin.1
    rw [(h.cpus c).1] at hstatus
    cases hstatus

/-- In every state of every run, whatever the CPUs and the environments do, each environment in use
would be resumed in ring 3 with interrupts enabled, and each CPU that runs user code was. -/
theorem every_switch_enters_user_mode {s₀ : Kernel} {evs : List Event} {x : Switching}
    (hboot : Booted s₀) (hrun : Trace SwitchStep ⟨s₀, fun _ => none⟩ evs x) :
    (∀ e, (x.kern.envs e).envStatus ≠ .free → UserFrame (x.kern.envs e).envTf) ∧
      ∀ c, x.kern.inUser c → ∃ tf, x.popped c = some tf ∧ UserFrame tf := by
  have hinv : UserModeInv x :=
    hrun.invariant hboot.userModeInv fun _ _ _ hx h => h.userModeInv hx
  exact ⟨fun e he => hinv.table e (.inl he), hinv.cpus⟩

/-- The processor pushes a user frame. -/
def Event.Pushes : Event → Prop
  | .trap _ _ tf => UserFrame tf
  | _ => True

instance (ev : Event) : Decidable ev.Pushes :=
  match ev with
  | .trap _ _ tf => inferInstanceAs (Decidable (UserFrame tf))
  | .boot _ | .start _ | .timer _ | .store _ _ _ => inferInstanceAs (Decidable True)

/-- A run all of whose traps push user frames, with its notes. -/
theorem exists_switching {evs : List Event} {s s' : Kernel}
    (hrun : Trace (fun s ev s' => Step s ev s' ∧ ev.Pushes) s evs s')
    (popped : Cpu → Option Trapframe) :
    ∃ popped', Trace SwitchStep ⟨s, popped⟩ evs ⟨s', popped'⟩ := by
  induction hrun with
  | nil => exact ⟨popped, .nil⟩
  | @snoc l ev s₁ s₂ _ hstep ih =>
      obtain ⟨popped₁, hrun₁⟩ := ih
      refine ⟨fun c => if ev.enters = some c then s₂.pops c else popped₁ c,
        hrun₁.snoc ⟨hstep.1, ?_, rfl⟩⟩
      intro c inp tf hev _ _ _
      subst hev
      exact hstep.2

/-- What the processor pushes when a program that was resumed by `context_switch` traps. -/
def userTf : Trapframe :=
  { tfCs := GD_UT ||| 3, tfSs := GD_UD ||| 3, tfEsp := 0xeebfdf00, tfEflags := FL_IF ||| 2 }

/-- A process creates a thread, which starts on CPU 1, and forks; both sleep and the clock wakes
them up. -/
def switchingRun : List Event :=
  [.boot emptyImage, .start 0,
    .trap 0 {} (sysFrame userTf .threadCreate 0x800020 0xeebfe000 0 0 0), .start 1,
    .trap 0 {} (sysFrame userTf .exofork 0 0 0 0 0),
    .trap 0 {} (sysFrame userTf .sleep 1 0 0 0 0),
    .trap 1 {} (sysFrame userTf .sleep 1 0 0 0 0), .timer 0, .timer 1]

/-- After that run both CPUs are in user mode, and three slots are in use. -/
theorem every_switch_enters_user_mode_switchingRun : ∃ x : Switching,
    Trace SwitchStep ⟨bootedMachine .roundRobin 64, fun _ => none⟩ switchingRun x ∧
      (x.kern.inUser 0 ∧ x.kern.inUser 1 ∧ (x.kern.envs 2).envStatus = .notRunnable) ∧
      (∀ e, (x.kern.envs e).envStatus ≠ .free → UserFrame (x.kern.envs e).envTf) ∧
      ∀ c, x.kern.inUser c → ∃ tf, x.popped c = some tf ∧ UserFrame tf := by
  have heval : (replay (fun _ ev => ev.Pushes) (bootedMachine .roundRobin 64) switchingRun).any
      (fun s => decide (s.inUser 0 ∧ s.inUser 1 ∧ (s.envs 2).envStatus = .notRunnable)) = true := by
    decide +kernel
  obtain ⟨s, hrun, hs⟩ := exists_trace _ _ _ _ heval
  obtain ⟨popped, hrun⟩ := exists_switching hrun fun _ => none
  have hboot : Booted (bootedMachine .roundRobin 64) :=
    booted_bootedMachine .roundRobin (by decide) (by decide)
  exact ⟨⟨s, popped⟩, hrun, decide_eq_true_iff.mp hs, every_switch_enters_user_mode hboot hrun⟩

end JosSched
