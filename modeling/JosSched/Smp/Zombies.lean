import JosSched.Smp.Custody
import JosSched.Kern.Replay

/-!
# Environments on several CPUs

`Exclusive` holds in every reachable state of the machine, as long as no system call writes the
status of an environment that another CPU executes, and none hands `env_destroy` a zombie that
another CPU still executes.  From it follow mutual exclusion (`curenv_exclusive`) and that an
environment under execution keeps its slot until its CPU enters the kernel (`executed_kept`), on
which the zombie protocol rests.

The code makes neither check.  `sys_env_set_status` on a running thread puts it on two CPUs, and
the second `env_destroy` of a zombie frees it under its CPU.
-/

namespace JosSched

/-- The CPU that the event brings into the kernel. -/
def Event.Enters (c : Cpu) : Event → Prop
  | .start d | .trap d _ _ | .timer d => d = c
  | _ => False

/-- The CPU executes a zombie, whose trap frees it whatever its frame asks for. -/
def ZombieOn (c : Cpu) (s : Kernel) : Prop :=
  ∃ cur, s.curenv c = some cur ∧ (s.envs cur).envStatus = .dying

/-- `sys_env_set_status` does not write the status of an environment that another CPU executes. -/
def SparesTarget (c : Cpu) (s : Kernel) (tf : Trapframe) : Prop :=
  ¬ ZombieOn c s → Calls tf .envSetStatus → (settableStatus tf.tfRegs.regEcx).isSome →
    ∀ t, envid2env c s tf.tfRegs.regEdx true = .ok t → OnlyHere c s t

/-- `sys_ipc_try_send` does not send to an environment that another CPU executes. -/
def SparesReceiver (c : Cpu) (s : Kernel) (tf : Trapframe) : Prop :=
  ¬ ZombieOn c s → Calls tf .ipcTrySend → ∀ t, envid2env c s tf.tfRegs.regEdx false = .ok t →
    (s.envs t).envIpcRecving = true → OnlyHere c s t

/-- When the trap frees an environment, neither it nor a thread of it is a zombie that another
CPU still executes. -/
def SparesZombies (c : Cpu) (s : Kernel) (tf : Trapframe) : Prop :=
  ∀ e, Root c s tf e → FreesNow c s e → ∀ t, t = e ∨ isThreadOf s e t = true →
    (s.envs t).envStatus = .dying → OnlyHere c s t

/-- The trap leaves alone what another CPU executes: it does not write its status, and does not
free it once it is a zombie. -/
def Event.Hygienic (s : Kernel) : Event → Prop
  | .trap c _ tf => SparesTarget c s tf ∧ SparesReceiver c s tf ∧ SparesZombies c s tf
  | _ => True

variable {c : Cpu} {s s' s₀ : Kernel} {ev : Event}

/-! ## One step -/

theorem safe_of_allowed {inp : Input} {tf : Trapframe} {a : Act}
    (h : (Event.trap c inp tf).Hygienic s) (ha : Allowed c s tf a) : a.Safe c s := by
  have hserved : ∀ {cur}, s.curenv c = some cur → (s.envs cur).envStatus ≠ .dying →
      ¬ ZombieOn c s := by
    rintro cur hcur hlive ⟨cur', hcur', hdying⟩
    obtain rfl := Option.some.inj (hcur.symm.trans hcur')
    exact hlive hdying
  cases ha with
  | status hcall hcur ht hst hlive =>
      exact h.1 (hserved hcur hlive) hcall (by rw [hst]; rfl) _ ht
  | deliver hcall hcur ht hrecv hlive => exact h.2.1 (hserved hcur hlive) hcall _ ht hrecv
  | destroy hroot hdestroy =>
      cases a with
      | freeThread t st =>
          obtain ⟨hnow, ht, hst⟩ := hdestroy
          exact fun hdying => h.2.2 _ hroot hnow t ht (hst.symm.trans hdying)
      | freeProcess t st =>
          obtain ⟨hnow, ht, hst⟩ := hdestroy
          exact fun hdying => h.2.2 _ hroot hnow t (.inl ht) (hst.symm.trans hdying)
      | dying => exact trivial
      | _ => exact absurd hdestroy id
  | _ => exact trivial

theorem Act.IsIdle.safe {a : Act} (h : a.IsIdle) : a.Safe c s := by
  cases a <;> first | exact absurd h id | exact trivial

/-- What a step does to the environments of the CPUs that do not enter the kernel. -/
structure Undisturbed (s s' : Kernel) (d : Cpu) : Prop where
  curenv : s'.curenv d = s.curenv d
  same : ∀ e, s.curenv d = some e →
    (s'.envs e).who = (s.envs e).who ∧ (s'.envs e).envPgdir = (s.envs e).envPgdir

theorem Custody.undisturbed (h : Custody c s s') {d : Cpu} (hd : d ≠ c) : Undisturbed s s' d :=
  ⟨h.others d hd, h.same d hd⟩

theorem exclusive_of_exit {x : Exit} {L : Act → Prop} (h : Exclusive s) (hpath : x.Path c L s)
    (hx : x = .leave s') (hsafe : ∀ a, L a → a.Safe c s) :
    Exclusive s' ∧ ∀ d, d ≠ c → Undisturbed s s' d := by
  subst hx
  obtain ⟨s₁, hpath, hdep⟩ := Exit.path_leave.mp hpath
  have hcustody : Custody c s s₁ :=
    hpath.invariant h.custody fun a s₁ s₂ ha hm h₁ => h₁.micro hm (hsafe a ha)
  have hcustody := hcustody.departs hdep
  exact ⟨hcustody.exclusive h hdep.settled, fun d hd => hcustody.undisturbed hd⟩

/-- `env_create` takes a free slot, which no CPU executes. -/
theorem exclusive_boot {binary : Image} (h : Exclusive s) (hexec : envCreate s binary = .ok s') :
    Exclusive s' ∧ ∀ d, Undisturbed s s' d := by
  have hcustody : ∀ c, Custody c s s' := by
    intro c
    obtain ⟨e, hfree, hpath⟩ := envCreate_path (c := c) hexec
    have hstatus := h.freeSlots.head hfree
    refine hpath.invariant h.custody fun a s₁ s₂ ha hm h₁ => h₁.micro hm ?_
    cases a with
    | entry e' eip =>
        obtain rfl := ha
        exact h.custody.onlyHere_of_status (by rw [hstatus]; decide) (by rw [hstatus]; decide)
    | create | kstore | pageNew => exact trivial
    | _ => exact absurd ha id
  have hother : ∀ d : Cpu, ∃ c, d ≠ c := by decide
  have hcurenv : ∀ d, s'.curenv d = s.curenv d := fun d =>
    have ⟨c, hd⟩ := hother d
    (hcustody c).others d hd
  refine ⟨⟨fun d d' e hd hd' => ?_, fun d e hd => ?_, (hcustody 0).freeSlots⟩, fun d => ?_⟩
  · exact h.inj d d' e (hcurenv d ▸ hd) (hcurenv d' ▸ hd')
  · obtain ⟨c, hdc⟩ := hother d
    exact (hcustody c).executing d hdc e (hcurenv d ▸ hd)
  · obtain ⟨c, hdc⟩ := hother d
    exact (hcustody c).undisturbed hdc

/-- A step of the machine keeps `Exclusive`, and leaves the environments of the other CPUs in
place. -/
theorem exclusive_step (h : Exclusive s) (hstep : Step s ev s') (hyg : ev.Hygienic s) :
    Exclusive s' ∧ ∀ d, ¬ ev.Enters d → Undisturbed s s' d := by
  obtain ⟨henabled, hexec⟩ := hstep
  cases ev with
  | boot binary =>
      obtain ⟨hex, hund⟩ := exclusive_boot h (envCreate_eq_ok hexec)
      exact ⟨hex, fun d _ => hund d⟩
  | start c =>
      obtain ⟨hex, hund⟩ := exclusive_of_exit h (mpMain_path s) hexec fun a ha => ha.safe
      exact ⟨hex, fun d hd => hund d fun heq => hd heq.symm⟩
  | timer c =>
      obtain ⟨hex, hund⟩ := exclusive_of_exit h (trapHalted_path s) hexec fun a ha => ha.safe
      exact ⟨hex, fun d hd => hund d fun heq => hd heq.symm⟩
  | trap c inp tf =>
      obtain ⟨hex, hund⟩ := exclusive_of_exit h (trap_path s inp tf) hexec
        fun a ha => safe_of_allowed hyg ha
      exact ⟨hex, fun d hd => hund d fun heq => hd heq.symm⟩
  | store c va byte =>
      obtain ⟨m, rfl⟩ := store_eq_setMem hexec
      exact ⟨⟨h.inj, h.executing, h.freeSlots⟩, fun d _ => ⟨rfl, fun _ _ => ⟨rfl, rfl⟩⟩⟩

/-! ## Runs -/

/-- A step whose call is hygienic. -/
def HygienicStep (s : Kernel) (ev : Event) (s' : Kernel) : Prop := Step s ev s' ∧ ev.Hygienic s

theorem exclusive_of_run {evs : List Event} (hboot : Booted s₀) (h : Trace HygienicStep s₀ evs s) :
    Exclusive s :=
  h.invariant (exclusive_booted hboot) fun _ _ _ hs hstep => (exclusive_step hs hstep.1 hstep.2).1

/-- While its CPU stays in user mode, an environment keeps its slot, its identity and its
page directory. -/
theorem undisturbed_of_run {evs : List Event} {d : Cpu} (hs : Exclusive s)
    (h : Trace HygienicStep s evs s') (hd : ∀ ev ∈ evs, ¬ ev.Enters d) :
    Exclusive s' ∧ Undisturbed s s' d := by
  induction h with
  | nil => exact ⟨hs, rfl, fun _ _ => ⟨rfl, rfl⟩⟩
  | snoc _ hstep ih =>
      obtain ⟨hs₁, hund₁⟩ := ih fun ev hev => hd ev (List.mem_append_left _ hev)
      obtain ⟨hs₂, hund⟩ := exclusive_step hs₁ hstep.1 hstep.2
      have hund₂ := hund d (hd _ (List.mem_append_right _ (List.mem_singleton_self _)))
      refine ⟨hs₂, hund₂.curenv.trans hund₁.curenv, fun e he => ?_⟩
      obtain ⟨hwho₁, hpgdir₁⟩ := hund₁.same e he
      obtain ⟨hwho₂, hpgdir₂⟩ := hund₂.same e (hund₁.curenv.trans he)
      exact ⟨hwho₂.trans hwho₁, hpgdir₂.trans hpgdir₁⟩

/-- Mutual exclusion.  In every reachable state no environment is on two CPUs, and a CPU that
enters the kernel never leaves with an environment that another CPU was executing. -/
theorem curenv_exclusive {evs : List Event} (hboot : Booted s₀)
    (h : Trace HygienicStep s₀ evs s) :
    (∀ c d e, s.curenv c = some e → s.curenv d = some e → c = d) ∧
      ∀ ev s' c d e, HygienicStep s ev s' → ev.Enters c → d ≠ c →
        s'.curenv c = some e → s.curenv d ≠ some e := by
  have hs := exclusive_of_run hboot h
  refine ⟨hs.inj, fun ev s' c d e hstep hc hdc he hd => hdc ?_⟩
  obtain ⟨hs', hund⟩ := exclusive_step hs hstep.1 hstep.2
  have hnot : ¬ ev.Enters d := fun hd' => hdc (by cases ev <;> first
    | exact hd'.symm.trans hc
    | exact absurd hc id)
  exact hs'.inj d c e ((hund d hnot).curenv.trans hd) he

instance (c : Cpu) (s : Kernel) (e : Slot) : Decidable (OnlyHere c s e) :=
  inferInstanceAs (Decidable (∀ _, _))

instance (c : Cpu) (s : Kernel) : Decidable (ZombieOn c s) :=
  decidable_of_iff ((s.curenv c).any fun cur => decide ((s.envs cur).envStatus = .dying)) <| by
    cases h : s.curenv c <;> simp [ZombieOn, h]

instance (c : Cpu) (s : Kernel) (tf : Trapframe) : Decidable (SparesTarget c s tf) :=
  inferInstanceAs (Decidable (_ → _))

instance (c : Cpu) (s : Kernel) (tf : Trapframe) : Decidable (SparesReceiver c s tf) :=
  inferInstanceAs (Decidable (_ → _))

instance (c : Cpu) (s : Kernel) (tf : Trapframe) : Decidable (SparesZombies c s tf) :=
  decidable_of_iff
    (∀ e ∈ roots c s tf, FreesNow c s e → ∀ t, t = e ∨ isThreadOf s e t = true →
      (s.envs t).envStatus = .dying → OnlyHere c s t)
    (forall_congr' fun _ => imp_congr_left mem_roots)

instance (s : Kernel) (ev : Event) : Decidable (ev.Hygienic s) :=
  match ev with
  | .trap c _ tf =>
      inferInstanceAs (Decidable (SparesTarget c s tf ∧ SparesReceiver c s tf ∧
        SparesZombies c s tf))
  | .boot _ | .start _ | .timer _ | .store _ _ _ => inferInstanceAs (Decidable True)

/-- A process and its thread run on two CPUs.  The thread yields; then the process destroys it,
and CPU 0 takes a timer interrupt while CPU 1 executes the zombie. -/
theorem curenv_exclusive_thread :
    ∃ s, (∃ evs, Trace HygienicStep (bootedMachine .roundRobin 64) evs s) ∧
    (s.curenv 0 = some 0 ∧ s.curenv 1 = some 1 ∧ (s.envs 1).envStatus = .dying) ∧
    ∀ c d e, s.curenv c = some e → s.curenv d = some e → c = d := by
  obtain ⟨s, hrun, hs⟩ := exists_trace (fun s ev => ev.Hygienic s) (bootedMachine .roundRobin 64)
    (startThread ++ [sysTrap 1 .yield 0 0 0 0 0, sysTrap 0 .envDestroy firstThread 0 0 0 0,
      clock 0])
    (fun s => decide (s.curenv 0 = some 0 ∧ s.curenv 1 = some 1 ∧ (s.envs 1).envStatus = .dying))
    (by decide +kernel)
  rw [decide_eq_true_iff] at hs
  have hboot := booted_bootedMachine .roundRobin (n := 64) (by decide) (by decide)
  exact ⟨s, ⟨_, hrun⟩, hs, (curenv_exclusive hboot hrun).1⟩

/-- A process makes its running thread ready, and then runs it itself: both CPUs execute it. -/
theorem curenv_shared : ¬ ∀ (s₀ s : Kernel) (evs : List Event), Booted s₀ → Trace Step s₀ evs s →
    ∀ c d e, s.curenv c = some e → s.curenv d = some e → c = d := by
  intro hclaim
  obtain ⟨s, hrun, hs⟩ := exists_trace (fun _ _ => True) (bootedMachine .roundRobin 64)
    (startThread ++ [sysTrap 0 .envSetStatus firstThread 2 0 0 0,
      sysTrap 0 .yield 0 0 0 0 0])
    (fun s => decide (s.curenv 0 = some 1 ∧ s.curenv 1 = some 1)) (by decide +kernel)
  rw [decide_eq_true_iff] at hs
  have hboot := booted_bootedMachine .roundRobin (n := 64) (by decide) (by decide)
  exact absurd (hclaim _ s _ hboot (hrun.mono fun _ _ _ h => h.1) 0 1 1 hs.1 hs.2) (by decide)

/-- In every reachable state the environment of a CPU is running or a zombie; and until that CPU
itself enters the kernel, whatever the others do, the environment keeps its slot, its identity and
its page directory, and is not freed. -/
theorem executed_kept {evs evs' : List Event} {d : Cpu} {e : Slot} (hboot : Booted s₀)
    (h : Trace HygienicStep s₀ evs s) (h' : Trace HygienicStep s evs' s')
    (hd : ∀ ev ∈ evs', ¬ ev.Enters d) (he : s.curenv d = some e) :
    ((s.envs e).envStatus = .running ∨ (s.envs e).envStatus = .dying) ∧
      s'.curenv d = some e ∧
      ((s'.envs e).envStatus = .running ∨ (s'.envs e).envStatus = .dying) ∧
      (s'.envs e).envId = (s.envs e).envId ∧ (s'.envs e).envPgdir = (s.envs e).envPgdir := by
  have hs := exclusive_of_run hboot h
  obtain ⟨hs', hund⟩ := undisturbed_of_run hs h' hd
  have he' := hund.curenv.trans he
  obtain ⟨hwho, hpgdir⟩ := hund.same e he
  exact ⟨hs.executing d e he, he', hs'.executing d e he', (Env.who_inj hwho).1, hpgdir⟩

end JosSched
