import JosSched.Kern.Frame
import JosSched.Kern.Replay
import Mathlib.Data.Finset.Lattice.Fold
import Mathlib.Data.Fintype.Basic
import Mathlib.Order.Lattice.Nat

/-!
# The priority of a process and its threads

`sys_setpriority` lets nobody raise its own priority, "otherwise any process would seize the
CPU", but sets that of a direct child at will, "because a parent doesn't gain CPU by giving it
to a child".  A thread is a direct child of its process that runs the process's own code.

`maxPriority_le_of_run` bounds the priority of a process along every run in which no such call
asks for more than the process already has; `maxPriority_boost` is a run that does.
-/

open Except

namespace JosSched

/-- `e` executes in the address space of process `pid`: it is the process, or one of its
threads. -/
def InProcess (s : Kernel) (pid : Word) (e : Slot) : Prop :=
  s.alive e ∧ ((s.envs e).envType = .user ∧ (s.envs e).envId = pid ∨
    (s.envs e).envType = .thread ∧ (s.envs e).envParentId = pid)

instance (s : Kernel) (e : Slot) : Decidable (s.alive e) := inferInstanceAs (Decidable (_ ∨ _))

instance (s : Kernel) (pid : Word) (e : Slot) : Decidable (InProcess s pid e) :=
  inferInstanceAs (Decidable (_ ∧ _))

/-- The highest priority in the address space of `pid`. -/
def maxPriority (s : Kernel) (pid : Word) : ℕ :=
  (Finset.univ.filter (InProcess s pid)).sup fun e => (s.envs e).envPriority.toNat

theorem maxPriority_le_iff {s : Kernel} {pid : Word} {b : ℕ} :
    maxPriority s pid ≤ b ↔ ∀ e, InProcess s pid e → (s.envs e).envPriority.toNat ≤ b := by
  simp [maxPriority, Finset.sup_le_iff]

/-- System calls are made by the process and its threads only.  Other environments may run,
fault and be interrupted; the kernel creates no more environments of its own. -/
def Event.FromProcess (s : Kernel) (pid : Word) : Event → Prop
  | .boot _ => False
  | .trap c _ tf => tf.tfTrapno = T_SYSCALL → ∃ cur, s.curenv c = some cur ∧ InProcess s pid cur
  | _ => True

/-- No call lifts another member of the process above the priority the process already has,
and no slot is handed out while the caller still executes in it. -/
def Event.NoBoost (s : Kernel) (pid : Word) : Event → Prop
  | .trap c _ tf =>
      (Calls tf .setpriority → tf.tfRegs.regEcx ≤ ENV_PRIORITY_MAX →
        ∀ t, envid2env c s tf.tfRegs.regEdx true = .ok t → s.curenv c ≠ some t →
          InProcess s pid t → tf.tfRegs.regEcx.toNat ≤ maxPriority s pid) ∧
      (Calls tf .exofork ∨ Calls tf .threadCreate → s.envFreeList ≠ s.curenv c)
  | _ => True

/-! ## One step -/

variable {c : Cpu} {s s' : Kernel} {a : Act} {pid : Word} {b : ℕ}

theorem inProcess_of_who {e : Slot} (hwho : (s'.envs e).who = (s.envs e).who)
    (halive : s.alive e) (h : InProcess s' pid e) : InProcess s pid e := by
  obtain ⟨hid, hparent, htype⟩ := Env.who_inj hwho
  refine ⟨halive, ?_⟩
  rw [← hid, ← hparent, ← htype]
  exact h.2

/-- An action that neither allocates nor sets a priority keeps any bound. -/
theorem Micro.maxPriority_le (h : Micro c a s s') (ha : ¬ a.Allocates)
    (hpriority : ∀ cur t p, a ≠ .priority cur t p) (hs : maxPriority s pid ≤ b) :
    maxPriority s' pid ≤ b := by
  rw [maxPriority_le_iff] at hs ⊢
  intro e he
  obtain ⟨hwho, hprio⟩ := Prod.mk.inj (h.rank ha hpriority e)
  rw [hprio]
  exact hs e (inProcess_of_who hwho (h.alive ha he.1) he)

/-- A new environment has the priority of its creator. -/
theorem Micro.maxPriority_le_of_takes {cur e : Slot} (h : Micro c a s s') (ha : a.Takes e)
    (hcreator : a = .exofork cur e ∨ a = .thread cur e) (hne : cur ≠ e)
    (hcur : InProcess s pid cur) (hs : maxPriority s pid ≤ b) : maxPriority s' pid ≤ b := by
  obtain ⟨henvs, hcurenv⟩ := h.frame_of_takes ha
  have hprio := h.inherits _ _ hcreator hne
  rw [maxPriority_le_iff] at hs ⊢
  intro t ht
  by_cases hte : t = e
  · rw [hte, hprio]
    exact hs cur hcur
  · rw [henvs t hte]
    refine hs t ?_
    simpa only [InProcess, Kernel.alive, henvs t hte, hcurenv] using ht

/-- The slot that this trap may hand out. -/
def Fresh (s : Kernel) (tf : Trapframe) (t : Slot) : Prop :=
  (Calls tf .exofork ∨ Calls tf .threadCreate) ∧ s.envFreeList = some t

/-- What holds all along a trap: the bound, and the identities of the slots not handed out. -/
structure Bounded (s₀ : Kernel) (tf : Trapframe) (pid : Word) (b : ℕ) (s : Kernel) : Prop where
  max_le : maxPriority s pid ≤ b
  who : ∀ t, ¬ Fresh s₀ tf t → (s.envs t).who = (s₀.envs t).who

/-- `sys_setpriority` keeps the bound: nobody raises itself, and what a child of the same
process gets is bounded by hypothesis. -/
theorem Bounded.priority {s₀ : Kernel} {tf : Trapframe} {cur t : Slot} {p : Word}
    (hbound : maxPriority s₀ pid ≤ b) (hboost : (Event.trap c {} tf).NoBoost s₀ pid)
    (ha : Allowed c s₀ tf (.priority cur t p)) (hmicro : Micro c (.priority cur t p) s s')
    (h : Bounded s₀ tf pid b s) : Bounded s₀ tf pid b s' := by
  cases ha with
  | destroy _ hdestroy => exact absurd hdestroy id
  | priority hcall hcur ht =>
      cases hmicro with
      | priority hcur' htarget hmax hself =>
          have hwho := fun e => modEnv_proj (s := s) (e := t) (t := e) Env.who
            (f := fun env => { env with envPriority := tf.tfRegs.regEcx }) fun _ => rfl
          have hfresh : ∀ e, ¬ Fresh s₀ tf e := by
            rintro e ⟨hcall' | hcall', -⟩ <;> exact absurd (hcall.unique hcall') (by decide)
          refine ⟨?_, fun e he => ?_⟩
          · rw [maxPriority_le_iff]
            intro e he
            have hin : InProcess s pid e :=
              inProcess_of_who (hwho e) (alive_modEnv htarget.alive he.1) he
            by_cases het : e = t
            · subst het
              rw [Kernel.modEnv_self]
              by_cases hce : cur = e
              · have hle := BitVec.not_lt.mp (hself hce)
                exact le_trans hle (maxPriority_le_iff.mp h.max_le e hin)
              · refine le_trans ?_ hbound
                refine hboost.1 hcall (BitVec.not_lt.mp hmax) e ht ?_ ?_
                · rw [hcur]
                  exact fun heq => hce (Option.some.inj heq)
                · exact inProcess_of_who (h.who e (hfresh e)) (target_of_envid2env ht).alive hin
            · rw [Kernel.modEnv_ne _ _ het]
              exact maxPriority_le_iff.mp h.max_le e hin
          · exact (hwho e).trans (h.who e he)

/-- Every allowed action keeps the bound. -/
theorem Bounded.micro {s₀ : Kernel} {tf : Trapframe} (hbound : maxPriority s₀ pid ≤ b)
    (hproc : tf.tfTrapno = T_SYSCALL → ∃ cur, s₀.curenv c = some cur ∧ InProcess s₀ pid cur)
    (hboost : (Event.trap c {} tf).NoBoost s₀ pid) (ha : Allowed c s₀ tf a)
    (hmicro : Micro c a s s') (h : Bounded s₀ tf pid b s) : Bounded s₀ tf pid b s' := by
  have hsys : ∀ no, Calls tf no → ∃ cur, s₀.curenv c = some cur ∧ InProcess s₀ pid cur :=
    fun no hcall => hproc hcall.1
  by_cases halloc : a.Allocates
  · -- only `sys_exofork` and `sys_thread_create` allocate, for a caller in the process
    have hkeep : ∀ {cur e}, s₀.curenv c = some cur → s.curenv c = some cur → a.Takes e →
        (a = .exofork cur e ∨ a = .thread cur e) → Fresh s₀ tf e →
        Bounded s₀ tf pid b s' := by
      intro cur e hcur hcur' htakes hact hfresh
      have hne : cur ≠ e := by
        rintro rfl
        exact hboost.2 hfresh.1 (hfresh.2.trans hcur.symm)
      have hold : ¬ Fresh s₀ tf cur := fun hf => hne (Option.some.inj (hf.2.symm.trans hfresh.2))
      obtain ⟨cur', hcur'', hin⟩ := hfresh.1.elim (hsys _) (hsys _)
      obtain rfl := Option.some.inj (hcur.symm.trans hcur'')
      have hin := inProcess_of_who (h.who cur hold).symm (alive_of_curenv hcur') hin
      refine ⟨hmicro.maxPriority_le_of_takes htakes hact hne hin h.max_le, fun t ht => ?_⟩
      have hte : t ≠ e := by
        rintro rfl
        exact ht hfresh
      rw [(hmicro.frame_of_takes htakes).1 t hte]
      exact h.who t ht
    cases ha with
    | exofork hcall hcur hfree =>
        cases hmicro with
        | exofork hcur' _ =>
            exact hkeep hcur hcur' rfl (.inl rfl) ⟨.inl hcall, hfree⟩
    | thread hcall hcur hfree =>
        cases hmicro with
        | thread hcur' _ _ _ _ _ _ =>
            exact hkeep hcur hcur' rfl (.inr rfl) ⟨.inr hcall, hfree⟩
    | destroy _ hdestroy => cases a <;> first | exact absurd halloc id | exact absurd hdestroy id
    | _ => exact absurd halloc id
  · by_cases hpriority : ∃ cur t p, a = .priority cur t p
    · obtain ⟨cur, t, p, rfl⟩ := hpriority
      exact h.priority hbound hboost ha hmicro
    · have hpriority : ∀ cur t p, a ≠ .priority cur t p := fun cur t p heq =>
        hpriority ⟨cur, t, p, heq⟩
      refine ⟨hmicro.maxPriority_le halloc hpriority h.max_le, fun t ht => ?_⟩
      exact (Prod.mk.inj (hmicro.rank halloc hpriority t)).1.trans (h.who t ht)

/-- Outside traps nothing allocates or sets a priority. -/
theorem Act.IsIdle.neutral (h : a.IsIdle) :
    ¬ a.Allocates ∧ ∀ cur t p, a ≠ .priority cur t p := by
  cases a <;> first | exact absurd h id | exact ⟨id, fun _ _ _ => Act.noConfusion⟩

theorem Departs.maxPriority_le {L : Act → Prop} (h : Departs c L s s')
    (hs : maxPriority s pid ≤ b) :
    maxPriority s' pid ≤ b := by
  rw [maxPriority_le_iff] at hs ⊢
  intro e he
  obtain ⟨hwho, hprio⟩ := Prod.mk.inj (h.rank e)
  rw [hprio]
  exact hs e (inProcess_of_who hwho (h.alive he.1) he)

theorem maxPriority_idle {x : Exit} (h : x.Path c Act.IsIdle s) (hx : x = .leave s')
    (hs : maxPriority s pid ≤ b) : maxPriority s' pid ≤ b :=
  h.invariant (I := fun s => maxPriority s pid ≤ b) hx hs
    (fun _ _ _ ha hmicro hs => hmicro.maxPriority_le ha.neutral.1 ha.neutral.2 hs)
    fun _ _ hdep hs => hdep.maxPriority_le hs

/-- One step of the machine keeps the bound. -/
theorem maxPriority_step {ev : Event} (hstep : Step s ev s') (hproc : ev.FromProcess s pid)
    (hboost : ev.NoBoost s pid) (hs : maxPriority s pid ≤ b) : maxPriority s' pid ≤ b := by
  obtain ⟨henabled, hexec⟩ := hstep
  cases ev with
  | boot binary => exact absurd hproc id
  | start c =>
      exact maxPriority_idle (mpMain_path s) hexec hs
  | timer c =>
      exact maxPriority_idle (trapHalted_path s) hexec hs
  | trap c inp tf =>
      have hinv : Bounded s tf pid b s' :=
        (trap_path s inp tf).invariant hexec ⟨hs, fun _ _ => rfl⟩
          (fun a s₁ s₂ ha hmicro hs₁ => hs₁.micro hs hproc hboost ha hmicro)
          fun s₁ s₂ hdep hs₁ => ⟨hdep.maxPriority_le hs₁.max_le, fun t ht =>
            (Prod.mk.inj (hdep.rank t)).1.trans (hs₁.who t ht)⟩
      exact hinv.max_le
  | store c va byte =>
      obtain ⟨m, rfl⟩ := store_eq_setMem hexec
      exact hs

/-! ## Runs -/

/-- In a run whose system calls come from the process and its threads, and none of which lifts
another member above the priority the process already has, the highest priority in the
process's address space never grows. -/
theorem maxPriority_le_of_run {evs : List Event}
    (h : Trace (fun s ev s' => Step s ev s' ∧ ev.FromProcess s pid ∧ ev.NoBoost s pid) s evs s') :
    maxPriority s' pid ≤ maxPriority s pid :=
  h.invariant (I := fun s' => maxPriority s' pid ≤ maxPriority s pid) le_rfl
    fun _ _ _ hs hstep => maxPriority_step hstep.1 hstep.2.1 hstep.2.2 hs

/-! ## Runs found by evaluation -/

instance (s : Kernel) (pid : Word) (ev : Event) : Decidable (ev.FromProcess s pid) :=
  match ev with
  | .boot _ => inferInstanceAs (Decidable False)
  | .trap c _ tf =>
      decidable_of_iff (tf.tfTrapno = T_SYSCALL → ∃ cur, s.curenv c = some cur ∧
        InProcess s pid cur) Iff.rfl
  | .start _ | .timer _ | .store _ _ _ => inferInstanceAs (Decidable True)

instance (s : Kernel) (pid : Word) (ev : Event) : Decidable (ev.NoBoost s pid) :=
  match ev with
  | .trap _ _ _ => inferInstanceAs (Decidable (_ ∧ _))
  | .boot _ | .start _ | .timer _ | .store _ _ _ => inferInstanceAs (Decidable True)

/-- A process with a thread lowers its own priority, and yields. -/
theorem maxPriority_le_of_run_lowered : ∃ s s' : Kernel,
    Trace (fun s ev s' => Step s ev s' ∧ ev.FromProcess s firstEnv ∧ ev.NoBoost s firstEnv) s
      [sysTrap 0 .setpriority 0 5 0 0 0, sysTrap 0 .yield 0 0 0 0 0] s' ∧
    maxPriority s' firstEnv ≤ maxPriority s firstEnv := by
  obtain ⟨s, -, hs⟩ := exists_trace (fun _ _ => True) (bootedMachine .roundRobin 64) createThread
    (fun s => (replay (fun s ev => ev.FromProcess s firstEnv ∧ ev.NoBoost s firstEnv) s
      [sysTrap 0 .setpriority 0 5 0 0 0, sysTrap 0 .yield 0 0 0 0 0]).any fun _ => true)
    (by decide +kernel)
  obtain ⟨s', hrun, -⟩ := exists_trace _ _ _ _ hs
  exact ⟨s, s', hrun, maxPriority_le_of_run hrun⟩

/-- The loophole: the process gives its thread, which runs its own code, the highest priority
there is. -/
theorem maxPriority_boost : ¬ ∀ (s₀ s s' : Kernel) (pid : Word) (evs evs' : List Event),
    Booted s₀ → Trace Step s₀ evs s →
    Trace (fun s ev s' => Step s ev s' ∧ ev.FromProcess s pid) s evs' s' →
    maxPriority s' pid ≤ maxPriority s pid := by
  intro hclaim
  obtain ⟨s, hrun, hs⟩ := exists_trace (fun _ _ => True) (bootedMachine .roundRobin 64)
    createThread (fun s =>
      decide (∀ e, InProcess s firstEnv e → (s.envs e).envPriority.toNat ≤ 8) &&
      (replay (fun s ev => ev.FromProcess s firstEnv) s
        [sysTrap 0 .setpriority 0x1001 15 0 0 0]).any fun s' =>
          decide (InProcess s' firstEnv 1 ∧ (s'.envs 1).envPriority.toNat = 15))
    (by decide +kernel)
  rw [Bool.and_eq_true, decide_eq_true_iff] at hs
  obtain ⟨s', hrun', hs'⟩ := exists_trace _ _ _ _ hs.2
  rw [decide_eq_true_iff] at hs'
  have hle : maxPriority s firstEnv ≤ 8 := maxPriority_le_iff.mpr hs.1
  have hge := maxPriority_le_iff.mp (le_refl (maxPriority s' firstEnv)) 1 hs'.1
  have hbound := hclaim _ s s' firstEnv _ _
    (booted_bootedMachine .roundRobin (by decide) (by decide))
    (hrun.mono fun _ _ _ h => h.1) hrun'
  omega

end JosSched
