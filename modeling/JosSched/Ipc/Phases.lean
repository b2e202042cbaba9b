import JosSched.Ipc.TrySend
import JosSched.Smp.Zombies

/-!
# The phases of a rendezvous

An environment is in user mode as far as the protocol goes, or it is inside a `sys_ipc_recv`:
suspended until a send reaches it, and then, with the message in its `struct Env`, until a CPU
runs it again.  The phase is read off the calls and their results (`Tracked.next`), never off
`env_ipc_recving`.  `EnvOk` is what the kernel keeps of an environment in each phase.
-/

open Except

namespace JosSched

/-- Where an environment stands. -/
inductive Phase where
  | user
  | receiving
  | delivered (value sender : Word)
  deriving DecidableEq

abbrev Phases := Slot → Phase

structure Message where
  dest : Slot
  value : Word
  sender : Word

/-- Some CPU executes the environment. -/
def Kernel.Executing (s : Kernel) (e : Slot) : Prop := ∃ d, s.curenv d = some e

instance (s : Kernel) (e : Slot) : Decidable (s.Executing e) :=
  inferInstanceAs (Decidable (∃ _, _))

/-! ## The phases change -/

/-- The message of a `sys_ipc_try_send` that returns 0. -/
def Event.sent (s : Kernel) : Event → Option Message
  | .trap c inp tf =>
      let r := tf.tfRegs
      match s.curenv c with
      | none => none
      | some cur =>
          if Calls tf .ipcTrySend ∧ (s.envs cur).envStatus ≠ .dying then
            match envid2env c s r.regEdx false, sysIpcTrySend c (saved c s cur tf) inp cur
                r.regEdx r.regEcx r.regEbx r.regEdi with
            | .ok dest, .ok (ret, _) =>
                if ret = 0 then some ⟨dest, r.regEcx, (s.envs cur).envId⟩ else none
            | _, _ => none
          else none
  | _ => none

/-- The environment that calls `sys_ipc_recv`. -/
def Event.receiver (s : Kernel) : Event → Option Slot
  | .trap c _ tf => if Calls tf .ipcRecv then s.curenv c else none
  | _ => none

/-- The phases once the event has done its work, before any CPU goes back to user mode. -/
def Event.phases (s : Kernel) (ev : Event) (g : Phases) : Phases :=
  match ev.sent s with
  | some msg => Function.update g msg.dest (.delivered msg.value msg.sender)
  | none =>
      match ev.receiver s with
      | some cur => Function.update g cur .receiving
      | none => g

/-- Whoever a CPU executes has left the kernel. -/
def settle (s : Kernel) (g : Phases) : Phases := fun e => if s.Executing e then .user else g e

/-- A kernel with the phases of its environments. -/
structure Tracked where
  kernel : Kernel
  phases : Phases

/-- The phases after a step to `s'`. -/
def Tracked.next (x : Tracked) (ev : Event) (s' : Kernel) : Tracked :=
  ⟨s', settle s' (ev.phases x.kernel x.phases)⟩

/-! ## What the kernel keeps -/

/-- An environment in phase `p`. -/
structure EnvOk (p : Phase) (env : Env) : Prop where
  alive : env.envStatus ≠ .dying
  awake : env.envStatus ≠ .notRunnable → env.envSleepUntil = 0
  flag : env.envIpcRecving = true ↔ p = .receiving
  receiving : p = .receiving → env.envStatus = .notRunnable ∧ env.envSleepUntil = 0
  delivered : ∀ v f, p = .delivered v f → env.envStatus = .runnable ∧ env.envIpcValue = v ∧
    env.envIpcFrom = f ∧ env.envTf.tfRegs.regEax = 0

namespace EnvOk

variable {p : Phase} {env env' : Env}

/-- In user mode, as far as the protocol goes. -/
theorem of_user (halive : env.envStatus ≠ .dying)
    (hawake : env.envStatus ≠ .notRunnable → env.envSleepUntil = 0)
    (hflag : env.envIpcRecving = false) : EnvOk .user env where
  alive := halive
  awake := hawake
  flag := by simp [hflag]
  receiving h := Phase.noConfusion h
  delivered _ _ h := Phase.noConfusion h

/-- Only these fields matter. -/
theorem congr (h : EnvOk p env) (hstatus : env'.envStatus = env.envStatus)
    (hsleep : env'.envSleepUntil = env.envSleepUntil)
    (hflag : env'.envIpcRecving = env.envIpcRecving)
    (hmsg : env'.envIpcValue = env.envIpcValue ∧ env'.envIpcFrom = env.envIpcFrom)
    (htf : p ≠ .user → env'.envTf = env.envTf) : EnvOk p env' where
  alive := hstatus ▸ h.alive
  awake := by
    rw [hstatus, hsleep]
    exact h.awake
  flag := hflag ▸ h.flag
  receiving hp := by
    rw [hstatus, hsleep]
    exact h.receiving hp
  delivered v f hp := by
    rw [hstatus, hmsg.1, hmsg.2, htf (hp ▸ Phase.noConfusion)]
    exact h.delivered v f hp

/-- Only an environment in user mode can be in any other state than ready or blocked. -/
theorem eq_user (h : EnvOk p env) (hrun : env.envStatus ≠ .runnable)
    (hblocked : env.envStatus ≠ .notRunnable) : p = .user := by
  cases p with
  | user => rfl
  | receiving => exact absurd (h.receiving rfl).1 hblocked
  | delivered v f => exact absurd (h.delivered v f rfl).1 hrun

/-- A sleeper that wakes up was not waiting for a message. -/
theorem wakeup {ticks : Word} (h : EnvOk p env) : EnvOk p (wakeup ticks env) := by
  unfold JosSched.wakeup
  split
  · exact h
  · next hsleep =>
      split
      · obtain ⟨hstatus, hslept⟩ := not_or.mp hsleep
        have hstatus := not_not.mp hstatus
        have hp : p = .user := by
          cases p with
          | user => rfl
          | receiving => exact absurd (h.receiving rfl).2 hslept
          | delivered v f =>
              have hrun := (h.delivered v f rfl).1
              rw [hstatus] at hrun
              cases hrun
        subst hp
        refine of_user (by simp) (fun _ => rfl) ?_
        have hflag := h.flag
        simpa using hflag
      · exact h

end EnvOk

/-- While CPU `c` is in the kernel: every environment is as its phase says, and those that the
other CPUs execute are in user mode. -/
structure Ready (c : Cpu) (s : Kernel) (g : Phases) : Prop where
  envOk : ∀ e, EnvOk (g e) (s.envs e)
  others : ∀ d, d ≠ c → ∀ e, s.curenv d = some e → g e = .user

variable {c : Cpu} {s s₁ s' : Kernel} {g : Phases} {cur : Slot} {tf : Trapframe}

namespace Ready

/-- Changing one environment. -/
theorem modEnv (h : Ready c s g) {e : Slot} {f : Env → Env} {p : Phase}
    (hok : EnvOk p (f (s.envs e))) (honly : OnlyHere c s e) :
    Ready c (s.modEnv e f) (Function.update g e p) where
  envOk t := by
    by_cases ht : t = e
    · rw [ht, Function.update_self, Kernel.modEnv_self]
      exact hok
    · rw [Function.update_of_ne ht, Kernel.modEnv_ne _ _ ht]
      exact h.envOk t
  others d hd t ht := by
    have hne : t ≠ e := fun heq => honly d hd (heq ▸ ht)
    rw [Function.update_of_ne hne]
    exact h.others d hd t ht

/-- Changing the current environment, which is in user mode. -/
theorem modEnv_user (h : Ready c s g) {e : Slot} {f : Env → Env} (hg : g e = .user)
    (hok : EnvOk .user (f (s.envs e))) : Ready c (s.modEnv e f) g where
  envOk t := by
    by_cases ht : t = e
    · rw [ht, hg, Kernel.modEnv_self]
      exact hok
    · rw [Kernel.modEnv_ne _ _ ht]
      exact h.envOk t
  others := h.others

theorem setMem (h : Ready c s g) (m : Mem) : Ready c (s.setMem m) g := ⟨h.envOk, h.others⟩

theorem tick (h : Ready c s g) : Ready c (tick s) g :=
  ⟨fun e => (h.envOk e).wakeup, h.others⟩

theorem started (h : Ready c s g) : Ready c (started c s) g :=
  ⟨h.envOk, fun d hd e he => h.others d hd e (started_curenv ▸ he)⟩

theorem saved (h : Ready c s g) (hg : g cur = .user) : Ready c (saved c s cur tf) g :=
  h.started.modEnv_user hg ((hg ▸ h.envOk cur).congr rfl rfl rfl ⟨rfl, rfl⟩ fun hp => absurd rfl hp)

/-- The result of a call goes into the frame of the caller, who is in user mode. -/
theorem ret (h : Ready c s g) (hg : g cur = .user) (r : Word) :
    Ready c (s.modEnv cur fun env => { env with envTf := env.envTf.setEax r }) g :=
  h.modEnv_user hg ((hg ▸ h.envOk cur).congr rfl rfl rfl ⟨rfl, rfl⟩ fun hp => absurd rfl hp)

end Ready

/-! ## Back to user mode -/

/-- What the end of a stay in the kernel does for the protocol. -/
structure Resumed (s' : Kernel) (g : Phases) : Prop where
  envOk : ∀ e, EnvOk (settle s' g e) (s'.envs e)
  receiving : ∀ e, g e = .receiving → ¬ s'.Executing e
  delivered : ∀ e v f, g e = .delivered v f → s'.Executing e →
    (s'.envs e).envIpcValue = v ∧ (s'.envs e).envIpcFrom = f ∧
      (s'.envs e).envTf.tfRegs.regEax = 0

theorem settle_of_executing {e : Slot} (h : s'.Executing e) : settle s' g e = .user := if_pos h

theorem settle_of_not_executing {e : Slot} (h : ¬ s'.Executing e) : settle s' g e = g e :=
  if_neg h

/-- An environment that keeps its fields keeps its phase, unless a CPU now executes it. -/
theorem EnvOk.settle {e : Slot} (h : EnvOk (g e) (s'.envs e))
    (huser : s'.Executing e → g e = .user) : EnvOk (settle s' g e) (s'.envs e) := by
  by_cases hexec : s'.Executing e
  · rw [settle_of_executing hexec]
    exact huser hexec ▸ h
  · rw [settle_of_not_executing hexec]
    exact h

theorem Ready.resumed_of_executing (h : Ready c s' g)
    (hcur : ∀ e, s'.curenv c = some e → g e = .user) : Resumed s' g := by
  have huser : ∀ e, s'.Executing e → g e = .user := by
    rintro e ⟨d, hd⟩
    by_cases hdc : d = c
    · exact hcur e (hdc ▸ hd)
    · exact h.others d hdc e hd
  refine ⟨fun e => (h.envOk e).settle (huser e), fun e hg hexec => ?_, fun e v f hg hexec => ?_⟩
  · rw [huser e hexec] at hg
    cases hg
  · rw [huser e hexec] at hg
    cases hg

theorem Ready.ran (h : Ready c s g) {e : Slot} (hran : Ran c s e s')
    (hready : (s.envs e).envStatus = .runnable ∨ (s.envs e).envStatus = .running) :
    Resumed s' g := by
  have hexec : s'.Executing e := ⟨c, hran.curenv⟩
  have hother : ∀ t, t ≠ e → s'.Executing t → g t = .user := by
    rintro t ht ⟨d, hd⟩
    by_cases hdc : d = c
    · rw [hdc, hran.curenv] at hd
      exact absurd (Option.some.inj hd).symm ht
    · rw [Kernel.curenv, hran.frame d hdc] at hd
      exact h.others d hdc t hd
  have hok := h.envOk e
  have hnot : (s.envs e).envStatus ≠ .notRunnable := by
    rcases hready with hst | hst <;> rw [hst] <;> decide
  have hnotrecv : g e ≠ .receiving := fun hg => hnot (hok.receiving hg).1
  refine ⟨fun t => ?_, fun t hg ht => ?_, fun t v f hg ht => ?_⟩
  · by_cases ht : t = e
    · rw [ht, settle_of_executing hexec, hran.envs e]
      refine .of_user (by simp) (fun _ => hok.awake hnot) ?_
      rw [← Bool.not_eq_true]
      exact fun hflag => hnotrecv (hok.flag.mp hflag)
    · have hokt := h.envOk t
      refine EnvOk.settle ?_ (hother t ht)
      rw [hran.envs t]
      by_cases hpre : s.curenv c = some t ∧ (s.envs t).envStatus = .running
      · -- the environment that was running becomes ready
        have hrunning : (s.envs t).envStatus ≠ .runnable ∧ (s.envs t).envStatus ≠ .notRunnable := by
          rw [hpre.2]
          decide
        have hg := hokt.eq_user hrunning.1 hrunning.2
        rw [hg]
        refine .of_user (by simp [ht, hpre]) (fun _ => hokt.awake hrunning.2) ?_
        rw [← Bool.not_eq_true]
        intro hflag
        have hrecv := hokt.flag.mp hflag
        rw [hg] at hrecv
        cases hrecv
      · exact hokt.congr (by simp [ht, hpre]) rfl rfl ⟨rfl, rfl⟩ fun _ => rfl
  · by_cases hte : t = e
    · exact hnotrecv (hte ▸ hg)
    · rw [hother t hte ht] at hg
      cases hg
  · by_cases hte : t = e
    · rw [hran.envs t]
      exact ((h.envOk t).delivered v f hg).2
    · rw [hother t hte ht] at hg
      cases hg

theorem Ready.congr (h : Ready c s g) (hsame : SameButWait s s₁) : Ready c s₁ g where
  envOk e := by
    rw [hsame.envs e]
    exact (h.envOk e).congr rfl rfl rfl ⟨rfl, rfl⟩ fun _ => rfl
  others d hd e he := by
    rw [Kernel.curenv, hsame.cpus] at he
    exact h.others d hd e he

/-- A scheduling decision runs no receiver, and lets the environments with a message return. -/
theorem Ready.decided (h : Ready c s g) (hdec : Decided c s s') : Resumed s' g := by
  cases hdec with
  | ran hsame hready hran =>
      refine (h.congr hsame).ran hran ?_
      rw [hsame.envs]
      exact hready.imp id And.right
  | halted hsame =>
      have h₁ := h.congr hsame
      refine Ready.resumed_of_executing (c := c) ⟨h₁.envOk, fun d hd e he => ?_⟩ fun e he => ?_
      · rw [halted_curenv_ne hd] at he
        exact h₁.others d hd e he
      · rw [halted_curenv_self] at he
        cases he

end JosSched
