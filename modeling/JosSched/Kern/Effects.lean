import JosSched.Kern.Machine
import JosSched.Lib.Ensures

/-!
# What a stay in the kernel can do

Every function of the kernel is a sequence of a few primitive actions on its state.  `Micro`
lists them once, each with what the code has checked when it performs it, and a `Path` is a
sequence of them.  A CPU leaves the kernel at the end of a path, by a decision of the scheduler
or back to the environment it came from (`Departs`).  Invariants are proved per action; that the
functions only perform these actions is proved in `Kern/Paths.lean`.
-/

namespace JosSched

/-- The primitive actions. -/
inductive Act where
  /-- A CPU is marked as started. -/
  | start
  /-- The trap frame is copied into the current environment. -/
  | save (e : Slot) (tf : Trapframe)
  /-- The result of a system call is stored. -/
  | ret (e : Slot) (r : Word)
  /-- The saved frame of the current environment is sent to its page fault upcall. -/
  | redirect (e : Slot)
  /-- An environment running on another CPU becomes a zombie. -/
  | dying (t : Slot)
  | status (cur t : Slot) (status : EnvStatus)
  | deliver (cur t : Slot) (value : Word)
  | ipcPerm (t : Slot) (perm : Word)
  | recving (e : Slot)
  | block (e : Slot) (dstva : Word)
  | sleep (e : Slot) (n : Word)
  | priority (cur t : Slot) (priority : Word)
  | upcall (t : Slot) (func : Word)
  /-- The clock ticks and sleepers wake up. -/
  | tick
  /-- The scheduler is called while the current environment may still be running. -/
  | preempt
  /-- `env_alloc` for the kernel's own `env_create`. -/
  | create (e : Slot)
  | exofork (cur e : Slot)
  | thread (cur t : Slot)
  /-- A slot with this status is freed, and `curenv` forgotten when it was this one. -/
  | freeThread (t : Slot) (status : EnvStatus)
  | freeProcess (e : Slot) (status : EnvStatus)
  /-- A fresh page is mapped. -/
  | pageNew (env : Slot) (va perm : Word)
  /-- A page already mapped is mapped once more. -/
  | pageShare (src : Slot) (srcva : Word) (dst : Slot) (dstva perm : Word)
  | pageDrop (env : Slot) (va : Word)
  /-- The kernel stores bytes at user addresses. -/
  | kstore (env : Slot)
  | entry (e : Slot) (eip : Word)

/-- A page-aligned address below `UTOP`. -/
def UserPage (va : Word) : Prop := va < UTOP ∧ pgoff va = 0

instance (va : Word) : Decidable (UserPage va) := inferInstanceAs (Decidable (_ ∧ _))

/-- An environment the kernel may act on: the current one, or one that `envid2env` found. -/
def Target (c : Cpu) (s : Kernel) (t : Slot) : Prop :=
  s.curenv c = some t ∨ (s.envs t).envStatus ≠ .free

/-- `curenv = NULL`, when it is the environment just freed. -/
def forget (c : Cpu) (s : Kernel) (e : Slot) : Kernel :=
  if s.curenv c = some e then s.setCurenv c none else s

variable {c : Cpu}

/-- One primitive action of CPU `c`. -/
inductive Micro (c : Cpu) : Act → Kernel → Kernel → Prop
  | start {s} : Micro c .start s (started c s)
  | save {s e tf} : s.curenv c = some e →
      Micro c (.save e tf) s (s.modEnv e fun env => { env with envTf := tf })
  | ret {s e r} : s.curenv c = some e →
      Micro c (.ret e r) s (s.modEnv e fun env => { env with envTf := env.envTf.setEax r })
  | redirect {s e esp} : s.curenv c = some e → (s.envs e).envPgfaultUpcall ≠ 0 →
      Micro c (.redirect e) s (s.modEnv e fun env => { env with
        envTf := { env.envTf with tfEsp := esp, tfEip := env.envPgfaultUpcall } })
  | dying {s t} : (s.envs t).envStatus = .running → s.curenv c ≠ some t →
      Micro c (.dying t) s (s.modEnv t fun env => { env with envStatus := .dying })
  | status {s cur t st} : s.curenv c = some cur → Target c s t →
      st = .runnable ∨ st = .notRunnable →
      Micro c (.status cur t st) s (s.modEnv t fun env => { env with envStatus := st })
  | deliver {s cur t value} : s.curenv c = some cur → Target c s t →
      (s.envs t).envIpcRecving = true →
      Micro c (.deliver cur t value) s (ipcDeliver s cur t value)
  | ipcPerm {s t perm} : Target c s t → (s.envs t).envIpcRecving = true →
      Micro c (.ipcPerm t perm) s (setIpcPerm s t perm)
  | recving {s e} : s.curenv c = some e →
      Micro c (.recving e) s (s.modEnv e fun env => { env with envIpcRecving := true })
  | block {s e dstva} : s.curenv c = some e → UserPage dstva →
      Micro c (.block e dstva) s (s.modEnv e fun env => { env with
        envIpcDstva := dstva, envStatus := .notRunnable })
  | sleep {s e n} : s.curenv c = some e → n ≠ 0 →
      Micro c (.sleep e n) s (s.modEnv e fun env => { env with
        envSleepUntil := s.ticks + n
        envStatus := .notRunnable
        envTf := env.envTf.setEax 0 })
  | priority {s cur t p} : s.curenv c = some cur → Target c s t → ¬ ENV_PRIORITY_MAX < p →
      (cur = t → ¬ (s.envs t).envPriority < p) →
      Micro c (.priority cur t p) s (s.modEnv t fun env => { env with envPriority := p })
  | upcall {s t func} :
      Micro c (.upcall t func) s (s.modEnv t fun env => { env with envPgfaultUpcall := func })
  | tick {s} : Micro c .tick s (JosSched.tick s)
  | create {s s' e} : envAlloc s 0 = .ok (.ok e, s') → Micro c (.create e) s s'
  | exofork {s s₁ e cur} : s.curenv c = some cur →
      envAlloc s (s.envs cur).envId = .ok (.ok e, s₁) →
      Micro c (.exofork cur e) s (s₁.modEnv e fun env => { env with
        envStatus := .notRunnable
        envTf := (s₁.envs cur).envTf.setEax 0
        envPriority := (s₁.envs cur).envPriority })
  | thread {s s₁ s₂ t cur own shared entry ustackTop} : s.curenv c = some cur →
      entry < UTOP → ¬ UTOP < ustackTop →
      envAlloc s (if (s.envs cur).envType = .thread then (s.envs cur).envParentId
        else (s.envs cur).envId) = .ok (.ok t, s₁) →
      (s₁.envs t).envPgdir = some own → dropPgdir s₁ t own = .ok s₂ →
      (s₂.envs cur).envPgdir = some shared →
      Micro c (.thread cur t) s
        ((s₂.setMem (s₂.mem.setRef shared (s₂.mem.ref shared + 1))).modEnv t fun env => { env with
            envPgdir := some shared
            envType := .thread
            envPriority := (s₂.envs cur).envPriority
            envTf := { env.envTf with tfEip := entry, tfEsp := ustackTop } })
  | freeThread {s s' t} : (s.envs t).envType = .thread → Target c s t →
      ((s.envs t).envStatus = .running → s.curenv c = some t) →
      envFreeThread c s t = .ok s' → Micro c (.freeThread t (s.envs t).envStatus) s (forget c s' t)
  | freeProcess {s s' e} : (s.envs e).envType = .user → Target c s e →
      ((s.envs e).envStatus = .running → s.curenv c = some e) →
      (∀ t, isThreadOf s e t → (s.envs t).envStatus = .dying) →
      envFreeProcess c s e = .ok s' →
        Micro c (.freeProcess e (s.envs e).envStatus) s (forget c s' e)
  | pageNew {s env va perm zero pgdir p m₁ r m₂} : Target c s env →
      UserPage va ∨ va = (s.envs env).envIpcDstva → perm &&& ~~~PTE_SYSCALL = 0 →
      (s.envs env).envPgdir = some pgdir → pageAlloc s.mem zero = .ok (some p, m₁) →
      pageInsert m₁ pgdir p va perm = .ok (r, m₂) →
      Micro c (.pageNew env va perm) s (s.setMem m₂)
  | pageShare {s src srcva dst dstva perm srcdir dstdir p srcpte r m₂} :
      Target c s src → Target c s dst →
      UserPage srcva → UserPage dstva ∨ dstva = (s.envs dst).envIpcDstva →
      (s.envs src).envPgdir = some srcdir → (s.envs dst).envPgdir = some dstdir →
      pageLookup s.mem srcdir srcva = .ok (some (p, srcpte)) →
      (perm &&& PTE_W ≠ 0 → s.mem.load srcpte &&& PTE_W ≠ 0) →
      pageInsert s.mem dstdir p dstva perm = .ok (r, m₂) →
      Micro c (.pageShare src srcva dst dstva perm) s (s.setMem m₂)
  | pageDrop {s env va pgdir m₂} : Target c s env → UserPage va →
      (s.envs env).envPgdir = some pgdir → pageRemove s.mem pgdir va = .ok m₂ →
      Micro c (.pageDrop env va) s (s.setMem m₂)
  | kstore {s env va bytes pgdir m₂} : Target c s env →
      (s.envs env).envPgdir = some pgdir → va.toNat + bytes.length ≤ UTOP.toNat →
      kernStore s.mem pgdir va bytes = .ok m₂ →
      Micro c (.kstore env) s (s.setMem m₂)
  | entry {s e eip} : Micro c (.entry e eip) s
      (s.modEnv e fun env => { env with
        envTf := { env.envTf with tfEip := eip }, envType := .user })

/-- A sequence of primitive actions of CPU `c`, all of them in `L`. -/
def Path (c : Cpu) (L : Act → Prop) : Kernel → Kernel → Prop :=
  Relation.ReflTransGen fun s s' => ∃ a, L a ∧ Micro c a s s'

namespace Path

variable {L L' : Act → Prop} {s s₁ s₂ : Kernel}

theorem refl : Path c L s s := Relation.ReflTransGen.refl

theorem trans (h : Path c L s s₁) (h' : Path c L s₁ s₂) : Path c L s s₂ :=
  Relation.ReflTransGen.trans h h'

theorem step {a : Act} (h : Path c L s s₁) (ha : L a) (hstep : Micro c a s₁ s₂) :
    Path c L s s₂ :=
  Relation.ReflTransGen.tail h ⟨a, ha, hstep⟩

theorem single {a : Act} (ha : L a) (hstep : Micro c a s s₁) : Path c L s s₁ :=
  refl.step ha hstep

theorem mono (h : Path c L s s₁) (hL : ∀ a, L a → L' a) : Path c L' s s₁ :=
  Relation.ReflTransGen.mono (fun _ _ ⟨a, ha, hstep⟩ => ⟨a, hL a ha, hstep⟩) _ _ h

/-- The invariant rule: what every action keeps is kept by the path. -/
theorem invariant {I : Kernel → Prop} (h : Path c L s s₁) (h₀ : I s)
    (hstep : ∀ a s s', L a → Micro c a s s' → I s → I s') : I s₁ := by
  induction h with
  | refl => exact h₀
  | tail _ hs ih =>
      obtain ⟨a, ha, hmicro⟩ := hs
      exact hstep a _ _ ha hmicro ih

end Path

/-- How a CPU leaves the kernel. -/
inductive Departs (c : Cpu) (L : Act → Prop) (s : Kernel) : Kernel → Prop
  /-- `sched_yield` decides what it does next, on behalf of a running environment. -/
  | preempt {s'} : L .preempt → schedYield c s = .leave s' → Departs c L s s'
  /-- `sched_yield` decides, and the current environment, if any, has stopped running. -/
  | idle {s'} : (∀ cur, s.curenv c = some cur → (s.envs cur).envStatus ≠ .running) →
      schedYield c s = .leave s' → Departs c L s s'
  /-- The CPU goes back to the current environment. -/
  | resume {e s'} : s.curenv c = some e → envRun c s e = .leave s' → Departs c L s s'

theorem Departs.mono {L L' : Act → Prop} {s s' : Kernel} (h : Departs c L s s')
    (hL : ∀ a, L a → L' a) : Departs c L' s s' := by
  cases h with
  | preempt hp h => exact .preempt (hL _ hp) h
  | idle hcur h => exact .idle hcur h
  | resume hcur h => exact .resume hcur h

/-- The path a CPU takes until it leaves the kernel, or until `sched_halt` finds nothing to wait
for; nothing is said of a panic. -/
inductive Exit.Path (c : Cpu) (L : Act → Prop) (s : Kernel) : Exit → Prop
  | leave {s₁ s'} : JosSched.Path c L s s₁ → Departs c L s₁ s' → Exit.Path c L s (.leave s')
  | finished {s₁ s'} : JosSched.Path c L s s₁ → schedYield c s₁ = .stuck .noRunnable s' →
      Exit.Path c L s (.stuck .noRunnable s')
  | panic {why s'} : why ≠ .noRunnable → Exit.Path c L s (.stuck why s')

/-- The CPU has stopped in a panic. -/
def Exit.IsPanic (x : Exit) : Prop := ∃ why s, x = .stuck why s ∧ why ≠ .noRunnable

namespace Exit

variable {L L' : Act → Prop} {s s' : Kernel} {x : Exit}

theorem path_leave :
    Exit.Path c L s (.leave s') ↔ ∃ s₁, JosSched.Path c L s s₁ ∧ Departs c L s₁ s' :=
  ⟨fun h => by cases h with | leave hpath hdeparts => exact ⟨_, hpath, hdeparts⟩,
    fun ⟨_, hpath, hdeparts⟩ => .leave hpath hdeparts⟩

theorem Path.after (h : x.Path c L s') (hs : JosSched.Path c L s s') : x.Path c L s := by
  cases h with
  | leave h hdeparts => exact .leave (hs.trans h) hdeparts
  | finished h hyield => exact .finished (hs.trans h) hyield
  | panic hwhy => exact .panic hwhy

theorem Path.mono (h : x.Path c L s) (hL : ∀ a, L a → L' a) : x.Path c L' s := by
  cases h with
  | leave h hdeparts => exact .leave (JosSched.Path.mono h hL) (hdeparts.mono hL)
  | finished h hyield => exact .finished (JosSched.Path.mono h hL) hyield
  | panic hwhy => exact .panic hwhy

theorem isPanic_stuck {why : Panic} (h : why ≠ .noRunnable) : (Exit.stuck why s).IsPanic :=
  ⟨why, s, rfl, h⟩

theorem IsPanic.path (h : x.IsPanic) : x.Path c L s := by
  obtain ⟨why, s', rfl, hwhy⟩ := h
  exact .panic hwhy

theorem IsPanic.ne_leave (h : x.IsPanic) : x ≠ .leave s' := by
  obtain ⟨why, s', rfl, -⟩ := h
  exact Exit.noConfusion

/-- The invariant rule for a stay in the kernel. -/
theorem Path.invariant {I : Kernel → Prop} (h : x.Path c L s) (hx : x = .leave s') (h₀ : I s)
    (hstep : ∀ a s s', L a → Micro c a s s' → I s → I s')
    (hdeparts : ∀ s s', Departs c L s s' → I s → I s') : I s' := by
  subst hx
  obtain ⟨s₁, hpath, hdep⟩ := path_leave.mp h
  exact hdeparts s₁ s' hdep (hpath.invariant h₀ hstep)

end Exit

/-- A decision of the scheduler ends the path. -/
theorem schedYield_path_of {L : Act → Prop} {s : Kernel}
    (h : ∀ s', schedYield c s = .leave s' → Departs c L s s') : (schedYield c s).Path c L s := by
  cases hyield : schedYield c s with
  | leave s' => exact .leave .refl (h s' hyield)
  | stuck why s' =>
      by_cases hwhy : why = .noRunnable
      · subst hwhy
        exact .finished .refl hyield
      · exact .panic hwhy

theorem schedYield_path {L : Act → Prop} (s : Kernel) (hL : L .preempt) :
    (schedYield c s).Path c L s :=
  schedYield_path_of fun _ h => .preempt hL h

theorem schedYield_idle_path {L : Act → Prop} {s : Kernel}
    (hcur : ∀ cur, s.curenv c = some cur → (s.envs cur).envStatus ≠ .running) :
    (schedYield c s).Path c L s :=
  schedYield_path_of fun _ h => .idle hcur h

/-- Without a current environment nothing is running. -/
theorem schedYield_none_path {L : Act → Prop} {s : Kernel} :
    (schedYield c (s.setCurenv c none)).Path c L (s.setCurenv c none) := by
  refine schedYield_idle_path fun cur hcur => ?_
  rw [Kernel.setCurenv_curenv_self] at hcur
  cases hcur

/-- `env_run` switches to the environment, or panics when it has no page directory. -/
theorem envRun_stuck {s s' : Kernel} {e : Slot} {why : Panic} (h : envRun c s e = .stuck why s') :
    why ≠ .noRunnable := by
  unfold envRun at h
  dsimp only at h
  split at h <;> cases h
  exact Panic.noConfusion

theorem envRun_path {L : Act → Prop} {s : Kernel} {e : Slot} (hcur : s.curenv c = some e) :
    (envRun c s e).Path c L s := by
  cases h : envRun c s e with
  | leave s' => exact .leave .refl (.resume hcur h)
  | stuck why s' => exact .panic (envRun_stuck h)

end JosSched
