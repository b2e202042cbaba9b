import JosSched.Kern.Replay
import JosSched.Kern.Frame
import JosSched.Kern.BootPaths
import JosSched.Sched.Decision
import JosSched.Lib.SpinLock

/-!
# The big kernel lock

`trap`, `mp_main` and `i386_init` acquire the kernel's lock, and `env_run` and `sched_halt` release
it, far from there and on paths that never return.  Whether `trap` has to acquire it is decided by
the CPU's status, which `sched_halt` has set to `CPU_HALTED`, and by the privilege level of the
frame; one of the two is the case, and never both.

The machine of this file interleaves the reads and writes of the code of the lock, the exchanges of
the status, the code before the lock is acquired and after it has been released, user code, and the
work that the kernel does with the lock, which is that of `trap`, `sched_yield` and `env_create`.
-/

open Except

namespace JosSched

/-- What a CPU executes when it is not in the code of the lock; from there it returns here. -/
inductive Code where
  /-- An application processor that has not been started. -/
  | off
  /-- `i386_init`, after `lock_kernel`. -/
  | bootBody (binaries : List Image)
  /-- `mp_main`, before it sets `cpu_status`. -/
  | mpEntry
  /-- `mp_main`, after `lock_kernel`. -/
  | mpBody
  | user
  /-- `trap`, before it exchanges `cpu_status`. -/
  | trapEntry (inp : Input) (tf : Trapframe)
  /-- `trap`, before it tests the privilege level of the frame. -/
  | trapTest (inp : Input) (tf : Trapframe)
  /-- `trap`, after that test and, from user mode, `lock_kernel`. -/
  | trapBody (inp : Input) (tf : Trapframe)
  /-- `env_run`, after `unlock_kernel`. -/
  | runTail
  /-- `context_switch`. -/
  | popping
  /-- `sched_halt`, after `unlock_kernel`. -/
  | haltTail
  | halted
  /-- Stopped in `trap`, because another CPU has called `panic`. -/
  | frozen
  /-- In `panic`, or in the monitor that `sched_halt` enters. -/
  | stuck

/-- The machine, with the code that every CPU executes. -/
structure Smp where
  kern : Kernel
  lock : SpinLock Cpu := {}
  pc : Cpu → LockPc
  code : Cpu → Code
  /-- `panicstr` is set. -/
  panicked : Bool := false

/-- What can happen on a CPU. -/
inductive Move where
  /-- It executes its next instructions in the kernel. -/
  | advance
  /-- It traps from user mode. -/
  | trap (inp : Input) (tf : Trapframe)
  /-- A user store. -/
  | store (va : Word) (byte : BitVec 8)
  /-- The timer interrupts the halted CPU. -/
  | interrupt
  /-- `boot_aps` starts it. -/
  | startup

namespace Smp

variable (x : Smp) (c : Cpu)

def goto (code : Code) : Smp := { x with code := Function.update x.code c code }

/-- Calls `lock_kernel`, which returns to `code`. -/
def lockKernel (code : Code) : Smp :=
  { x.goto c code with pc := Function.update x.pc c .locking }

/-- Calls `unlock_kernel`, which returns to `code`. -/
def unlockKernel (code : Code) : Smp :=
  { x.goto c code with pc := Function.update x.pc c .unlocking }

/-- The next read or write of the code of the lock. -/
def lockStep : Smp :=
  let (lock, pc) := SpinLock.step c x.lock (x.pc c)
  { x with lock := lock, pc := Function.update x.pc c pc }

def setKern (s : Kernel) : Smp := { x with kern := s }

end Smp

/-- `env_run` before its last line: `env_cpunum` is as it was in `s`. -/
def deferCpunum (c : Cpu) (s s' : Kernel) : Kernel :=
  match s'.curenv c with
  | some e => s'.modEnv e fun env => { env with envCpunum := (s.envs e).envCpunum }
  | none => s'

/-- `curenv->env_cpunum = cpunum()`. -/
def recordCpunum (c : Cpu) (s : Kernel) : Kernel :=
  match s.curenv c with
  | some e => s.modEnv e fun env => { env with envCpunum := c }
  | none => s

/-- What the kernel does with the lock, until `env_run` or `sched_halt` calls `unlock_kernel`.  A
CPU that is stuck keeps the lock for good; what it leaves in memory is not followed. -/
def Smp.work (x : Smp) (c : Cpu) (exit : Exit) : Smp :=
  match exit with
  | .leave s' =>
      if (s'.cpus c).cpuStatus = .halted then (x.setKern s').unlockKernel c .haltTail
      else (x.setKern (deferCpunum c x.kern s')).unlockKernel c .runTail
  | .stuck why _ => { x.goto c .stuck with panicked := x.panicked || decide (why ≠ .noRunnable) }

/-- `i386_init` after `lock_kernel`: the first environments, and the scheduler. -/
def i386Init (c : Cpu) (binaries : List Image) (s : Kernel) : Exit :=
  finish (binaries.foldlM envCreate s) (schedYield c)

/-- The frame of the timer interrupt of a halted CPU. -/
def haltedFrame : Trapframe := { tfTrapno := IRQ_OFFSET + IRQ_TIMER, tfCs := GD_KT }

/-- The next step of the code outside of the lock. -/
def Smp.codeStep (x : Smp) (c : Cpu) : Option Smp :=
  match x.code c with
  | .mpEntry => some ((x.setKern (started c x.kern)).lockKernel c .mpBody)
  | .mpBody => some (x.work c (schedYield c x.kern))
  | .bootBody binaries => some (x.work c (i386Init c binaries x.kern))
  | .trapEntry inp tf =>
      if x.panicked then some (x.goto c .frozen)
      else
        let old := (x.kern.cpus c).cpuStatus
        let x := x.setKern (started c x.kern)
        if old = .halted then some (x.lockKernel c (.trapTest inp tf))
        else some (x.goto c (.trapTest inp tf))
  | .trapTest inp tf =>
      if tf.tfCs &&& 3 = 3 then some (x.lockKernel c (.trapBody inp tf))
      else some (x.goto c (.trapBody inp tf))
  | .trapBody inp tf =>
      if tf.tfCs &&& 3 = 3 then some (x.work c (trap c x.kern inp tf))
      else some (x.work c (trapHalted c x.kern))
  | .runTail => some ((x.setKern (recordCpunum c x.kern)).goto c .popping)
  | .popping => some (x.goto c .user)
  | .haltTail => some (x.goto c .halted)
  | .off | .user | .halted | .frozen | .stuck => none

/-- What a move of a CPU does, if it can happen. -/
def Smp.next (x : Smp) (c : Cpu) (move : Move) : Option Smp :=
  match move, x.code c with
  | .advance, _ => if (x.pc c).atRest then x.codeStep c else some (x.lockStep c)
  | .startup, .off => some (x.goto c .mpEntry)
  | .trap inp tf, .user => if tf.tfCs &&& 3 = 3 then some (x.goto c (.trapEntry inp tf)) else none
  | .store va byte, .user =>
      match storeByte x.kern.mem (x.kern.cpus c).cpuCr3 (PTE_U ||| PTE_W) va byte with
      | some m => some (x.setKern (x.kern.setMem m))
      | none => none
  | .interrupt, .halted => some (x.goto c (.trapEntry {} haltedFrame))
  | _, _ => none

/-- A step of the machine: one CPU moves. -/
def SmpStep (x : Smp) (move : Cpu × Move) (y : Smp) : Prop := x.next move.1 move.2 = some y

/-- The boot processor calls `lock_kernel` in `i386_init`; the others are off. -/
structure PoweredOn (bsp : Cpu) (binaries : List Image) (x : Smp) : Prop where
  kern : ∃ s, Booted s ∧ x.kern = started bsp s
  lock : x.lock = {}
  pc : x.pc = Function.update (fun _ => .outside) bsp .locking
  code : x.code = Function.update (fun _ => .off) bsp (.bootBody binaries)

variable {x y : Smp} {c d bsp : Cpu} {s s' : Kernel} {cpu : CpuInfo} {inp : Input} {tf : Trapframe}
  {code : Code} {p : LockPc} {binaries : List Image} {e t : Slot}

/-! ## What the kernel's work does to the CPUs -/

/-- A CPU that has left the kernel is in user mode with an environment, or halted without. -/
structure Left (c : Cpu) (s s' : Kernel) : Prop where
  others : ∀ d, d ≠ c → s'.cpus d = s.cpus d
  started : (s'.cpus c).cpuStatus ≠ .halted →
    (s'.cpus c).cpuStatus = .started ∧ (s'.cpus c).cpuEnv.isSome
  halted : (s'.cpus c).cpuStatus = .halted → (s'.cpus c).cpuEnv = none

theorem Path.cpus_ne {L : Act → Prop} (h : Path c L s s') (hd : d ≠ c) : s'.cpus d = s.cpus d := by
  refine h.invariant (I := fun s' => s'.cpus d = s.cpus d) rfl fun a s₁ s₂ _ hm hs => ?_
  exact (hm.cpus_ne hd).trans hs

theorem Path.started {L : Act → Prop} (h : Path c L s s')
    (hstarted : (s.cpus c).cpuStatus = .started) : (s'.cpus c).cpuStatus = .started := by
  refine h.invariant (I := fun s => (s.cpus c).cpuStatus = .started) hstarted ?_
  intro a s₁ s₂ _ hm hs
  by_cases ha : a = .start
  · subst ha
    cases hm
    simp [JosSched.started, Kernel.modCpu]
  · exact (hm.cpuStatus ha c).trans hs

theorem halted_left (c : Cpu) (s : Kernel) : Left c s (JosSched.halted c s) := by
  refine ⟨fun d hd => halted_cpus_ne hd, fun h => absurd ?_ h, fun _ => ?_⟩
  · simp [JosSched.halted, Kernel.modCpu]
  · simp [JosSched.halted, Kernel.modCpu, Kernel.lcr3, Kernel.setCurenv]

theorem Ran.left (h : Ran c s e s') (hstarted : (s.cpus c).cpuStatus = .started) : Left c s s' := by
  have hsome : (s'.cpus c).cpuEnv = some e := h.curenv
  refine ⟨h.frame, fun _ => ⟨h.cpuStatus.trans hstarted, ?_⟩, fun hhalted => ?_⟩
  · rw [hsome]
    rfl
  · rw [h.cpuStatus, hstarted] at hhalted
    cases hhalted

theorem Left.of_same {s₁ : Kernel} (h : Left c s₁ s') (hsame : ∀ d, d ≠ c → s₁.cpus d = s.cpus d) :
    Left c s s' :=
  ⟨fun d hd => (h.others d hd).trans (hsame d hd), h.started, h.halted⟩

theorem Decided.left (h : Decided c s s') (hstarted : (s.cpus c).cpuStatus = .started) :
    Left c s s' := by
  cases h with
  | ran hsame _ hran =>
      refine (hran.left ?_).of_same fun d _ => congrFun hsame.cpus d
      rw [congrFun hsame.cpus c]
      exact hstarted
  | halted hsame => exact (halted_left c _).of_same fun d _ => congrFun hsame.cpus d

theorem Exit.Path.left {L : Act → Prop} (h : Exit.Path c L s (.leave s'))
    (hstarted : (s.cpus c).cpuStatus = .started) : Left c s s' := by
  obtain ⟨s₁, hpath, hdep⟩ := Exit.path_leave.mp h
  refine Left.of_same ?_ fun d hd => hpath.cpus_ne hd
  rcases hdep.cases with hdec | ⟨e, -, hran⟩
  · exact hdec.left (hpath.started hstarted)
  · exact hran.left (hpath.started hstarted)

theorem trap_left (h : trap c s inp tf = .leave s') (hstarted : (s.cpus c).cpuStatus = .started) :
    Left c s s' :=
  Exit.Path.left (h ▸ trap_path s inp tf) hstarted

theorem trapHalted_left (h : trapHalted c s = .leave s')
    (hstarted : (s.cpus c).cpuStatus = .started) : Left c s s' :=
  Exit.Path.left (h ▸ trapHalted_path s) hstarted

theorem schedYield_left (h : schedYield c s = .leave s')
    (hstarted : (s.cpus c).cpuStatus = .started) : Left c s s' :=
  (schedYield_decided h).left hstarted

theorem envCreate_cpus {binary : Image} (h : envCreate s binary = .ok s') (d : Cpu) :
    s'.cpus d = s.cpus d := by
  -- the boot processor may be any other CPU
  obtain ⟨c, hc⟩ : ∃ c : Cpu, d ≠ c := by
    by_cases hd : d = 0
    · exact ⟨1, by rw [hd]; decide⟩
    · exact ⟨0, hd⟩
  obtain ⟨t, -, hpath⟩ := envCreate_path (c := c) h
  exact hpath.cpus_ne hc

theorem i386Init_left (h : i386Init c binaries s = .leave s')
    (hstarted : (s.cpus c).cpuStatus = .started) : Left c s s' := by
  unfold i386Init at h
  cases hboot : binaries.foldlM envCreate s with
  | ok s₁ =>
      rw [hboot] at h
      have hcpus : ∀ d, s₁.cpus d = s.cpus d := by
        clear h
        induction binaries generalizing s with
        | nil =>
            obtain rfl := Except.ok.inj hboot
            exact fun _ => rfl
        | cons binary rest ih =>
            rw [List.foldlM_cons] at hboot
            obtain ⟨s₂, hcreate, hrest⟩ := Except.bind_eq_ok.mp hboot
            have hcpus₂ := envCreate_cpus hcreate
            intro d
            exact (ih (by rw [hcpus₂]; exact hstarted) hrest d).trans (hcpus₂ d)
      have hleft : Left c s₁ s' := schedYield_left h (by rw [hcpus]; exact hstarted)
      exact hleft.of_same fun d _ => hcpus d
  | error exit =>
      -- `env_create` itself never leaves the kernel
      rw [hboot] at h
      obtain rfl : exit = .leave s' := h
      have hpanics : (binaries.foldlM envCreate s).Ensures (fun _ => True) Exit.IsPanic :=
        Ensures.foldlM (I := fun _ => True) binaries trivial fun _ _ _ _ => envCreate_panics
      obtain ⟨why, s₂, heq, -⟩ := hpanics.of_error _ hboot
      cases heq

/-! ## The discipline -/

/-- How the code of a CPU goes with its record and with the lock. -/
inductive CodeOk (cpu : CpuInfo) : Code → LockPc → Prop
  | off : CodeOk cpu .off .outside
  | bootBody {binaries : List Image} {p : LockPc} : p.acquires = true → cpu.cpuStatus = .started →
      CodeOk cpu (.bootBody binaries) p
  | mpEntry : CodeOk cpu .mpEntry .outside
  | mpBody {p : LockPc} : p.acquires = true → cpu.cpuStatus = .started → CodeOk cpu .mpBody p
  | user : cpu.cpuStatus = .started → cpu.cpuEnv.isSome → CodeOk cpu .user .outside
  | trapUser {inp : Input} {tf : Trapframe} : tf.tfCs &&& 3 = 3 → cpu.cpuStatus = .started →
      cpu.cpuEnv.isSome → CodeOk cpu (.trapEntry inp tf) .outside
  | trapHalted {inp : Input} {tf : Trapframe} : tf.tfCs &&& 3 ≠ 3 → cpu.cpuStatus = .halted →
      CodeOk cpu (.trapEntry inp tf) .outside
  | testUser {inp : Input} {tf : Trapframe} : tf.tfCs &&& 3 = 3 → cpu.cpuStatus = .started →
      cpu.cpuEnv.isSome → CodeOk cpu (.trapTest inp tf) .outside
  | testHalted {inp : Input} {tf : Trapframe} {p : LockPc} : tf.tfCs &&& 3 ≠ 3 →
      cpu.cpuStatus = .started → p.acquires = true → CodeOk cpu (.trapTest inp tf) p
  | trapBody {inp : Input} {tf : Trapframe} {p : LockPc} : p.acquires = true →
      cpu.cpuStatus = .started → (tf.tfCs &&& 3 = 3 → cpu.cpuEnv.isSome) →
      CodeOk cpu (.trapBody inp tf) p
  | runTail {p : LockPc} : p.releases = true → cpu.cpuStatus = .started → cpu.cpuEnv.isSome →
      CodeOk cpu .runTail p
  | popping : cpu.cpuStatus = .started → cpu.cpuEnv.isSome → CodeOk cpu .popping .outside
  | haltTail {p : LockPc} : p.releases = true → cpu.cpuStatus = .halted → cpu.cpuEnv = none →
      CodeOk cpu .haltTail p
  | halted : cpu.cpuStatus = .halted → cpu.cpuEnv = none → CodeOk cpu .halted .outside
  | frozen : CodeOk cpu .frozen .outside
  | stuck : CodeOk cpu .stuck .inside

/-- The lock is in order, and so is every CPU. -/
structure Disciplined (x : Smp) : Prop where
  lock : SpinLock.Valid x.lock x.pc
  code : ∀ c, CodeOk (x.kern.cpus c) (x.code c) (x.pc c)

/-- The code of the lock returns where it was called from. -/
theorem CodeOk.lockStep (h : CodeOk cpu code p) {l : SpinLock Cpu} (hrest : ¬ p.atRest = true)
    (hpanic : (SpinLock.step c l p).2 ≠ .panicked) : CodeOk cpu code (SpinLock.step c l p).2 := by
  have hacquires : p.acquires = true → (SpinLock.step c l p).2.acquires = true :=
    fun hp => SpinLock.step_acquires hp hpanic
  have hreleases : p.releases = true → (SpinLock.step c l p).2.releases = true :=
    fun hp => SpinLock.step_releases hp hpanic
  cases h with
  | bootBody hp hst => exact .bootBody (hacquires hp) hst
  | mpBody hp hst => exact .mpBody (hacquires hp) hst
  | testHalted hcs hst hp => exact .testHalted hcs hst (hacquires hp)
  | trapBody hp hst hcur => exact .trapBody (hacquires hp) hst hcur
  | runTail hp hst hcur => exact .runTail (hreleases hp) hst hcur
  | haltTail hp hst hcur => exact .haltTail (hreleases hp) hst hcur
  | off | mpEntry | user | trapUser | trapHalted | testUser | popping | halted | frozen | stuck =>
      exact absurd rfl hrest

/-- A move of one CPU leaves the others where they are. -/
theorem Disciplined.of_move (h : Disciplined x) (hlock : SpinLock.Valid y.lock y.pc)
    (hcode : CodeOk (y.kern.cpus c) (y.code c) (y.pc c))
    (hothers : ∀ d, d ≠ c → y.kern.cpus d = x.kern.cpus d ∧ y.code d = x.code d ∧
      y.pc d = x.pc d) : Disciplined y := by
  refine ⟨hlock, fun d => ?_⟩
  by_cases hd : d = c
  · rw [hd]
    exact hcode
  · obtain ⟨hcpu, hk, hpc⟩ := hothers d hd
    rw [hcpu, hk, hpc]
    exact h.code d

theorem Disciplined.lockStep (h : Disciplined x) (hrest : ¬ (x.pc c).atRest = true) :
    Disciplined (x.lockStep c) := by
  have hlock := h.lock.step c
  have hself : (x.lockStep c).pc c = (SpinLock.step c x.lock (x.pc c)).2 := Function.update_self ..
  refine h.of_move (c := c) hlock ?_ fun d hd => ⟨rfl, rfl, Function.update_of_ne hd _ _⟩
  have hpanic := hlock.unpanicked c
  rw [Function.update_self] at hpanic
  rw [hself]
  exact (h.code c).lockStep hrest hpanic

/-- A jump, with a kernel in which only the CPU's own record may have changed. -/
theorem Disciplined.goto (h : Disciplined x) (hcpus : ∀ d, d ≠ c → s.cpus d = x.kern.cpus d)
    (hcode : CodeOk (s.cpus c) code (x.pc c)) : Disciplined ((x.setKern s).goto c code) := by
  refine h.of_move (c := c) h.lock ?_ fun d hd => ⟨hcpus d hd, Function.update_of_ne hd _ _, rfl⟩
  have hself : ((x.setKern s).goto c code).code c = code := Function.update_self ..
  rw [hself]
  exact hcode

/-- A call of `lock_kernel` from outside. -/
theorem Disciplined.lockKernel (h : Disciplined x)
    (hcpus : ∀ d, d ≠ c → s.cpus d = x.kern.cpus d) (hpc : x.pc c = .outside)
    (hcode : CodeOk (s.cpus c) code .locking) :
    Disciplined ((x.setKern s).lockKernel c code) := by
  refine h.of_move (c := c) (h.lock.acquire hpc) ?_ fun d hd =>
    ⟨hcpus d hd, Function.update_of_ne hd _ _, Function.update_of_ne hd _ _⟩
  have hself : ((x.setKern s).lockKernel c code).code c = code := Function.update_self ..
  have hpc' : ((x.setKern s).lockKernel c code).pc c = .locking := Function.update_self ..
  rw [hself, hpc']
  exact hcode

/-- A call of `unlock_kernel` from inside. -/
theorem Disciplined.unlockKernel (h : Disciplined x)
    (hcpus : ∀ d, d ≠ c → s.cpus d = x.kern.cpus d) (hpc : x.pc c = .inside)
    (hcode : CodeOk (s.cpus c) code .unlocking) :
    Disciplined ((x.setKern s).unlockKernel c code) := by
  refine h.of_move (c := c) (h.lock.release hpc) ?_ fun d hd =>
    ⟨hcpus d hd, Function.update_of_ne hd _ _, Function.update_of_ne hd _ _⟩
  have hself : ((x.setKern s).unlockKernel c code).code c = code := Function.update_self ..
  have hpc' : ((x.setKern s).unlockKernel c code).pc c = .unlocking := Function.update_self ..
  rw [hself, hpc']
  exact hcode

theorem deferCpunum_cpus : (deferCpunum c s s').cpus = s'.cpus := by
  unfold deferCpunum
  split <;> rfl

theorem recordCpunum_cpus : (recordCpunum c s).cpus = s.cpus := by
  unfold recordCpunum
  split <;> rfl

/-- The kernel's work with the lock ends in front of `unlock_kernel`, or never. -/
theorem Disciplined.work (h : Disciplined x) (hpc : x.pc c = .inside) {exit : Exit}
    (hleft : ∀ s', exit = .leave s' → Left c x.kern s') : Disciplined (x.work c exit) := by
  cases exit with
  | stuck why s' =>
      refine h.of_move (c := c) h.lock ?_ fun d hd => ⟨rfl, Function.update_of_ne hd _ _, rfl⟩
      have hself : (x.work c (.stuck why s')).code c = .stuck := Function.update_self ..
      have hpc' : (x.work c (.stuck why s')).pc c = .inside := hpc
      rw [hself, hpc']
      exact .stuck
  | leave s' =>
      have hl := hleft s' rfl
      unfold Smp.work
      dsimp only
      split
      · next hhalted =>
          exact h.unlockKernel hl.others hpc (.haltTail rfl hhalted (hl.halted hhalted))
      · next hstarted =>
          obtain ⟨hst, hcur⟩ := hl.started hstarted
          refine h.unlockKernel ?_ hpc ?_
          · rw [deferCpunum_cpus]
            exact hl.others
          · rw [deferCpunum_cpus]
            exact .runTail rfl hst hcur

theorem started_cpus_ne (hd : d ≠ c) : (started c s).cpus d = s.cpus d := by
  simp [started, Kernel.modCpu, hd]

theorem started_self : ((started c s).cpus c).cpuStatus = .started ∧
    ((started c s).cpus c).cpuEnv = (s.cpus c).cpuEnv := by
  simp [started, Kernel.modCpu]

/-- The code outside of the lock's keeps the discipline. -/
theorem Disciplined.codeStep (h : Disciplined x) (hrest : (x.pc c).atRest = true)
    (hstep : x.codeStep c = some y) : Disciplined y := by
  have hok := h.code c
  have hothers : ∀ d, d ≠ c → (started c x.kern).cpus d = x.kern.cpus d := fun d hd =>
    started_cpus_ne hd
  obtain ⟨hstarted, hcur⟩ := started_self (c := c) (s := x.kern)
  have hself : x.setKern x.kern = x := rfl
  unfold Smp.codeStep at hstep
  generalize hpc : x.pc c = p at hok hrest
  cases hcode : x.code c with
  | off | user | halted | frozen | stuck =>
      rw [hcode] at hstep
      cases hstep
  -- bodies run inside the lock, and what they leave is for the tails
  | bootBody binaries =>
      rw [hcode] at hstep hok
      obtain rfl := Option.some.inj hstep
      cases hok with
      | bootBody hp hst =>
          rw [LockPc.eq_inside hp hrest] at hpc
          exact h.work hpc fun s' hs' => i386Init_left hs' hst
  | mpEntry =>
      rw [hcode] at hstep hok
      obtain rfl := Option.some.inj hstep
      cases hok with
      | mpEntry => exact h.lockKernel hothers hpc (.mpBody rfl hstarted)
  | mpBody =>
      rw [hcode] at hstep hok
      obtain rfl := Option.some.inj hstep
      cases hok with
      | mpBody hp hst =>
          rw [LockPc.eq_inside hp hrest] at hpc
          exact h.work hpc fun s' hs' => schedYield_left hs' hst
  -- a halted CPU takes the lock before it looks at the frame, the others after it
  | trapEntry inp tf =>
      rw [hcode] at hstep hok
      dsimp only at hstep
      split at hstep
      · obtain rfl := Option.some.inj hstep
        refine h.goto (s := x.kern) (fun _ _ => rfl) ?_
        cases hok <;> rw [hpc] <;> exact .frozen
      · cases hok with
        | trapUser hcs hst hsome =>
            rw [if_neg (by rw [hst]; exact CpuStatus.noConfusion)] at hstep
            obtain rfl := Option.some.inj hstep
            refine h.goto hothers ?_
            rw [hpc]
            exact .testUser hcs hstarted (hcur ▸ hsome)
        | trapHalted hcs hst =>
            rw [if_pos hst] at hstep
            obtain rfl := Option.some.inj hstep
            exact h.lockKernel hothers hpc (.testHalted hcs hstarted rfl)
  | trapTest inp tf =>
      rw [hcode] at hstep hok
      dsimp only at hstep
      cases hok with
      | testUser hcs hst hsome =>
          rw [if_pos hcs] at hstep
          obtain rfl := Option.some.inj hstep
          exact h.lockKernel (s := x.kern) (fun _ _ => rfl) hpc (.trapBody rfl hst fun _ => hsome)
      | testHalted hcs hst hp =>
          rw [if_neg hcs] at hstep
          obtain rfl := Option.some.inj hstep
          refine h.goto (s := x.kern) (fun _ _ => rfl) ?_
          rw [hpc]
          exact .trapBody hp hst fun hcs' => absurd hcs' hcs
  | trapBody inp tf =>
      rw [hcode] at hstep hok
      dsimp only at hstep
      cases hok with
      | trapBody hp hst hsome =>
          rw [LockPc.eq_inside hp hrest] at hpc
          split at hstep
          · obtain rfl := Option.some.inj hstep
            exact h.work hpc fun s' hs' => trap_left hs' hst
          · obtain rfl := Option.some.inj hstep
            exact h.work hpc fun s' hs' => trapHalted_left hs' hst
  -- the tails run without the lock and write nothing but `env_cpunum`
  | runTail =>
      rw [hcode] at hstep hok
      obtain rfl := Option.some.inj hstep
      cases hok with
      | runTail hp hst hsome =>
          rw [LockPc.eq_outside hp hrest] at hpc
          refine h.goto ?_ ?_
          · rw [recordCpunum_cpus]
            exact fun _ _ => rfl
          · rw [recordCpunum_cpus, hpc]
            exact .popping hst hsome
  | popping =>
      rw [hcode] at hstep hok
      obtain rfl := Option.some.inj hstep
      refine h.goto (s := x.kern) (fun _ _ => rfl) ?_
      cases hok with
      | popping hst hsome =>
          rw [hpc]
          exact .user hst hsome
  | haltTail =>
      rw [hcode] at hstep hok
      obtain rfl := Option.some.inj hstep
      refine h.goto (s := x.kern) (fun _ _ => rfl) ?_
      cases hok with
      | haltTail hp hst hnone =>
          rw [LockPc.eq_outside hp hrest] at hpc
          rw [hpc]
          exact .halted hst hnone

/-- Every move keeps the discipline. -/
theorem Disciplined.step {move : Cpu × Move} (h : Disciplined x) (hstep : SmpStep x move y) :
    Disciplined y := by
  obtain ⟨c, move⟩ := move
  have hok := h.code c
  unfold SmpStep Smp.next at hstep
  dsimp only at hstep
  split at hstep
  · -- the CPU executes its next instructions
    split at hstep
    · next hrest => exact h.codeStep hrest hstep
    · next hrest =>
        obtain rfl := Option.some.inj hstep
        exact h.lockStep hrest
  · next hcode =>
      obtain rfl := Option.some.inj hstep
      rw [hcode] at hok
      refine h.goto (s := x.kern) (fun _ _ => rfl) ?_
      generalize hpc : x.pc c = p at hok
      cases hok with
      | off => exact .mpEntry
  · next inp tf hcode =>
      split at hstep
      · next hcs =>
          obtain rfl := Option.some.inj hstep
          rw [hcode] at hok
          refine h.goto (s := x.kern) (fun _ _ => rfl) ?_
          generalize hpc : x.pc c = p at hok
          cases hok with
          | user hst hsome => exact .trapUser hcs hst hsome
      · cases hstep
  · -- user stores change memory only
    next va byte hcode =>
      split at hstep
      · obtain rfl := Option.some.inj hstep
        exact ⟨h.lock, h.code⟩
      · cases hstep
  · next hcode =>
      obtain rfl := Option.some.inj hstep
      rw [hcode] at hok
      refine h.goto (s := x.kern) (fun _ _ => rfl) ?_
      generalize hpc : x.pc c = p at hok
      cases hok with
      | halted hst _ => exact .trapHalted (by decide) hst
  · cases hstep

/-! ## Runs -/

theorem PoweredOn.disciplined (h : PoweredOn bsp binaries x) : Disciplined x := by
  obtain ⟨s, -, hkern⟩ := h.kern
  have hpc : ∀ c, c ≠ bsp → x.pc c = .outside := fun c hc => by
    rw [h.pc, Function.update_of_ne hc]
  have hbsp : x.pc bsp = .locking := by rw [h.pc, Function.update_self]
  have hnone : ∀ c, (x.pc c).holds = false ∧ (x.pc c).owns = false ∧ x.pc c ≠ .panicked := by
    intro c
    by_cases hc : c = bsp
    · rw [hc, hbsp]
      exact ⟨rfl, rfl, LockPc.noConfusion⟩
    · rw [hpc c hc]
      exact ⟨rfl, rfl, LockPc.noConfusion⟩
  refine ⟨⟨?_, fun c d hc => ?_, fun c => ?_, fun c => (hnone c).2.2⟩, fun c => ?_⟩
  · rw [h.lock]
    refine iff_of_false Bool.false_ne_true ?_
    rintro ⟨c, hc⟩
    rw [(hnone c).1] at hc
    cases hc
  · rw [(hnone c).1] at hc
    cases hc
  · rw [h.lock, (hnone c).2.1]
    exact iff_of_false (fun hc => by cases hc) Bool.false_ne_true
  · by_cases hc : c = bsp
    · rw [hc, hbsp, hkern, h.code, Function.update_self]
      exact .bootBody rfl started_self.1
    · rw [hpc c hc, h.code, Function.update_of_ne hc]
      exact .off

theorem disciplined_of_run {x₀ : Smp} {moves : List (Cpu × Move)}
    (hboot : PoweredOn bsp binaries x₀)
    (hrun : Trace SmpStep x₀ moves x) : Disciplined x :=
  hrun.invariant hboot.disciplined fun _ _ _ h hstep => h.step hstep

/-- The kernel's work between acquiring the lock and releasing it, or for good. -/
def Code.critical : Code → Bool
  | .bootBody _ | .mpBody | .trapBody _ _ | .stuck => true
  | _ => false

/-- In the kernel, past the point where the lock has been acquired. -/
def Code.inKernel : Code → Bool
  | .runTail | .popping | .haltTail => true
  | code => code.critical

/-- Not in the kernel. -/
def Code.away : Code → Bool
  | .user | .halted => true
  | _ => false

/-- The discipline of the big kernel lock. -/
structure BigKernelLock (x : Smp) : Prop where
  held : x.lock.locked = true ↔ ∃ c, (x.pc c).holds = true
  exclusive : ∀ c d, (x.pc c).holds = true → (x.pc d).holds = true → c = d
  critical : ∀ c, (x.code c).critical = true → (x.pc c).atRest = true →
    x.lock.locked = true ∧ x.lock.cpu = some c
  acquires : ∀ c, (x.pc c).waits = true → x.lock.cpu ≠ some c
  releases : ∀ c, (x.pc c).owns = true → x.lock.locked = true ∧ x.lock.cpu = some c
  unpanicked : ∀ c, x.pc c ≠ .panicked
  away : ∀ c, (x.code c).away = true → (x.pc c).holds = false ∧ x.lock.cpu ≠ some c

theorem Disciplined.bigKernelLock (h : Disciplined x) : BigKernelLock x := by
  have howns : ∀ c, (x.pc c).owns = true → x.lock.locked = true ∧ x.lock.cpu = some c :=
    fun c hc => ⟨h.lock.locked.mpr ⟨c, LockPc.holds_of_owns hc⟩, (h.lock.cpu c).mpr hc⟩
  refine ⟨h.lock.locked, h.lock.unique, fun c hcritical hrest => ?_, fun c hwaits => ?_, howns,
    h.lock.unpanicked, fun c haway => ?_⟩
  · have hok := h.code c
    refine howns c ?_
    generalize x.pc c = p at hok hrest
    generalize x.code c = code at hok hcritical
    cases hok with
    | bootBody hp | mpBody hp | trapBody hp => rw [LockPc.eq_inside hp hrest]; rfl
    | stuck => rfl
    | _ => exact absurd hcritical Bool.false_ne_true
  · rw [Ne, h.lock.cpu c]
    generalize x.pc c = p at hwaits
    cases p with
    | locking | lockingCpu | spinning => exact Bool.false_ne_true
    | _ => exact absurd hwaits Bool.false_ne_true
  · have hok := h.code c
    rw [Ne, h.lock.cpu c]
    generalize x.pc c = p at hok
    generalize x.code c = code at hok haway
    cases hok with
    | user | halted => exact ⟨rfl, Bool.false_ne_true⟩
    | _ => exact absurd haway Bool.false_ne_true

/-- In every interleaving of the CPUs, from the boot processor's first `lock_kernel`: the lock is
held by exactly the CPU between its acquire and its release, the kernel's work in between runs with
the lock, nobody acquires it twice or releases it without holding it, and a CPU in user mode or
halted does not hold it. -/
theorem kernel_lock_discipline {x₀ : Smp} {moves : List (Cpu × Move)}
    (hboot : PoweredOn bsp binaries x₀) (hrun : Trace SmpStep x₀ moves x) : BigKernelLock x :=
  (disciplined_of_run hboot hrun).bigKernelLock

/-! ## A spinning CPU, and the end of `env_run` -/

/-- The machine when the boot processor calls `lock_kernel`, with one program to start. -/
def poweredOn : Smp where
  kern := started 0 (bootedMachine .roundRobin 64)
  pc := Function.update (fun _ => .outside) 0 .locking
  code := Function.update (fun _ => .off) 0 (.bootBody [emptyImage])

theorem poweredOn_poweredOn : PoweredOn 0 [emptyImage] poweredOn :=
  ⟨⟨_, booted_bootedMachine .roundRobin (n := 64) (by decide) (by decide), rfl⟩, rfl, rfl, rfl⟩

/-- The boot processor has the lock, and another one wants it. -/
def contention : List (Cpu × Move) :=
  [(0, .advance), (1, .startup), (1, .advance), (0, .advance), (0, .advance), (1, .advance),
    (1, .advance), (1, .advance)]

theorem kernel_lock_discipline_contention : ∃ x, Trace SmpStep poweredOn contention x ∧
    x.lock.cpu = some 0 ∧ x.pc 1 = .spinning ∧ BigKernelLock x := by
  obtain ⟨x, hrun, hx⟩ := Trace.exists_of_foldlM (fun x move => Smp.next x move.1 move.2) poweredOn
    contention (fun x => decide (x.lock.cpu = some 0 ∧ x.pc 1 = .spinning)) (by decide +kernel)
  obtain ⟨hcpu, hpc⟩ := decide_eq_true_iff.mp hx
  exact ⟨x, hrun, hcpu, hpc, kernel_lock_discipline poweredOn_poweredOn hrun⟩

/-- The last line of `env_run` runs without the lock. -/
theorem env_run_tail_unlocked : ¬ ∀ (bsp : Cpu) (binaries : List Image) (x₀ x : Smp)
    (moves : List (Cpu × Move)), PoweredOn bsp binaries x₀ → Trace SmpStep x₀ moves x →
    ∀ c, (x.code c).inKernel = true → (x.pc c).atRest = true →
      x.lock.locked = true ∧ x.lock.cpu = some c := by
  intro hclaim
  obtain ⟨x, hrun, hx⟩ := Trace.exists_of_foldlM (fun x move => Smp.next x move.1 move.2) poweredOn
    (List.replicate 8 (0, .advance)) (fun x => (x.code 0).inKernel && (x.pc 0).atRest &&
      !x.lock.locked) (by decide +kernel)
  simp only [Bool.and_eq_true, Bool.not_eq_true'] at hx
  obtain ⟨⟨hcode, hpc⟩, hfree⟩ := hx
  have hheld := (hclaim 0 _ _ x _ poweredOn_poweredOn hrun 0 hcode hpc).1
  rw [hfree] at hheld
  cases hheld

end JosSched
