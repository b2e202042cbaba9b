import JosSched.Inc.Env
import Mathlib.Logic.Function.Basic

/-!
# The state of the kernel

The globals of `kern/`: physical memory with its `struct PageInfo` array, the table of
environments, the CPUs, the tick counter and the scheduler's statistics.

Kernel code either returns to its caller, or leaves the kernel for good (`env_run` and
`sched_halt` never return), or stays in it for ever (a panic, or the monitor).  A function
that can return is an `Except Exit`: `.error` carries the exit out through all its callers,
just as the stack of the kernel is dropped.  A function that never returns is an `Exit`.
-/

namespace JosSched

/-! ## Physical memory -/

structure PageInfo where
  ppLink : Option Ppn := none
  ppRef : BitVec 16 := 0

/-- Physical memory, as words of page frames, and the page allocator's data. -/
structure Mem where
  npages : ℕ
  pages : Ppn → PageInfo
  pageFreeList : Option Ppn
  phys : Ppn → Idx → Word
  kernPgdir : Ppn

/-- A pointer to a page table entry: the frame of the table and an index into it. -/
abbrev PteRef := Ppn × Idx

namespace Mem

/-- `*pte`. -/
def load (m : Mem) (pte : PteRef) : Word := m.phys pte.1 pte.2

/-- `*pte = w`. -/
def store (m : Mem) (pte : PteRef) (w : Word) : Mem :=
  { m with phys := Function.update m.phys pte.1 (Function.update (m.phys pte.1) pte.2 w) }

/-- Replaces the contents of a whole frame. -/
def fill (m : Mem) (pp : Ppn) (contents : Idx → Word) : Mem :=
  { m with phys := Function.update m.phys pp contents }

def ref (m : Mem) (pp : Ppn) : BitVec 16 := (m.pages pp).ppRef

def setRef (m : Mem) (pp : Ppn) (r : BitVec 16) : Mem :=
  { m with pages := Function.update m.pages pp { m.pages pp with ppRef := r } }

def setLink (m : Mem) (pp : Ppn) (next : Option Ppn) : Mem :=
  { m with pages := Function.update m.pages pp { m.pages pp with ppLink := next } }

end Mem

/-! ## Statistics of the scheduler -/

/-- `struct EnvStat`. -/
structure EnvStat where
  envId : Word := 0
  runs : Word := 0
  cputicks : Word := 0
  priority : Word := 0
  maxbonus : Word := 0
  deriving DecidableEq

/-- `struct SchedHistory`. -/
structure SchedHistory where
  envId : Word := 0
  tick : Word := 0
  priority : Word := 0
  effective : Word := 0
  deriving DecidableEq

abbrev SCHED_HISTORY_LEN : ℕ := 16

instance : NeZero SCHED_HISTORY_LEN := ⟨by decide⟩

/-- The statistics of `kern/sched.c`.  `recycled` collects the records printed by
`sched_run` when it takes a slot over ("finalizado, slot reciclado"), newest first. -/
structure SchedStats where
  schedCalls : Word := 0
  schedEnvStats : Slot → EnvStat := fun _ => {}
  schedHistory : Fin SCHED_HISTORY_LEN → SchedHistory := fun _ => {}
  schedHistoryCount : Word := 0
  schedPrioTicks : Fin NPRIORITIES → Word := fun _ => 0
  schedRunningId : Word := 0
  schedRunningPrio : Word := 0
  schedRunningSince : Word := 0
  recycled : List EnvStat := []

/-! ## The kernel -/

/-- `NCPU` is 8. -/
abbrev NCPU : ℕ := 8

instance : NeZero NCPU := ⟨by decide⟩

abbrev Cpu := Fin NCPU

/-- Values of `cpu_status`. -/
inductive CpuStatus where
  | unused
  | started
  | halted
  deriving DecidableEq, Repr

/-- `struct CpuInfo`, with the page directory the CPU has loaded (`lcr3`). -/
structure CpuInfo where
  cpuStatus : CpuStatus := .unused
  cpuEnv : Option Slot := none
  cpuCr3 : Ppn

/-- The policy the kernel was built with (`-DSCHED_ROUND_ROBIN` or `-DSCHED_PRIORITIES`). -/
inductive Policy where
  | roundRobin
  | priorities
  deriving DecidableEq, Repr

structure Kernel where
  policy : Policy
  mem : Mem
  envs : Slot → Env
  envFreeList : Option Slot
  cpus : Cpu → CpuInfo
  ticks : Word := 0
  stats : SchedStats := {}

namespace Kernel

/-- `curenv` on CPU `c` (`thiscpu->cpu_env`). -/
def curenv (s : Kernel) (c : Cpu) : Option Slot := (s.cpus c).cpuEnv

/-- Assigns through a `struct Env *`. -/
def modEnv (s : Kernel) (e : Slot) (f : Env → Env) : Kernel :=
  { s with envs := Function.update s.envs e (f (s.envs e)) }

def modCpu (s : Kernel) (c : Cpu) (f : CpuInfo → CpuInfo) : Kernel :=
  { s with cpus := Function.update s.cpus c (f (s.cpus c)) }

def setMem (s : Kernel) (m : Mem) : Kernel := { s with mem := m }

def setStats (s : Kernel) (st : SchedStats) : Kernel := { s with stats := st }

def setFreeList (s : Kernel) (e : Option Slot) : Kernel := { s with envFreeList := e }

/-- `curenv = e`. -/
def setCurenv (s : Kernel) (c : Cpu) (e : Option Slot) : Kernel :=
  s.modCpu c fun cpu => { cpu with cpuEnv := e }

/-- `lcr3(PADDR(pgdir))`. -/
def lcr3 (s : Kernel) (c : Cpu) (pgdir : Ppn) : Kernel :=
  s.modCpu c fun cpu => { cpu with cpuCr3 := pgdir }

variable (s : Kernel) (e t : Slot) (c d : Cpu) (f : Env → Env) (g : CpuInfo → CpuInfo) (m : Mem)
  (st : SchedStats) (l : Option Slot) (pgdir : Ppn)

@[simp] theorem modEnv_self : (s.modEnv e f).envs e = f (s.envs e) := by simp [modEnv]

theorem modEnv_apply : (s.modEnv e f).envs t = if t = e then f (s.envs t) else s.envs t := by
  by_cases h : t = e
  · subst h
    simp [modEnv]
  · simp [modEnv, h]

variable {e t} in
theorem modEnv_ne (h : t ≠ e) : (s.modEnv e f).envs t = s.envs t := by simp [modEnv, h]

@[simp] theorem modEnv_mem : (s.modEnv e f).mem = s.mem := rfl
@[simp] theorem modEnv_cpus : (s.modEnv e f).cpus = s.cpus := rfl
@[simp] theorem modEnv_curenv : (s.modEnv e f).curenv c = s.curenv c := rfl
@[simp] theorem modEnv_ticks : (s.modEnv e f).ticks = s.ticks := rfl
@[simp] theorem modEnv_policy : (s.modEnv e f).policy = s.policy := rfl
@[simp] theorem modEnv_stats : (s.modEnv e f).stats = s.stats := rfl
@[simp] theorem modEnv_envFreeList : (s.modEnv e f).envFreeList = s.envFreeList := rfl

@[simp] theorem setMem_mem : (s.setMem m).mem = m := rfl
@[simp] theorem setMem_envs : (s.setMem m).envs = s.envs := rfl
@[simp] theorem setMem_cpus : (s.setMem m).cpus = s.cpus := rfl
@[simp] theorem setMem_curenv : (s.setMem m).curenv c = s.curenv c := rfl
@[simp] theorem setMem_ticks : (s.setMem m).ticks = s.ticks := rfl
@[simp] theorem setMem_policy : (s.setMem m).policy = s.policy := rfl
@[simp] theorem setMem_stats : (s.setMem m).stats = s.stats := rfl
@[simp] theorem setMem_envFreeList : (s.setMem m).envFreeList = s.envFreeList := rfl

@[simp] theorem setStats_stats : (s.setStats st).stats = st := rfl
@[simp] theorem setStats_mem : (s.setStats st).mem = s.mem := rfl
@[simp] theorem setStats_envs : (s.setStats st).envs = s.envs := rfl
@[simp] theorem setStats_cpus : (s.setStats st).cpus = s.cpus := rfl
@[simp] theorem setStats_curenv : (s.setStats st).curenv c = s.curenv c := rfl
@[simp] theorem setStats_ticks : (s.setStats st).ticks = s.ticks := rfl
@[simp] theorem setStats_policy : (s.setStats st).policy = s.policy := rfl
@[simp] theorem setStats_envFreeList : (s.setStats st).envFreeList = s.envFreeList := rfl

@[simp] theorem setFreeList_envFreeList : (s.setFreeList l).envFreeList = l := rfl
@[simp] theorem setFreeList_mem : (s.setFreeList l).mem = s.mem := rfl
@[simp] theorem setFreeList_envs : (s.setFreeList l).envs = s.envs := rfl
@[simp] theorem setFreeList_cpus : (s.setFreeList l).cpus = s.cpus := rfl
@[simp] theorem setFreeList_curenv : (s.setFreeList l).curenv c = s.curenv c := rfl
@[simp] theorem setFreeList_ticks : (s.setFreeList l).ticks = s.ticks := rfl
@[simp] theorem setFreeList_policy : (s.setFreeList l).policy = s.policy := rfl

@[simp] theorem modCpu_mem : (s.modCpu c g).mem = s.mem := rfl
@[simp] theorem modCpu_envs : (s.modCpu c g).envs = s.envs := rfl
@[simp] theorem modCpu_ticks : (s.modCpu c g).ticks = s.ticks := rfl
@[simp] theorem modCpu_policy : (s.modCpu c g).policy = s.policy := rfl
@[simp] theorem modCpu_stats : (s.modCpu c g).stats = s.stats := rfl
@[simp] theorem modCpu_envFreeList : (s.modCpu c g).envFreeList = s.envFreeList := rfl

@[simp] theorem setCurenv_mem : (s.setCurenv c l).mem = s.mem := rfl
@[simp] theorem setCurenv_envs : (s.setCurenv c l).envs = s.envs := rfl
@[simp] theorem setCurenv_ticks : (s.setCurenv c l).ticks = s.ticks := rfl
@[simp] theorem setCurenv_policy : (s.setCurenv c l).policy = s.policy := rfl
@[simp] theorem setCurenv_stats : (s.setCurenv c l).stats = s.stats := rfl
@[simp] theorem setCurenv_envFreeList : (s.setCurenv c l).envFreeList = s.envFreeList := rfl

@[simp] theorem lcr3_mem : (s.lcr3 c pgdir).mem = s.mem := rfl
@[simp] theorem lcr3_envs : (s.lcr3 c pgdir).envs = s.envs := rfl
@[simp] theorem lcr3_ticks : (s.lcr3 c pgdir).ticks = s.ticks := rfl
@[simp] theorem lcr3_policy : (s.lcr3 c pgdir).policy = s.policy := rfl
@[simp] theorem lcr3_envFreeList : (s.lcr3 c pgdir).envFreeList = s.envFreeList := rfl

@[simp] theorem setCurenv_curenv_self : (s.setCurenv c l).curenv c = l := by
  simp [setCurenv, modCpu, curenv]

variable {c d} in
theorem setCurenv_curenv_ne (h : d ≠ c) : (s.setCurenv c l).curenv d = s.curenv d := by
  simp [setCurenv, modCpu, curenv, h]

theorem modCpu_curenv (h : ∀ cpu, (g cpu).cpuEnv = cpu.cpuEnv) :
    (s.modCpu c g).curenv d = s.curenv d := by
  by_cases hd : d = c
  · subst hd
    simp [modCpu, curenv, h]
  · simp [modCpu, curenv, hd]

@[simp] theorem lcr3_curenv : (s.lcr3 c pgdir).curenv d = s.curenv d :=
  modCpu_curenv s c d _ fun _ => rfl

end Kernel

/-! ## Leaving a kernel function -/

/-- Where the kernel stops for good. -/
inductive Panic where
  | pageFreeRef
  | pageFreeLink
  | pa2page
  | kaddr
  | paddr
  | kernelPageFault
  | exceptionStackOverflow
  | assertCurenv
  | regionAlloc
  | envCreate
  | noRunnable
  deriving DecidableEq, Repr

/-- How a CPU ends a stay in the kernel: it leaves, to user mode or halted, or it is stuck
(`noRunnable` is the monitor that `sched_halt` enters; the others are panics). -/
inductive Exit where
  | leave (s : Kernel)
  | stuck (why : Panic) (s : Kernel)

/-- Runs a function of `kern/pmap.c`, which knows only the memory. -/
def Kernel.withMem {α : Type} (s : Kernel) (x : Except Panic (α × Mem)) :
    Except Exit (α × Kernel) :=
  match x with
  | .ok (a, m) => .ok (a, s.setMem m)
  | .error why => .error (.stuck why s)

end JosSched
