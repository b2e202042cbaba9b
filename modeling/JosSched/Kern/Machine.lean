import JosSched.Kern.Trap
import JosSched.Lib.Trace
import JosSched.Lib.Chain

/-!
# The machine

The big kernel lock makes every stay in the kernel atomic, so a run of the machine is a
sequence of events: a CPU enters the kernel and leaves it again, or a user program stores a
byte.  The CPUs and the environments act in any order.
-/

namespace JosSched

inductive Event where
  /-- `env_create`, called by the boot processor before any CPU runs user code. -/
  | boot (binary : Image)
  /-- A CPU enters the scheduler for the first time. -/
  | start (c : Cpu)
  /-- A trap from user mode: a system call, an exception or an interrupt. -/
  | trap (c : Cpu) (inp : Input) (tf : Trapframe)
  /-- The clock interrupt on a halted CPU. -/
  | timer (c : Cpu)
  /-- A user-mode store of one byte.  Nothing above `UTOP` is writable by the user. -/
  | store (c : Cpu) (va : Word) (b : BitVec 8)

/-- The CPU runs user code. -/
def Kernel.inUser (s : Kernel) (c : Cpu) : Prop :=
  (s.cpus c).cpuStatus = .started ∧ (s.curenv c).isSome

/-- The event can happen in this state. -/
def Event.Enabled (s : Kernel) : Event → Prop
  | .boot _ => ∀ c, (s.cpus c).cpuStatus = .unused
  | .start c => (s.cpus c).cpuStatus = .unused
  | .trap c _ tf => s.inUser c ∧ tf.tfCs &&& 3 = 3
  | .timer c => (s.cpus c).cpuStatus = .halted
  | .store c va _ => s.inUser c ∧ va < UTOP

def Event.exec (s : Kernel) : Event → Exit
  | .boot binary => finish (envCreate s binary) .leave
  | .start c => mpMain c s
  | .trap c inp tf => JosSched.trap c s inp tf
  | .timer c => trapHalted c s
  | .store c va b =>
      match storeByte s.mem (s.cpus c).cpuCr3 (PTE_U ||| PTE_W) va b with
      | some m => .leave (s.setMem m)
      | none => .leave s

/-- A step of the machine. -/
def Step (s : Kernel) (ev : Event) (s' : Kernel) : Prop :=
  ev.Enabled s ∧ ev.exec s = .leave s'

/-- The state `mem_init` and `env_init` leave behind: every slot free and linked in order, no
CPU in the scheduler yet, and a free list of pages that the kernel does not use. -/
structure Booted (s : Kernel) : Prop where
  envs : ∀ e : Slot, s.envs e =
    { envLink := if h : e.val + 1 < NENV then some ⟨e.val + 1, h⟩ else none }
  envFreeList : s.envFreeList = some 0
  cpus : ∀ c, (s.cpus c).cpuStatus = .unused ∧ (s.cpus c).cpuEnv = none
  ticks : s.ticks = 0
  stats : s.stats = {}
  freePages : ∃ free : List Ppn, Chain (fun pp => (s.mem.pages pp).ppLink) s.mem.pageFreeList free ∧
    free.Nodup ∧ s.mem.kernPgdir ∉ free ∧
    ∀ pp ∈ free, pp.toNat < s.mem.npages ∧ s.mem.ref pp = 0
  /-- `kern/pmap.h`: the machine has at most 256MB, so `KADDR` reaches all of it. -/
  memory : s.mem.npages ≤ 2 ^ 16
  kernPgdir : ∀ k : Idx, k.val < PDX_UTOP → s.mem.load (s.mem.kernPgdir, k) = 0

end JosSched
