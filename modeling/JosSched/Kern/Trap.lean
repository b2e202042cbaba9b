import JosSched.Kern.Syscall

/-!
# Traps

`kern/trap.c`: from the saved frame to the function that handles it, and back to user mode.
-/

namespace JosSched

/-- Bytes of a word, least significant first. -/
def wordBytes (w : Word) : List (BitVec 8) :=
  [w.extractLsb' 0 8, w.extractLsb' 8 8, w.extractLsb' 16 8, w.extractLsb' 24 8]

/-- The `struct UTrapframe` of a fault, in memory order.  `reg_oesp` is pushed but unused. -/
def utrapframe (faultVa : Word) (tf : Trapframe) : List Word :=
  let r := tf.tfRegs
  [faultVa, tf.tfErr, r.regEdi, r.regEsi, r.regEbp, 0, r.regEbx, r.regEdx, r.regEcx, r.regEax,
    tf.tfEip, tf.tfEflags, tf.tfEsp]

/-- `sizeof(struct UTrapframe)`. -/
def UTF_SIZE : Word := 52

def exstk : Word := UXSTACKTOP - PGSIZE
def exstkTop : Word := UXSTACKTOP - 1

/-- Where the frame of a fault goes.  A recursive fault first leaves a scratch word below the
trap-time stack pointer. -/
def frameBase (m : Mem) (pgdir : Ppn) (esp : Word) : Except Panic (Word × Mem) :=
  if esp < exstk ∨ exstkTop < esp then .ok (exstkTop - UTF_SIZE, m)
  else (kernStore m pgdir (esp - 4) (wordBytes 0)).map fun m => (esp - 4 - UTF_SIZE, m)

/-- Pushes the frame of a fault on the user exception stack: the new stack pointer.  The
bounds are checked after the writes. -/
def pushUtrapframe (m : Mem) (pgdir : Ppn) (faultVa : Word) (tf : Trapframe) :
    Except Panic (Word × Mem) := do
  let (tmp, m) ← frameBase m pgdir tf.tfEsp
  let m ← kernStore m pgdir tmp ((utrapframe faultVa tf).flatMap wordBytes)
  if tmp < exstk ∨ exstkTop < tmp then .error .exceptionStackOverflow
  else return (tmp, m)

/-- `page_fault_handler`, for a fault of the current environment `cur`. -/
def pageFaultHandler (c : Cpu) (s : Kernel) (inp : Input) (cur : Slot) : Except Exit Kernel := do
  let env := s.envs cur
  if env.envPgfaultUpcall = 0 then envDestroy c s cur
  else
    let s ← userMemAssert c s cur exstk PGSIZE (PTE_U ||| PTE_W)
    let pgdir ← envPgdirOf s cur
    let (tmp, s) ← s.withMem (pushUtrapframe s.mem pgdir inp.cr2 env.envTf)
    let s := s.modEnv cur fun e => { e with
      envTf := { e.envTf with tfEsp := tmp, tfEip := e.envPgfaultUpcall } }
    .error (envRun c s cur)

/-- `ticks++`, and the sleepers whose time has come. -/
def tick (s : Kernel) : Kernel := schedWakeupSleeping { s with ticks := s.ticks + 1 }

/-- The clock interrupt. -/
def timerInterrupt (c : Cpu) (s : Kernel) : Exit := schedYield c (tick s)

/-- `trap_dispatch`, for a frame `tf` that trapped from user mode in `cur`. -/
def trapDispatch (c : Cpu) (s : Kernel) (inp : Input) (cur : Slot) (tf : Trapframe) :
    Except Exit Kernel :=
  let r := tf.tfRegs
  if tf.tfTrapno = T_BRKPT then .ok s
  else if tf.tfTrapno = T_PGFLT then pageFaultHandler c s inp cur
  else if tf.tfTrapno = T_SYSCALL then do
    let (ret, s) ← syscall c s inp cur (Sysno.decode r.regEax) r.regEdx r.regEcx r.regEbx
      r.regEdi r.regEsi
    return s.modEnv cur fun env => { env with envTf := env.envTf.setEax (BitVec.ofInt 32 ret) }
  else if tf.tfTrapno = IRQ_OFFSET + IRQ_SPURIOUS then .ok s
  else if tf.tfTrapno - IRQ_OFFSET = IRQ_TIMER then .error (timerInterrupt c s)
  else envDestroy c s cur

/-- The end of `trap`: back to the current environment, or to the scheduler. -/
def trapReturn (c : Cpu) (s : Kernel) : Exit :=
  match s.curenv c with
  | some cur =>
      if (s.envs cur).envStatus = .running then envRun c s cur else schedYield c s
  | none => schedYield c s

/-- What becomes of a function that may have left the kernel. -/
def finish (x : Except Exit Kernel) (k : Kernel → Exit) : Exit :=
  match x with
  | .ok s => k s
  | .error exit => exit

def started (c : Cpu) (s : Kernel) : Kernel :=
  s.modCpu c fun cpu => { cpu with cpuStatus := .started }

/-- `trap` with a frame pushed by a trap from user mode. -/
def trap (c : Cpu) (s : Kernel) (inp : Input) (tf : Trapframe) : Exit :=
  let s := started c s
  match s.curenv c with
  | none => .stuck .assertCurenv s
  | some cur =>
      if (s.envs cur).envStatus = .dying then
        finish (envFree c s cur) fun s => schedYield c (s.setCurenv c none)
      else
        let s := s.modEnv cur fun env => { env with envTf := tf }
        finish (trapDispatch c s inp cur tf) (trapReturn c)

/-- `trap` with the clock interrupt that wakes a halted CPU. -/
def trapHalted (c : Cpu) (s : Kernel) : Exit := timerInterrupt c (started c s)

/-- The way an application processor enters the scheduler (`mp_main`), and the boot processor
at the end of `i386_init`. -/
def mpMain (c : Cpu) (s : Kernel) : Exit := schedYield c (started c s)

end JosSched
