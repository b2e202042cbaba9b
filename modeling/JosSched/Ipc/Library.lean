import JosSched.Ipc.Message

/-!
# The IPC library

`ipc_recv` and `ipc_send` of `lib/ipc.c`, as programs that any number of environments run on top
of the protocol of the kernel.  `ipc_recv` finds the message through `thisenv`, one variable for
all the threads of a process: `thisenv e` is the environment that it denotes when `e` reads it.
-/

namespace JosSched

/-- The arguments of `ipc_recv`: whether its pointers are non-null, and where a page goes. -/
structure RecvArgs where
  storeFrom : Bool
  storePerm : Bool
  pg : Word
  deriving DecidableEq

/-- The arguments of `ipc_send`. -/
structure SendArgs where
  toEnv : Word
  val : Word
  pg : Word
  perm : Word
  deriving DecidableEq

/-- `if (!pg) pg = (void *) UTOP`. -/
def SendArgs.start (a : SendArgs) : SendArgs := if a.pg = 0 then { a with pg := UTOP } else a

/-- Where a program is. -/
inductive IpcCall where
  | outside
  /-- `ipc_recv`, in `sys_ipc_recv`. -/
  | recv (a : RecvArgs)
  /-- `sys_ipc_recv` has returned 0. -/
  | readFrom (a : RecvArgs)
  | readPerm (a : RecvArgs) (fromEnv : Option Word)
  | readValue (fromEnv perm : Option Word)
  /-- `ipc_send`, before `sys_ipc_try_send`. -/
  | send (a : SendArgs)
  /-- Its target was not receiving. -/
  | retry (a : SendArgs)
  /-- `panic("ipc_send: %e", r)`. -/
  | panicked
  deriving DecidableEq

/-- What `ipc_recv` returns and stores. -/
structure Received where
  value : Word
  fromEnv : Option Word
  perm : Option Word

/-- A send that has succeeded.  Without a page its `perm` is 0. -/
structure Sent where
  dest : Slot
  value : Word
  sender : Word
  perm : Word

/-- An `ipc_recv` that has returned without error, and the number of the send that ended it. -/
structure Receipt where
  env : Slot
  got : Received
  send : Option ℕ

/-- The machine with the programs that run on it, and the history of their messages: the sends
that the kernel has carried out, how many calls of `ipc_send` have returned, the send that
woke each environment that is still in `ipc_recv`, and the calls of `ipc_recv` that have
returned. -/
structure LibState where
  machine : Tracked
  calls : Slot → IpcCall
  sends : List Sent
  sendsReturned : ℕ
  woken : Slot → Option ℕ
  received : List Receipt

/-- The programs after a stay in the kernel: a `sys_ipc_recv` may have returned. -/
def settleCalls (s : Kernel) (calls : Slot → IpcCall) (e : Slot) : IpcCall :=
  match calls e with
  | .recv a =>
      if s.Executing e then
        if (s.envs e).envTf.tfRegs.regEax = 0 then .readFrom a else .outside
      else .recv a
  | call => call

namespace LibState

variable (x : LibState)

def kernel : Kernel := x.machine.kernel

/-- The kernel has gone from `x.machine` to `t`, in a call of the current environment. -/
def settled (t : Tracked) (calls : Slot → IpcCall) : LibState :=
  { x with machine := t, calls := settleCalls t.kernel calls }

/-- The permission of a page that a send transfers, if it does. -/
def sentPerm (dest : Slot) (a : SendArgs) : Word :=
  if UTOP ≤ a.pg ∨ (x.kernel.envs dest).envIpcDstva = 0 then 0 else a.perm ||| PTE_U ||| PTE_P

/-- `sys_ipc_try_send` has carried out the send `msg`, if any. -/
def recordSend (a : SendArgs) : Option Message → LibState
  | some msg => { x with
      sends := x.sends ++ [⟨msg.dest, msg.value, msg.sender, x.sentPerm msg.dest a⟩]
      woken := Function.update x.woken msg.dest (some x.sends.length) }
  | none => x

/-- `ipc_send` looks at the result `r` of `sys_ipc_try_send`. -/
def sendResult (e : Slot) (a : SendArgs) (r : Word) : LibState :=
  if r = 0 then { x with
    calls := Function.update x.calls e .outside
    sendsReturned := x.sendsReturned + 1 }
  else if r = BitVec.ofInt 32 (-E_IPC_NOT_RECV) then
    { x with calls := Function.update x.calls e (.retry a) }
  else { x with calls := Function.update x.calls e .panicked }

/-- The next statement of `ipc_recv`, in environment `e`; `env` is what `thisenv` points to. -/
def read (e : Slot) (env : Env) : Option LibState :=
  match x.calls e with
  | .readFrom a =>
      let fromEnv := if a.storeFrom then some env.envIpcFrom else none
      some { x with calls := Function.update x.calls e (.readPerm a fromEnv) }
  | .readPerm a fromEnv =>
      let perm := if a.storePerm then some env.envIpcPerm else none
      some { x with calls := Function.update x.calls e (.readValue fromEnv perm) }
  | .readValue fromEnv perm => some { x with
      calls := Function.update x.calls e .outside
      woken := Function.update x.woken e none
      received := x.received ++ [⟨e, ⟨env.envIpcValue, fromEnv, perm⟩, x.woken e⟩] }
  | _ => none

end LibState

inductive LibEvent where
  /-- The clock, a CPU that starts, a store of a program, or a call outside of the library. -/
  | machine (ev : Event)
  /-- A call of `ipc_recv`. -/
  | recv (c : Cpu) (inp : Input) (tf : Trapframe) (a : RecvArgs)
  /-- A call of `ipc_send`. -/
  | send (c : Cpu) (a : SendArgs)
  /-- `sys_ipc_try_send` and `sys_yield` in the loop of `ipc_send`. -/
  | trySend (c : Cpu) (inp : Input) (tf : Trapframe) (a : SendArgs)
  | yield (c : Cpu) (inp : Input) (tf : Trapframe) (a : SendArgs)
  /-- `ipc_recv` reads from `thisenv`. -/
  | read (c : Cpu)

/-- The program that CPU `c` runs is outside of the library. -/
def LibState.OutsideOn (x : LibState) (c : Cpu) : Prop :=
  ∃ e, x.kernel.curenv c = some e ∧ x.calls e = .outside

/-- What may happen beside the calls of the library: the clock at any time, and other system
calls of programs that are outside of it. -/
def LibState.Beside (x : LibState) : Event → Prop
  | .boot _ => False
  | .trap c _ tf => ¬ Calls tf .ipcRecv ∧ ¬ Calls tf .ipcTrySend ∧
      (tf.tfTrapno = T_SYSCALL → x.OutsideOn c)
  | _ => True

/-- One step of the machine or of a program. -/
inductive LibStep (thisenv : Slot → Slot) (x : LibState) : LibEvent → LibState → Prop
  | machine {ev : Event} {t : Tracked} : x.Beside ev → IpcStep x.machine ev t →
      LibStep thisenv x (.machine ev) (x.settled t x.calls)
  | recv {c : Cpu} {inp : Input} {tf : Trapframe} {a : RecvArgs} {e : Slot} {t : Tracked} :
      x.kernel.curenv c = some e → x.calls e = .outside →
      Calls tf .ipcRecv → tf.tfRegs.regEdx = a.pg →
      IpcStep x.machine (.trap c inp tf) t →
      LibStep thisenv x (.recv c inp tf a) (x.settled t (Function.update x.calls e (.recv a)))
  | send {c : Cpu} {a : SendArgs} {e : Slot} :
      x.kernel.curenv c = some e → x.calls e = .outside →
      LibStep thisenv x (.send c a)
        { x with calls := Function.update x.calls e (.send a.start) }
  | trySend {c : Cpu} {inp : Input} {tf : Trapframe} {a : SendArgs} {e : Slot} {t : Tracked} :
      x.kernel.curenv c = some e → x.calls e = .send a →
      Calls tf .ipcTrySend → tf.tfRegs.regEdx = a.toEnv → tf.tfRegs.regEcx = a.val →
      tf.tfRegs.regEbx = a.pg → tf.tfRegs.regEdi = a.perm →
      IpcStep x.machine (.trap c inp tf) t →
      LibStep thisenv x (.trySend c inp tf a)
        (((x.recordSend a (Event.sent x.kernel (.trap c inp tf))).settled t x.calls).sendResult e a
          (t.kernel.envs e).envTf.tfRegs.regEax)
  | yield {c : Cpu} {inp : Input} {tf : Trapframe} {a : SendArgs} {e : Slot} {t : Tracked} :
      x.kernel.curenv c = some e → x.calls e = .retry a → Calls tf .yield →
      IpcStep x.machine (.trap c inp tf) t →
      LibStep thisenv x (.yield c inp tf a)
        (x.settled t (Function.update x.calls e (.send a)))
  | read {c : Cpu} {e : Slot} {y : LibState} :
      x.kernel.curenv c = some e → x.read e (x.kernel.envs (thisenv e)) = some y →
      LibStep thisenv x (.read c) y

/-! ## What the library promises -/

/-- What an `ipc_recv` has to return for a message. -/
structure Received.Matches (got : Received) (msg : Sent) : Prop where
  value : got.value = msg.value
  fromEnv : ∀ f, got.fromEnv = some f → f = msg.sender
  perm : ∀ p, got.perm = some p → p = msg.perm

def IpcCall.InRecv : IpcCall → Prop
  | .recv _ | .readFrom _ | .readPerm _ _ | .readValue _ _ => True
  | _ => False

/-- Every `ipc_recv` that has returned has returned the message of the one send that woke its
caller; and every `ipc_send` that has returned has made one send, whose receiver has returned
from one `ipc_recv` with it, or is still in that call. -/
structure EndToEnd (x : LibState) : Prop where
  received : ∀ r ∈ x.received, ∃ k msg, r.send = some k ∧ x.sends[k]? = some msg ∧
    msg.dest = r.env ∧ r.got.Matches msg
  once : (x.received.map Receipt.send).Nodup ∧
    ∀ e k, x.woken e = some k → some k ∉ x.received.map Receipt.send
  delivered : ∀ k < x.sends.length, some k ∈ x.received.map Receipt.send ∨
    ∃ e, x.woken e = some k ∧ (x.calls e).InRecv
  returned : x.sendsReturned = x.sends.length

/-- The condition: `ipc_recv` is called with a valid address, by the environment that `thisenv`
denotes; and a page is not sent to a receiver that wants none but asks for its permission, while
it still has one from an earlier message. -/
def LibEvent.Good (thisenv : Slot → Slot) (x : LibState) : LibEvent → Prop
  | .recv c _ _ a => UserPage a.pg ∧ ∀ e, x.kernel.curenv c = some e → thisenv e = e
  | .trySend c _ _ a => ∀ e r, envid2env c x.kernel a.toEnv false = .ok e →
      a.pg < UTOP → (x.kernel.envs e).envIpcDstva = 0 →
      x.calls e = .recv r → r.storePerm → (x.kernel.envs e).envIpcPerm = 0
  | _ => True

/-- Nobody is in the library yet. -/
def LibState.start (s : Kernel) : LibState :=
  ⟨.start s, fun _ => .outside, [], 0, fun _ => none, []⟩

end JosSched
