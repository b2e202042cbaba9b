import JosSched.Inc.Mmu
import Mathlib.Algebra.GroupWithZero.Nat

/-!
# Environments

`inc/env.h` and `inc/trap.h`: the saved registers of an environment and the rest of
`struct Env`.  Padding fields and the useless `reg_oesp` are left out, and `env_link` points
to a slot of the table.
-/

namespace JosSched

/-- `LOG2NENV` is 10. -/
abbrev NENV : ℕ := 1024

instance : NeZero NENV := ⟨by decide⟩

/-- An index of `envs[]`, which is what a `struct Env *` is. -/
abbrev Slot := Fin NENV

/-- `ENVX(envid)`, the index part of an environment id. -/
def envx (envid : Word) : Slot := (envid.extractLsb' 0 10).toFin

def ENV_PRIORITY_MAX : Word := 15
def ENV_PRIORITY_DEFAULT : Word := 8

/-- `NPRIORITIES` is `ENV_PRIORITY_MAX + 1`. -/
abbrev NPRIORITIES : ℕ := 16

/-- Values of `env_status`. -/
inductive EnvStatus where
  | free
  | dying
  | runnable
  | running
  | notRunnable
  deriving DecidableEq, Repr

inductive EnvType where
  | user
  | thread
  deriving DecidableEq, Repr

/-- Registers as pushed by `pusha`. -/
structure PushRegs where
  regEdi : Word := 0
  regEsi : Word := 0
  regEbp : Word := 0
  regEbx : Word := 0
  regEdx : Word := 0
  regEcx : Word := 0
  regEax : Word := 0
  deriving DecidableEq

structure Trapframe where
  tfRegs : PushRegs := {}
  tfEs : BitVec 16 := 0
  tfDs : BitVec 16 := 0
  tfTrapno : Word := 0
  tfErr : Word := 0
  tfEip : Word := 0
  tfCs : BitVec 16 := 0
  tfEflags : Word := 0
  tfEsp : Word := 0
  tfSs : BitVec 16 := 0
  deriving DecidableEq

/-- The frame with `reg_eax` replaced, which is how a system call returns its result. -/
def Trapframe.setEax (tf : Trapframe) (r : Word) : Trapframe :=
  { tf with tfRegs := { tf.tfRegs with regEax := r } }

structure Env where
  envTf : Trapframe := {}
  envLink : Option Slot := none
  envId : Word := 0
  envParentId : Word := 0
  envType : EnvType := .user
  envStatus : EnvStatus := .free
  envRuns : Word := 0
  envCpunum : ℕ := 0
  envPgdir : Option Ppn := none
  envPgfaultUpcall : Word := 0
  envIpcRecving : Bool := false
  envIpcDstva : Word := 0
  envIpcValue : Word := 0
  envIpcFrom : Word := 0
  envIpcPerm : Word := 0
  envSleepUntil : Word := 0
  envPriority : Word := 0
  envWaitTicks : Word := 0

end JosSched
