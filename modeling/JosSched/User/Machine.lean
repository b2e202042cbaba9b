import JosSched.Kern.Trap
import JosSched.Lib.Bytes

/-!
# The processor in user mode

The registers and the memory that a program of an environment sees, and the instructions of
`lib/pfentry.S`.  Instructions carry the lengths of their encodings, so that `eip` moves as the
processor moves it.
-/

open Bytes

namespace JosSched

/-- What a program in user mode works on. -/
structure UserState where
  regs : PushRegs := {}
  eip : Word
  eflags : Word
  esp : Word
  mem : Bytes

/-! ## Flags -/

/-- The flags that `popf` writes in user mode: all but `IF`, `IOPL` and those of the system. -/
def FL_USER : Word := 0x244dd5

def FL_CF : Word := 0x1
def FL_PF : Word := 0x4
def FL_AF : Word := 0x10
def FL_ZF : Word := 0x40
def FL_SF : Word := 0x80
def FL_OF : Word := 0x800

/-- The flags an addition or a subtraction sets. -/
def FL_ARITH : Word := FL_CF ||| FL_PF ||| FL_AF ||| FL_ZF ||| FL_SF ||| FL_OF

/-- Replaces the flags of `mask`. -/
def setFlags (eflags mask w : Word) : Word := eflags &&& ~~~mask ||| w &&& mask

def flagIf (p : Prop) [Decidable p] (flag : Word) : Word := if p then flag else 0

/-- An even number of ones in the low byte. -/
def evenParity (w : Word) : Prop := ((List.range 8).countP fun i => w.getLsbD i) % 2 = 0

instance (w : Word) : Decidable (evenParity w) := inferInstanceAs (Decidable (_ = _))

/-- The flags of a result `r` of operands `a` and `b`, with the given carry and overflow. -/
def arithFlags (a b r : Word) (carry overflow : Bool) : Word :=
  flagIf carry FL_CF ||| flagIf (evenParity r) FL_PF ||| (a ^^^ b ^^^ r) &&& FL_AF |||
    flagIf (r = 0) FL_ZF ||| flagIf r.msb FL_SF ||| flagIf overflow FL_OF

def addFlags (a b : Word) : Word :=
  arithFlags a b (a + b) (BitVec.uaddOverflow a b) (a.saddOverflow b)

def subFlags (a b : Word) : Word :=
  arithFlags a b (a - b) (BitVec.usubOverflow a b) (a.ssubOverflow b)

/-! ## Instructions -/

/-- The instructions of `_pgfault_upcall`, with the operands they have there. -/
inductive Instr where
  /-- `pushl %esp` -/
  | pushlEsp
  /-- `movl a, %eax` -/
  | movlMemEax (a : Word)
  /-- `call *%eax` -/
  | callEax
  /-- `addl $4, %esp` -/
  | addlEsp
  /-- `movl off(%esp), %eax` -/
  | movlEspEax (off : Word)
  /-- `movl off(%esp), %ebx` -/
  | movlEspEbx (off : Word)
  /-- `subl $4, %ebx` -/
  | sublEbx
  /-- `movl %eax, 0(%ebx)` -/
  | movlEaxEbx
  /-- `movl %ebx, off(%esp)` -/
  | movlEbxEsp (off : Word)
  /-- `popl %eax` -/
  | poplEax
  | popal
  | popfl
  /-- `popl %esp` -/
  | poplEsp
  | ret

/-- Bytes of the encoding. -/
def Instr.length : Instr → Word
  | pushlEsp | poplEax | popal | popfl | poplEsp | ret => 1
  | callEax | movlEaxEbx => 2
  | addlEsp | sublEbx => 3
  | movlEspEax _ | movlEspEbx _ | movlEbxEsp _ => 4
  | movlMemEax _ => 5

/-- What `popal` loads from the stack; the word of `esp` is skipped. -/
def popRegs (mem : Bytes) (esp : Word) : PushRegs where
  regEdi := mem.readWord esp
  regEsi := mem.readWord (esp + 4)
  regEbp := mem.readWord (esp + 8)
  regEbx := mem.readWord (esp + 16)
  regEdx := mem.readWord (esp + 20)
  regEcx := mem.readWord (esp + 24)
  regEax := mem.readWord (esp + 28)

/-- The effect of an instruction, but for the step of `eip`. -/
def Instr.effect (s : UserState) : Instr → UserState
  | pushlEsp => { s with esp := s.esp - 4, mem := s.mem.writeWord (s.esp - 4) s.esp }
  | movlMemEax a => { s with regs.regEax := s.mem.readWord a }
  | callEax => { s with
      esp := s.esp - 4
      mem := s.mem.writeWord (s.esp - 4) s.eip
      eip := s.regs.regEax }
  | addlEsp => { s with esp := s.esp + 4, eflags := setFlags s.eflags FL_ARITH (addFlags s.esp 4) }
  | movlEspEax off => { s with regs.regEax := s.mem.readWord (s.esp + off) }
  | movlEspEbx off => { s with regs.regEbx := s.mem.readWord (s.esp + off) }
  | sublEbx => { s with
      regs.regEbx := s.regs.regEbx - 4
      eflags := setFlags s.eflags FL_ARITH (subFlags s.regs.regEbx 4) }
  | movlEaxEbx => { s with mem := s.mem.writeWord s.regs.regEbx s.regs.regEax }
  | movlEbxEsp off => { s with mem := s.mem.writeWord (s.esp + off) s.regs.regEbx }
  | poplEax => { s with regs.regEax := s.mem.readWord s.esp, esp := s.esp + 4 }
  | popal => { s with regs := popRegs s.mem s.esp, esp := s.esp + 32 }
  | popfl => { s with eflags := setFlags s.eflags FL_USER (s.mem.readWord s.esp), esp := s.esp + 4 }
  | poplEsp => { s with esp := s.mem.readWord s.esp }
  | ret => { s with eip := s.mem.readWord s.esp, esp := s.esp + 4 }

/-- Executes an instruction: `eip` already points to the next one when it takes effect. -/
def UserState.exec (s : UserState) (i : Instr) : UserState :=
  i.effect { s with eip := s.eip + i.length }

/-- Executes straight-line code. -/
def UserState.run (s : UserState) (code : List Instr) : UserState := code.foldl UserState.exec s

end JosSched
