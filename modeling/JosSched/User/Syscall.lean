import JosSched.Kern.Syscall

/-!
# The user side of a system call

`lib/syscall.c`: the number goes in `eax`, the arguments in `edx`, `ecx`, `ebx`, `edi` and
`esi`, and `int T_SYSCALL` traps.
-/

namespace JosSched

/-- The number of a call in `inc/syscall.h`. -/
def Sysno.encode (no : Sysno) : Word := BitVec.ofNat 32 (Sysno.all.idxOf no)

theorem Sysno.decode_encode (no : Sysno) : Sysno.decode no.encode = some no := by
  cases no <;> rfl

/-- The frame a system call pushes, when the other registers are those of `tf`. -/
def sysFrame (tf : Trapframe) (no : Sysno) (a1 a2 a3 a4 a5 : Word) : Trapframe :=
  { tf with
    tfTrapno := T_SYSCALL
    tfCs := GD_UT ||| 3
    tfRegs := { tf.tfRegs with
      regEax := no.encode, regEdx := a1, regEcx := a2, regEbx := a3, regEdi := a4, regEsi := a5 } }

theorem calls_sysFrame {tf : Trapframe} {no : Sysno} {a1 a2 a3 a4 a5 : Word} :
    (sysFrame tf no a1 a2 a3 a4 a5).tfTrapno = T_SYSCALL ∧
      Sysno.decode (sysFrame tf no a1 a2 a3 a4 a5).tfRegs.regEax = some no :=
  ⟨rfl, no.decode_encode⟩

end JosSched
