import Mathlib.Data.BitVec
import Mathlib.Data.Fintype.Basic

/-!
# Words, addresses and page table entries

`inc/types.h`, `inc/mmu.h` and `inc/memlayout.h`.  A `uint32_t` is a `BitVec 32`; a
physical page is named by its 20-bit page number, so the top twenty bits of any entry
name some page and only `npages` decides whether the machine has it.
-/

namespace JosSched

/-- A `uint32_t`: also `int32_t`, `envid_t`, `pte_t`, `pde_t` and every address. -/
abbrev Word := BitVec 32

/-- A physical page number (`PGNUM` of a physical address). -/
abbrev Ppn := BitVec 20

/-! ## `inc/mmu.h` -/

/-- `NPDENTRIES` and `NPTENTRIES`: entries of a page directory and of a page table. -/
abbrev NPTENTRIES : ℕ := 1024

/-- An index into a page directory or a page table. -/
abbrev Idx := Fin NPTENTRIES

def PTE_P : Word := 0x001
def PTE_W : Word := 0x002
def PTE_U : Word := 0x004
def PTE_PWT : Word := 0x008
def PTE_PCD : Word := 0x010
def PTE_AVAIL : Word := 0xE00

/-- Flags that may be used in system calls. -/
def PTE_SYSCALL : Word := PTE_AVAIL ||| PTE_P ||| PTE_W ||| PTE_U

def PGSIZE : Word := 4096

/-- Page directory index of a linear address. -/
def pdx (la : Word) : Idx := (la.extractLsb' 22 10).toFin

/-- Page table index of a linear address. -/
def ptx (la : Word) : Idx := (la.extractLsb' 12 10).toFin

/-- The linear address with these indices and offset `0` (`PGADDR(d, t, 0)`). -/
def pgaddr (d t : Idx) : Word :=
  (BitVec.ofFin d : BitVec 10) ++ (BitVec.ofFin t : BitVec 10) ++ 0#12

/-- Page number of a physical address, and of the address in an entry (`PTE_ADDR`). -/
def pgnum (pa : Word) : Ppn := pa.extractLsb' 12 20

/-- Physical address of a page. -/
def page2pa (pp : Ppn) : Word := pp ++ 0#12

/-- `va % PGSIZE`, as the system calls test it. -/
def pgoff (va : Word) : Word := va % PGSIZE

/-- `ROUNDDOWN(a, PGSIZE)`. -/
def rounddown (a : Word) : Word := a - a % PGSIZE

/-- `ROUNDUP(a, PGSIZE)`, with the wrap-around of 32-bit addition. -/
def roundup (a : Word) : Word := rounddown (a + PGSIZE - 1)

/-! ### Addresses as numbers -/

theorem toNat_pgoff (va : Word) : (pgoff va).toNat = va.toNat % 4096 := by
  rw [pgoff, BitVec.toNat_umod]
  rfl

theorem pgoff_eq_zero_iff {va : Word} : pgoff va = 0 ↔ va.toNat % 4096 = 0 := by
  rw [← toNat_pgoff, BitVec.toNat_eq]
  rfl

theorem toNat_rounddown (va : Word) : (rounddown va).toNat = va.toNat - va.toNat % 4096 := by
  have hle : (pgoff va).toNat ≤ va.toNat := by
    rw [toNat_pgoff]
    exact Nat.mod_le _ _
  have h := BitVec.toNat_sub_of_le (BitVec.le_def.mpr hle)
  rw [toNat_pgoff] at h
  exact h

theorem pgoff_rounddown (va : Word) : pgoff (rounddown va) = 0 := by
  rw [pgoff_eq_zero_iff, toNat_rounddown]
  omega

theorem toNat_pdx (va : Word) : (pdx va : ℕ) = va.toNat / 4194304 := by
  have hlt := va.isLt
  have h : (pdx va : ℕ) = va.toNat >>> 22 % 1024 := rfl
  rw [h, Nat.shiftRight_eq_div_pow]
  omega

theorem toNat_ptx (va : Word) : (ptx va : ℕ) = va.toNat / 4096 % 1024 := by
  have h : (ptx va : ℕ) = va.toNat >>> 12 % 1024 := rfl
  rw [h, Nat.shiftRight_eq_div_pow]

theorem toNat_pgaddr (d t : Idx) : (pgaddr d t).toNat = (d.val * 1024 + t.val) * 4096 := by
  have ht : t.val < 2 ^ 10 := t.isLt
  have h : (pgaddr d t).toNat = (d.val <<< 10 ||| t.val) <<< 12 ||| 0 := by
    rw [pgaddr, BitVec.toNat_append, BitVec.toNat_append]
    rfl
  rw [h, Nat.or_zero, ← Nat.shiftLeft_add_eq_or_of_lt ht, Nat.shiftLeft_eq, Nat.shiftLeft_eq]

theorem pdx_pgaddr (d t : Idx) : pdx (pgaddr d t) = d := by
  have ht : t.val < 1024 := t.isLt
  rw [Fin.ext_iff, toNat_pdx, toNat_pgaddr]
  omega

theorem ptx_pgaddr (d t : Idx) : ptx (pgaddr d t) = t := by
  have ht : t.val < 1024 := t.isLt
  rw [Fin.ext_iff, toNat_ptx, toNat_pgaddr]
  omega

theorem pgnum_page2pa (pp : Ppn) : pgnum (page2pa pp) = pp := by
  have hlt := pp.isLt
  have h : (page2pa pp).toNat = pp.toNat * 4096 := by
    rw [page2pa, BitVec.toNat_append, Nat.shiftLeft_eq]
    exact Nat.or_zero _
  rw [BitVec.toNat_eq, pgnum, BitVec.extractLsb'_toNat, h, Nat.shiftRight_eq_div_pow]
  omega

theorem pgnum_or (pa flags : Word) (h : pgnum flags = 0) : pgnum (pa ||| flags) = pgnum pa := by
  simp only [pgnum] at h ⊢
  rw [BitVec.extractLsb'_or, h]
  exact BitVec.or_zero

/-! ## `inc/memlayout.h` -/

def UTOP : Word := 0xeec00000
def UVPT : Word := 0xef400000
def UXSTACKTOP : Word := UTOP
def USTACKTOP : Word := UTOP - 2 * PGSIZE

/-- `PFTEMP`: where the user fault handler builds the private copy of a page. -/
def PFTEMP : Word := 0x007ff000

/-- `PDX(UTOP)`: page directory entries below it belong to the user. -/
abbrev PDX_UTOP : ℕ := 955

/-- The entry that maps a page directory onto itself. -/
def pdxUvpt : Idx := pdx UVPT

example : (pdx UTOP : ℕ) = PDX_UTOP := by decide
example : (pdxUvpt : ℕ) = 957 := by decide

/-! ## Global descriptors, flags and traps (`inc/memlayout.h`, `inc/mmu.h`, `inc/trap.h`) -/

def GD_KT : BitVec 16 := 0x08
def GD_UT : BitVec 16 := 0x18
def GD_UD : BitVec 16 := 0x20
def FL_IF : Word := 0x200
def FL_IOPL_MASK : Word := 0x3000

def FEC_WR : Word := 2

def T_BRKPT : Word := 3
def T_PGFLT : Word := 14
def T_SYSCALL : Word := 48
def IRQ_OFFSET : Word := 32
def IRQ_TIMER : Word := 0
def IRQ_SPURIOUS : Word := 7

/-! ## `inc/error.h`

Kernel functions return an `int`; errors are the negated codes. -/

def E_BAD_ENV : ℤ := 2
def E_INVAL : ℤ := 3
def E_NO_MEM : ℤ := 4
def E_NO_FREE_ENV : ℤ := 5
def E_FAULT : ℤ := 6
def E_IPC_NOT_RECV : ℤ := 7

end JosSched
