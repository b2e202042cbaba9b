import Mathlib.Data.BitVec
import Mathlib.Data.Set.Basic

/-!
# Memory as bytes

A flat memory of bytes under 32-bit addresses, read and written in little-endian words at any
alignment.  Addresses wrap around, so a range is told by the offset from its first byte.
-/

/-- The bytes of memory. -/
abbrev Bytes := BitVec 32 → BitVec 8

namespace Bytes

/-- Byte `k` of a word. -/
def byteOf (w : BitVec 32) (k : ℕ) : BitVec 8 := w.extractLsb' (8 * k) 8

/-- The `n` bytes from `a` on. -/
def range (a : BitVec 32) (n : ℕ) : Set (BitVec 32) := {x | (x - a).toNat < n}

/-- The word at `a`. -/
def readWord (mem : Bytes) (a : BitVec 32) : BitVec 32 :=
  (mem (a + 3) ++ mem (a + 2) ++ mem (a + 1) ++ mem a : BitVec 32)

/-- Stores consecutive words from `a` on. -/
def writeWords (mem : Bytes) (a : BitVec 32) (ws : List (BitVec 32)) : Bytes := fun x =>
  match ws[(x - a).toNat / 4]? with
  | some w => byteOf w ((x - a).toNat % 4)
  | none => mem x

def writeWord (mem : Bytes) (a w : BitVec 32) : Bytes := writeWords mem a [w]

/-- The addresses whose bytes differ. -/
def changed (mem mem' : Bytes) : Set (BitVec 32) := {x | mem' x ≠ mem x}

variable {mem mem' : Bytes} {a p w x : BitVec 32} {ws : List (BitVec 32)} {i : ℕ}

@[simp] theorem changed_self : changed mem mem = ∅ := by
  ext x
  simp [changed]

theorem writeWords_of_notMem (h : x ∉ range a (4 * ws.length)) : writeWords mem a ws x = mem x := by
  have hlen : ws.length ≤ (x - a).toNat / 4 := by
    have hlt : ¬ (x - a).toNat < 4 * ws.length := h
    omega
  rw [writeWords, List.getElem?_eq_none hlen]

theorem writeWord_of_notMem (h : x ∉ range a 4) : writeWord mem a w x = mem x :=
  writeWords_of_notMem h

theorem changed_writeWords : changed mem (writeWords mem a ws) ⊆ range a (4 * ws.length) :=
  fun _ hx => by_contra fun hno => hx (writeWords_of_notMem hno)

theorem changed_writeWord : changed mem (writeWord mem a w) ⊆ range a 4 := changed_writeWords

theorem changed_trans (mem₁ : Bytes) : changed mem mem' ⊆ changed mem mem₁ ∪ changed mem₁ mem' := by
  intro x hx
  by_cases h : mem₁ x = mem x
  · exact .inr fun heq => hx (heq.trans h)
  · exact .inl h

theorem writeWords_apply (hx : x = a + BitVec.ofNat 32 (4 * i) + BitVec.ofNat 32 k) (hk : k < 4)
    (hi : i < ws.length) (hlen : 4 * ws.length ≤ 2 ^ 32) :
    writeWords mem a ws x = byteOf ws[i] k := by
  have hoff : (x - a).toNat = 4 * i + k := by
    rw [hx, BitVec.add_assoc, BitVec.add_comm a, BitVec.add_sub_cancel, ← BitVec.ofNat_add,
      BitVec.toNat_ofNat]
    omega
  have hdiv : (x - a).toNat / 4 = i := by omega
  have hmod : (x - a).toNat % 4 = k := by omega
  rw [writeWords, hdiv, hmod, List.getElem?_eq_getElem hi]

/-- A word is its four bytes. -/
theorem append_byteOf (w : BitVec 32) :
    (byteOf w 3 ++ byteOf w 2 ++ byteOf w 1 ++ byteOf w 0 : BitVec 32) = w := by
  unfold byteOf
  rw [BitVec.extractLsb'_append_extractLsb'_eq_extractLsb' (by rfl),
    BitVec.extractLsb'_append_extractLsb'_eq_extractLsb' (by rfl),
    BitVec.extractLsb'_append_extractLsb'_eq_extractLsb' (by rfl)]
  exact BitVec.extractLsb'_eq_self

/-- A word is read from its four bytes. -/
theorem readWord_eq (h : ∀ k < 4, mem (p + BitVec.ofNat 32 k) = byteOf w k) :
    readWord mem p = w := by
  have hzero : mem p = byteOf w 0 := by
    have h0 := h 0 (by decide)
    rwa [show p + BitVec.ofNat 32 0 = p from BitVec.add_zero p] at h0
  have h1 : mem (p + 1) = byteOf w 1 := h 1 (by decide)
  have h2 : mem (p + 2) = byteOf w 2 := h 2 (by decide)
  have h3 : mem (p + 3) = byteOf w 3 := h 3 (by decide)
  rw [readWord, hzero, h1, h2, h3, append_byteOf]

theorem mem_range_add {k n : ℕ} (hk : k < n) (hn : n ≤ 2 ^ 32) :
    p + BitVec.ofNat 32 k ∈ range p n := by
  have h : (p + BitVec.ofNat 32 k - p).toNat = k := by
    rw [BitVec.add_comm, BitVec.add_sub_cancel, BitVec.toNat_ofNat]
    omega
  exact h.trans_lt hk

/-- Words are told by their bytes. -/
theorem readWord_congr (h : ∀ x ∈ range p 4, mem' x = mem x) :
    readWord mem' p = readWord mem p := by
  have hmem : ∀ k < 4, mem' (p + BitVec.ofNat 32 k) = mem (p + BitVec.ofNat 32 k) :=
    fun k hk => h _ (mem_range_add hk (by decide))
  have hzero : mem' p = mem p := by
    have h0 := hmem 0 (by decide)
    rwa [show p + BitVec.ofNat 32 0 = p from BitVec.add_zero p] at h0
  have h1 : mem' (p + 1) = mem (p + 1) := hmem 1 (by decide)
  have h2 : mem' (p + 2) = mem (p + 2) := hmem 2 (by decide)
  have h3 : mem' (p + 3) = mem (p + 3) := hmem 3 (by decide)
  rw [readWord, readWord, hzero, h1, h2, h3]

theorem readWord_writeWords (hi : i < ws.length) (hlen : 4 * ws.length ≤ 2 ^ 32) :
    readWord (writeWords mem a ws) (a + BitVec.ofNat 32 (4 * i)) = ws[i] :=
  readWord_eq fun _ hk => writeWords_apply rfl hk hi hlen

@[simp] theorem readWord_writeWord : readWord (writeWord mem a w) a = w := by
  have hword : readWord (writeWords mem a [w]) (a + BitVec.ofNat 32 (4 * 0)) = [w][0] :=
    readWord_writeWords (by simp) (by simp)
  rwa [show a + BitVec.ofNat 32 (4 * 0) = a from BitVec.add_zero a] at hword

theorem readWord_writeWord_of_disjoint (h : ∀ x ∈ range p 4, x ∉ range a 4) :
    readWord (writeWord mem a w) p = readWord mem p :=
  readWord_congr fun x hx => writeWord_of_notMem (h x hx)

end Bytes
