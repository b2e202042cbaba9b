import Mathlib.Data.BitVec
import Mathlib.Data.Set.Basic

/-!
# Memory with holes

A memory that is mapped at some of its addresses.  Mapping more of it (`Adds`) and overwriting cells
(`overwrite`) are what a loader does for each piece of a program; pieces that are apart end up side
by side (`Loads.append`).
-/

/-- The cells of a memory, where it is mapped. -/
abbrev PartialMemory (w : ℕ) (α : Type*) := BitVec w → Option α

namespace PartialMemory

variable {w lo mid hi i : ℕ} {α : Type*} {f f₁ f' : PartialMemory w α} {P Q : Set (BitVec w)}
  {a x : BitVec w} {b : α} {bs : List α}

/-! ## Mapping -/

/-- The addresses from `lo` on and below `hi`. -/
def between (lo hi : ℕ) : Set (BitVec w) := {x | lo ≤ x.toNat ∧ x.toNat < hi}

theorem between_union (hlo : lo ≤ mid) (hhi : mid ≤ hi) :
    (between lo mid ∪ between mid hi : Set (BitVec w)) = between lo hi := by
  ext x
  constructor
  · rintro (⟨h, h'⟩ | ⟨h, h'⟩)
    · exact ⟨h, h'.trans_le hhi⟩
    · exact ⟨hlo.trans h, h'⟩
  · rintro ⟨h, h'⟩
    rcases Nat.lt_or_ge x.toNat mid with hlt | hge
    · exact .inl ⟨h, hlt⟩
    · exact .inr ⟨hge, h'⟩

theorem between_self : (between lo lo : Set (BitVec w)) = ∅ :=
  Set.eq_empty_of_forall_notMem fun _ hx => absurd hx.1 (not_le.mpr hx.2)

/-- Memory has been mapped at `P`, with any contents. -/
structure Adds (f f' : PartialMemory w α) (P : Set (BitVec w)) : Prop where
  mapped : ∀ x ∈ P, (f' x).isSome
  kept : ∀ x ∉ P, f' x = f x

theorem Adds.refl : Adds f f ∅ := ⟨fun _ hx => hx.elim, fun _ _ => rfl⟩

theorem Adds.trans (h : Adds f f₁ P) (h' : Adds f₁ f' Q) : Adds f f' (P ∪ Q) := by
  refine ⟨fun x hx => ?_, fun x hx => ?_⟩
  · by_cases hQ : x ∈ Q
    · exact h'.mapped x hQ
    · rw [h'.kept x hQ]
      exact h.mapped x (hx.resolve_right hQ)
  · rw [h'.kept x fun hQ => hx (.inr hQ), h.kept x fun hP => hx (.inl hP)]

/-! ## Overwriting -/

/-- The cells from `a` on are overwritten. -/
def overwrite (f : PartialMemory w α) (a : BitVec w) (bs : List α) : PartialMemory w α := fun x =>
  bs[(x - a).toNat]?.or (f x)

theorem overwrite_nil : overwrite f a [] = f := rfl

theorem overwrite_of_le (h : bs.length ≤ (x - a).toNat) : overwrite f a bs x = f x := by
  rw [overwrite, List.getElem?_eq_none h, Option.none_or]

theorem overwrite_apply (hi : i < bs.length) (hlen : bs.length ≤ 2 ^ w) :
    overwrite f a bs (a + BitVec.ofNat w i) = some bs[i] := by
  have hoff : (a + BitVec.ofNat w i - a).toNat = i := by
    rw [BitVec.add_comm, BitVec.add_sub_cancel, BitVec.toNat_ofNat,
      Nat.mod_eq_of_lt (hi.trans_le hlen)]
  rw [overwrite, hoff, List.getElem?_eq_getElem hi, Option.some_or]

theorem toNat_sub_succ (hx : x ≠ a) : (x - a).toNat = (x - (a + 1)).toNat + 1 := by
  have hsub : x - a = x - (a + 1) + 1 := by rw [sub_add_eq_sub_sub, sub_add_cancel]
  have hlt := (x - (a + 1)).isLt
  have hone : (1 : BitVec w).toNat = 1 % 2 ^ w := BitVec.toNat_ofNat 1 w
  have hsum : (x - a).toNat = ((x - (a + 1)).toNat + 1) % 2 ^ w := by
    rw [hsub, BitVec.toNat_add, hone, Nat.add_mod_mod]
  rcases Nat.lt_or_ge ((x - (a + 1)).toNat + 1) (2 ^ w) with hfits | hwraps
  · rw [hsum, Nat.mod_eq_of_lt hfits]
  · -- the only number below that wraps is the last
    rw [le_antisymm hlt hwraps, Nat.mod_self] at hsum
    exact absurd (sub_eq_zero.mp (BitVec.eq_of_toNat_eq hsum)) hx

/-- The first cell is overwritten first. -/
theorem overwrite_cons (hlen : bs.length + 1 ≤ 2 ^ w) :
    overwrite f a (b :: bs) = overwrite (Function.update f a (some b)) (a + 1) bs := by
  funext x
  by_cases hx : x = a
  · subst hx
    have hlast : bs.length ≤ (x - (x + 1)).toNat := by
      have hneg : x - (x + 1) = -1#w := by
        rw [sub_add_eq_sub_sub, sub_self, zero_sub]
        rfl
      rw [hneg, BitVec.neg_one_eq_allOnes, BitVec.toNat_allOnes]
      omega
    rw [overwrite_of_le hlast, Function.update_self, overwrite, BitVec.sub_self, BitVec.toNat_zero]
    rfl
  · rw [overwrite, overwrite, toNat_sub_succ hx, List.getElem?_cons_succ,
      Function.update_of_ne hx]

/-- The start is overwritten again. -/
theorem overwrite_overwrite {cs : List α} :
    overwrite (overwrite f a cs) a bs = overwrite f a (bs ++ cs.drop bs.length) := by
  funext x
  rw [overwrite, overwrite, overwrite]
  rcases Nat.lt_or_ge (x - a).toNat bs.length with hlt | hge
  · rw [List.getElem?_append_left hlt, List.getElem?_eq_getElem hlt, Option.some_or, Option.some_or]
  · rw [List.getElem?_append_right hge, List.getElem?_drop, Nat.add_sub_cancel' hge,
      List.getElem?_eq_none hge, Option.none_or]

/-- Overwriting maps no more. -/
theorem Adds.overwrite (h : Adds f f' P) (hin : ∀ x, (x - a).toNat < bs.length → x ∈ P) :
    Adds f (overwrite f' a bs) P := by
  refine ⟨fun x hx => ?_, fun x hx => ?_⟩
  · rw [PartialMemory.overwrite, Option.isSome_or, h.mapped x hx, Bool.or_true]
  · have hout : bs.length ≤ (x - a).toNat := not_lt.mp fun hlt => hx (hin x hlt)
    rw [overwrite_of_le hout, h.kept x hx]

/-! ## Pieces -/

/-- A piece of a program: the addresses that it takes, and its cells. -/
structure Piece (w : ℕ) (α : Type*) where
  extent : Set (BitVec w)
  start : BitVec w
  cells : List α
  covers : ∀ i < cells.length, start + BitVec.ofNat w i ∈ extent

/-- The pieces take different addresses. -/
def Piece.Apart (p q : Piece w α) : Prop := ∀ x ∈ p.extent, x ∉ q.extent

/-- The pieces have been loaded, and nothing else has been mapped or changed. -/
structure Loads (f f' : PartialMemory w α) (ps : List (Piece w α)) : Prop
    extends Adds f f' {x | ∃ p ∈ ps, x ∈ p.extent} where
  cell : ∀ p ∈ ps, ∀ i (hi : i < p.cells.length),
    f' (p.start + BitVec.ofNat w i) = some p.cells[i]

theorem Loads.nil : Loads f f ([] : List (Piece w α)) where
  mapped := fun _ ⟨_, hp, _⟩ => absurd hp List.not_mem_nil
  kept _ _ := rfl
  cell _ hp := absurd hp List.not_mem_nil

/-- A piece is loaded where memory has been mapped for it. -/
theorem Adds.loads {p : Piece w α} (h : Adds f f' p.extent) (hlen : p.cells.length ≤ 2 ^ w) :
    Loads f (PartialMemory.overwrite f' p.start p.cells) [p] := by
  have hextent : {x | ∃ q ∈ [p], x ∈ q.extent} = p.extent := by
    ext x
    simp
  have hin : ∀ x, (x - p.start).toNat < p.cells.length → x ∈ p.extent := fun x hx => by
    have hcover := p.covers _ hx
    rwa [BitVec.ofNat_toNat, BitVec.setWidth_eq, add_sub_cancel] at hcover
  refine ⟨hextent ▸ h.overwrite hin, fun q hq i hi => ?_⟩
  obtain rfl := List.mem_singleton.mp hq
  exact overwrite_apply hi hlen

/-- Pieces that are apart do not overwrite each other. -/
theorem Loads.append {ps qs : List (Piece w α)} (hps : Loads f f₁ ps) (hqs : Loads f₁ f' qs)
    (hapart : ∀ p ∈ ps, ∀ q ∈ qs, p.Apart q) : Loads f f' (ps ++ qs) := by
  have hunion : {x | ∃ p ∈ ps ++ qs, x ∈ p.extent} =
      {x | ∃ p ∈ ps, x ∈ p.extent} ∪ {x | ∃ q ∈ qs, x ∈ q.extent} := by
    ext x
    simp [or_and_right, exists_or]
  refine ⟨hunion ▸ hps.toAdds.trans hqs.toAdds, fun p hp i hi => ?_⟩
  rcases List.mem_append.mp hp with hp | hp
  · rw [hqs.kept _ fun ⟨q, hq, hin⟩ => hapart p hp q hq _ (p.covers i hi) hin]
    exact hps.cell p hp i hi
  · exact hqs.cell p hp i hi

end PartialMemory
