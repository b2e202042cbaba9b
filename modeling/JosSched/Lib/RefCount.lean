import Mathlib.Data.Set.Card

/-!
# Reference counts

Finitely many cells each hold a reference or none.  `refCount target b` is the number of cells
that refer to `b`; writing one cell changes it by at most one in each direction
(`refCount_update`).
-/

variable {α β ι : Type*} {target : α → Option β} {a a' : α} {b : β}

/-- How many cells refer to `b`. -/
noncomputable def refCount (target : α → Option β) (b : β) : ℕ := {a | target a = some b}.ncard

/-- There are no more references than places that can hold one. -/
theorem refCount_le [Finite ι] {place : ι → α} (h : ∀ a, target a = some b → ∃ i, place i = a) :
    refCount target b ≤ Nat.card ι := by
  have hsub : {a | target a = some b} ⊆ place '' Set.univ := fun a ha => by
    obtain ⟨i, hi⟩ := h a ha
    exact ⟨i, trivial, hi⟩
  calc refCount target b ≤ (place '' Set.univ).ncard := Set.ncard_le_ncard hsub (Set.toFinite _)
    _ ≤ (Set.univ : Set ι).ncard := Set.ncard_image_le (Set.toFinite _)
    _ = Nat.card ι := Set.ncard_univ ι

/-- A cell is written: other referents are not affected. -/
theorem refCount_update_of_ne [DecidableEq α] {v : Option β} (hold : target a ≠ some b)
    (hnew : v ≠ some b) : refCount (Function.update target a v) b = refCount target b := by
  unfold refCount
  congr 1
  ext x
  by_cases hx : x = a
  · simp [hx, hold, hnew]
  · simp [hx]

section

variable [Finite α]

theorem refCount_pos (h : target a = some b) : 0 < refCount target b :=
  (Set.ncard_pos (Set.toFinite _)).mpr ⟨a, h⟩

theorem refCount_eq_zero : refCount target b = 0 ↔ ∀ a, target a ≠ some b := by
  unfold refCount
  rw [Set.ncard_eq_zero (Set.toFinite _), Set.eq_empty_iff_forall_notMem]
  exact Iff.rfl

/-- The only reference there is. -/
theorem eq_of_refCount_le_one (h : refCount target b ≤ 1) (ha : target a = some b)
    (ha' : target a' = some b) : a = a' :=
  (Set.ncard_le_one (Set.toFinite _)).mp h a ha a' ha'

theorem exists_of_refCount (h : refCount target b ≠ 0) : ∃ a, target a = some b := by
  by_contra hno
  exact h (refCount_eq_zero.mpr fun a ha => hno ⟨a, ha⟩)

/-- The cells of two kinds. -/
theorem refCount_sum {γ : Type*} [Finite γ] (target : α → Option β) (target' : γ → Option β)
    (b : β) : refCount (Sum.elim target target') b = refCount target b + refCount target' b := by
  have hset : {x | Sum.elim target target' x = some b} =
      Sum.inl '' {a | target a = some b} ∪ Sum.inr '' {c | target' c = some b} := by
    ext x
    cases x <;> simp
  have hdisjoint : Disjoint (Sum.inl '' {a | target a = some b} : Set (α ⊕ γ))
      (Sum.inr '' {c | target' c = some b}) := by
    rw [Set.disjoint_left]
    rintro _ ⟨a, -, rfl⟩ ⟨c, -, heq⟩
    cases heq
  unfold refCount
  rw [hset, Set.ncard_union_eq hdisjoint (Set.toFinite _) (Set.toFinite _),
    Set.ncard_image_of_injective _ Sum.inl_injective,
    Set.ncard_image_of_injective _ Sum.inr_injective]

variable [DecidableEq α]

/-- A cell without a reference gets one. -/
theorem refCount_insert (h : target a = none) :
    refCount (Function.update target a (some b)) b = refCount target b + 1 := by
  have hset : {x | Function.update target a (some b) x = some b} =
      insert a {x | target x = some b} := by
    ext x
    by_cases hx : x = a
    · simp [hx]
    · simp [hx]
  unfold refCount
  rw [hset, Set.ncard_insert_of_notMem _ (Set.toFinite _)]
  intro hmem
  have hmem : target a = some b := hmem
  rw [h] at hmem
  cases hmem

/-- Writing a cell, in general. -/
theorem refCount_update [DecidableEq β] (target : α → Option β) (a : α) (v : Option β) (b : β) :
    refCount (Function.update target a v) b + (if target a = some b then 1 else 0) =
      refCount target b + (if v = some b then 1 else 0) := by
  have hclear : Function.update target a none a = none := Function.update_self ..
  have hset : ∀ w, Function.update target a w =
      Function.update (Function.update target a none) a w :=
    fun w => (Function.update_idem ..).symm
  have hcount : ∀ w, refCount (Function.update target a w) b =
      refCount (Function.update target a none) b + (if w = some b then 1 else 0) := fun w => by
    split
    · next hw =>
        rw [hset w, hw]
        exact refCount_insert hclear
    · next hw =>
        rw [hset w, Nat.add_zero]
        refine refCount_update_of_ne (fun h => ?_) hw
        rw [hclear] at h
        cases h
  have hself := hcount (target a)
  rw [Function.update_eq_self] at hself
  rw [hcount v, hself]
  omega

end
