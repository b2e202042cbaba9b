import Mathlib.Data.List.FinRange
import Mathlib.Data.List.Nodup
import Mathlib.Logic.Function.Basic

/-!
# Intrusive linked lists

A list threaded through the `next` pointers of its own elements, as a stack: `Chain next head l`
says that following `next` from `head` visits exactly `l` and ends in the null pointer.
-/

variable {α : Type*}

/-- Following `next` from a head pointer visits the elements of the list, in order. -/
inductive Chain (next : α → Option α) : Option α → List α → Prop
  | nil : Chain next none []
  | cons {a : α} {l : List α} : Chain next (next a) l → Chain next (some a) (a :: l)

/-- Following `next` from a head pointer one comes to `a`, whether or not the list ends. -/
inductive Linked (next : α → Option α) (head : Option α) : α → Prop
  | head {a : α} : head = some a → Linked next head a
  | next {a b : α} : Linked next head a → next a = some b → Linked next head b

namespace Chain

variable {next next' : α → Option α} {head : Option α} {a : α} {l l' : List α}

theorem exists_cons (h : Chain next (some a) l) :
    ∃ rest, l = a :: rest ∧ Chain next (next a) rest := by
  cases h with
  | cons hrest => exact ⟨_, rfl, hrest⟩

/-- Only one list can be read off a head pointer. -/
theorem unique (h : Chain next head l) (h' : Chain next head l') : l = l' := by
  induction h generalizing l' with
  | nil => cases h' with | nil => rfl
  | cons _ ih => cases h' with | cons hrest => rw [ih hrest]

/-- The pointers of elements outside the list do not matter. -/
theorem congr (h : Chain next head l) (hnext : ∀ a ∈ l, next' a = next a) :
    Chain next' head l := by
  induction h with
  | nil => exact .nil
  | cons _ ih =>
      refine .cons ?_
      rw [hnext _ (List.mem_cons_self ..)]
      exact ih fun a ha => hnext a (List.mem_cons_of_mem _ ha)

/-- The same list under other names. -/
theorem map {β : Type*} {f : α → β} {next' : β → Option β} (h : Chain next head l)
    (hnext : ∀ a ∈ l, next' (f a) = (next a).map f) : Chain next' (head.map f) (l.map f) := by
  induction h with
  | nil => exact .nil
  | cons _ ih =>
      refine .cons ?_
      rw [hnext _ List.mem_cons_self]
      exact ih fun a ha => hnext a (List.mem_cons_of_mem _ ha)

private theorem fin_drop (n : ℕ) : ∀ k a, a + k = n →
    Chain (fun i : Fin n => if h : i.val + 1 < n then some ⟨i.val + 1, h⟩ else none)
      (if h : a < n then some ⟨a, h⟩ else none) ((List.finRange n).drop a) := by
  intro k
  induction k with
  | zero =>
      intro a ha
      rw [dif_neg (by omega), List.drop_eq_nil_of_le (by simp; omega)]
      exact .nil
  | succ k ih =>
      intro a ha
      have hlt : a < n := by omega
      rw [dif_pos hlt, List.drop_eq_getElem_cons (by simpa using hlt), List.getElem_finRange]
      exact .cons (ih (a + 1) (by omega))

/-- An array whose elements are linked in order is a list of all of them. -/
theorem finRange {n : ℕ} {next : Fin n → Option (Fin n)} (h0 : 0 < n)
    (hnext : ∀ i, next i = if h : i.val + 1 < n then some ⟨i.val + 1, h⟩ else none) :
    Chain next (some ⟨0, h0⟩) (List.finRange n) := by
  have h := fin_drop n n 0 (Nat.zero_add n)
  rw [dif_pos h0, List.drop_zero] at h
  exact h.congr fun i _ => hnext i

variable [DecidableEq α]

theorem update (h : Chain next head l) (ha : a ∉ l) (v : Option α) :
    Chain (Function.update next a v) head l :=
  h.congr fun _ hb => Function.update_of_ne (ne_of_mem_of_not_mem hb ha) v next

/-- Pushing an element in front of the list. -/
theorem push (h : Chain next head l) (ha : a ∉ l) :
    Chain (Function.update next a head) (some a) (a :: l) := by
  refine .cons ?_
  rw [Function.update_self]
  exact h.update ha head

end Chain

/-! ## Reachable elements -/

section

variable {next next' : α → Option α} {head : Option α} {a b : α} {l : List α}

/-- What comes after the front element. -/
theorem Linked.of_next (h : Linked next (next a) b) : Linked next (some a) b := by
  induction h with
  | head heq => exact .next (.head rfl) heq
  | next _ hlink ih => exact .next ih hlink

theorem Chain.mem_next (h : Chain next head l) (ha : a ∈ l) (hnext : next a = some b) : b ∈ l := by
  induction h with
  | nil => cases ha
  | @cons a' l hrest ih =>
      rcases List.mem_cons.mp ha with rfl | hin
      · rw [hnext] at hrest
        obtain ⟨rest, rfl, -⟩ := hrest.exists_cons
        exact List.mem_cons_of_mem _ List.mem_cons_self
      · exact List.mem_cons_of_mem _ (ih hin)

theorem Chain.mem_of_linked (h : Chain next head l) (hb : Linked next head b) : b ∈ l := by
  induction hb with
  | head heq =>
      rw [heq] at h
      obtain ⟨rest, rfl, -⟩ := h.exists_cons
      exact List.mem_cons_self
  | next _ hnext ih => exact h.mem_next ih hnext

theorem Chain.linked_of_mem (h : Chain next head l) (hb : b ∈ l) : Linked next head b := by
  induction h with
  | nil => cases hb
  | @cons a l _ ih =>
      rcases List.mem_cons.mp hb with rfl | hin
      · exact .head rfl
      · exact (ih hin).of_next

theorem Linked.congr (h : Linked next head b) (hnext : ∀ a, next' a = next a) :
    Linked next' head b := by
  induction h with
  | head heq => exact .head heq
  | next _ hlink ih => exact .next ih ((hnext _).trans hlink)

variable [DecidableEq α]

/-- An element without successor goes to the front of the list. -/
theorem Linked.push (h : Linked next head b) (ha : next a = none) :
    Linked (Function.update next a head) (some a) b := by
  induction h with
  | head heq => exact .next (.head rfl) (by rw [Function.update_self, heq])
  | @next c b _ hlink ih =>
      refine .next ih ?_
      rw [Function.update_of_ne ?_, hlink]
      rintro rfl
      rw [ha] at hlink
      cases hlink

/-- Without the front element one comes to all the others. -/
theorem Linked.pop (h : Linked next (some a) b) :
    b = a ∨ Linked (Function.update next a none) (next a) b := by
  induction h with
  | head heq => exact .inl (Option.some.inj heq).symm
  | @next c b _ hlink ih =>
      refine .inr ?_
      by_cases hca : c = a
      · rw [hca] at hlink
        exact .head hlink
      · exact .next (ih.resolve_left hca) (by rw [Function.update_of_ne hca, hlink])

end
