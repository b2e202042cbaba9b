import Mathlib.Logic.Function.Basic
import Mathlib.Data.List.Basic

/-!
# Postconditions of computations that may exit

`x.Ensures Q E` says that the computation `x` either returns a value with `Q`, or exits with
`E`.  The rules follow the structure of a `do` block.
-/

namespace Except

universe u v

variable {ε : Type u} {α β σ : Type v}

/-- `x` returns a value that satisfies `Q`, or exits with an error that satisfies `E`. -/
structure Ensures (x : Except ε α) (Q : α → Prop) (E : ε → Prop) : Prop where
  of_ok : ∀ a, x = .ok a → Q a
  of_error : ∀ e, x = .error e → E e

variable {x : Except ε α} {f : α → Except ε β} {Q Q' : α → Prop} {R : β → Prop}
  {E E' : ε → Prop}

@[simp] theorem ensures_ok {a : α} : Ensures (.ok a : Except ε α) Q E ↔ Q a :=
  ⟨fun h => h.of_ok a rfl,
    fun h => ⟨fun _ ha => (by cases ha; exact h), fun _ he => (by cases he)⟩⟩

@[simp] theorem ensures_pure {a : α} : Ensures (pure a : Except ε α) Q E ↔ Q a := ensures_ok

@[simp] theorem ensures_error {e : ε} : Ensures (.error e : Except ε α) Q E ↔ E e :=
  ⟨fun h => h.of_error e rfl,
    fun h => ⟨fun _ ha => (by cases ha), fun _ he => (by cases he; exact h)⟩⟩

theorem bind_eq_ok {b : β} : x >>= f = .ok b ↔ ∃ a, x = .ok a ∧ f a = .ok b := by
  cases x with
  | error e => exact ⟨fun h => (by cases h), fun ⟨_, h, _⟩ => (by cases h)⟩
  | ok a => exact ⟨fun h => ⟨a, rfl, h⟩, fun ⟨_, ha, h⟩ => Except.ok.inj ha ▸ h⟩

theorem map_eq_ok {g : α → β} {b : β} : x.map g = .ok b ↔ ∃ a, x = .ok a ∧ g a = b := by
  cases x with
  | error e => exact ⟨fun h => (by cases h), fun ⟨_, h, _⟩ => (by cases h)⟩
  | ok a => exact ⟨fun h => ⟨a, rfl, Except.ok.inj h⟩,
      fun ⟨_, ha, h⟩ => congrArg Except.ok (Except.ok.inj ha ▸ h)⟩

theorem ensures_bind : Ensures (x >>= f) R E ↔ x.Ensures (fun a => (f a).Ensures R E) E := by
  cases x with
  | ok a =>
      rw [ensures_ok]
      exact Iff.rfl
  | error e =>
      rw [ensures_error]
      exact ensures_error

@[simp] theorem ensures_map {g : α → β} :
    Ensures (x.map g) R E ↔ x.Ensures (fun a => R (g a)) E := by
  cases x with
  | ok a =>
      rw [ensures_ok]
      exact ensures_ok
  | error e =>
      rw [ensures_error]
      exact ensures_error

theorem ensures_ite {p : Prop} [Decidable p] {y : Except ε α} :
    Ensures (if p then x else y) Q E ↔ (p → x.Ensures Q E) ∧ (¬ p → y.Ensures Q E) := by
  split <;> simp [*]

theorem Ensures.mono (h : x.Ensures Q E) (hQ : ∀ a, Q a → Q' a) (hE : ∀ e, E e → E' e) :
    x.Ensures Q' E' :=
  ⟨fun a ha => hQ a (h.of_ok a ha), fun e he => hE e (h.of_error e he)⟩

theorem Ensures.imp (h : x.Ensures Q E) (hQ : ∀ a, Q a → Q' a) : x.Ensures Q' E :=
  h.mono hQ fun _ he => he

/-- A computation that cannot exit returns. -/
theorem Ensures.exists_ok (h : x.Ensures Q fun _ => False) : ∃ a, x = .ok a ∧ Q a := by
  cases x with
  | ok a => exact ⟨a, rfl, h.of_ok a rfl⟩
  | error e => exact (h.of_error e rfl).elim

theorem Ensures.bind (h : x.Ensures Q E) (hf : ∀ a, Q a → (f a).Ensures R E) :
    Ensures (x >>= f) R E :=
  ensures_bind.mpr (h.imp hf)

/-- The loop rule.  The invariant may speak of the elements still to come; it holds at the end
of those that have all gone by. -/
theorem Ensures.foldlM_rest {I : List α → σ → Prop} {g : σ → α → Except ε σ}
    (hstep : ∀ a l s, I (a :: l) s → (g s a).Ensures (I l) E) :
    ∀ (l : List α) (s : σ), I l s → (l.foldlM g s).Ensures (I []) E := by
  intro l
  induction l with
  | nil => exact fun s hs => ensures_ok.mpr hs
  | cons a l ih =>
      intro s hs
      rw [List.foldlM_cons]
      exact (hstep a l s hs).bind ih

/-- The loop rule for an invariant that every iteration keeps. -/
theorem Ensures.foldlM {I : σ → Prop} {g : σ → α → Except ε σ} (l : List α) {s : σ} (hs : I s)
    (hstep : ∀ s, ∀ a ∈ l, I s → (g s a).Ensures I E) : (l.foldlM g s).Ensures I E := by
  have h := Ensures.foldlM_rest (I := fun rest s => I s ∧ ∀ a ∈ rest, a ∈ l) (g := g) (E := E)
    (fun a rest s hrest => ?_) l s ⟨hs, fun _ ha => ha⟩
  · exact h.imp fun _ hs' => hs'.1
  · refine (hstep s a (hrest.2 a (List.mem_cons_self ..)) hrest.1).imp fun s' hs' => ⟨hs', ?_⟩
    exact fun b hb => hrest.2 b (List.mem_cons_of_mem _ hb)

end Except
