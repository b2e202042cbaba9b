import Mathlib.Data.List.Induction
import Mathlib.Logic.Relation

/-!
# Runs of labelled transition systems

`Trace step s l s'` is a finite run from `s` to `s'` that takes the steps labelled `l`.
-/

variable {σ α : Type*}

/-- A run: the steps labelled `l`, in order, lead from `s` to `s'`. -/
inductive Trace (step : σ → α → σ → Prop) (s : σ) : List α → σ → Prop
  | nil : Trace step s [] s
  | snoc {l : List α} {a : α} {s₁ s₂ : σ} :
      Trace step s l s₁ → step s₁ a s₂ → Trace step s (l ++ [a]) s₂

namespace Trace

variable {step step' : σ → α → σ → Prop} {s s₁ s₂ : σ} {l l' : List α}

theorem single {a : α} (h : step s a s₁) : Trace step s [a] s₁ := .snoc .nil h

theorem trans (h : Trace step s l s₁) (h' : Trace step s₁ l' s₂) : Trace step s (l ++ l') s₂ := by
  induction h' with
  | nil => simpa using h
  | snoc _ hstep ih =>
      rw [← List.append_assoc]
      exact ih.snoc hstep

theorem mono (h : Trace step s l s₁) (himp : ∀ s a s', step s a s' → step' s a s') :
    Trace step' s l s₁ := by
  induction h with
  | nil => exact .nil
  | snoc _ hstep ih => exact ih.snoc (himp _ _ _ hstep)

theorem of_snoc {a : α} (h : Trace step s (l ++ [a]) s₂) :
    ∃ s₁, Trace step s l s₁ ∧ step s₁ a s₂ := by
  generalize hl : l ++ [a] = l₁ at h
  cases h with
  | nil => exact absurd hl (List.append_ne_nil_of_right_ne_nil l (List.cons_ne_nil a []))
  | snoc hrun hstep =>
      obtain ⟨rfl, heq⟩ := List.append_inj' hl rfl
      obtain rfl := List.singleton_inj.mp heq
      exact ⟨_, hrun, hstep⟩

/-- A run can be cut anywhere. -/
theorem of_append (h : Trace step s (l ++ l') s₂) :
    ∃ s₁, Trace step s l s₁ ∧ Trace step s₁ l' s₂ := by
  induction l' using List.reverseRecOn generalizing s₂ with
  | nil => exact ⟨s₂, List.append_nil l ▸ h, .nil⟩
  | append_singleton l' a ih =>
      rw [← List.append_assoc] at h
      obtain ⟨s₃, hrun, hstep⟩ := of_snoc h
      obtain ⟨s₁, hfirst, hlast⟩ := ih hrun
      exact ⟨s₁, hfirst, hlast.snoc hstep⟩

/-- A run of a computable step function, found by evaluating it. -/
theorem exists_of_foldlM (next : σ → α → Option σ) (s : σ) (l : List α) (p : σ → Bool)
    (h : (l.foldlM next s).any p = true) :
    ∃ s', Trace (fun s a s' => next s a = some s') s l s' ∧ p s' = true := by
  induction l generalizing s with
  | nil => exact ⟨s, .nil, h⟩
  | cons a l ih =>
      rw [List.foldlM_cons] at h
      cases hnext : next s a with
      | none =>
          rw [hnext] at h
          cases h
      | some s₁ =>
          rw [hnext] at h
          obtain ⟨s', hrun, hp⟩ := ih s₁ h
          exact ⟨s', (single hnext).trans hrun, hp⟩

/-- The invariant rule: what every step keeps holds in every state of the run. -/
theorem invariant {I : σ → Prop} (h : Trace step s l s₁) (h₀ : I s)
    (hstep : ∀ s a s', I s → step s a s' → I s') : I s₁ := by
  induction h with
  | nil => exact h₀
  | snoc _ hs ih => exact hstep _ _ _ ih hs

end Trace

/-! ## What each step of a run is held to -/

/-- Every step of the run from `s` of a step function is as `P` says, in the state it is taken
in. -/
inductive Along (next : σ → α → σ) (P : σ → α → Prop) : σ → List α → Prop
  | nil (s : σ) : Along next P s []
  | cons {s : σ} {a : α} {l : List α} : P s a → Along next P (next s a) l → Along next P s (a :: l)

namespace Along

variable {next : σ → α → σ} {F P Q : σ → α → Prop} {s : σ} {a : α} {l : List α}

theorem cons_iff : Along next P s (a :: l) ↔ P s a ∧ Along next P (next s a) l :=
  ⟨fun h => by cases h with | cons hfirst hrest => exact ⟨hfirst, hrest⟩, fun h => .cons h.1 h.2⟩

instance decidable [∀ s a, Decidable (P s a)] : ∀ s l, Decidable (Along next P s l)
  | s, [] => .isTrue (.nil s)
  | s, a :: l =>
      have := decidable (next s a) l
      decidable_of_iff (P s a ∧ Along next P (next s a) l) cons_iff.symm

/-- Two demands agree along every run when they agree at each step, in the states of an invariant
that the demand itself keeps. -/
theorem iff_of_invariant (I : σ → Prop) (h : Along next F s l) (h₀ : I s)
    (hiff : ∀ s a, I s → F s a → (P s a ↔ Q s a))
    (hstep : ∀ s a, I s → F s a → Q s a → I (next s a)) : Along next P s l ↔ Along next Q s l := by
  induction h with
  | nil s => exact ⟨fun _ => .nil s, fun _ => .nil s⟩
  | @cons s a l hfits _ ih =>
      rw [cons_iff, cons_iff, hiff s a h₀ hfits]
      constructor
      · intro hrun
        exact ⟨hrun.1, (ih (hstep s a h₀ hfits hrun.1)).mp hrun.2⟩
      · intro hrun
        exact ⟨hrun.1, (ih (hstep s a h₀ hfits hrun.1)).mpr hrun.2⟩

end Along
