import Mathlib.Algebra.GroupWithZero.Nat
import Mathlib.Data.Fin.Basic
import Mathlib.Logic.Function.Basic

/-!
# Circular queues

A queue in `n` cells, between a read position and a write position that both go round.  It looks
empty when the positions are the same, and so does a queue that fills all the cells
(`Queued.read_eq_write`).
-/

variable {α : Type*} {n : ℕ} [NeZero n]

/-- The next position, after the last one the first. -/
def nextCell (p : Fin n) : Fin n :=
  if h : p.val + 1 = n then 0 else ⟨p.val + 1, by omega⟩

theorem nextCell_ofNat (k : ℕ) : nextCell (Fin.ofNat n k) = Fin.ofNat n (k + 1) := by
  have hlt := Nat.mod_lt k (Nat.pos_of_neZero n)
  have hstep : (k % n + 1) % n = (k + 1) % n := Nat.mod_add_mod k n 1
  apply Fin.ext
  unfold nextCell
  split
  · next h =>
      have h : k % n + 1 = n := h
      rw [h, Nat.mod_self] at hstep
      exact hstep
  · next h =>
      have h : ¬ k % n + 1 = n := h
      rw [Nat.mod_eq_of_lt (by omega)] at hstep
      exact hstep

theorem ofNat_val (p : Fin n) : Fin.ofNat n p.val = p := Fin.ext (Nat.mod_eq_of_lt p.isLt)

/-- Cells less than a round apart are different. -/
theorem ofNat_ne {k i j : ℕ} (hij : i < j) (hj : j < i + n) :
    Fin.ofNat n (k + i) ≠ Fin.ofNat n (k + j) := by
  intro heq
  have hmod : (k + i) % n = (k + j) % n := congrArg Fin.val heq
  have hdvd : n ∣ j - i := by
    have hsub : j - i = k + j - (k + i) := by omega
    rw [hsub]
    exact Nat.dvd_of_mod_eq_zero (Nat.sub_mod_eq_zero_of_mod_eq hmod.symm)
  have hle := Nat.le_of_dvd (by omega) hdvd
  omega

/-- The cells from `r` on hold the elements of the queue, in order, and `w` comes after them. -/
structure Queued (buf : Fin n → α) (r w : Fin n) (q : List α) : Prop where
  fits : q.length ≤ n
  cells : ∀ i (hi : i < q.length), buf (Fin.ofNat n (r.val + i)) = q[i]
  write : w = Fin.ofNat n (r.val + q.length)

namespace Queued

variable {buf : Fin n → α} {r w : Fin n} {q : List α} {a : α}

theorem nil (r : Fin n) : Queued buf r r ([] : List α) :=
  ⟨Nat.zero_le n, fun _ hi => absurd hi (Nat.not_lt_zero _), (ofNat_val r).symm⟩

theorem push (h : Queued buf r w q) (hroom : q.length < n) (a : α) :
    Queued (Function.update buf w a) r (nextCell w) (q ++ [a]) := by
  refine ⟨by rwa [List.length_append], fun i hi => ?_, ?_⟩
  · rw [List.length_append, List.length_singleton] at hi
    rw [h.write]
    by_cases hlast : i = q.length
    · subst hlast
      rw [Function.update_self, List.getElem_concat_length rfl]
    · have hlt : i < q.length := by omega
      rw [Function.update_of_ne (ofNat_ne hlt (by omega)), List.getElem_append_left hlt]
      exact h.cells i hlt
  · rw [h.write, nextCell_ofNat, List.length_append, List.length_singleton]
    rfl

theorem pop (h : Queued buf r w (a :: q)) : buf r = a ∧ Queued buf (nextCell r) w q := by
  have hfits := h.fits
  rw [List.length_cons] at hfits
  have hnext : nextCell r = Fin.ofNat n (r.val + 1) := by
    rw [← nextCell_ofNat, ofNat_val]
  have hshift : ∀ i, Fin.ofNat n ((nextCell r).val + i) = Fin.ofNat n (r.val + (i + 1)) :=
    fun i => by
    apply Fin.ext
    rw [hnext, Fin.val_ofNat, Fin.val_ofNat, Fin.val_ofNat, Nat.mod_add_mod]
    congr 1
    omega
  refine ⟨?_, by omega, fun i hi => ?_, ?_⟩
  · have hfirst := h.cells 0 (Nat.succ_pos _)
    rwa [Nat.add_zero, ofNat_val] at hfirst
  · rw [hshift]
    exact h.cells (i + 1) (Nat.succ_lt_succ hi)
  · rw [hshift]
    exact h.write

/-- The positions are the same when there is nothing in the queue, or no room. -/
theorem read_eq_write (h : Queued buf r w q) : r = w ↔ q = [] ∨ q.length = n := by
  constructor
  · intro heq
    by_cases hfull : q.length = n
    · exact .inr hfull
    · refine .inl (List.eq_nil_of_length_eq_zero ?_)
      by_contra hne
      have hlt : q.length < n := lt_of_le_of_ne h.fits hfull
      have hcell : Fin.ofNat n (r.val + 0) = Fin.ofNat n (r.val + q.length) := by
        rw [← h.write, ← heq, Nat.add_zero, ofNat_val]
      exact ofNat_ne (Nat.pos_of_ne_zero hne) (by omega) hcell
  · intro hor
    apply Fin.ext
    rw [h.write, Fin.val_ofNat]
    rcases hor with rfl | hfull
    · rw [List.length_nil, Nat.add_zero, Nat.mod_eq_of_lt r.isLt]
    · rw [hfull, Nat.add_mod_right, Nat.mod_eq_of_lt r.isLt]

end Queued
