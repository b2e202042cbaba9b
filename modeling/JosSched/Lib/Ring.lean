import Mathlib.Algebra.GroupWithZero.Nat
import Mathlib.Data.Fin.Basic
import Mathlib.Logic.Function.Basic

/-!
# Ring buffers of recent entries

A ring of `n` cells remembers the last `n` entries of a log that only grows.  Entry number `k` is
written into cell `k % n`, so the `i`-th newest of `k` entries is in cell `(k - 1 - i) % n`.  The
log is kept newest first.
-/

variable {α : Type*} {n : ℕ} [NeZero n] {ring : Fin n → α} {log : List α}

/-- The ring holds the last entries of the log. -/
def HoldsLast (ring : Fin n → α) (log : List α) : Prop :=
  ∀ i (hi : i < log.length), i < n → ring (Fin.ofNat n (log.length - 1 - i)) = log[i]

namespace HoldsLast

theorem nil : HoldsLast ring [] := fun _ hi => absurd hi (Nat.not_lt_zero _)

/-- Two of the last `n` entries are in different cells. -/
theorem cell_ne {k i : ℕ} (hi : i + 1 < n) (hk : i < k) :
    Fin.ofNat n (k - 1 - i) ≠ Fin.ofNat n k := by
  intro heq
  have hmod : (k - 1 - i) % n = k % n := congrArg Fin.val heq
  have hdvd : n ∣ i + 1 := by
    have hsub : k - (k - 1 - i) = i + 1 := by omega
    rw [← hsub]
    exact Nat.dvd_of_mod_eq_zero (Nat.sub_mod_eq_zero_of_mod_eq hmod.symm)
  have hle := Nat.le_of_dvd (Nat.succ_pos i) hdvd
  omega

theorem push (h : HoldsLast ring log) (x : α) :
    HoldsLast (Function.update ring (Fin.ofNat n log.length) x) (x :: log) := by
  intro i hi hin
  cases i with
  | zero => exact Function.update_self ..
  | succ i =>
      have hlt : i < log.length := Nat.lt_of_succ_lt_succ hi
      have hcell : (x :: log).length - 1 - (i + 1) = log.length - 1 - i := by
        rw [List.length_cons]
        omega
      rw [hcell, Function.update_of_ne (cell_ne hin hlt)]
      exact h i hlt (Nat.lt_of_succ_lt hin)

/-- Read backwards from the cell written last, the ring gives the end of the log. -/
theorem read (h : HoldsLast ring log) :
    (List.range (min log.length n)).map (fun i => ring (Fin.ofNat n (log.length - 1 - i))) =
      log.take n := by
  refine List.ext_getElem ?_ fun i hi hi' => ?_
  · rw [List.length_map, List.length_range, List.length_take, Nat.min_comm]
  · rw [List.length_map, List.length_range] at hi
    rw [List.getElem_map, List.getElem_range, List.getElem_take]
    exact h i (hi.trans_le (Nat.min_le_left ..)) (hi.trans_le (Nat.min_le_right ..))

end HoldsLast
