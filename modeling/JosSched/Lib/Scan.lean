import Mathlib.Algebra.GroupWithZero.Nat
import Mathlib.Data.Fin.Basic
import Mathlib.Data.List.Induction
import Mathlib.Data.List.Rotate
import Mathlib.Order.Basic
import Mathlib.Tactic.SplitIfs

/-!
# Scans for the first maximum

A loop over a list that keeps the best candidate so far and replaces it only by a strictly
better one finds the first of the best candidates (`foldl_scanMax`).  Over a circular list ties
go to the candidate closest to the start (`FirstMax.circularDist_le`), and a scan that starts
right after the last winner comes closer to everybody it passes over
(`circularDist_succ_lt`).
-/

variable {α β : Type*}

/-- The first among the candidates of a list with the greatest key. -/
structure FirstMax (p : α → Prop) (key : α → ℕ) (l : List α) (a : α) : Prop where
  candidate : p a
  split : ∃ before after, l = before ++ a :: after ∧
    (∀ x ∈ before, p x → key x < key a) ∧ ∀ x ∈ after, p x → key x ≤ key a

namespace FirstMax

variable {p : α → Prop} {key : α → ℕ} {l : List α} {a x : α}

theorem mem (h : FirstMax p key l a) : a ∈ l := by
  obtain ⟨before, after, rfl, -, -⟩ := h.split
  simp

theorem le (h : FirstMax p key l a) (hx : x ∈ l) (hp : p x) : key x ≤ key a := by
  obtain ⟨before, after, rfl, hbefore, hafter⟩ := h.split
  rcases List.mem_append.mp hx with hx | hx
  · exact (hbefore x hx hp).le
  · rcases List.mem_cons.mp hx with rfl | hx
    · exact le_rfl
    · exact hafter x hx hp

theorem single (hp : p a) : FirstMax p key [a] a :=
  ⟨hp, [], [], rfl, by simp, by simp⟩

/-- A candidate no better than the best one changes nothing. -/
theorem concat (h : FirstMax p key l a) (hx : p x → key x ≤ key a) :
    FirstMax p key (l ++ [x]) a := by
  obtain ⟨before, after, rfl, hbefore, hafter⟩ := h.split
  refine ⟨h.candidate, before, after ++ [x], by simp, hbefore, fun y hy hp => ?_⟩
  rcases List.mem_append.mp hy with hy | hy
  · exact hafter y hy hp
  · rw [List.mem_singleton] at hy
    subst hy
    exact hx hp

/-- A better candidate takes over. -/
theorem replace (hle : ∀ y ∈ l, p y → key y < key x) (hx : p x) :
    FirstMax p key (l ++ [x]) x :=
  ⟨hx, l, [], rfl, hle, by simp⟩

end FirstMax

/-- One iteration of the loop: `best` is the best candidate so far, with its value. -/
def scanMax (p : α → Prop) [DecidablePred p] (value : α → β) (rank : β → ℕ)
    (best : Option (α × β)) (a : α) : Option (α × β) :=
  if p a then
    match best with
    | none => some (a, value a)
    | some (_, b) => if rank b < rank (value a) then some (a, value a) else best
  else best

/-- The loop finds the first maximum, and finds nothing only when there is no candidate. -/
theorem foldl_scanMax (p : α → Prop) [DecidablePred p] (value : α → β) (rank : β → ℕ) (l : List α) :
    (∀ a b, l.foldl (scanMax p value rank) none = some (a, b) →
      b = value a ∧ FirstMax p (rank ∘ value) l a) ∧
    (l.foldl (scanMax p value rank) none = none → ∀ x ∈ l, ¬ p x) := by
  induction l using List.reverseRecOn with
  | nil => exact ⟨fun _ _ h => (by cases h), fun _ => by simp⟩
  | append_singleton l x ih =>
      -- the last element is the one that the loop looks at last
      rw [List.foldl_append, List.foldl_cons, List.foldl_nil]
      obtain ⟨hsome, hnone⟩ := ih
      cases hbest : l.foldl (scanMax p value rank) none with
      | none =>
          have hall := hnone hbest
          unfold scanMax
          by_cases hp : p x
          · rw [if_pos hp]
            refine ⟨fun a b h => ?_, fun h => (by cases h)⟩
            obtain ⟨rfl, rfl⟩ := Prod.mk.inj (Option.some.inj h)
            exact ⟨rfl, .replace (fun y hy hpy => absurd hpy (hall y hy)) hp⟩
          · rw [if_neg hp]
            refine ⟨fun _ _ h => (by cases h), fun _ y hy => ?_⟩
            rcases List.mem_append.mp hy with hy | hy
            · exact hall y hy
            · rw [List.mem_singleton] at hy
              exact hy ▸ hp
      | some best =>
          obtain ⟨a₀, b₀⟩ := best
          obtain ⟨rfl, hmax⟩ := hsome a₀ b₀ hbest
          unfold scanMax
          refine ⟨fun a b h => ?_, fun h => ?_⟩
          · by_cases hp : p x
            · rw [if_pos hp] at h
              dsimp only at h
              -- an equal value leaves the earlier candidate in place
              by_cases hlt : rank (value a₀) < rank (value x)
              · rw [if_pos hlt] at h
                obtain ⟨rfl, rfl⟩ := Prod.mk.inj (Option.some.inj h)
                exact ⟨rfl, .replace (fun y hy hpy => (hmax.le hy hpy).trans_lt hlt) hp⟩
              · rw [if_neg hlt] at h
                obtain ⟨rfl, rfl⟩ := Prod.mk.inj (Option.some.inj h)
                exact ⟨rfl, hmax.concat fun _ => not_lt.mp hlt⟩
            · rw [if_neg hp] at h
              obtain ⟨rfl, rfl⟩ := Prod.mk.inj (Option.some.inj h)
              exact ⟨rfl, hmax.concat fun hp' => absurd hp' hp⟩
          · exfalso
            by_cases hp : p x
            · rw [if_pos hp] at h
              dsimp only at h
              split at h <;> cases h
            · rw [if_neg hp] at h
              cases h

/-! ## Circular order -/

variable {n : ℕ} [NeZero n]

/-- All indices, in circular order from `start` on. -/
def circular (n : ℕ) [NeZero n] (start : ℕ) : List (Fin n) :=
  (List.range n).map fun i => Fin.ofNat n (start + i)

/-- How far `e` is from `start` in circular order. -/
def circularDist (start : ℕ) (e : Fin n) : ℕ := (e.val + n - start % n) % n

theorem circularDist_lt (start : ℕ) (e : Fin n) : circularDist start e < n :=
  Nat.mod_lt _ (Nat.pos_of_neZero n)

/-- The remainder of a number below `2 * n`. -/
private theorem mod_eq_sub {a m : ℕ} (h : a < 2 * m) : a % m = if a < m then a else a - m := by
  split
  · next hlt => exact Nat.mod_eq_of_lt hlt
  · next hge =>
      rw [Nat.mod_eq_sub_mod (not_lt.mp hge)]
      exact Nat.mod_eq_of_lt (by omega)

theorem circularDist_eq (start : ℕ) (e : Fin n) : circularDist start e =
    if e.val < start % n then e.val + n - start % n else e.val - start % n := by
  have he := e.isLt
  have hstart := Nat.mod_lt start (Nat.pos_of_neZero n)
  rw [circularDist, mod_eq_sub (by omega)]
  split_ifs <;> omega

/-- Walking that far from the start leads to `e`. -/
theorem ofNat_add_circularDist (start : ℕ) (e : Fin n) :
    Fin.ofNat n (start + circularDist start e) = e := by
  have he := e.isLt
  have hstart := Nat.mod_lt start (Nat.pos_of_neZero n)
  apply Fin.ext
  rw [Fin.val_ofNat, Nat.add_mod, Nat.mod_eq_of_lt (circularDist_lt start e), circularDist_eq,
    mod_eq_sub (by split <;> omega)]
  split_ifs <;> omega

theorem circularDist_ofNat {start i : ℕ} (hi : i < n) :
    circularDist start (Fin.ofNat n (start + i)) = i := by
  have hstart := Nat.mod_lt start (Nat.pos_of_neZero n)
  rw [circularDist_eq, Fin.val_ofNat, Nat.add_mod, Nat.mod_eq_of_lt hi, mod_eq_sub (by omega)]
  split_ifs <;> omega

theorem mem_circular (start : ℕ) (e : Fin n) : e ∈ circular n start :=
  List.mem_map.mpr ⟨circularDist start e, List.mem_range.mpr (circularDist_lt start e),
    ofNat_add_circularDist start e⟩

theorem pairwise_circular (start : ℕ) :
    (circular n start).Pairwise fun a b => circularDist start a < circularDist start b := by
  rw [circular, List.pairwise_map]
  refine List.Pairwise.imp_of_mem ?_ List.pairwise_lt_range
  intro i j hi hj hij
  rw [List.mem_range] at hi hj
  rwa [circularDist_ofNat hi, circularDist_ofNat hj]

/-- The candidates of a circular scan that tie with the winner come after it. -/
theorem FirstMax.circularDist_le {p : Fin n → Prop} {key : Fin n → ℕ} {start : ℕ} {a e : Fin n}
    (h : FirstMax p key (circular n start) a) (hp : p e) (hkey : key a ≤ key e) :
    circularDist start a ≤ circularDist start e := by
  obtain ⟨before, after, hsplit, hbefore, -⟩ := h.split
  have hsorted := pairwise_circular (n := n) start
  have hmem := mem_circular start e
  rw [hsplit] at hsorted hmem
  rcases List.mem_append.mp hmem with he | he
  · exact absurd hkey (not_le.mpr (hbefore e he hp))
  · rcases List.mem_cons.mp he with rfl | he
    · exact le_rfl
    · exact (List.rel_of_pairwise_cons (List.pairwise_append.mp hsorted).2.1 he).le

/-- A circular search finds the closest candidate. -/
theorem circularDist_le_of_find? {p : Fin n → Bool} {start : ℕ} {a e : Fin n}
    (h : (circular n start).find? p = some a) (hp : p e = true) :
    circularDist start a ≤ circularDist start e := by
  obtain ⟨-, before, after, hsplit, hbefore⟩ := List.find?_eq_some_iff_append.mp h
  have hsorted := pairwise_circular (n := n) start
  have hmem := mem_circular start e
  rw [hsplit] at hsorted hmem
  rcases List.mem_append.mp hmem with he | he
  · have hno := hbefore e he
    rw [hp] at hno
    cases hno
  · rcases List.mem_cons.mp he with rfl | he
    · exact le_rfl
    · exact (List.rel_of_pairwise_cons (List.pairwise_append.mp hsorted).2.1 he).le

/-- A scan that starts right after the last winner is closer to whoever came later. -/
theorem circularDist_succ_lt {start : ℕ} {a e : Fin n} (hne : a ≠ e)
    (h : circularDist start a ≤ circularDist start e) :
    circularDist (a.val + 1) e < circularDist start e := by
  have he := e.isLt
  have ha := a.isLt
  have hstart := Nat.mod_lt start (Nat.pos_of_neZero n)
  have hval : a.val ≠ e.val := fun heq => hne (Fin.ext heq)
  rw [circularDist_eq, circularDist_eq] at h
  rw [circularDist_eq, circularDist_eq, mod_eq_sub (m := n) (by omega)]
  split_ifs at h ⊢ <;> omega

@[simp] theorem circularDist_zero (e : Fin n) : circularDist 0 e = e.val := by
  rw [circularDist_eq, Nat.zero_mod]
  rfl

/-- So is a scan that has started over, unless the winner is one that the last scan had already
left behind. -/
theorem circularDist_succ_lt_of_restart {a b e : Fin n} (hae : a < e) (hbe : b ≠ e)
    (h : b < e → b < a) : circularDist (a.val + 1) e < circularDist (b.val + 1) e := by
  have he := e.isLt
  have hb := b.isLt
  have hval : b.val ≠ e.val := fun heq => hbe (Fin.ext heq)
  rw [Fin.lt_def] at hae h
  rw [Fin.lt_def] at h
  rw [circularDist_eq, circularDist_eq, mod_eq_sub (a := a.val + 1) (by omega),
    mod_eq_sub (a := b.val + 1) (by omega)]
  split_ifs <;> omega

/-- Behind the winner, the distances shrink by the same amount. -/
theorem circularDist_succ {start : ℕ} {a e : Fin n}
    (h : circularDist start a < circularDist start e) :
    circularDist (a.val + 1) e + circularDist start a + 1 = circularDist start e := by
  have he := e.isLt
  have ha := a.isLt
  have hstart := Nat.mod_lt start (Nat.pos_of_neZero n)
  rw [circularDist_eq, circularDist_eq] at h
  rw [circularDist_eq, circularDist_eq, circularDist_eq, mod_eq_sub (m := n) (by omega)]
  split_ifs at h ⊢ <;> omega

/-- The winner itself is the last to come to. -/
theorem circularDist_succ_self (a : Fin n) : circularDist (a.val + 1) a + 1 = n := by
  have ha := a.isLt
  rw [circularDist_eq, mod_eq_sub (m := n) (by omega)]
  split_ifs <;> omega

theorem circularDist_inj {start : ℕ} {a e : Fin n}
    (h : circularDist start a = circularDist start e) :
    a = e := by
  rw [← ofNat_add_circularDist start a, h, ofNat_add_circularDist]

/-! ## Taking turns -/

@[simp] theorem length_circular (start : ℕ) : (circular n start).length = n := by simp [circular]

theorem getElem_circular {start i : ℕ} (hi : i < (circular n start).length) :
    (circular n start)[i] = Fin.ofNat n (start + i) := by simp [circular]

theorem nodup_circular (start : ℕ) : (circular n start).Nodup :=
  (pairwise_circular start).imp fun hlt heq => by
    rw [heq] at hlt
    exact lt_irrefl _ hlt

/-- A scan that starts later sees the same list, rotated. -/
theorem circular_rotate {start next k : ℕ} (h : (start + k) % n = next % n) :
    circular n next = (circular n start).rotate k := by
  refine List.ext_getElem (by simp) fun i hi _ => ?_
  rw [List.getElem_rotate, getElem_circular, getElem_circular, length_circular]
  apply Fin.ext
  rw [Fin.val_ofNat, Fin.val_ofNat, Nat.add_mod_mod, Nat.add_mod next, ← h, ← Nat.add_mod]
  congr 1
  omega

/-- Starting right after an element moves everything up to it to the end. -/
theorem circular_succ {start : ℕ} {a : Fin n} {before after : List (Fin n)}
    (h : circular n start = before ++ a :: after) :
    circular n (a.val + 1) = after ++ (before ++ [a]) := by
  have hlen : before.length < (circular n start).length := by simp [h]
  have ha : Fin.ofNat n (start + before.length) = a := by
    rw [← getElem_circular hlen]
    simp [h]
  have hval : (start + before.length) % n = a.val := by rw [← Fin.val_ofNat, ha]
  have hnext : (start + (before ++ [a]).length) % n = (a.val + 1) % n := by
    rw [List.length_append, List.length_singleton, ← Nat.add_assoc, Nat.add_mod, hval,
      Nat.add_mod_mod]
  rw [circular_rotate hnext, h, List.append_cons, List.rotate_append_length_eq]

/-- The members of a ring that a scan comes to, once the first of them has had its turn. -/
theorem filter_circular_succ {p : Fin n → Bool} {start : ℕ} {a : Fin n} {rest : List (Fin n)}
    (h : (circular n start).filter p = a :: rest) :
    (circular n (a.val + 1)).filter p = rest ++ [a] := by
  obtain ⟨before, after, hsplit, hbefore, ha, hafter⟩ := List.filter_eq_cons_iff.mp h
  rw [circular_succ hsplit, List.filter_append, List.filter_append, hafter,
    List.filter_eq_nil_iff.mpr hbefore, List.nil_append, List.filter_cons_of_pos ha,
    List.filter_nil]

theorem circularDist_le_of_filter {p : Fin n → Bool} {start : ℕ} {a e : Fin n}
    {rest : List (Fin n)} (h : (circular n start).filter p = a :: rest) (hp : p e = true) :
    circularDist start a ≤ circularDist start e := by
  have hsorted := (pairwise_circular (n := n) start).filter p
  have hmem := List.mem_filter.mpr ⟨mem_circular start e, hp⟩
  rw [h] at hsorted hmem
  rcases List.mem_cons.mp hmem with rfl | he
  · exact le_rfl
  · exact (List.rel_of_pairwise_cons hsorted he).le

/-- A list that goes round a ring has a whole turn in each of its windows. -/
theorem window_eq_rotate {l ring : List α}
    (h : ∀ i < l.length, l[i]? = ring[i % ring.length]?) {i : ℕ}
    (hi : i + ring.length ≤ l.length) : (l.drop i).take ring.length = ring.rotate i := by
  refine List.ext_getElem (by simp; omega) fun j hj hj' => ?_
  have hlt : j < ring.length := by rwa [List.length_rotate] at hj'
  have hget := h (i + j) (by omega)
  rw [List.getElem?_eq_getElem (by omega),
    List.getElem?_eq_getElem (Nat.mod_lt _ (by omega)), Option.some.injEq] at hget
  rw [List.getElem_take, List.getElem_drop, hget, List.getElem_rotate]
  congr 1
  rw [Nat.add_comm]
