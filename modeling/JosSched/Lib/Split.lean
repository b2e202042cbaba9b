import JosSched.Lib.Chain

/-!
# Splitting an intrusive list in place

One walk over a list threaded through `next` deals its elements out to two others, and links the
second one behind the first.  A list that grows is kept as `TailPtr`: its head, and where the next
pointer goes.  `splitChain` relinks the elements with `p` in front of the others, and keeps the
order on both sides (`Chain.split`).
-/

variable {α : Type*}

/-- A list under construction: its first element, and the one whose pointer is to be set next
(`none` for the head itself). -/
structure TailPtr (α : Type*) where
  first : Option α := none
  last : Option α := none

namespace TailPtr

variable [DecidableEq α]

/-- `*tp = v`. -/
def put (t : TailPtr α) (next : α → Option α) (v : Option α) : TailPtr α × (α → Option α) :=
  match t.last with
  | none => ({ t with first := v }, next)
  | some a => (t, Function.update next a v)

/-- `*tp = a; tp = &a->next`. -/
def add (t : TailPtr α) (next : α → Option α) (a : α) : TailPtr α × (α → Option α) :=
  ({ (t.put next (some a)).1 with last := some a }, (t.put next (some a)).2)

end TailPtr

section

variable [DecidableEq α]

/-- The walk, for at most `fuel` elements from `head` on: the two lists and the pointers. -/
def dealOut (p : α → Bool) : ℕ → Option α → (α → Option α) → TailPtr α → TailPtr α →
    TailPtr α × TailPtr α × (α → Option α)
  | 0, _, next, yes, no => (yes, no, next)
  | _ + 1, none, next, yes, no => (yes, no, next)
  | fuel + 1, some a, next, yes, no =>
      if p a then
        let (yes, next) := yes.add next a
        dealOut p fuel (next a) next yes no
      else
        let (no, next) := no.add next a
        dealOut p fuel (next a) next yes no

/-- The head and the pointers once the second list is behind the first. -/
def splitChain (p : α → Bool) (fuel : ℕ) (head : Option α) (next : α → Option α) :
    Option α × (α → Option α) :=
  let (yes, no, next) := dealOut p fuel head next {} {}
  let (no, next) := no.put next none
  let (yes, next) := yes.put next no.first
  (yes.first, next)

end

/-! ## Stretches of a list -/

/-- Following `next` from a head pointer visits the elements of the list, in order, and then comes
to the pointer `v`. -/
inductive Stretch (next : α → Option α) (v : Option α) : Option α → List α → Prop
  | nil : Stretch next v v []
  | cons {a : α} {l : List α} : Stretch next v (next a) l → Stretch next v (some a) (a :: l)

namespace Stretch

variable {next next' : α → Option α} {v head : Option α} {a : α} {l l' : List α}

theorem congr (h : Stretch next v head l) (hnext : ∀ a ∈ l, next' a = next a) :
    Stretch next' v head l := by
  induction h with
  | nil => exact .nil
  | cons _ ih =>
      refine .cons ?_
      rw [hnext _ List.mem_cons_self]
      exact ih fun a ha => hnext a (List.mem_cons_of_mem _ ha)

/-- One more element at the end. -/
theorem concat (h : Stretch next (some a) head l) (hnext : next a = v) :
    Stretch next v head (l ++ [a]) := by
  induction h with
  | nil => exact .cons (hnext ▸ .nil)
  | cons _ ih => exact .cons ih

theorem chain (h : Stretch next v head l) (hrest : Chain next v l') :
    Chain next head (l ++ l') := by
  induction h with
  | nil => exact hrest
  | cons _ ih => exact .cons ih

end Stretch

/-! ## Lists under construction -/

/-- The elements of `l` have been added, and the pointer of the last one is still open. -/
inductive TailPtr.Holds (next : α → Option α) (t : TailPtr α) : List α → Prop
  | nil : t.last = none → TailPtr.Holds next t []
  | concat {a : α} {l : List α} : t.last = some a → Stretch next (some a) t.first l → a ∉ l →
      TailPtr.Holds next t (l ++ [a])

namespace TailPtr.Holds

variable {next next' : α → Option α} {t : TailPtr α} {v : Option α} {a : α} {l l' : List α}

theorem congr (h : t.Holds next l) (hnext : ∀ a ∈ l, next' a = next a) : t.Holds next' l := by
  cases h with
  | nil hlast => exact .nil hlast
  | concat hlast hl ha =>
      refine .concat hlast (hl.congr fun b hb => hnext b ?_) ha
      exact List.mem_append_left _ hb

variable [DecidableEq α]

/-- Setting the open pointer changes that of the last element at most. -/
theorem put_of_notMem (h : t.Holds next l) (ha : a ∉ l) : (t.put next v).2 a = next a := by
  unfold TailPtr.put
  cases h with
  | nil hlast => rw [hlast]
  | concat hlast =>
      rw [hlast]
      refine Function.update_of_ne (fun heq => ha ?_) ..
      rw [heq]
      exact List.mem_append_right _ List.mem_cons_self

theorem add_of_notMem {b : α} (h : t.Holds next l) (ha : a ∉ l) : (t.add next b).2 a = next a :=
  h.put_of_notMem ha

theorem add (h : t.Holds next l) (ha : a ∉ l) :
    (t.add next a).1.Holds (t.add next a).2 (l ++ [a]) := by
  unfold TailPtr.add TailPtr.put
  cases h with
  | nil hlast =>
      rw [hlast]
      exact .concat rfl .nil List.not_mem_nil
  | @concat b l hlast hl hb =>
      rw [hlast]
      refine .concat rfl ?_ ha
      refine Stretch.concat (a := b) (hl.congr fun c hc => ?_) (Function.update_self ..)
      exact Function.update_of_ne (ne_of_mem_of_not_mem hc hb) ..

/-- With the pointer set, the list goes on there. -/
theorem chain (h : t.Holds next l) (hrest : Chain next v l') (hdisjoint : ∀ a ∈ l, a ∉ l') :
    Chain (t.put next v).2 (t.put next v).1.first (l ++ l') := by
  have hrest' : Chain (t.put next v).2 v l' := hrest.congr fun a ha =>
    h.put_of_notMem fun hl => hdisjoint a hl ha
  unfold TailPtr.put at hrest' ⊢
  cases h with
  | nil hlast =>
      rw [hlast] at hrest' ⊢
      exact hrest'
  | @concat b l hlast hl hb =>
      rw [hlast] at hrest' ⊢
      refine Stretch.chain (v := v) (Stretch.concat (a := b) (hl.congr fun c hc => ?_) ?_) hrest'
      · exact Function.update_of_ne (ne_of_mem_of_not_mem hc hb) ..
      · exact Function.update_self ..

end TailPtr.Holds

/-! ## The split -/

section

variable [DecidableEq α] {p : α → Bool} {next : α → Option α} {head : Option α}
  {l yesList noList : List α} {yes no : TailPtr α}

/-- What the walk deals out, added to what has been; other elements keep their pointers. -/
theorem dealOut_holds (fuel : ℕ) (hl : Chain next head l) (hfuel : l.length ≤ fuel)
    (hyes : yes.Holds next yesList) (hno : no.Holds next noList)
    (hnodup : (yesList ++ noList ++ l).Nodup) :
    (dealOut p fuel head next yes no).1.Holds (dealOut p fuel head next yes no).2.2
        (yesList ++ l.filter p) ∧
      (dealOut p fuel head next yes no).2.1.Holds (dealOut p fuel head next yes no).2.2
        (noList ++ l.filter fun a => !p a) ∧
      ∀ b, b ∉ yesList ++ noList ++ l → (dealOut p fuel head next yes no).2.2 b = next b := by
  induction fuel generalizing next head l yesList noList yes no with
  | zero =>
      obtain rfl := List.length_eq_zero_iff.mp (Nat.le_zero.mp hfuel)
      refine ⟨?_, ?_, fun _ _ => rfl⟩
      · exact (List.append_nil yesList).symm ▸ hyes
      · exact (List.append_nil noList).symm ▸ hno
  | succ fuel ih =>
      cases hl with
      | nil =>
          refine ⟨?_, ?_, fun _ _ => rfl⟩
          · exact (List.append_nil yesList).symm ▸ hyes
          · exact (List.append_nil noList).symm ▸ hno
      | @cons a l hrest =>
          have hfuel' : l.length ≤ fuel := Nat.le_of_succ_le_succ hfuel
          obtain ⟨hdealt, hcons, hapart⟩ := List.nodup_append'.mp hnodup
          have haway : ∀ b ∈ a :: l, b ∉ yesList ∧ b ∉ noList := fun b hb =>
            not_or.mp fun hor => hapart (List.mem_append.mpr hor) hb
          obtain ⟨hayes, hano⟩ := haway a List.mem_cons_self
          obtain ⟨-, -, hsides⟩ := List.nodup_append'.mp hdealt
          unfold dealOut
          -- one element is dealt out, which changes the pointer of the last one on that side only
          by_cases hp : p a = true
          · have hkeep : ∀ b, b ∉ yesList → (yes.add next a).2 b = next b := fun b hb =>
              hyes.add_of_notMem hb
            have hrest' : Chain (yes.add next a).2 ((yes.add next a).2 a) l := by
              rw [hkeep a hayes]
              exact hrest.congr fun b hb => hkeep b (haway b (List.mem_cons_of_mem _ hb)).1
            have hno' := hno.congr fun b hb => hkeep b fun hin => hsides hin hb
            have hperm : (yesList ++ noList ++ a :: l).Perm (yesList ++ [a] ++ noList ++ l) := by
              simp only [List.append_assoc, List.singleton_append]
              exact List.Perm.append_left _ List.perm_middle
            rw [if_pos hp, List.filter_cons_of_pos hp, List.filter_cons_of_neg (by simp [hp]),
              List.append_cons yesList]
            obtain ⟨h, h', hothers⟩ := ih hrest' hfuel' (hyes.add hayes) hno' (hnodup.perm hperm)
            refine ⟨h, h', fun b hb => ?_⟩
            rw [hperm.mem_iff] at hb
            refine (hothers b hb).trans (hkeep b fun hin => hb ?_)
            simp only [List.mem_append]
            exact .inl (.inl (.inl hin))
          · have hkeep : ∀ b, b ∉ noList → (no.add next a).2 b = next b := fun b hb =>
              hno.add_of_notMem hb
            have hrest' : Chain (no.add next a).2 ((no.add next a).2 a) l := by
              rw [hkeep a hano]
              exact hrest.congr fun b hb => hkeep b (haway b (List.mem_cons_of_mem _ hb)).2
            have hyes' := hyes.congr fun b hb => hkeep b fun hin => hsides hb hin
            have heq : yesList ++ noList ++ a :: l = yesList ++ (noList ++ [a]) ++ l := by
              rw [List.append_cons, List.append_assoc yesList]
            rw [if_neg hp, List.filter_cons_of_neg hp, List.filter_cons_of_pos (by simp [hp]),
              List.append_cons noList]
            obtain ⟨h, h', hothers⟩ := ih hrest' hfuel' hyes' (hno.add hano) (heq ▸ hnodup)
            refine ⟨h, h', fun b hb => ?_⟩
            rw [heq] at hb
            refine (hothers b hb).trans (hkeep b fun hin => hb ?_)
            simp only [List.mem_append]
            exact .inl (.inr (.inl hin))

/-- The elements with `p` come first, on both sides the order stays, and other elements keep their
pointers. -/
theorem Chain.split (h : Chain next head l) (hnodup : l.Nodup) {fuel : ℕ}
    (hfuel : l.length ≤ fuel) :
    Chain (splitChain p fuel head next).2 (splitChain p fuel head next).1
        (l.filter p ++ l.filter fun a => !p a) ∧
      ∀ b, b ∉ l → (splitChain p fuel head next).2 b = next b := by
  have hempty : ({} : TailPtr α).Holds next [] := .nil rfl
  obtain ⟨hyes, hno, hothers⟩ := dealOut_holds (p := p) fuel h hfuel hempty hempty hnodup
  rw [List.nil_append] at hyes hno
  have hapart : ∀ a ∈ l.filter p, a ∉ l.filter fun a => !p a := fun a ha hn => by
    have hp := (List.mem_filter.mp ha).2
    have hnot := (List.mem_filter.mp hn).2
    rw [hp] at hnot
    exact absurd hnot (by decide)
  have hback := hno.chain .nil fun a _ => List.not_mem_nil
  rw [List.append_nil] at hback
  have hyes' := hyes.congr fun a ha => hno.put_of_notMem (v := none) (hapart a ha)
  refine ⟨hyes'.chain hback hapart, fun b hb => ?_⟩
  have hnotYes : b ∉ l.filter p := fun hin => hb (List.mem_filter.mp hin).1
  have hnotNo : b ∉ l.filter fun a => !p a := fun hin => hb (List.mem_filter.mp hin).1
  exact ((hyes'.put_of_notMem hnotYes).trans (hno.put_of_notMem hnotNo)).trans (hothers b hb)

end
