import JosSched.Inc.Mmu
import Mathlib.Data.Int.Init
import Mathlib.Tactic.Linarith

/-!
# The search for a debugging entry

`stab_binsearch` looks among the entries of one type, which other entries stand between, for the
last whose address is not above `addr`.  It always ends.  The positions it ends with are right but
for two cases (`brackets_iff`): when all the entries of the type are above `addr` it reports a
region all the same, and when it comes upon an entry at `addr` itself it goes on for `addr + 1`,
and takes the next entry for the match if that one is at `addr + 1` and still in the range.

The stab array is a function, so nothing is assumed of what lies outside the range; indices are
integers without the bounds of `int`, which no array of stabs comes near.
-/

namespace JosSched

/-- What `stab_binsearch` reads of `struct Stab`. -/
structure Stab where
  nType : BitVec 8
  nValue : Word

/-- `while (m >= low && stabs[m].n_type != type) m--;`, at most as many times as there are
entries from `low` to `m`. -/
def scanBack (stabs : ℤ → Stab) (type low : ℤ) : ℕ → ℤ → ℤ
  | 0, m => m
  | n + 1, m =>
      if m ≥ low ∧ ((stabs m).nType.toNat : ℤ) ≠ type then scanBack stabs type low n (m - 1) else m

/-- The variables of `stab_binsearch`. -/
structure Search where
  l : ℤ
  r : ℤ
  regionLeft : ℤ
  regionRight : ℤ
  anyMatches : Bool
  addr : Word

/-- The body of the loop of `stab_binsearch`. -/
def probe (stabs : ℤ → Stab) (type : ℤ) (s : Search) : Search :=
  let trueM := (s.l + s.r).tdiv 2
  let m := scanBack stabs type s.l (trueM + 1 - s.l).toNat trueM
  if m < s.l then { s with l := trueM + 1 }
  else if (stabs m).nValue < s.addr then
    { s with anyMatches := true, regionLeft := m, l := trueM + 1 }
  else if (stabs m).nValue > s.addr then
    { s with anyMatches := true, regionRight := m - 1, r := m - 1 }
  else { s with anyMatches := true, regionLeft := m, l := m, addr := s.addr + 1 }

/-- The loop of `stab_binsearch`, `none` when the fuel runs out. -/
def searchLoop (stabs : ℤ → Stab) (type : ℤ) : ℕ → Search → Option Search
  | 0, _ => none
  | fuel + 1, s =>
      if s.l ≤ s.r then searchLoop stabs type fuel (probe stabs type s) else some s

/-- What follows the loop: `*region_left` and `*region_right`. -/
def searchResult (stabs : ℤ → Stab) (type : ℤ) (s : Search) : ℤ × ℤ :=
  if s.anyMatches = false then (s.regionLeft, s.regionLeft - 1)
  else
    -- `l > *region_left` is `l >= *region_left + 1`
    (scanBack stabs type (s.regionLeft + 1) (s.regionRight - s.regionLeft).toNat s.regionRight,
      s.regionRight)

/-- `stab_binsearch`, from the values of `*region_left` and `*region_right` to those it leaves. -/
def stabBinsearch (fuel : ℕ) (stabs : ℤ → Stab) (regionLeft regionRight type : ℤ) (addr : Word) :
    Option (ℤ × ℤ) :=
  (searchLoop stabs type fuel ⟨regionLeft, regionRight, regionLeft, regionRight, false, addr⟩).map
    (searchResult stabs type)

/-! ## What the search is for -/

/-- An entry of the type in the range `[L, R]`. -/
structure Entry (stabs : ℤ → Stab) (type L R i : ℤ) : Prop where
  left : L ≤ i
  right : i ≤ R
  type : ((stabs i).nType.toNat : ℤ) = type

/-- The entries of the type in the range have strictly increasing addresses. -/
def Increasing (stabs : ℤ → Stab) (type L R : ℤ) : Prop :=
  ∀ i j, Entry stabs type L R i → Entry stabs type L R j → i < j →
    (stabs i).nValue.toNat < (stabs j).nValue.toNat

/-- The last entry that is not above `addr`. -/
structure LastEntry (stabs : ℤ → Stab) (type L R : ℤ) (addr : Word) (left : ℤ) : Prop where
  entry : Entry stabs type L R left
  le : (stabs left).nValue.toNat ≤ addr.toNat
  last : ∀ i, Entry stabs type L R i → (stabs i).nValue.toNat ≤ addr.toNat → i ≤ left

/-- The position before the next entry, or the end of the range when there is none. -/
def BeforeNext (stabs : ℤ → Stab) (type L R left right : ℤ) : Prop :=
  (∀ i, Entry stabs type L R i → left < i → right < i) ∧
    (right = R ∨ left < right + 1 ∧ Entry stabs type L R (right + 1))

/-- What the search is to leave: the entry and the end of its region, or an empty region when
there is no such entry. -/
structure Brackets (stabs : ℤ → Stab) (type L R : ℤ) (addr : Word) (left right : ℤ) : Prop where
  found : ∀ i, Entry stabs type L R i → (stabs i).nValue.toNat ≤ addr.toNat →
    LastEntry stabs type L R addr left ∧ BeforeNext stabs type L R left right
  missing : (∀ i, Entry stabs type L R i → addr.toNat < (stabs i).nValue.toNat) → right < left

/-- The bisection of `[l, r]` comes upon the entry at `a` while the next one, at `b`, is still in
the range. -/
inductive Overtakes (stabs : ℤ → Stab) (type a b : ℤ) : ℤ → ℤ → Prop
  | here {l r : ℤ} : a ≤ (l + r) / 2 → (l + r) / 2 < b → Overtakes stabs type a b l r
  | right {l r : ℤ} : (l + r) / 2 < a → Overtakes stabs type a b ((l + r) / 2 + 1) r →
      Overtakes stabs type a b l r
  | left {l r m : ℤ} : b < m → m ≤ (l + r) / 2 → ((stabs m).nType.toNat : ℤ) = type →
      (∀ i, m < i → i ≤ (l + r) / 2 → ((stabs i).nType.toNat : ℤ) ≠ type) →
      Overtakes stabs type a b l (m - 1) → Overtakes stabs type a b l r

/-- The search goes past the entry at `addr` to one at `addr + 1`. -/
structure Overtaken (stabs : ℤ → Stab) (type L R : ℤ) (addr : Word) (a b : ℤ) : Prop where
  entry : Entry stabs type L R a
  exact : (stabs a).nValue.toNat = addr.toNat
  next : Entry stabs type L R b
  succ : (stabs b).nValue.toNat = addr.toNat + 1
  overtakes : Overtakes stabs type a b L R

/-- The inputs on which the search does what it is for: there is no entry of the type, or one
that is not above `addr` and none at `addr + 1` that the search goes on to.  An entry right
behind, at the last address of all, makes `addr` wrap to `0`, which undoes the harm. -/
inductive Searchable (stabs : ℤ → Stab) (type L R : ℤ) (addr : Word) : Prop
  | empty : (∀ i, ¬ Entry stabs type L R i) → Searchable stabs type L R addr
  | entry (i : ℤ) : Entry stabs type L R i → (stabs i).nValue.toNat ≤ addr.toNat →
      (∀ a b, Overtaken stabs type L R addr a b → b = a + 1 ∧ addr.toNat + 2 = 2 ^ 32) →
      Searchable stabs type L R addr

/-! ## One probe -/

section Probe

variable {stabs : ℤ → Stab} {type : ℤ}

/-- A scan stops at the last entry of the type from `low` to `m`, or below `low`. -/
theorem scanBack_spec (stabs : ℤ → Stab) (type low : ℤ) (n : ℕ) (m : ℤ) (hn : m + 1 - low ≤ n) :
    scanBack stabs type low n m ≤ m ∧
      (low - 1 ≤ m → low - 1 ≤ scanBack stabs type low n m) ∧
      (∀ i, scanBack stabs type low n m < i → i ≤ m → ((stabs i).nType.toNat : ℤ) ≠ type) ∧
      (low ≤ scanBack stabs type low n m →
        ((stabs (scanBack stabs type low n m)).nType.toNat : ℤ) = type) := by
  induction n generalizing m with
  | zero =>
      have hstay : scanBack stabs type low 0 m = m := rfl
      rw [hstay]
      exact ⟨le_refl m, id, fun i hlt hle => by omega, fun hlow => by omega⟩
  | succ n ih =>
      unfold scanBack
      split
      · next hgo =>
          obtain ⟨hle, hlow, hnone, htype⟩ := ih (m - 1) (by omega)
          refine ⟨by omega, fun _ => hlow (by omega), fun i hlt him => ?_, htype⟩
          by_cases hlast : i = m
          · rw [hlast]
            exact hgo.2
          · exact hnone i hlt (by omega)
      · next hstop =>
          refine ⟨le_refl m, id, fun i hlt hle => by omega, fun hlow => ?_⟩
          by_contra htype
          exact hstop ⟨hlow, htype⟩

/-- The last scan does not go below where it starts and `region_left`. -/
theorem le_scanBack {left right b : ℤ} (hleft : b ≤ left) (hright : b ≤ right) :
    b ≤ scanBack stabs type (left + 1) (right - left).toNat right := by
  by_cases hscan : left ≤ right
  · obtain ⟨-, hlow, -, -⟩ := scanBack_spec stabs type
      (left + 1) (right - left).toNat right (by omega)
    have hstop := hlow (by omega)
    omega
  · have hcount : (right - left).toNat = 0 := by omega
    rw [hcount]
    exact hright

/-- What one pass through the loop can do, `t` being the middle of the range and `m` the last
entry of the type up to there. -/
inductive Probed (stabs : ℤ → Stab) (type : ℤ) (s : Search) : Search → Prop
  | none {t : ℤ} : t = (s.l + s.r) / 2 → s.l ≤ t → t ≤ s.r →
      (∀ i, s.l ≤ i → i ≤ t → ((stabs i).nType.toNat : ℤ) ≠ type) →
      Probed stabs type s { s with l := t + 1 }
  | below {t m : ℤ} : t = (s.l + s.r) / 2 → t ≤ s.r → s.l ≤ m → m ≤ t →
      ((stabs m).nType.toNat : ℤ) = type →
      (∀ i, m < i → i ≤ t → ((stabs i).nType.toNat : ℤ) ≠ type) →
      (stabs m).nValue.toNat < s.addr.toNat →
      Probed stabs type s { s with anyMatches := true, regionLeft := m, l := t + 1 }
  | above {t m : ℤ} : t = (s.l + s.r) / 2 → t ≤ s.r → s.l ≤ m → m ≤ t →
      ((stabs m).nType.toNat : ℤ) = type →
      (∀ i, m < i → i ≤ t → ((stabs i).nType.toNat : ℤ) ≠ type) →
      s.addr.toNat < (stabs m).nValue.toNat →
      Probed stabs type s { s with anyMatches := true, regionRight := m - 1, r := m - 1 }
  | exact {t m : ℤ} : t = (s.l + s.r) / 2 → t ≤ s.r → s.l ≤ m → m ≤ t →
      ((stabs m).nType.toNat : ℤ) = type →
      (∀ i, m < i → i ≤ t → ((stabs i).nType.toNat : ℤ) ≠ type) →
      (stabs m).nValue = s.addr →
      Probed stabs type s
        { s with anyMatches := true, regionLeft := m, l := m, addr := s.addr + 1 }

theorem probed (stabs : ℤ → Stab) (type : ℤ) (s : Search) (hl : 0 ≤ s.l) (hlr : s.l ≤ s.r) :
    Probed stabs type s (probe stabs type s) := by
  have hmid : (s.l + s.r).tdiv 2 = (s.l + s.r) / 2 :=
    Int.tdiv_eq_ediv_of_nonneg (by omega)
  unfold probe
  dsimp only
  rw [hmid]
  generalize ht : (s.l + s.r) / 2 = t
  obtain ⟨hle, -, hnone, htype⟩ :=
    scanBack_spec stabs type s.l (t + 1 - s.l).toNat t (by omega)
  generalize scanBack stabs type s.l (t + 1 - s.l).toNat t = m at hle hnone htype ⊢
  by_cases hmiss : m < s.l
  · rw [if_pos hmiss]
    exact .none ht.symm (by omega) (by omega) fun i hi hit => hnone i (by omega) hit
  · rw [if_neg hmiss]
    have hm : s.l ≤ m := by omega
    by_cases hlt : (stabs m).nValue < s.addr
    · rw [if_pos hlt]
      exact .below ht.symm (by omega) hm hle (htype hm) hnone hlt
    · rw [if_neg hlt]
      by_cases hgt : (stabs m).nValue > s.addr
      · rw [if_pos hgt]
        exact .above ht.symm (by omega) hm hle (htype hm) hnone hgt
      · rw [if_neg hgt]
        exact .exact ht.symm (by omega) hm hle (htype hm) hnone
          (BitVec.le_antisymm (BitVec.not_lt.mp hgt) (BitVec.not_lt.mp hlt))

end Probe

/-! ## The end of the loop -/

section Loop

variable {stabs : ℤ → Stab} {type : ℤ}

/-- Whether the first entry of the range is at `addr`: an exact match of that one does not shorten
the range. -/
def exactFirst (stabs : ℤ → Stab) (s : Search) : ℕ := if (stabs s.l).nValue = s.addr then 1 else 0

theorem exactFirst_le_one (stabs : ℤ → Stab) (s : Search) : exactFirst stabs s ≤ 1 := by
  unfold exactFirst
  split <;> omega

/-- Twice the length of the range, and one more before an exact match that does not shorten it. -/
def searchMeasure (stabs : ℤ → Stab) (s : Search) : ℕ :=
  2 * (s.r + 1 - s.l).toNat + exactFirst stabs s

/-- Fuel that is enough for a range. -/
def searchFuel (L R : ℤ) : ℕ := 2 * (R + 1 - L).toNat + 2

theorem Probed.measure_lt {s s' : Search} (h : Probed stabs type s s') :
    searchMeasure stabs s' < searchMeasure stabs s := by
  have hafter := exactFirst_le_one stabs s'
  unfold searchMeasure
  cases h with
  | none => dsimp only at hafter ⊢; omega
  | below => dsimp only at hafter ⊢; omega
  | above => dsimp only at hafter ⊢; omega
  | @exact t m _ hr hl hm _ _ hvalue =>
      by_cases hfirst : m = s.l
      · have hbefore : exactFirst stabs s = 1 := if_pos (hfirst ▸ hvalue)
        have hne : (stabs m).nValue ≠ s.addr + 1 := by
          rw [hvalue]
          bv_omega
        have hnone : exactFirst stabs { s with
            anyMatches := true, regionLeft := m, l := m, addr := s.addr + 1 } = 0 := if_neg hne
        dsimp only at hnone ⊢
        omega
      · dsimp only at hafter ⊢
        omega

/-- The rule for the loop: what every probe keeps holds when the loop ends, and it ends. -/
theorem searchLoop_spec (I : Search → Prop) (hpos : ∀ s, I s → 0 ≤ s.l)
    (hstep : ∀ s s', I s → Probed stabs type s s' → I s') (fuel : ℕ) {s : Search} (h : I s)
    (hfuel : searchMeasure stabs s < fuel) :
    ∃ s', searchLoop stabs type fuel s = some s' ∧ I s' ∧ s'.r < s'.l := by
  induction fuel generalizing s with
  | zero => omega
  | succ fuel ih =>
      unfold searchLoop
      by_cases hlr : s.l ≤ s.r
      · rw [if_pos hlr]
        have hprobed := probed stabs type s (hpos s h) hlr
        have hlt := hprobed.measure_lt
        exact ih (hstep s _ h hprobed) (by omega)
      · rw [if_neg hlr]
        exact ⟨s, rfl, h, by omega⟩

end Loop

/-! ## The entries on either side of the range -/

section Split

variable {stabs : ℤ → Stab} {type L R : ℤ} {addr : Word} {s : Search} {t m : ℤ}

/-- The entries left of the range are not above `addr` and those right of it are, and the region
is bracketed as far as the probes have told. -/
structure Split (stabs : ℤ → Stab) (type L R : ℤ) (addr : Word) (s : Search) : Prop where
  low : L ≤ s.l
  high : s.r ≤ R
  region : s.regionRight = s.r
  edge : s.r = R ∨ Entry stabs type L R (s.r + 1)
  below : ∀ i, Entry stabs type L R i → i < s.l → (stabs i).nValue.toNat ≤ addr.toNat
  above : ∀ i, Entry stabs type L R i → s.r < i → addr.toNat < (stabs i).nValue.toNat
  left : s.regionLeft = L ∨
    Entry stabs type L R s.regionLeft ∧ (stabs s.regionLeft).nValue.toNat ≤ addr.toNat
  unseen : s.anyMatches = false →
    s.regionLeft = L ∧ ∀ i, Entry stabs type L R i → s.l ≤ i ∧ i ≤ s.r
  seen : s.anyMatches = true → ∃ i, Entry stabs type L R i

namespace Split

theorem start (stabs : ℤ → Stab) (type L R : ℤ) (addr : Word) :
    Split stabs type L R addr ⟨L, R, L, R, false, addr⟩ where
  low := le_refl L
  high := le_refl R
  region := rfl
  edge := .inl rfl
  below := fun _ hi hlt => absurd hi.left (not_le.mpr hlt)
  above := fun _ hi hlt => absurd hi.right (not_le.mpr hlt)
  left := .inl rfl
  unseen := fun _ => ⟨rfl, fun _ hi => ⟨hi.left, hi.right⟩⟩
  seen := fun hseen => absurd hseen Bool.false_ne_true

theorem entry (h : Split stabs type L R addr s) (hl : s.l ≤ m) (hr : m ≤ s.r)
    (htype : ((stabs m).nType.toNat : ℤ) = type) : Entry stabs type L R m :=
  ⟨h.low.trans hl, hr.trans h.high, htype⟩

/-- No entry up to the middle: the search goes on to the right of it. -/
theorem skip (h : Split stabs type L R addr s) (hlt : s.l ≤ t)
    (hnone : ∀ i, s.l ≤ i → i ≤ t → ((stabs i).nType.toNat : ℤ) ≠ type) :
    Split stabs type L R addr { s with l := t + 1 } where
  low := by
    have hlow := h.low
    dsimp only
    omega
  high := h.high
  region := h.region
  edge := h.edge
  below := fun i hi hit => by
    dsimp only at hit
    by_cases hil : i < s.l
    · exact h.below i hi hil
    · exact absurd hi.type (hnone i (by omega) (by omega))
  above := h.above
  left := h.left
  unseen := fun hseen => by
    refine ⟨(h.unseen hseen).1, fun i hi => ?_⟩
    obtain ⟨hil, hir⟩ := (h.unseen hseen).2 i hi
    refine ⟨?_, hir⟩
    by_contra hit
    dsimp only at hit
    exact hnone i hil (by omega) hi.type
  seen := h.seen

/-- The last entry up to the middle is not above `addr`. -/
theorem goRight (h : Split stabs type L R addr s) (hinc : Increasing stabs type L R)
    (hm : Entry stabs type L R m) (hlm : s.l ≤ m) (hmt : m ≤ t)
    (hnone : ∀ i, m < i → i ≤ t → ((stabs i).nType.toNat : ℤ) ≠ type)
    (hvalue : (stabs m).nValue.toNat ≤ addr.toNat) :
    Split stabs type L R addr { s with anyMatches := true, regionLeft := m, l := t + 1 } where
  low := by
    have hlow := h.low
    dsimp only
    omega
  high := h.high
  region := h.region
  edge := h.edge
  below := fun i hi hit => by
    dsimp only at hit
    rcases lt_trichotomy i m with him | him | him
    · exact (hinc i m hi hm him).le.trans hvalue
    · rw [him]
      exact hvalue
    · exact absurd hi.type (hnone i him (by omega))
  above := h.above
  left := .inr ⟨hm, hvalue⟩
  unseen := fun hseen => absurd hseen.symm Bool.false_ne_true
  seen := fun _ => ⟨m, hm⟩

/-- The last entry up to the middle is above `addr`. -/
theorem goLeft (h : Split stabs type L R addr s) (hinc : Increasing stabs type L R)
    (hm : Entry stabs type L R m) (hmr : m ≤ s.r)
    (hvalue : addr.toNat < (stabs m).nValue.toNat) :
    Split stabs type L R addr { s with anyMatches := true, regionRight := m - 1, r := m - 1 } where
  low := h.low
  high := by
    have hhigh := h.high
    dsimp only
    omega
  region := rfl
  edge := .inr (by rwa [sub_add_cancel])
  below := h.below
  above := fun i hi hlt => by
    dsimp only at hlt
    by_cases him : i = m
    · rw [him]
      exact hvalue
    · exact hvalue.trans (hinc m i hm hi (by omega))
  left := h.left
  unseen := fun hseen => absurd hseen.symm Bool.false_ne_true
  seen := fun _ => ⟨m, hm⟩

/-- The last entry up to the middle is at `addr`: it becomes the first of the range. -/
theorem goTo (h : Split stabs type L R addr s) (hinc : Increasing stabs type L R)
    (hm : Entry stabs type L R m) (hvalue : (stabs m).nValue.toNat = addr.toNat) (addr' : Word) :
    Split stabs type L R addr
      { s with anyMatches := true, regionLeft := m, l := m, addr := addr' } where
  low := hm.left
  high := h.high
  region := h.region
  edge := h.edge
  below := fun i hi him => ((hinc i m hi hm him).trans_eq hvalue).le
  above := h.above
  left := .inr ⟨hm, hvalue.le⟩
  unseen := fun hseen => absurd hseen.symm Bool.false_ne_true
  seen := fun _ => ⟨m, hm⟩

/-- At the end of the loop the entries up to `r` are those that are not above `addr`. -/
theorem le_iff (h : Split stabs type L R addr s) (hend : s.r < s.l) {i : ℤ}
    (hi : Entry stabs type L R i) : (stabs i).nValue.toNat ≤ addr.toNat ↔ i ≤ s.r := by
  constructor
  · intro hle
    by_contra hir
    exact absurd (h.above i hi (by omega)) (not_lt.mpr hle)
  · intro hir
    exact h.below i hi (by omega)

/-- After the loop: the last scan ends at the last entry that is not above `addr`. -/
theorem lastEntry (h : Split stabs type L R addr s) (hend : s.r < s.l) {i x : ℤ}
    (hi : Entry stabs type L R i) (hle : (stabs i).nValue.toNat ≤ addr.toNat)
    (hx : scanBack stabs type (s.regionLeft + 1) (s.regionRight - s.regionLeft).toNat
      s.regionRight = x) :
    LastEntry stabs type L R addr x ∧ BeforeNext stabs type L R x s.regionRight := by
  have hir := (h.le_iff hend hi).mp hle
  obtain ⟨hxr, hlow, hnone, htype⟩ := scanBack_spec stabs type
    (s.regionLeft + 1) (s.regionRight - s.regionLeft).toNat s.regionRight (by omega)
  rw [hx] at hxr hlow hnone htype
  rw [h.region] at hxr hlow hnone
  have hix : i ≤ x := by
    by_contra hlt
    exact hnone i (by omega) hir hi.type
  have hentry : Entry stabs type L R x := by
    by_cases hscan : s.regionLeft + 1 ≤ x
    · have hhigh := h.high
      have hleft := hi.left
      exact ⟨by omega, by omega, htype hscan⟩
    · -- the scan has come down to `region_left`
      rcases h.left with hL | ⟨hentry, hvalue⟩
      · have hxi : x = i := by
          have hleft := hi.left
          omega
        rwa [hxi]
      · have hbound := (h.le_iff hend hentry).mp hvalue
        have hxl : x = s.regionLeft := by omega
        rwa [hxl]
  refine ⟨⟨hentry, (h.le_iff hend hentry).mpr hxr, fun j hj hjle => ?_⟩, fun j hj hxj => ?_, ?_⟩
  · by_contra hlt
    exact hnone j (by omega) ((h.le_iff hend hj).mp hjle) hj.type
  · rw [h.region]
    by_contra hlt
    exact hnone j hxj (by omega) hj.type
  · rw [h.region]
    rcases h.edge with hR | hnext
    · exact .inl hR
    · exact .inr ⟨by omega, hnext⟩

end Split

end Split

/-! ## The phases of the search -/

section Phases

variable {stabs : ℤ → Stab} {type L R : ℤ} {addr : Word} {s s' : Search}

/-- The last scan does not leave the region. -/
theorem searchResult_of_anyMatches (hany : s.anyMatches = true) :
    searchResult stabs type s =
      (scanBack stabs type (s.regionLeft + 1) (s.regionRight - s.regionLeft).toNat s.regionRight,
        s.regionRight) := by
  unfold searchResult
  rw [if_neg (by rw [hany]; decide)]

theorem searchResult_le (hany : s.anyMatches = true) :
    (searchResult stabs type s).1 ≤ (searchResult stabs type s).2 := by
  rw [searchResult_of_anyMatches hany]
  exact (scanBack_spec _ _ _ _ _ (by omega)).1

/-- A search that has gone past no entry leaves what it should if and only if there is something
to find, or nothing at all. -/
theorem Split.brackets_iff (h : Split stabs type L R addr s) (hend : s.r < s.l)
    (hover : ∀ a b, Overtaken stabs type L R addr a b → b = a + 1 ∧ addr.toNat + 2 = 2 ^ 32) :
    Brackets stabs type L R addr (searchResult stabs type s).1 (searchResult stabs type s).2 ↔
      Searchable stabs type L R addr := by
  cases hany : s.anyMatches with
  | false =>
      obtain ⟨hleft, hrange⟩ := h.unseen hany
      have hnone : ∀ i, ¬ Entry stabs type L R i := fun i hi => by
        obtain ⟨hil, hir⟩ := hrange i hi
        omega
      have hresult : searchResult stabs type s = (s.regionLeft, s.regionLeft - 1) := if_pos hany
      rw [hresult]
      exact ⟨fun _ => .empty hnone,
        fun _ => ⟨fun i hi _ => absurd hi (hnone i), fun _ => sub_one_lt _⟩⟩
  | true =>
      constructor
      · intro hbrackets
        by_cases hfound : ∃ i, Entry stabs type L R i ∧ (stabs i).nValue.toNat ≤ addr.toNat
        · obtain ⟨i, hi, hle⟩ := hfound
          exact .entry i hi hle hover
        · have hmissing := hbrackets.missing fun i hi => by
            by_contra hle
            exact hfound ⟨i, hi, not_lt.mp hle⟩
          exact absurd hmissing (not_lt.mpr (searchResult_le hany))
      · intro hsearchable
        cases hsearchable with
        | empty hnone =>
            obtain ⟨i, hi⟩ := h.seen hany
            exact absurd hi (hnone i)
        | entry i hi hle _ =>
            rw [searchResult_of_anyMatches hany]
            refine ⟨fun _ _ _ => h.lastEntry hend hi hle rfl, fun hmissing => ?_⟩
            exact absurd (hmissing i hi) (not_lt.mpr hle)

/-- The two entries of a search that goes too far stand next to each other. -/
theorem Overtaken.lt {a b : ℤ} (h : Overtaken stabs type L R addr a b)
    (hinc : Increasing stabs type L R) : a < b := by
  have hexact := h.exact
  have hsucc := h.succ
  rcases lt_trichotomy a b with hab | hab | hab
  · exact hab
  · rw [hab] at hexact
    omega
  · have hlt := hinc b a h.next h.entry hab
    omega

/-- Where the search is: on the way to `addr`, past it without an entry at `addr + 1` in the range,
or past it with one, which it then comes upon and leaves behind it; `addr` may wrap to `0`
there. -/
inductive SearchPhase (stabs : ℤ → Stab) (type L R : ℤ) (addr : Word) (s : Search) : Prop
  | looking : Split stabs type L R addr s → s.addr = addr →
      (∀ a, Entry stabs type L R a → (stabs a).nValue.toNat = addr.toNat → s.l ≤ a ∧ a ≤ s.r) →
      (∀ a b, Overtaken stabs type L R addr a b → b ≤ s.r ∧ Overtakes stabs type a b s.l s.r) →
      (∀ a b, Entry stabs type L R a → (stabs a).nValue.toNat = addr.toNat →
        Entry stabs type L R b → (stabs b).nValue.toNat = addr.toNat + 1 → b ≤ s.r →
        Overtakes stabs type a b s.l s.r → Overtaken stabs type L R addr a b) →
      SearchPhase stabs type L R addr s
  | passed : Split stabs type L R addr s → s.addr.toNat = addr.toNat + 1 →
      (∀ i, Entry stabs type L R i → s.l ≤ i → i ≤ s.r →
        (stabs i).nValue.toNat ≠ addr.toNat + 1) →
      (∀ a b, ¬ Overtaken stabs type L R addr a b) → SearchPhase stabs type L R addr s
  | ahead {a b : ℤ} : Split stabs type L R addr s → s.addr.toNat = addr.toNat + 1 →
      Overtaken stabs type L R addr a b → s.l ≤ b → b ≤ s.r → SearchPhase stabs type L R addr s
  | behind {a b : ℤ} : Overtaken stabs type L R addr a b → addr.toNat + 2 ≠ 2 ^ 32 →
      s.anyMatches = true → b ≤ s.l → b ≤ s.regionLeft → b ≤ s.regionRight →
      (b < s.l ∨ (stabs b).nValue.toNat < s.addr.toNat) → SearchPhase stabs type L R addr s
  | wrapped {a b : ℤ} : Overtaken stabs type L R addr a b → addr.toNat + 2 = 2 ^ 32 →
      s.anyMatches = true → s.l = b → s.regionLeft = b → s.addr = 0 → b ≤ s.r → s.r ≤ R →
      SearchPhase stabs type L R addr s
  | unwrapped {a b : ℤ} : Overtaken stabs type L R addr a b → addr.toNat + 2 = 2 ^ 32 →
      s.anyMatches = true → s.l = b → s.regionLeft = b → s.r = b - 1 → s.regionRight = b - 1 →
      SearchPhase stabs type L R addr s

theorem Increasing.lt_of_value (hinc : Increasing stabs type L R) {i j : ℤ}
    (hi : Entry stabs type L R i) (hj : Entry stabs type L R j)
    (hlt : (stabs i).nValue.toNat < (stabs j).nValue.toNat) : i < j := by
  rcases lt_trichotomy i j with hij | hij | hij
  · exact hij
  · rw [hij] at hlt
    exact absurd hlt (lt_irrefl _)
  · exact absurd (hinc j i hj hi hij) (not_lt.mpr hlt.le)

theorem Increasing.eq_of_value (hinc : Increasing stabs type L R) {i j : ℤ}
    (hi : Entry stabs type L R i) (hj : Entry stabs type L R j)
    (heq : (stabs i).nValue.toNat = (stabs j).nValue.toNat) : i = j := by
  rcases lt_trichotomy i j with hij | hij | hij
  · exact absurd heq (hinc i j hi hj hij).ne
  · exact hij
  · exact absurd heq (hinc j i hj hi hij).ne'

/-- Past the middle, the bisection goes on to the right. -/
theorem overtakes_right_iff {a b l r t : ℤ} (ht : t = (l + r) / 2) (hta : t < a) (hab : a < b) :
    Overtakes stabs type a b l r ↔ Overtakes stabs type a b (t + 1) r := by
  subst ht
  constructor
  · intro h
    cases h with
    | here hat _ => omega
    | right _ hrest => exact hrest
    | left hbm hmt _ _ _ => omega
  · exact fun h => .right hta h

/-- Before the last entry `m` up to the middle, it goes on to the left of that. -/
theorem overtakes_left_iff {a b l r t m : ℤ} (ht : t = (l + r) / 2) (hmt : m ≤ t)
    (htype : ((stabs m).nType.toNat : ℤ) = type)
    (hnone : ∀ i, m < i → i ≤ t → ((stabs i).nType.toNat : ℤ) ≠ type) (hab : a < b)
    (hbm : b ≤ m) :
    Overtakes stabs type a b l r ↔ b ≤ m - 1 ∧ Overtakes stabs type a b l (m - 1) := by
  subst ht
  constructor
  · intro h
    cases h with
    | here _ htb => omega
    | right hta _ => omega
    | @left _ _ m' hbm' hmt' htype' hnone' hrest =>
        have hm : m' = m := by
          rcases lt_trichotomy m' m with hlt | heq | hlt
          · exact absurd htype (hnone' m hlt hmt)
          · exact heq
          · exact absurd htype' (hnone m' hlt hmt')
        rw [hm] at hbm' hrest
        exact ⟨by omega, hrest⟩
  · intro h
    exact .left (by omega) hmt htype hnone h.2

theorem toNat_succ (hsucc : addr.toNat < 2 ^ 32 - 1) : (addr + 1).toNat = addr.toNat + 1 := by
  rw [BitVec.toNat_add]
  exact Nat.mod_eq_of_lt (by have hone : (1 : Word).toNat = 1 := rfl; omega)

/-- On the way to `addr`: the search comes to the entry at `addr`, when there is one, and the
entry at `addr + 1` is then in the range if and only if the bisection overtakes it. -/
theorem SearchPhase.of_looking (hinc : Increasing stabs type L R) (haddr : addr.toNat < 2 ^ 32 - 1)
    (h : Split stabs type L R addr s) (hs : s.addr = addr)
    (hexact : ∀ a, Entry stabs type L R a → (stabs a).nValue.toNat = addr.toNat →
      s.l ≤ a ∧ a ≤ s.r)
    (hover : ∀ a b, Overtaken stabs type L R addr a b →
      b ≤ s.r ∧ Overtakes stabs type a b s.l s.r)
    (hback : ∀ a b, Entry stabs type L R a → (stabs a).nValue.toNat = addr.toNat →
      Entry stabs type L R b → (stabs b).nValue.toNat = addr.toNat + 1 → b ≤ s.r →
      Overtakes stabs type a b s.l s.r → Overtaken stabs type L R addr a b)
    (hprobed : Probed stabs type s s') : SearchPhase stabs type L R addr s' := by
  -- the entries at `addr` and `addr + 1` are to the right of the middle
  have hright : ∀ t, t = (s.l + s.r) / 2 →
      (∀ a, Entry stabs type L R a → (stabs a).nValue.toNat = addr.toNat → t < a) →
      ∀ s'', s''.l = t + 1 → s''.r = s.r → s''.addr = addr → Split stabs type L R addr s'' →
        SearchPhase stabs type L R addr s'' := by
    intro t ht hta s'' hl hr hs'' hsplit
    refine .looking hsplit hs'' (fun a ha hav => ?_) (fun a b hab => ?_)
      fun a b ha hav hb hbv hbr hov => ?_
    · rw [hl, hr]
      exact ⟨by have := hta a ha hav; omega, (hexact a ha hav).2⟩
    · rw [hl, hr, ← overtakes_right_iff ht (hta a hab.entry hab.exact) (hab.lt hinc)]
      exact hover a b hab
    · have hlt := hinc.lt_of_value ha hb (by omega)
      rw [hl, hr, ← overtakes_right_iff ht (hta a ha hav) hlt] at hov
      rw [hr] at hbr
      exact hback a b ha hav hb hbv hbr hov
  cases hprobed with
  | @none t ht hlt htr hnone =>
      refine hright t ht (fun a ha hav => ?_) _ rfl rfl hs (h.skip hlt hnone)
      by_contra hat
      exact hnone a (hexact a ha hav).1 (by omega) ha.type
  | @below t m ht htr hlm hmt htype hnone hvalue =>
      rw [hs] at hvalue
      have hm := h.entry hlm (by omega) htype
      refine hright t ht (fun a ha hav => ?_) _ rfl rfl hs
        (h.goRight hinc hm hlm hmt hnone hvalue.le)
      have hlt := hinc.lt_of_value hm ha (by omega)
      by_contra hat
      exact hnone a hlt (by omega) ha.type
  | @above t m ht htr hlm hmt htype hnone hvalue =>
      rw [hs] at hvalue
      have hm := h.entry hlm (by omega) htype
      have hle : ∀ b, Entry stabs type L R b → (stabs b).nValue.toNat = addr.toNat + 1 → b ≤ m := by
        intro b hb hbv
        by_contra hmb
        have hlt := hinc m b hm hb (by omega)
        omega
      refine .looking (h.goLeft hinc hm (by omega) hvalue) hs (fun a ha hav => ?_)
        (fun a b hab => ?_) fun a b ha hav hb hbv hbr hov => ?_
      · have hlt := hinc.lt_of_value ha hm (by omega)
        exact ⟨(hexact a ha hav).1, Int.le_sub_one_of_lt hlt⟩
      · exact (overtakes_left_iff ht hmt htype hnone (hab.lt hinc)
          (hle b hab.next hab.succ)).mp (hover a b hab).2
      · have hlt := hinc.lt_of_value ha hb (by omega)
        have hbm := hle b hb hbv
        exact hback a b ha hav hb hbv (by omega)
          ((overtakes_left_iff ht hmt htype hnone hlt hbm).mpr ⟨hbr, hov⟩)
  | @exact t m ht htr hlm hmt htype hnone hvalue =>
      have hm := h.entry hlm (by omega) htype
      have hmv : (stabs m).nValue.toNat = addr.toNat := by rw [hvalue, hs]
      have hsplit := h.goTo hinc hm hmv (s.addr + 1)
      have hsucc : (s.addr + 1).toNat = addr.toNat + 1 := by
        rw [hs]
        exact toNat_succ haddr
      by_cases hnext : ∃ b, Entry stabs type L R b ∧
          (stabs b).nValue.toNat = addr.toNat + 1 ∧ b ≤ s.r
      · obtain ⟨b, hb, hbv, hbr⟩ := hnext
        have hlt := hinc.lt_of_value hm hb (by omega)
        have htb : t < b := by
          by_contra hbt
          exact hnone b hlt (by omega) hb.type
        have hov := hback m b hm hmv hb hbv hbr (.here (ht ▸ hmt) (ht ▸ htb))
        exact .ahead hsplit hsucc hov hlt.le hbr
      · refine .passed hsplit hsucc (fun i hi _ hir hiv => ?_) fun a b hab => ?_
        · exact hnext ⟨i, hi, hiv, hir⟩
        · exact hnext ⟨b, hab.next, hab.succ, (hover a b hab).1⟩

/-- Past `addr` with no entry at `addr + 1` in the range. -/
theorem SearchPhase.of_passed (hinc : Increasing stabs type L R) (h : Split stabs type L R addr s)
    (hs : s.addr.toNat = addr.toNat + 1)
    (hno : ∀ i, Entry stabs type L R i → s.l ≤ i → i ≤ s.r →
      (stabs i).nValue.toNat ≠ addr.toNat + 1)
    (hover : ∀ a b, ¬ Overtaken stabs type L R addr a b) (hprobed : Probed stabs type s s') :
    SearchPhase stabs type L R addr s' := by
  cases hprobed with
  | none _ hlt _ hnone =>
      refine .passed (h.skip hlt hnone) hs (fun i hi hil hir => ?_) hover
      dsimp only at hil
      exact hno i hi (by omega) hir
  | below _ htr hlm hmt htype hnone hvalue =>
      have hm := h.entry hlm (by omega) htype
      refine .passed (h.goRight hinc hm hlm hmt hnone (by omega)) hs (fun i hi hil hir => ?_) hover
      dsimp only at hil
      exact hno i hi (by omega) hir
  | above _ htr hlm hmt htype _ hvalue =>
      have hm := h.entry hlm (by omega) htype
      refine .passed (h.goLeft hinc hm (by omega) (by omega)) hs (fun i hi hil hir => ?_) hover
      dsimp only at hir
      exact hno i hi hil (by omega)
  | exact _ htr hlm hmt htype _ hvalue =>
      have hm := h.entry hlm (by omega) htype
      exact absurd (by rw [hvalue, hs]) (hno _ hm hlm (by omega))

/-- Past `addr` with the entry at `addr + 1` still in the range: the search comes to that one. -/
theorem SearchPhase.of_ahead (hinc : Increasing stabs type L R) {a b : ℤ}
    (h : Split stabs type L R addr s) (hs : s.addr.toNat = addr.toNat + 1)
    (hover : Overtaken stabs type L R addr a b) (hlb : s.l ≤ b) (hbr : b ≤ s.r)
    (hprobed : Probed stabs type s s') : SearchPhase stabs type L R addr s' := by
  have hb := hover.next
  have hbv := hover.succ
  cases hprobed with
  | @none t _ hlt _ hnone =>
      refine .ahead (h.skip hlt hnone) hs hover ?_ hbr
      by_contra hbt
      dsimp only at hbt
      exact hnone b hlb (by omega) hb.type
  | @below t m _ htr hlm hmt htype hnone hvalue =>
      have hm := h.entry hlm (by omega) htype
      refine .ahead (h.goRight hinc hm hlm hmt hnone (by omega)) hs hover ?_ hbr
      by_contra hbt
      dsimp only at hbt
      exact hnone b (hinc.lt_of_value hm hb (by omega)) (by omega) hb.type
  | above _ htr hlm hmt htype _ hvalue =>
      have hm := h.entry hlm (by omega) htype
      exact .ahead (h.goLeft hinc hm (by omega) (by omega)) hs hover hlb
        (Int.le_sub_one_of_lt (hinc.lt_of_value hb hm (by omega)))
  | @exact t m _ htr hlm hmt htype _ hvalue =>
      have hm := h.entry hlm (by omega) htype
      obtain rfl : m = b := hinc.eq_of_value hm hb (by rw [hvalue, hs, hbv])
      have hlast := (stabs m).nValue.isLt
      by_cases hwrap : addr.toNat + 2 = 2 ^ 32
      · refine .wrapped hover hwrap rfl rfl rfl ?_ hbr h.high
        apply BitVec.eq_of_toNat_eq
        show (s.addr + 1).toNat = 0
        rw [BitVec.toNat_add, hs]
        have hone : (1 : Word).toNat = 1 := rfl
        omega
      · refine .behind hover hwrap rfl (le_refl m) (le_refl m) ?_ (.inr ?_)
        · show m ≤ s.regionRight
          rw [h.region]
          exact hbr
        · show (stabs m).nValue.toNat < (s.addr + 1).toNat
          rw [toNat_succ (by omega), hs]
          omega

/-- Past the entry at `addr + 1` it stays past it. -/
theorem SearchPhase.of_behind {a b : ℤ} (hover : Overtaken stabs type L R addr a b)
    (hlast : addr.toNat + 2 ≠ 2 ^ 32) (hany : s.anyMatches = true) (hl : b ≤ s.l)
    (hleft : b ≤ s.regionLeft) (hright : b ≤ s.regionRight)
    (hpast : b < s.l ∨ (stabs b).nValue.toNat < s.addr.toNat) (hprobed : Probed stabs type s s') :
    SearchPhase stabs type L R addr s' := by
  cases hprobed with
  | none _ hlt _ _ =>
      refine .behind hover hlast hany ?_ hleft hright (.inl ?_) <;> dsimp only <;> omega
  | below _ _ hlm hmt _ _ _ =>
      refine .behind hover hlast rfl ?_ ?_ hright (.inl ?_) <;> dsimp only <;> omega
  | @above t m _ _ hlm _ _ _ hvalue =>
      have hbm : b ≠ m := by
        intro heq
        rw [← heq] at hvalue hlm
        omega
      refine .behind hover hlast rfl hl hleft ?_ hpast
      dsimp only
      omega
  | @exact t m _ _ hlm _ _ _ hvalue =>
      have hbm : b ≠ m := by
        intro heq
        rw [← heq] at hvalue hlm
        rw [hvalue] at hpast
        omega
      refine .behind hover hlast rfl ?_ ?_ hright (.inl ?_) <;> dsimp only <;> omega

/-- When `addr` has wrapped, the only entry left in the range is above it. -/
theorem SearchPhase.of_wrapped (hinc : Increasing stabs type L R) {a b : ℤ}
    (hover : Overtaken stabs type L R addr a b) (hlast : addr.toNat + 2 = 2 ^ 32)
    (hl : s.l = b) (hleft : s.regionLeft = b) (hs : s.addr = 0)
    (hr : s.r ≤ R) (hprobed : Probed stabs type s s') : SearchPhase stabs type L R addr s' := by
  have hb := hover.next
  have hbv := hover.succ
  -- no entry is above the one at the last address
  have honly : ∀ t m, t ≤ s.r → s.l ≤ m → m ≤ t → ((stabs m).nType.toNat : ℤ) = type → m = b := by
    intro t m htr hlm hmt htype
    have hm : Entry stabs type L R m := ⟨by have := hb.left; omega, by omega, htype⟩
    by_contra hne
    have hlt := hinc b m hb hm (by omega)
    have hmax := (stabs m).nValue.isLt
    omega
  have hzero : s.addr.toNat = 0 := by
    rw [hs]
    rfl
  cases hprobed with
  | none _ hlt _ hnone => exact absurd hb.type (hnone b (by omega) (by omega))
  | below _ _ _ _ _ _ hvalue => omega
  | above _ htr hlm hmt htype _ _ =>
      obtain rfl := honly _ _ htr hlm hmt htype
      exact .unwrapped hover hlast rfl hl hleft rfl rfl
  | @exact t m _ htr hlm hmt htype _ hvalue =>
      rw [honly t m htr hlm hmt htype] at hvalue
      rw [hvalue] at hbv
      omega

/-- The step lemma: every probe leads from a phase to a phase. -/
theorem SearchPhase.probed (hinc : Increasing stabs type L R) (haddr : addr.toNat < 2 ^ 32 - 1)
    (h : SearchPhase stabs type L R addr s) (hprobed : Probed stabs type s s') :
    SearchPhase stabs type L R addr s' := by
  cases h with
  | looking hsplit hs hexact hover hback =>
      exact .of_looking hinc haddr hsplit hs hexact hover hback hprobed
  | passed hsplit hs hno hover => exact .of_passed hinc hsplit hs hno hover hprobed
  | ahead hsplit hs hover hlb hbr => exact .of_ahead hinc hsplit hs hover hlb hbr hprobed
  | behind hover hlast hany hl hleft hright hpast =>
      exact .of_behind hover hlast hany hl hleft hright hpast hprobed
  | wrapped hover hlast _ hl hleft hs _ hr =>
      exact .of_wrapped hinc hover hlast hl hleft hs hr hprobed
  | unwrapped _ _ _ hl _ hr _ => cases hprobed <;> omega

theorem SearchPhase.start :
    SearchPhase stabs type L R addr ⟨L, R, L, R, false, addr⟩ :=
  .looking (Split.start ..) rfl (fun _ ha _ => ⟨ha.left, ha.right⟩)
    (fun _ _ hab => ⟨hab.next.right, hab.overtakes⟩)
    fun _ _ ha hav hb hbv _ hov => ⟨ha, hav, hb, hbv, hov⟩

theorem SearchPhase.nonneg (hL : 0 ≤ L) (h : SearchPhase stabs type L R addr s) : 0 ≤ s.l := by
  cases h with
  | looking hsplit _ _ _ _ => exact hL.trans hsplit.low
  | passed hsplit _ _ _ => exact hL.trans hsplit.low
  | ahead hsplit _ _ _ _ => exact hL.trans hsplit.low
  | behind hover _ _ hl _ _ _ => exact (hL.trans hover.next.left).trans hl
  | wrapped hover _ _ hl _ _ _ _ => exact hl ▸ hL.trans hover.next.left
  | unwrapped hover _ _ hl _ _ _ => exact hl ▸ hL.trans hover.next.left

/-- What the search leaves when it has gone past the entry at `addr`. -/
theorem not_brackets (hinc : Increasing stabs type L R) {a b left right : ℤ}
    (hover : Overtaken stabs type L R addr a b) (hleft : left ≠ a) :
    ¬ Brackets stabs type L R addr left right := by
  intro hbrackets
  obtain ⟨hlast, -⟩ := hbrackets.found a hover.entry hover.exact.le
  have hle := hlast.last a hover.entry hover.exact.le
  have hlt := hinc a left hover.entry hlast.entry (by omega)
  have hvalue := hlast.le
  have hexact := hover.exact
  omega

/-- What the search leaves when `addr` has wrapped. -/
theorem brackets_iff_of_wrapped (hinc : Increasing stabs type L R) {a b : ℤ}
    (hover : Overtaken stabs type L R addr a b) :
    Brackets stabs type L R addr (b - 1) (b - 1) ↔ b = a + 1 := by
  have hab := hover.lt hinc
  constructor
  · intro hbrackets
    by_contra hne
    exact not_brackets hinc hover (by omega) hbrackets
  · intro hnext
    have hba : b - 1 = a := by omega
    rw [hba]
    refine ⟨fun _ _ _ => ⟨⟨hover.entry, hover.exact.le, fun i hi hle => ?_⟩, fun _ _ hlt => hlt,
      .inr ⟨by omega, ?_⟩⟩, fun hmissing => ?_⟩
    · by_contra hlt
      have hvalue := hinc a i hover.entry hi (by omega)
      have hexact := hover.exact
      omega
    · rw [← hnext]
      exact hover.next
    · exact absurd (hmissing a hover.entry) (not_lt.mpr hover.exact.le)

/-- An overtaken entry at `addr` makes the inputs fit only when `addr` wraps. -/
theorem searchable_iff_of_overtaken (hinc : Increasing stabs type L R) {a b : ℤ}
    (hover : Overtaken stabs type L R addr a b) :
    Searchable stabs type L R addr ↔ b = a + 1 ∧ addr.toNat + 2 = 2 ^ 32 := by
  constructor
  · intro h
    cases h with
    | empty hnone => exact absurd hover.entry (hnone a)
    | entry _ _ _ hunharmed => exact hunharmed a b hover
  · intro h
    refine .entry a hover.entry hover.exact.le fun a' b' hover' => ?_
    have ha := hinc.eq_of_value hover'.entry hover.entry (by rw [hover'.exact, hover.exact])
    have hb := hinc.eq_of_value hover'.next hover.next (by rw [hover'.succ, hover.succ])
    rw [ha, hb]
    exact h

/-- At the end of the loop, in every phase. -/
theorem SearchPhase.brackets_iff (hinc : Increasing stabs type L R)
    (h : SearchPhase stabs type L R addr s)
    (hend : s.r < s.l) :
    Brackets stabs type L R addr (searchResult stabs type s).1 (searchResult stabs type s).2 ↔
      Searchable stabs type L R addr := by
  cases h with
  | looking hsplit _ hexact _ _ =>
      refine hsplit.brackets_iff hend fun a b hover => ?_
      obtain ⟨hla, har⟩ := hexact a hover.entry hover.exact
      omega
  | passed hsplit _ _ hover => exact hsplit.brackets_iff hend fun a b hab => absurd hab (hover a b)
  | ahead _ _ _ hlb hbr => omega
  | @behind a b hover hlast hany hl hleft hright _ =>
      rw [searchable_iff_of_overtaken hinc hover]
      refine ⟨fun hbrackets => ?_, fun hwrap => absurd hwrap.2 hlast⟩
      refine absurd hbrackets (not_brackets hinc hover ?_)
      have hab := hover.lt hinc
      have hpast : b ≤ (searchResult stabs type s).1 := by
        rw [searchResult_of_anyMatches hany]
        exact le_scanBack hleft hright
      omega
  | wrapped _ _ _ hl _ _ hbr _ => omega
  | @unwrapped a b hover hlast hany hl hleft hr hright =>
      have hresult : searchResult stabs type s = (b - 1, b - 1) := by
        have hcount : (b - 1 - b).toNat = 0 := by omega
        rw [searchResult_of_anyMatches hany, hleft, hright, hcount]
        rfl
      rw [searchable_iff_of_overtaken hinc hover, hresult, brackets_iff_of_wrapped hinc hover]
      exact ⟨fun hnext => ⟨hnext, hlast⟩, fun hnext => hnext.1⟩

/-- On every range of every array in which the entries of the type have increasing addresses, the
search ends, and what it leaves is right if and only if the inputs fit. -/
theorem stabBinsearch_brackets_iff (stabs : ℤ → Stab) (L R type : ℤ) (addr : Word) (hL : 0 ≤ L)
    (hinc : Increasing stabs type L R) (haddr : addr.toNat < 2 ^ 32 - 1) (fuel : ℕ)
    (hfuel : searchFuel L R ≤ fuel) :
    ∃ left right, stabBinsearch fuel stabs L R type addr = some (left, right) ∧
      (Brackets stabs type L R addr left right ↔ Searchable stabs type L R addr) := by
  have hmeasure : searchMeasure stabs ⟨L, R, L, R, false, addr⟩ < fuel := by
    have hone := exactFirst_le_one stabs ⟨L, R, L, R, false, addr⟩
    unfold searchFuel at hfuel
    unfold searchMeasure
    dsimp only
    omega
  obtain ⟨s, hloop, hphase, hend⟩ := searchLoop_spec (SearchPhase stabs type L R addr)
    (fun _ h => h.nonneg hL) (fun _ _ h hprobed => h.probed hinc haddr hprobed) fuel
      SearchPhase.start
    hmeasure
  refine ⟨_, _, ?_, hphase.brackets_iff hinc hend⟩
  unfold stabBinsearch
  rw [hloop]
  rfl

end Phases

/-- `N_FUN`, the entries of functions. -/
abbrev N_FUN : ℤ := 0x24

/-- Two functions. -/
def twoFunctions (first second : Word) (i : ℤ) : Stab := ⟨0x24, if i = 0 then first else second⟩

theorem increasing_twoFunctions {first second : Word} (h : first.toNat < second.toNat) :
    Increasing (twoFunctions first second) N_FUN 0 1 := by
  intro i j hi hj hij
  have hi₀ : i = 0 := by
    have hleft := hi.left
    have hright := hj.right
    omega
  have hj₀ : j ≠ 0 := by omega
  unfold twoFunctions
  rw [if_pos hi₀, if_neg hj₀]
  exact h

/-- A search that comes to the first of two adjacent addresses goes on to the second. -/
example : stabBinsearch 10 (twoFunctions 5 6) 0 1 N_FUN 5 = some (1, 1) := by decide

theorem stabBinsearch_twoFunctions :
    ∃ left right, stabBinsearch 10 (twoFunctions 5 9) 0 1 N_FUN 7 = some (left, right) ∧
      (Brackets (twoFunctions 5 9) N_FUN 0 1 7 left right ↔
        Searchable (twoFunctions 5 9) N_FUN 0 1 7) :=
  stabBinsearch_brackets_iff (twoFunctions 5 9) 0 1 N_FUN 7 (le_refl 0)
    (increasing_twoFunctions (by decide)) (by decide) 10 (by decide)

/-- An address below all the functions is not reported as missing. -/
theorem address_below_reported :
    ¬ ∀ (stabs : ℤ → Stab) (L R type : ℤ) (addr : Word), 0 ≤ L → Increasing stabs type L R →
      addr.toNat < 2 ^ 32 - 1 → ∀ fuel, searchFuel L R ≤ fuel →
        ∃ left right, stabBinsearch fuel stabs L R type addr = some (left, right) ∧
          Brackets stabs type L R addr left right := by
  intro h
  obtain ⟨left, right, hresult, hbrackets⟩ := h (twoFunctions 5 9) 0 1 N_FUN 3 (le_refl 0)
    (increasing_twoFunctions (by decide)) (by decide) 10 (by decide)
  have hreported : stabBinsearch 10 (twoFunctions 5 9) 0 1 N_FUN 3 = some (-1, -1) := by decide
  rw [hreported] at hresult
  cases hresult
  refine absurd (hbrackets.missing fun i _ => ?_) (by decide)
  unfold twoFunctions
  dsimp only
  split <;> decide

end JosSched
