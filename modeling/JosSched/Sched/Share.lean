import JosSched.Sched.Choice
import JosSched.Sched.Equal

/-!
# The share of two competitors

Between two environments that are always ready, of base priorities `H ≥ L`, the priority policy is
a clock.  The one that runs has not waited, and the other one waits for one decision more each time
it is passed over.  So the higher one keeps the CPU until the bonus of the lower one fills the gap:
that takes `(H - L) * AGING_THRESHOLD` decisions.  There is one more, because an environment that
runs is not ready: when the lower one loses the CPU it does not age.  Then the tie goes to the
lower one, which the scan finds, and at the next decision the higher one wins in the same way.

The first round may differ in the bonus only: what the two have waited before the run is arbitrary.
-/

namespace JosSched

variable {c : Cpu} {s s₁ s' : Kernel} {hi lo e a b : Slot} {picks : List (Slot × Word)} {w : ℕ}

/-- Two environments compete for the CPU, and nobody else does. -/
structure Rivals (c : Cpu) (hi lo : Slot) (s : Kernel) : Prop where
  ne : hi ≠ lo
  policy : s.policy = .priorities
  le : (s.envs lo).envPriority.toNat ≤ (s.envs hi).envPriority.toNat
  bounded : (s.envs hi).envPriority.toNat ≤ ENV_PRIORITY_MAX.toNat
  pgdir : ∀ e, Candidate c s e → (s.envs e).envPgdir.isSome = true
  candidate : ∀ e, Candidate c s e ↔ e = hi ∨ e = lo

/-- `H - L`. -/
def gap (hi lo : Slot) (s : Kernel) : ℕ :=
  (s.envs hi).envPriority.toNat - (s.envs lo).envPriority.toNat

/-- How many decisions there are from one pick of the lower one to the next. -/
def period (hi lo : Slot) (s : Kernel) : ℕ := gap hi lo s * AGING_THRESHOLD.toNat + 2

/-- The bonus `sched_run` gets an environment with. -/
def pickBonus (s : Kernel) (e : Slot) : Word :=
  schedEffectivePriority (s.envs e) - (s.envs e).envPriority

/-- Between two decisions nothing happens to the competitors, and nobody else starts to compete. -/
structure Between (c : Cpu) (S : Finset Slot) (s s₁ : Kernel) : Prop
    extends Undecided c S s s₁ where
  absent : ∀ e, e ∉ S → ¬ Candidate c s₁ e

/-- The decisions of `sched_yield` in a run from `s`: whom they pick, and with which bonus. -/
inductive Decisions (c : Cpu) (S : Finset Slot) (s : Kernel) : List (Slot × Word) → Kernel → Prop
  | start : Decisions c S s [] s
  | decide {picks s₁ s₂ s₃ e} : Decisions c S s picks s₁ → Between c S s₁ s₂ →
      schedYield c s₂ = .leave s₃ → s₃.curenv c = some e →
      Decisions c S s (picks ++ [(e, pickBonus s₂ e)]) s₃

/-- `a` runs, and `b` has waited for `w` decisions. -/
structure Facing (c : Cpu) (a b : Slot) (w : ℕ) (s : Kernel) : Prop where
  curenv : s.curenv c = some a
  running : (s.envs a).envStatus = .running
  rested : (s.envs a).envWaitTicks = 0
  ready : s.IsReady b
  wait : (s.envs b).envWaitTicks.toNat = w

/-! ## The bonus -/

theorem pickBonus_toNat (hprio : (s.envs e).envPriority.toNat ≤ ENV_PRIORITY_MAX.toNat) :
    (pickBonus s e).toNat =
      min ENV_PRIORITY_MAX.toNat ((s.envs e).envWaitTicks.toNat / AGING_THRESHOLD.toNat) := by
  have heff : (schedEffectivePriority (s.envs e)).toNat = _ := effective_eq hprio
  have hlt := (s.envs e).envPriority.isLt
  have hmax : ENV_PRIORITY_MAX.toNat = 15 := rfl
  have hage : AGING_THRESHOLD.toNat = 4 := rfl
  unfold pickBonus
  rw [BitVec.toNat_sub, heff, hmax, hage]
  omega

theorem pickBonus_of_rested (hprio : (s.envs e).envPriority.toNat ≤ ENV_PRIORITY_MAX.toNat)
    (hwait : (s.envs e).envWaitTicks = 0) : pickBonus s e = 0 := by
  refine BitVec.eq_of_toNat_eq ?_
  rw [pickBonus_toNat hprio, hwait]
  rfl

namespace Rivals

theorem bounded_lo (h : Rivals c hi lo s) :
    (s.envs lo).envPriority.toNat ≤ ENV_PRIORITY_MAX.toNat :=
  h.le.trans h.bounded

theorem gap_le (h : Rivals c hi lo s) : gap hi lo s ≤ 15 := by
  have hmax : ENV_PRIORITY_MAX.toNat = 15 := rfl
  have hbounded := h.bounded
  unfold gap
  omega

/-! ## Between two decisions -/

theorem between (h : Rivals c hi lo s) (hu : Between c {hi, lo} s s₁) :
    Rivals c hi lo s₁ ∧ gap hi lo s₁ = gap hi lo s := by
  have hmem : ∀ e, e ∈ ({hi, lo} : Finset Slot) ↔ e = hi ∨ e = lo := fun e => by simp
  have hprio : ∀ e, e = hi ∨ e = lo → (s₁.envs e).envPriority = (s.envs e).envPriority :=
    fun e he => congrArg (fun x => x.2.1) (hu.seat e ((hmem e).mpr he))
  have hhi := hprio hi (.inl rfl)
  have hlo := hprio lo (.inr rfl)
  have hcand : ∀ e, Candidate c s₁ e ↔ e = hi ∨ e = lo := by
    intro e
    by_cases he : e = hi ∨ e = lo
    · rw [Candidate, hu.status e ((hmem e).mpr he), hu.curenv]
      exact h.candidate e
    · exact iff_of_false (hu.absent e (he ∘ (hmem e).mp)) he
  refine ⟨⟨h.ne, hu.policy.trans h.policy, ?_, ?_, fun e he => ?_, hcand⟩, ?_⟩
  · rw [hhi, hlo]
    exact h.le
  · rw [hhi]
    exact h.bounded
  · have he' := (hcand e).mp he
    rw [hu.pgdir e ((hmem e).mpr he'), h.pgdir e ((h.candidate e).mpr he')]
  · rw [gap, gap, hhi, hlo]

end Rivals

theorem Facing.between (h : Facing c a b w s) (ha : a = hi ∨ a = lo) (hb : b = hi ∨ b = lo)
    (hu : Between c {hi, lo} s s₁) : Facing c a b w s₁ := by
  have hmem : ∀ e, e = hi ∨ e = lo → e ∈ ({hi, lo} : Finset Slot) := fun e he => by simpa using he
  have hwait : ∀ e, e = hi ∨ e = lo → (s₁.envs e).envWaitTicks = (s.envs e).envWaitTicks :=
    fun e he => congrArg (fun x => x.2.2) (hu.seat e (hmem e he))
  refine ⟨hu.curenv.trans h.curenv, (hu.status a (hmem a ha)).trans h.running,
    (hwait a ha).trans h.rested, (hu.status b (hmem b hb)).trans h.ready, ?_⟩
  rw [hwait b hb, h.wait]

/-! ## One decision -/

/-- The rivals after a decision for `best`. -/
theorem Rivals.decide (h : Rivals c hi lo s) (hyield : schedYield c s = .leave s') :
    ∃ best, Winner c s best ∧ s'.curenv c = some best ∧ (s'.envs best).envStatus = .running ∧
      (∀ e, e = hi ∨ e = lo → e ≠ best → s'.IsReady e) ∧
      (∀ e, (s'.envs e).envWaitTicks = agedWait s best e) ∧
      Rivals c hi lo s' ∧ gap hi lo s' = gap hi lo s := by
  obtain ⟨best, hwin, hrun, hwait⟩ :=
    (schedYield_optimal h.policy).1 ⟨hi, (h.candidate hi).mpr (.inl rfl)⟩
  have hran := schedRun_eq_leave (hrun.symm.trans hyield)
  have hdeparted := sameButWait_schedAge.departed_ran hran
  have hprio : ∀ e, (s'.envs e).envPriority = (s.envs e).envPriority := fun e =>
    hdeparted.proj Env.envPriority fun _ _ _ _ _ => rfl
  have hpgdir : ∀ e, (s'.envs e).envPgdir = (s.envs e).envPgdir := fun e =>
    hdeparted.proj Env.envPgdir fun _ _ _ _ _ => rfl
  have hstatus : ∀ e, (s'.envs e).envStatus = if e = best then .running
      else if s.curenv c = some e ∧ (s.envs e).envStatus = .running then .runnable
      else (s.envs e).envStatus := by
    intro e
    have hcur : (schedAge (countCall s) best).curenv c = s.curenv c := rfl
    have hsame : ((schedAge (countCall s) best).envs e).envStatus = (s.envs e).envStatus := by
      rw [sameButWait_schedAge.envs e]
    rw [hran.envs, hcur, hsame]
  have hready : ∀ e, Candidate c s e → e ≠ best → s'.IsReady e := by
    intro e he hne
    rw [Kernel.IsReady, hstatus, if_neg hne]
    split
    · rfl
    · next hcur => exact he.resolve_right hcur
  have hrunning : (s'.envs best).envStatus = .running := (hstatus best).trans (if_pos rfl)
  -- the one that was running can be picked again: it has become runnable
  have hcand : ∀ e, Candidate c s' e ↔ e = hi ∨ e = lo := by
    intro e
    rw [← h.candidate]
    by_cases he : e = best
    · subst he
      exact iff_of_true (.inr ⟨hran.curenv, hrunning⟩) hwin.candidate
    · refine ⟨fun hcand => ?_, fun hcand => .inl (hready e hcand he)⟩
      rcases hcand with hst | ⟨hcur, -⟩
      · rw [hstatus, if_neg he] at hst
        split at hst
        · next hcur => exact .inr hcur
        · exact .inl hst
      · exact absurd (Option.some.inj (hcur.symm.trans hran.curenv)) he
  refine ⟨best, hwin, hran.curenv, hrunning,
    fun e he => hready e ((h.candidate e).mpr he), fun e => ?_,
      ⟨h.ne, ?_, ?_, ?_, fun e he => ?_, hcand⟩, ?_⟩
  · rw [← hwait e, hyield]
    rfl
  · exact hdeparted.policy.trans h.policy
  · rw [hprio, hprio]
    exact h.le
  · rw [hprio]
    exact h.bounded
  · rw [hpgdir]
    exact h.pgdir e ((h.candidate e).mpr ((hcand e).mp he))
  · rw [gap, gap, hprio, hprio]

/-- The lower one gives way at once. -/
theorem Facing.yields (h : Facing c lo hi w s) (hr : Rivals c hi lo s)
    (hyield : schedYield c s = .leave s') : Facing c hi lo 0 s' := by
  obtain ⟨best, hwin, hcur, hrun, hready, hwait, -, -⟩ := hr.decide hyield
  rcases (hr.candidate best).mp hwin.candidate with rfl | rfl
  · have hlo : ¬ s.IsReady lo := fun hready => by
      rw [Kernel.IsReady, h.running] at hready
      cases hready
    refine ⟨hcur, hrun, ?_, hready lo (.inr rfl) hr.ne.symm, ?_⟩
    · rw [hwait, agedWait, if_pos rfl]
    · rw [hwait, agedWait, if_neg hr.ne.symm, if_neg hlo, h.rested]
      rfl
  · -- it has no bonus, and its own priority is not above the other's
    have hlt := hwin.kept h.curenv h.running hi h.ready
    rw [effective_eq hr.bounded, effective_eq hr.bounded_lo, h.rested] at hlt
    have hzero : (0 : Word).toNat = 0 := rfl
    have hle := hr.le
    rw [hzero, Nat.zero_div, Nat.min_zero] at hlt
    exact absurd hle (not_le.mpr ((Nat.le_add_right _ _).trans_lt hlt))

/-- The higher one goes on until the bonus of the lower one fills the gap. -/
theorem Facing.keeps (h : Facing c hi lo w s) (hr : Rivals c hi lo s)
    (hyield : schedYield c s = .leave s') :
    if w < gap hi lo s * AGING_THRESHOLD.toNat then Facing c hi lo (w + 1) s'
    else Facing c lo hi 0 s' := by
  have hmax : ENV_PRIORITY_MAX.toNat = 15 := rfl
  have hage : AGING_THRESHOLD.toNat = 4 := rfl
  have hgap := hr.gap_le
  have hgap' : gap hi lo s = (s.envs hi).envPriority.toNat - (s.envs lo).envPriority.toNat := rfl
  have hle := hr.le
  have heffHi : effective s hi = (s.envs hi).envPriority.toNat := by
    rw [effective_eq hr.bounded, h.rested]
    rfl
  have heffLo : effective s lo = (s.envs lo).envPriority.toNat + min 15 (w / 4) := by
    rw [effective_eq hr.bounded_lo, h.wait]
    rfl
  obtain ⟨best, hwin, hcur, hrun, hready, hwait, -, -⟩ := hr.decide hyield
  rw [hage]
  rcases (hr.candidate best).mp hwin.candidate with rfl | rfl
  · have hlt := hwin.kept h.curenv h.running lo h.ready
    rw [heffHi, heffLo] at hlt
    rw [if_pos (by omega)]
    refine ⟨hcur, hrun, ?_, hready lo (.inr rfl) hr.ne.symm, ?_⟩
    · rw [hwait, agedWait, if_pos rfl]
    · rw [hwait, agedWait, if_neg hr.ne.symm, if_pos h.ready, BitVec.toNat_add, h.wait]
      exact Nat.mod_eq_of_lt (by show w + 1 < 2 ^ 32; omega)
  · have hle := hwin.maximal hi (.inr ⟨h.curenv, h.running⟩)
    rw [heffHi, heffLo] at hle
    have hhi : ¬ s.IsReady hi := fun hready => by
      rw [Kernel.IsReady, h.running] at hready
      cases hready
    rw [if_neg (by omega)]
    refine ⟨hcur, hrun, ?_, hready hi (.inl rfl) hr.ne, ?_⟩
    · rw [hwait, agedWait, if_pos rfl]
    · rw [hwait, agedWait, if_neg hr.ne, if_neg hhi, h.rested]
      rfl

/-! ## Runs -/

/-- The picks follow the clock: the lower one at `first` and every period from there.  Its bonus is
the gap, but for the first time, and the other one has none, but for the first time. -/
structure Timed (hi lo : Slot) (gap period first : ℕ) (picks : List (Slot × Word)) : Prop where
  who : ∀ i e b, picks[i]? = some (e, b) → e = if i % period = first then lo else hi
  lower : ∀ i b, picks[i]? = some (lo, b) → i ≠ first → b.toNat = gap
  higher : ∀ i b, picks[i]? = some (hi, b) → (i ≠ if first = 0 then 1 else 0) → b = 0

/-- Where in the round a run is after `picks`.  Before the lower one is picked for the first time
the higher one has been picked at most as often as in any other round. -/
inductive Clock (c : Cpu) (hi lo : Slot) (gap period : ℕ) (picks : List (Slot × Word))
    (s : Kernel) : Prop
  | start : picks = [] → Clock c hi lo gap period picks s
  | waiting {w : ℕ} : 0 < picks.length → picks.length < period →
      (∀ i e b, picks[i]? = some (e, b) → e = hi ∧ (i ≠ 0 → b = 0)) →
      Facing c hi lo w s → picks.length ≤ w + 1 → Clock c hi lo gap period picks s
  | picked {first q w : ℕ} : first < period → Timed hi lo gap period first picks →
      picks.length = first + q * period + 1 → Facing c lo hi w s → (w = 0 ∨ picks.length = 1) →
      Clock c hi lo gap period picks s
  | ticking {first q r : ℕ} : first < period → Timed hi lo gap period first picks →
      picks.length = first + q * period + (r + 1) + 1 → r + 1 < period → Facing c hi lo r s →
      Clock c hi lo gap period picks s

theorem add_mod_eq_iff {n first q r : ℕ} (hfirst : first < n) (hr : r < n) :
    (first + q * n + r) % n = first ↔ r = 0 := by
  have heq : first + q * n + r = first + r + n * q := by
    rw [Nat.mul_comm]
    omega
  rw [heq, Nat.add_mul_mod_self_left]
  by_cases hlt : first + r < n
  · rw [Nat.mod_eq_of_lt hlt]
    omega
  · rw [Nat.mod_eq_sub_mod (not_lt.mp hlt), Nat.mod_eq_of_lt (by omega)]
    omega

theorem getElem?_snoc {α : Type} {l : List α} {x y : α} {i : ℕ} (h : (l ++ [x])[i]? = some y) :
    l[i]? = some y ∨ i = l.length ∧ y = x := by
  rcases lt_trichotomy i l.length with hlt | rfl | hgt
  · rw [List.getElem?_append_left hlt] at h
    exact .inl h
  · rw [List.getElem?_concat_length] at h
    exact .inr ⟨rfl, (Option.some.inj h).symm⟩
  · rw [List.getElem?_eq_none (by simp; omega)] at h
    cases h

theorem Timed.snoc {D n first : ℕ} {x : Word} (h : Timed hi lo D n first picks)
    (hwho : e = if picks.length % n = first then lo else hi)
    (hlower : e = lo → picks.length ≠ first → x.toNat = D)
    (hhigher : e = hi → (picks.length ≠ if first = 0 then 1 else 0) → x = 0) :
    Timed hi lo D n first (picks ++ [(e, x)]) := by
  refine ⟨fun i t b hb => ?_, fun i b hb => ?_, fun i b hb => ?_⟩
  · rcases getElem?_snoc hb with hb | ⟨rfl, hnew⟩
    · exact h.who i t b hb
    · obtain ⟨rfl, rfl⟩ := Prod.mk.inj hnew
      exact hwho
  · rcases getElem?_snoc hb with hb | ⟨rfl, hnew⟩
    · exact h.lower i b hb
    · obtain ⟨rfl, rfl⟩ := Prod.mk.inj hnew
      exact hlower rfl
  · rcases getElem?_snoc hb with hb | ⟨rfl, hnew⟩
    · exact h.higher i b hb
    · obtain ⟨rfl, rfl⟩ := Prod.mk.inj hnew
      exact hhigher rfl

/-- A decision moves the clock by one. -/
theorem Clock.decide (h : Clock c hi lo (gap hi lo s) (period hi lo s) picks s)
    (hr : Rivals c hi lo s) (hu : Between c {hi, lo} s s₁) (hyield : schedYield c s₁ = .leave s')
    (he : s'.curenv c = some e) :
    Clock c hi lo (gap hi lo s) (period hi lo s) (picks ++ [(e, pickBonus s₁ e)]) s' := by
  obtain ⟨hr₁, hgap⟩ := hr.between hu
  have hage : AGING_THRESHOLD.toNat = 4 := rfl
  have hperiod : period hi lo s = gap hi lo s * 4 + 2 := rfl
  have hlen : ∀ x, (picks ++ [x]).length = picks.length + 1 := fun x => by simp
  have hpicked : ∀ {a b : Slot} {w : ℕ}, Facing c a b w s' → e = a := fun hf =>
    Option.some.inj (he.symm.trans hf.curenv)
  cases h with
  -- the first decision may go to either; for the lower one, a period starts with it
  | start hnil =>
      subst hnil
      obtain ⟨best, hwin, hcur, hrun, hready, hwait, -, -⟩ := hr₁.decide hyield
      obtain rfl : best = e := Option.some.inj (hcur.symm.trans he)
      have hrested : (s'.envs best).envWaitTicks = 0 := (hwait best).trans (if_pos rfl)
      have hsingle : ∀ {i : ℕ} {x y : Slot × Word}, ([] ++ [x])[i]? = some y → i = 0 ∧ y = x := by
        intro i x y hy
        cases i with
        | zero => exact ⟨rfl, (Option.some.inj hy).symm⟩
        | succ i => cases hy
      rcases (hr₁.candidate best).mp hwin.candidate with rfl | rfl
      · refine .waiting (by simp) (by rw [hlen, hperiod]; simp) (fun i t b hb => ?_)
          ⟨hcur, hrun, hrested, hready lo (.inr rfl) hr.ne.symm, rfl⟩ (by simp)
        obtain ⟨rfl, hnew⟩ := hsingle hb
        exact ⟨(Prod.mk.inj hnew).1, fun hne => absurd rfl hne⟩
      · have htimed : Timed hi best (gap hi best s) (period hi best s) 0 [] :=
          ⟨fun _ _ _ hb => (by cases hb), fun _ _ hb => (by cases hb), fun _ _ hb => (by cases hb)⟩
        have hfirst : 0 < period hi best s := by
          rw [hperiod]
          omega
        refine .picked (q := 0) hfirst
          (htimed.snoc (by simp) (fun _ hne => absurd rfl hne) fun heq => absurd heq.symm hr.ne)
          (by simp) ⟨hcur, hrun, hrested, hready hi (.inl rfl) hr.ne, rfl⟩ (.inr rfl)
  -- the higher one runs until the lower one has waited long enough to overtake it
  | @waiting w hpos hlt hpicks hfacing hw =>
      have hfacing₁ := hfacing.between (.inl rfl) (.inr rfl) hu
      have hkeeps := hfacing₁.keeps hr₁ hyield
      rw [hgap, hage] at hkeeps
      split at hkeeps
      · next hwait =>
          obtain rfl := hpicked hkeeps
          have hbonus := pickBonus_of_rested hr₁.bounded hfacing₁.rested
          refine .waiting (by simp) (by rw [hlen]; omega) (fun i t b hb => ?_) hkeeps
            (by rw [hlen]; omega)
          rcases getElem?_snoc hb with hb | ⟨-, hnew⟩
          · exact hpicks i t b hb
          · obtain ⟨rfl, rfl⟩ := Prod.mk.inj hnew
            exact ⟨rfl, fun _ => hbonus⟩
      · obtain rfl := hpicked hkeeps
        -- no earlier decision went to the lower one, so its time is this one modulo the period
        have hmod : ∀ i < picks.length, i % period hi e s ≠ picks.length := fun i hi => by
          rw [Nat.mod_eq_of_lt (hi.trans hlt)]
          exact hi.ne
        have htimed : Timed hi e (gap hi e s) (period hi e s) picks.length picks := by
          refine ⟨fun i t b hb => ?_, fun i b hb => ?_, fun i b hb hne => ?_⟩
          · rw [if_neg (hmod i (List.getElem?_eq_some_iff.mp hb).1)]
            exact (hpicks i t b hb).1
          · exact absurd (hpicks i _ b hb).1 hr.ne.symm
          · rw [if_neg hpos.ne'] at hne
            exact (hpicks i _ b hb).2 hne
        refine .picked (q := 0) (w := 0) hlt (htimed.snoc ?_ (fun _ hne => absurd rfl hne)
          fun heq => absurd heq.symm hr.ne) (by rw [hlen]; omega) hkeeps (.inl rfl)
        rw [if_pos (Nat.mod_eq_of_lt hlt)]
  -- the lower one gives way at once, since its wait starts again
  | @picked first q w hfirst htimed hn hfacing hw =>
      have hfacing₁ := hfacing.between (.inr rfl) (.inl rfl) hu
      have hyields := hfacing₁.yields hr₁ hyield
      obtain rfl := hpicked hyields
      have hone : 1 < period e lo s := by omega
      refine .ticking hfirst (htimed.snoc ?_ (fun heq => absurd heq hr.ne) fun _ hne => ?_)
        (q := q) (r := 0) (by rw [hlen, hn]) hone hyields
      · rw [hn, if_neg fun hmod => absurd ((add_mod_eq_iff hfirst hone).mp hmod) one_ne_zero]
      · -- the other one has waited only if this is its first pick
        rcases hw with rfl | hone
        · refine pickBonus_of_rested hr₁.bounded (BitVec.eq_of_toNat_eq ?_)
          exact hfacing₁.wait
        · have hzero : first = 0 := by omega
          rw [if_pos hzero] at hne
          exact absurd hone hne
  -- in between the higher one keeps the CPU; at the end of the period a new one starts
  | @ticking first q r hfirst htimed hn hr' hfacing =>
      have hfacing₁ := hfacing.between (.inl rfl) (.inr rfl) hu
      have hkeeps := hfacing₁.keeps hr₁ hyield
      rw [hgap, hage] at hkeeps
      have hn' : picks.length = first + q * period hi lo s + (r + 1 + 1) := by omega
      split at hkeeps
      · next hwait =>
          obtain rfl := hpicked hkeeps
          have hbonus := pickBonus_of_rested hr₁.bounded hfacing₁.rested
          have hnext : r + 1 + 1 < period e lo s := by omega
          refine .ticking hfirst (htimed.snoc ?_ (fun heq => absurd heq hr.ne) fun _ _ => hbonus)
            (by rw [hlen, hn']) hnext hkeeps
          rw [hn', if_neg fun hmod =>
            absurd ((add_mod_eq_iff hfirst hnext).mp hmod) (Nat.succ_ne_zero _)]
      · next hwait =>
          obtain rfl := hpicked hkeeps
          have hfull : r + 1 + 1 = period hi e s := by omega
          have hround : picks.length = first + (q + 1) * period hi e s + 0 := by
            rw [hn', hfull, Nat.succ_mul]
            omega
          refine .picked (q := q + 1) (w := 0) hfirst (htimed.snoc ?_ (fun _ _ => ?_)
            fun heq => absurd heq.symm hr.ne) (by rw [hlen, hround]) hkeeps (.inl rfl)
          · rw [hround, if_pos ((add_mod_eq_iff hfirst (by omega)).mpr rfl)]
          · have hgap_le := hr.gap_le
            have hmax : ENV_PRIORITY_MAX.toNat = 15 := rfl
            rw [pickBonus_toNat hr₁.bounded_lo, hfacing₁.wait, hmax, hage]
            omega

theorem Decisions.clock (hrun : Decisions c {hi, lo} s picks s') (h : Rivals c hi lo s) :
    Rivals c hi lo s' ∧ gap hi lo s' = gap hi lo s ∧
      Clock c hi lo (gap hi lo s) (period hi lo s) picks s' := by
  induction hrun with
  | start => exact ⟨h, rfl, .start rfl⟩
  | @decide picks s₁ s₂ s₃ e _ hu hyield he ih =>
      obtain ⟨hr, hgap, hclock⟩ := ih
      obtain ⟨hr₂, hgap₂⟩ := hr.between hu
      obtain ⟨-, -, -, -, -, -, hr₃, hgap₃⟩ := hr₂.decide hyield
      have hperiod : period hi lo s₁ = period hi lo s := by rw [period, period, hgap]
      rw [← hgap, ← hperiod] at hclock ⊢
      exact ⟨hr₃, hgap₃.trans hgap₂, hclock.decide hr hu hyield he⟩

/-- What the decisions from `s` on give to each of the two.  The one picked at `i` is named by `i`
alone, and so once the lower one has been picked the other one gets the next
`(H - L) * AGING_THRESHOLD + 1` decisions and then the lower one gets one again. -/
structure Shares (c : Cpu) (hi lo : Slot) (s : Kernel) (picks : List (Slot × Word))
    (s' : Kernel) : Prop where
  periodic : ∃ first < period hi lo s, ∀ i e b, picks[i]? = some (e, b) →
    e = if i % period hi lo s = first then lo else hi
  again : ∀ i b, picks[i]? = some (lo, b) → ∀ k e b', 0 < k → k ≤ period hi lo s →
    picks[i + k]? = some (e, b') → e = if k = period hi lo s then lo else hi
  oneEach : ∀ i, i + period hi lo s ≤ picks.length →
    (((picks.drop i).take (period hi lo s)).map Prod.fst).count lo = 1
  lower : ∀ (i j : ℕ) (b b' : Word), i < j → picks[i]? = some (lo, b) →
    picks[j]? = some (lo, b') → b'.toNat = gap hi lo s
  higher : ∀ (i j : ℕ) (b b' : Word), i < j → picks[i]? = some (hi, b) →
    picks[j]? = some (hi, b') → b' = 0
  goesOn : ∀ s₁, Between c {hi, lo} s' s₁ →
    ∃ e s₂, schedYield c s₁ = .leave s₂ ∧ s₂.curenv c = some e

/-- Before the lower one is picked its turn may be any that is still to come. -/
theorem Clock.timed {D n : ℕ} (h : Clock c hi lo D n picks s) (hn : 2 ≤ n) (hne : hi ≠ lo) :
    ∃ first < n, Timed hi lo D n first picks := by
  cases h with
  | start hnil =>
      subst hnil
      exact ⟨0, by omega, fun _ _ _ hb => (by cases hb), fun _ _ hb => (by cases hb),
        fun _ _ hb => (by cases hb)⟩
  | waiting hpos hlt hpicks _ _ =>
      refine ⟨picks.length, hlt, fun i t b hb => ?_, fun i b hb => ?_, fun i b hb hi => ?_⟩
      · have hlen := (List.getElem?_eq_some_iff.mp hb).1
        rw [Nat.mod_eq_of_lt (hlen.trans hlt), if_neg hlen.ne]
        exact (hpicks i t b hb).1
      · exact absurd (hpicks i _ b hb).1 hne.symm
      · rw [if_neg hpos.ne'] at hi
        exact (hpicks i _ b hb).2 hi
  | picked hfirst htimed | ticking hfirst htimed => exact ⟨_, hfirst, htimed⟩

theorem Between.refl (h : Rivals c hi lo s) : Between c {hi, lo} s s := by
  have habsent : ∀ e, e ∉ ({hi, lo} : Finset Slot) → ¬ Candidate c s e := fun e he hcand =>
    he (by simpa using (h.candidate e).mp hcand)
  exact ⟨⟨rfl, rfl, fun _ _ => rfl, fun _ _ => rfl, fun _ _ => rfl,
    fun e he hready => habsent e he (.inl hready)⟩, habsent⟩

/-- Two rivals share the CPU in this way in every run of decisions. -/
theorem rival_shares (h : Rivals c hi lo s) (hrun : Decisions c {hi, lo} s picks s') :
    Shares c hi lo s picks s' := by
  obtain ⟨hr, -, hclock⟩ := hrun.clock h
  obtain ⟨first, hfirst, htimed⟩ := hclock.timed (Nat.le_add_left 2 _) h.ne
  -- the lower one is picked exactly at the times that are `first` modulo the period
  have hlo : ∀ i b, picks[i]? = some (lo, b) → i % period hi lo s = first := by
    intro i b hb
    by_contra hmod
    have hwho := htimed.who i lo b hb
    rw [if_neg hmod] at hwho
    exact h.ne hwho.symm
  have hhi : ∀ i b, picks[i]? = some (hi, b) → i % period hi lo s ≠ first := by
    intro i b hb hmod
    have hwho := htimed.who i hi b hb
    rw [if_pos hmod] at hwho
    exact h.ne hwho
  refine ⟨⟨first, hfirst, htimed.who⟩, fun i b hb k e b' hpos hk hb' => ?_, fun i hlen => ?_,
    fun i j b b' hij hb hb' => htimed.lower j b' hb' ?_,
    fun i j b b' hij hb hb' => htimed.higher j b' hb' ?_, fun s₁ hu => ?_⟩
  · have hround : i = first + i / period hi lo s * period hi lo s := by
      have hdiv := Nat.mod_add_div' i (period hi lo s)
      rw [hlo i b hb] at hdiv
      exact hdiv.symm
    rw [htimed.who (i + k) e b' hb']
    by_cases hfull : k = period hi lo s
    · rw [if_pos hfull, hfull, Nat.add_mod_right, hlo i b hb, if_pos rfl]
    · rw [if_neg hfull, hround, if_neg fun hmod => ?_]
      exact absurd ((add_mod_eq_iff hfirst (lt_of_le_of_ne hk hfull)).mp hmod) hpos.ne'
  · -- the names picked go round a ring in which the lower one stands once
    let ring := (List.range (period hi lo s)).map fun i => if i = first then lo else hi
    have hring : ring.length = period hi lo s := by simp [ring]
    have hnames : ∀ j < (picks.map Prod.fst).length,
        (picks.map Prod.fst)[j]? = ring[j % ring.length]? := by
      intro j hj
      rw [List.length_map] at hj
      have hpos : 0 < period hi lo s := by rw [period]; omega
      have hget := htimed.who j picks[j].1 picks[j].2 (List.getElem?_eq_getElem hj)
      rw [List.getElem?_map, List.getElem?_eq_getElem hj, hring, List.getElem?_map,
        List.getElem?_range (Nat.mod_lt j hpos)]
      exact congrArg some hget
    have hwindow := window_eq_rotate hnames (i := i) (by rw [hring, List.length_map]; exact hlen)
    rw [← List.map_drop, ← List.map_take, hring] at hwindow
    have hcount : ring.count lo = (List.range (period hi lo s)).count first := by
      rw [List.count, List.countP_map, List.count]
      refine List.countP_congr fun j _ => ?_
      by_cases hj : j = first <;> simp [hj, h.ne]
    rw [hwindow, (List.rotate_perm ring i).count_eq, hcount]
    exact List.count_eq_one_of_mem List.nodup_range (List.mem_range.mpr hfirst)
  · rintro rfl
    have hmod := hlo i b hb
    rw [Nat.mod_eq_of_lt (hij.trans hfirst)] at hmod
    exact hij.ne hmod
  · intro hj
    split at hj
    · next hzero =>
        obtain rfl : i = 0 := by omega
        exact hhi 0 b hb (by rw [hzero, Nat.zero_mod])
    · omega
  · obtain ⟨hr₁, -⟩ := hr.between hu
    have hcand := (hr₁.candidate hi).mpr (.inl rfl)
    obtain ⟨s₂, hyield⟩ := exists_schedYield hcand hr₁.pgdir
    obtain ⟨best, -, hcur, -⟩ := hr₁.decide hyield
    exact ⟨best, s₂, hyield, hcur⟩

/-- The decisions between the two go on for as long as one likes. -/
theorem exists_decisions (h : Rivals c hi lo s) (n : ℕ) :
    ∃ picks s', Decisions c {hi, lo} s picks s' ∧ picks.length = n := by
  induction n with
  | zero => exact ⟨[], s, .start, rfl⟩
  | succ n ih =>
      obtain ⟨picks, s₁, hrun, hlen⟩ := ih
      have h₁ := (hrun.clock h).1
      obtain ⟨s₂, hyield⟩ := exists_schedYield ((h₁.candidate hi).mpr (.inl rfl)) h₁.pgdir
      obtain ⟨best, -, hcur, -⟩ := h₁.decide hyield
      refine ⟨_, s₂, .decide hrun (.refl h₁) hyield hcur, ?_⟩
      rw [List.length_append, hlen, List.length_singleton]

/-! ## The first round -/

/-- A process creates a thread of priority 0 and, a decision later, one of priority 1.  After three
more decisions it waits for a message, and the first thread, which has waited longer, is picked. -/
def unevenThreads : List Event :=
  [.boot emptyImage, .start 0, sysTrap 0 .threadCreate 0x800020 0xeebfe000 0 0 0,
    sysTrap 0 .setpriority 0x1001 0 0 0 0, sysTrap 0 .yield 0 0 0 0 0,
    sysTrap 0 .threadCreate 0x800020 0xeebfe000 0 0 0, sysTrap 0 .setpriority 0x1002 1 0 0 0,
    sysTrap 0 .yield 0 0 0 0 0, sysTrap 0 .yield 0 0 0 0 0, sysTrap 0 .yield 0 0 0 0 0,
    sysTrap 0 .ipcRecv 0x800000 0 0 0 0]

theorem exists_rivals : ∃ s, Trace (CpuStep 0) (bootedMachine .priorities 64) unevenThreads s ∧
    Rivals 0 2 1 s ∧ Facing 0 1 2 4 s ∧ gap 2 1 s = 1 ∧ pickBonus s 2 = 1 := by
  have heval : (replay (fun _ ev => ev.By 0) (bootedMachine .priorities 64) unevenThreads).any
      (fun s => decide (s.policy = .priorities ∧
        (s.envs 1).envPriority.toNat ≤ (s.envs 2).envPriority.toNat ∧
        (s.envs 2).envPriority.toNat ≤ ENV_PRIORITY_MAX.toNat ∧
        (s.envs 2).envPgdir.isSome = true ∧ (s.envs 1).envPgdir.isSome = true ∧
        (∀ e, Candidate 0 s e ↔ e = 2 ∨ e = 1) ∧
        (s.curenv 0 = some 1 ∧ (s.envs 1).envStatus = .running ∧ (s.envs 1).envWaitTicks = 0 ∧
          s.IsReady 2 ∧ (s.envs 2).envWaitTicks.toNat = 4) ∧
        gap 2 1 s = 1 ∧ pickBonus s 2 = 1)) = true := by
    decide +kernel
  obtain ⟨s, hrun, hs⟩ := exists_trace _ _ _ _ heval
  obtain ⟨hpolicy, hle, hbounded, hpgdir₂, hpgdir₁, hcand, ⟨h₁, h₂, h₃, h₄, h₅⟩, hgap, hbonus⟩ :=
    decide_eq_true_iff.mp hs
  refine ⟨s, hrun, ⟨by decide, hpolicy, hle, hbounded, fun e he => ?_, hcand⟩,
    ⟨h₁, h₂, h₃, h₄, h₅⟩, hgap, hbonus⟩
  rcases (hcand e).mp he with rfl | rfl
  · exact hpgdir₂
  · exact hpgdir₁

/-- A running environment with no bonus gives way to a rival of a higher priority, whatever bonus
that one has. -/
theorem exists_first_pick (h : Rivals c hi lo s) (hcur : s.curenv c = some lo)
    (hrun : (s.envs lo).envStatus = .running) (hwait : (s.envs lo).envWaitTicks = 0) :
    ∃ s', Decisions c {hi, lo} s [(hi, pickBonus s hi)] s' := by
  have hready : s.IsReady hi := by
    refine ((h.candidate hi).mpr (.inl rfl)).resolve_right fun hand => ?_
    exact h.ne (Option.some.inj (hand.1.symm.trans hcur))
  have hfacing : Facing c lo hi _ s := ⟨hcur, hrun, hwait, hready, rfl⟩
  obtain ⟨s', hyield⟩ := exists_schedYield ((h.candidate hi).mpr (.inl rfl)) h.pgdir
  exact ⟨s', Decisions.decide .start (.refl h) hyield (hfacing.yields h hyield).curenv⟩

/-- The bonus of the higher one need not be 0 the first time: here it is picked with a bonus of 1,
which it has from the time when both were waiting for the process. -/
theorem higher_picked_with_bonus :
    ¬ ∀ evs s picks s', Trace (CpuStep 0) (bootedMachine .priorities 64) evs s → Rivals 0 2 1 s →
      Decisions 0 {2, 1} s picks s' → ∀ b, (2, b) ∈ picks → b = 0 := by
  intro hall
  obtain ⟨s, hrun, hrivals, hfacing, -, hbonus⟩ := exists_rivals
  obtain ⟨s', hdecisions⟩ :=
    exists_first_pick hrivals hfacing.curenv hfacing.running hfacing.rested
  have hzero := hall _ _ _ _ hrun hrivals hdecisions _ (List.mem_singleton.mpr rfl)
  rw [hbonus] at hzero
  exact absurd hzero (by decide)

/-- The same two threads share the CPU as the theorem says for two whole periods, of six decisions
each: in any six in a row, the one of priority 0 is picked once. -/
theorem rival_shares_unevenThreads : ∃ s picks s', gap 2 1 s = 1 ∧ picks.length = 12 ∧
    Shares 0 2 1 s picks s' ∧ ∀ i ≤ 6, (((picks.drop i).take 6).map Prod.fst).count 1 = 1 := by
  obtain ⟨s, -, hrivals, -, hgap, -⟩ := exists_rivals
  obtain ⟨picks, s', hdecisions, hlen⟩ := exists_decisions hrivals 12
  have hshares := rival_shares hrivals hdecisions
  have hperiod : period 2 1 s = 6 := by
    rw [period, hgap]
    rfl
  refine ⟨s, picks, s', hgap, hlen, hshares, fun i hi => ?_⟩
  have hone := hshares.oneEach i (by rw [hperiod, hlen]; omega)
  rwa [hperiod] at hone

end JosSched
