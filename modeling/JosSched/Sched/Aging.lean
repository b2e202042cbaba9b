import JosSched.Sched.Turns

/-!
# Aging

Under the priority policy a ready environment that a decision passes over gains bonus, up to
`ENV_PRIORITY_MAX`.  From then on it can only lose to an environment with a priority it cannot
reach, or in a tie; and the scan starts right after the last winner, so ties bring it closer to
the start of the scan.

The argument in `kern/sched.c` is about one competitor, which runs and so never ages.  `Fair`
is what it takes with any number of them, and `passedOver_le` is the bound.
-/

namespace JosSched

/-- How long it takes to saturate the bonus. -/
abbrev MAX_WAIT : ℕ := ENV_PRIORITY_MAX.toNat * AGING_THRESHOLD.toNat

/-- A decision in which waiting counts for `e`.  With a saturated bonus nobody who competes
outranks it, and where the scan starts over at slot 0, because the current environment was freed,
it does not come back to a slot that it had left behind and that ties with `e`. -/
structure Fair (c : Cpu) (e : Slot) (s s' : Kernel) : Prop where
  noWrap : (s.envs e).envWaitTicks.toNat + 1 < 2 ^ 32
  outranked : MAX_WAIT ≤ (s.envs e).envWaitTicks.toNat → ∀ t, Contends s s'.ticks t →
    effective s t ≤ (s.envs e).envPriority.toNat + ENV_PRIORITY_MAX.toNat
  restart : MAX_WAIT ≤ (s.envs e).envWaitTicks.toNat →
    ∀ cur, s.curenv c = some cur → (s'.envs cur).envStatus = .free → cur < e →
      ∀ t < cur, s.IsReady t →
        effective s t < (s.envs e).envPriority.toNat + ENV_PRIORITY_MAX.toNat

variable {c : Cpu} {s s₁ s' s₀ : Kernel} {ev : Event} {e best : Slot} {evs : List Event} {n : ℕ}

/-! ## What a decision depends on -/

theorem effective_of_seat {t : Slot} (h : (s₁.envs t).seat = (s.envs t).seat) :
    effective s₁ t = effective s t := by
  obtain ⟨-, h⟩ := Prod.mk.inj h
  obtain ⟨hprio, hwait⟩ := Prod.mk.inj h
  unfold effective schedEffectivePriority
  rw [hprio, hwait]

/-- Priorities are too small for the sum to overflow. -/
theorem effective_eq (hprio : (s.envs e).envPriority.toNat ≤ ENV_PRIORITY_MAX.toNat) :
    effective s e = (s.envs e).envPriority.toNat +
      min ENV_PRIORITY_MAX.toNat ((s.envs e).envWaitTicks.toNat / AGING_THRESHOLD.toNat) := by
  have hdiv := BitVec.toNat_udiv (x := (s.envs e).envWaitTicks) (y := AGING_THRESHOLD)
  have hmax : ENV_PRIORITY_MAX.toNat = 15 := rfl
  unfold effective schedEffectivePriority
  dsimp only
  rw [BitVec.toNat_add]
  split
  · next hlt =>
      have hlt : ENV_PRIORITY_MAX.toNat < ((s.envs e).envWaitTicks / AGING_THRESHOLD).toNat := hlt
      rw [hdiv] at hlt
      omega
  · next hle =>
      have hle : ¬ ENV_PRIORITY_MAX.toNat < ((s.envs e).envWaitTicks / AGING_THRESHOLD).toNat := hle
      rw [hdiv] at hle ⊢
      omega

theorem schedPick_congr (henvs : s₁.envs = s.envs) (hcpus : s₁.cpus = s.cpus) :
    schedPick c s₁ = schedPick c s := by
  have hbest : schedBest s₁ = schedBest s := by
    funext best e
    simp only [schedBest, henvs]
  simp only [schedPick, hbest, scanStart, Kernel.curenv, henvs, hcpus]

/-- A decision of the priority policy goes to what it picks, if there is anything to pick. -/
theorem schedYield_ran (hpolicy : s.policy = .priorities) (h : schedYield c s = .leave s')
    (he : s.IsReady e ∨ s.curenv c = some e ∧ (s.envs e).envStatus = .running) :
    ∃ best, Picked c s best ∧ Ran c (schedAge (countCall s) best) best s' := by
  unfold schedYield at h
  dsimp only at h
  rw [show (countCall s).policy = .priorities from hpolicy] at h
  dsimp only at h
  have hpick : schedPick c (countCall s) = schedPick c s := schedPick_congr rfl rfl
  rw [hpick] at h
  split at h
  · next best prio hbest => exact ⟨best, schedPick_picked hbest, schedRun_eq_leave h⟩
  · next hnone => exact absurd he (not_contending_of_schedPick hnone e)

/-! ## Losing a decision -/

/-- A ready environment that a decision passed over has waited one decision more. -/
theorem wait_of_lost {best : Slot} (hran : Ran c (schedAge (countCall s) best) best s')
    (he : s.IsReady e) (hlost : s'.IsReady e) :
    e ≠ best ∧ (s'.envs e).envWaitTicks = (s.envs e).envWaitTicks + 1 := by
  have hne : e ≠ best := by
    rintro rfl
    rw [Kernel.IsReady, hran.envs e] at hlost
    simp at hlost
  refine ⟨hne, ?_⟩
  rw [hran.envs e]
  show ((schedAge (countCall s) best).envs e).envWaitTicks = _
  have he' : ((countCall s).envs e).envStatus = .runnable := he
  simp only [schedAge, if_neg hne, if_pos he']
  rfl

/-- With its bonus saturated, and nobody out of its reach, an environment only loses a tie to
one that the scan comes to first. -/
theorem Contest.tie (hsolo : Solo c s) (h : Contest c s s₁) (hticks : s'.ticks = s₁.ticks)
    (hfair : Fair c e s s') (hwait : MAX_WAIT ≤ (s.envs e).envWaitTicks.toNat) (he : s₁.IsReady e)
    (hpicked : Picked c s₁ best) :
    s₁.IsReady best ∧
      effective s best = (s.envs e).envPriority.toNat + ENV_PRIORITY_MAX.toNat ∧
      circularDist (scanStart c s₁) best ≤ circularDist (scanStart c s₁) e := by
  have heff : effective s e = (s.envs e).envPriority.toNat + ENV_PRIORITY_MAX.toNat := by
    rw [effective_eq (hsolo.bounded e)]
    have hmax : ENV_PRIORITY_MAX.toNat = 15 := rfl
    have hage : AGING_THRESHOLD.toNat = 4 := rfl
    have hwait : 15 * 4 ≤ (s.envs e).envWaitTicks.toNat := hwait
    rw [hmax, hage]
    omega
  have hsame := fun t => effective_of_seat (h.seat t)
  have hcontends : Contends s s'.ticks best := by
    rw [hticks]
    rcases hpicked.candidate with hst | ⟨-, hst⟩
    · exact h.ready best hst
    · exact .inr (.inl (h.stays best hst))
  have hle := hfair.outranked hwait best hcontends
  cases hpicked with
  | scan hmax hcur =>
      have hge := hmax.le (mem_circular _ e) he
      rw [hsame, hsame, heff] at hge
      refine ⟨hmax.candidate, le_antisymm hle hge, hmax.circularDist_le he ?_⟩
      rw [hsame, hsame, heff]
      exact hle
  | current hcur hrun hlt =>
      have hlt := hlt e he
      rw [hsame, hsame, heff] at hlt
      exact absurd hle (not_le.mpr hlt)

/-! ## Runs -/

/-- What an environment has lost so far: a decision for each tick of its wait counter while the
bonus grows, then at most one for each slot of the way to the start of the scan. -/
structure Budget (c : Cpu) (e : Slot) (n : ℕ) (s : Kernel) : Prop where
  growing : (s.envs e).envWaitTicks.toNat < MAX_WAIT → n ≤ (s.envs e).envWaitTicks.toNat
  saturated : MAX_WAIT ≤ (s.envs e).envWaitTicks.toNat →
    n + circularDist (scanStart c s) e < MAX_WAIT + NENV

theorem Budget.lose (h : Budget c e n s) (hsolo : Solo c s) (hsolo' : Solo c s')
    (hpolicy : s.policy = .priorities) (hdec : Decision c s s') (hfair : Fair c e s s')
    (he : s.IsReady e) (he' : s'.IsReady e) : Budget c e (n + 1) s' := by
  obtain ⟨s₁, hcontest, hpolicy₁, -, hyield⟩ := hdec
  have he₁ := ready_of_decided hsolo hcontest hyield he he'
  obtain ⟨best, hpicked, hran⟩ := schedYield_ran (hpolicy₁.trans hpolicy) hyield (.inl he₁)
  obtain ⟨hne, hwait⟩ := wait_of_lost hran he₁ he'
  have hwait' : (s'.envs e).envWaitTicks.toNat = (s.envs e).envWaitTicks.toNat + 1 := by
    have hseat : (s₁.envs e).envWaitTicks = (s.envs e).envWaitTicks :=
      congrArg (fun p => p.2.2) (hcontest.seat e)
    have hnowrap := hfair.noWrap
    rw [hwait, hseat, BitVec.toNat_add]
    exact Nat.mod_eq_of_lt hnowrap
  have hdist := circularDist_lt (scanStart c s') e
  constructor
  · intro hlt
    have hgrow := h.growing (by omega)
    omega
  · intro hle
    by_cases hsat : MAX_WAIT ≤ (s.envs e).envWaitTicks.toNat
    · obtain ⟨hready, htie, hdist⟩ := hcontest.tie hsolo hran.ticks hfair hsat he₁ hpicked
      have hcloser := hcontest.closer hsolo hsolo' hran (fun t => schedAge_status) he hready
        hne.symm
        hdist fun cur hcur hfree hlt hlt' hready' =>
          (hfair.restart hsat cur hcur hfree hlt best hlt' hready').ne htie
      have hbudget := h.saturated hsat
      omega
    · have hgrow := h.growing (not_le.mp hsat)
      omega

theorem PassedOver.budget (h : PassedOver c (Fair c e) e s n s') (hsolo : Solo c s)
    (hpolicy : s.policy = .priorities) : Budget c e n s' := by
  induction h with
  | start he =>
      refine ⟨fun _ => Nat.zero_le _, fun _ => ?_⟩
      have hdist := circularDist_lt (scanStart c s) e
      omega
  | @wait n s₁ ev s₂ hrun hstep _ hdec ih =>
      have hsolo₁ := hrun.solo hsolo
      have hkept := hstep.keeps hsolo₁ hdec
      have hstart : scanStart c s₂ = scanStart c s₁ := by
        rw [scanStart_eq (hsolo₁.step hstep.1 hstep.2), hkept.curenv, ← scanStart_eq hsolo₁]
      have hwait := hkept.wait e hrun.ready
      refine ⟨?_, ?_⟩ <;> rw [hwait]
      · exact ih.growing
      · rw [hstart]
        exact ih.saturated
  | @lose n s₁ ev s₂ hrun hstep he hdec hfair ih =>
      have hsolo₁ := hrun.solo hsolo
      exact ih.lose hsolo₁ (hsolo₁.step hstep.1 hstep.2) (hrun.policy.trans hpolicy)
        (hstep.decision hsolo₁ hdec) hfair hrun.ready he

/-- Where waiting counts, an environment that stays ready is picked after it has lost at most
`ENV_PRIORITY_MAX * AGING_THRESHOLD + NENV` decisions. -/
theorem passedOver_le (hboot : Booted s₀) (hpolicy : s₀.policy = .priorities)
    (hrun : Trace (CpuStep c) s₀ evs s) (h : PassedOver c (Fair c e) e s n s') :
    n ≤ MAX_WAIT + NENV := by
  have hbudget := h.budget (solo_of_run hboot hrun) ((policy_of_run hrun).trans hpolicy)
  by_cases hwait : MAX_WAIT ≤ (s'.envs e).envWaitTicks.toNat
  · have hsat := hbudget.saturated hwait
    omega
  · have hgrow := hbudget.growing (not_le.mp hwait)
    omega

/-- The first of three processes yields, and the third one waits. -/
theorem passedOver_le_third : ∃ s s' : Kernel,
    Trace (CpuStep 0) (bootedMachine .priorities 64) threeProcesses s ∧
      PassedOver 0 (Fair 0 2) 2 s 1 s' ∧ 1 ≤ MAX_WAIT + NENV := by
  obtain ⟨s, s', hrun, hstep, hready, hready', hdec, hwait, -⟩ :=
    exists_lost .priorities (by decide +kernel)
  have hwait : (s.envs 2).envWaitTicks.toNat ≤ 1 := hwait
  have hmax : ¬ MAX_WAIT ≤ (s.envs 2).envWaitTicks.toNat := fun hle => by
    have hle : 60 ≤ (s.envs 2).envWaitTicks.toNat := hle
    omega
  have hfair : Fair 0 2 s s' :=
    ⟨by omega, fun h => absurd h hmax, fun h => absurd h hmax⟩
  have hpassed := (PassedOver.start hready).lose hstep hready' hdec hfair
  have hboot := booted_bootedMachine .priorities (n := 64) (by decide) (by decide)
  exact ⟨s, s', hrun, hpassed, passedOver_le hboot rfl hrun hpassed⟩

end JosSched
