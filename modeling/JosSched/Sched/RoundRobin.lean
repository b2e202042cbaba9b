import JosSched.Sched.Turns

/-!
# Round robin

`sched_yield` looks for the next ready environment "in circular order", starting after the
current one.  Each decision brings the start of the scan closer to whoever is waiting, so nobody
is passed over `NENV` times, as long as there is a current environment: after it has been freed
the scan starts over at slot 0.
-/

namespace JosSched

/-- Where the scan starts over, because the current environment was freed, it does not come
back to a slot that it had left behind. -/
def InTurn (c : Cpu) (e : Slot) (s s' : Kernel) : Prop :=
  ∀ cur, s.curenv c = some cur → (s'.envs cur).envStatus = .free → cur < e →
    ∀ t < cur, ¬ s.IsReady t

variable {c : Cpu} {s s₁ s' s₀ : Kernel} {ev : Event} {e : Slot} {evs : List Event} {n : ℕ}

/-- The decision goes to the first ready environment of the scan. -/
theorem schedYield_next (hpolicy : s.policy = .roundRobin) (h : schedYield c s = .leave s')
    (he : s.IsReady e) : ∃ next, s.IsReady next ∧
      circularDist (scanStart c s) next ≤ circularDist (scanStart c s) e ∧
      Ran c (countCall s) next s' := by
  unfold schedYield at h
  dsimp only at h
  rw [show (countCall s).policy = .roundRobin from hpolicy] at h
  dsimp only at h
  have hscan : scanFrom (scanStart c (countCall s)) = circular NENV (scanStart c s) := rfl
  rw [hscan] at h
  split at h
  · next next hnext =>
      have hrun := List.find?_some hnext
      refine ⟨next, of_decide_eq_true hrun, ?_, schedRun_eq_leave h⟩
      have hready : decide (((countCall s).envs e).envStatus = .runnable) = true :=
        decide_eq_true he
      exact circularDist_le_of_find? hnext hready
  · next hnone =>
      have hno := List.find?_eq_none.mp hnone e (mem_circular (scanStart c s) e)
      exact absurd (decide_eq_true he) hno

/-- A decision lost brings the environment closer to the start of the scan. -/
theorem Decision.closer (hsolo : Solo c s) (hsolo' : Solo c s') (hpolicy : s.policy = .roundRobin)
    (hdec : Decision c s s') (hturn : InTurn c e s s') (he : s.IsReady e) (he' : s'.IsReady e) :
    circularDist (scanStart c s') e < circularDist (scanStart c s) e := by
  obtain ⟨s₁, hcontest, hpolicy₁, -, hyield⟩ := hdec
  have he₁ := ready_of_decided hsolo hcontest hyield he he'
  obtain ⟨next, hnext, hle, hran⟩ := schedYield_next (hpolicy₁.trans hpolicy) hyield he₁
  have hne : next ≠ e := by
    rintro rfl
    rw [Kernel.IsReady, hran.envs] at he'
    simp at he'
  exact hcontest.closer hsolo hsolo' hran (fun _ => rfl) he hnext hne hle
    fun cur hcur hfree hlt hlt' => hturn cur hcur hfree hlt next hlt'

theorem PassedOver.add_circularDist_le (h : PassedOver c (InTurn c e) e s n s') (hsolo : Solo c s)
    (hpolicy : s.policy = .roundRobin) :
    n + circularDist (scanStart c s') e ≤ circularDist (scanStart c s) e := by
  induction h with
  | start => rw [Nat.zero_add]
  | @wait n s₁ ev s₂ hrun hstep _ hdec ih =>
      have hkept := hstep.keeps (hrun.solo hsolo) hdec
      have hsolo₂ := (hrun.solo hsolo).step hstep.1 hstep.2
      rw [scanStart_eq hsolo₂, hkept.curenv, ← scanStart_eq (hrun.solo hsolo)]
      exact ih
  | @lose n s₁ ev s₂ hrun hstep he hdec hturn ih =>
      have hsolo₁ := hrun.solo hsolo
      have hlt := (hstep.decision hsolo₁ hdec).closer hsolo₁ (hsolo₁.step hstep.1 hstep.2)
        (hrun.policy.trans hpolicy) hturn hrun.ready he
      omega

/-- An environment that stays ready is picked after at most `NENV - 1` decisions that pick
others. -/
theorem passedOver_lt (hboot : Booted s₀) (hpolicy : s₀.policy = .roundRobin)
    (hrun : Trace (CpuStep c) s₀ evs s) (h : PassedOver c (InTurn c e) e s n s') :
    n ≤ NENV - 1 := by
  have hle := h.add_circularDist_le (solo_of_run hboot hrun) ((policy_of_run hrun).trans hpolicy)
  have hlt := circularDist_lt (scanStart c s) e
  omega

/-- The first of three processes yields, and the third one waits. -/
theorem passedOver_lt_third : ∃ s s' : Kernel,
    Trace (CpuStep 0) (bootedMachine .roundRobin 64) threeProcesses s ∧
      PassedOver 0 (InTurn 0 2) 2 s 1 s' ∧ 1 ≤ NENV - 1 := by
  obtain ⟨s, s', hrun, hstep, hready, hready', hdec, -, hfree⟩ :=
    exists_lost .roundRobin (by decide +kernel)
  have hturn : InTurn 0 2 s s' := fun cur hcur hfreed => absurd hfreed (hfree cur hcur)
  have hpassed := (PassedOver.start hready).lose hstep hready' hdec hturn
  have hboot := booted_bootedMachine .roundRobin (n := 64) (by decide) (by decide)
  exact ⟨s, s', hrun, hpassed, passedOver_lt hboot rfl hrun hpassed⟩

end JosSched
