import JosSched.Sched.Aging
import JosSched.Kern.Replay

/-!
# What a priority decision picks and whom it ages

`sched_yield` looks for the highest effective priority in two steps.  The scan goes over the ready
slots in circular order and keeps the first maximum; the running environment is not ready and so is
not part of it, and takes over only if it is strictly better than what the scan found.  Then the
losers age, before `env_run` makes the environment that was running one of the ready ones.
-/

namespace JosSched

variable {c : Cpu} {s s' : Kernel} {e best : Slot} {prio : Word}

/-- The kernel as the function leaves it, be it for user mode or in a panic. -/
def Exit.state : Exit → Kernel
  | .leave s => s
  | .stuck _ s => s

/-- The winner of a decision. -/
structure Winner (c : Cpu) (s : Kernel) (best : Slot) : Prop where
  candidate : Candidate c s best
  maximal : ∀ e, Candidate c s e → effective s e ≤ effective s best
  /-- A running environment goes on only if it beats everybody else. -/
  kept : s.curenv c = some best → (s.envs best).envStatus = .running →
    ∀ e, s.IsReady e → effective s e < effective s best
  /-- A ready one is the first of the best in the order of the scan. -/
  first : s.IsReady best → ∀ e, s.IsReady e → effective s e = effective s best →
    circularDist (scanStart c s) best ≤ circularDist (scanStart c s) e

/-- `env_wait_ticks` after a decision for `best`. -/
def agedWait (s : Kernel) (best e : Slot) : Word :=
  if e = best then 0
  else if s.IsReady e then (s.envs e).envWaitTicks + 1
  else (s.envs e).envWaitTicks

/-! ## The pick -/

theorem Picked.winner (h : Picked c s best) : Winner c s best := by
  refine ⟨h.candidate, fun e he => ?_, fun hcur hrun e he => ?_, fun hbest e he heq => ?_⟩
  · cases h with
    | scan hmax hcurrent =>
        rcases he with hready | ⟨hcur, hrun⟩
        · exact hmax.le (mem_circular _ e) hready
        · exact hcurrent e hcur hrun
    | current hcur _ hlt =>
        rcases he with hready | ⟨hcur', -⟩
        · exact (hlt e hready).le
        · rw [Option.some.inj (hcur'.symm.trans hcur)]
  · cases h with
    | scan hmax =>
        -- the scan only sees ready environments
        have hready : (s.envs best).envStatus = .runnable := hmax.candidate
        rw [hrun] at hready
        cases hready
    | current _ _ hlt => exact hlt e he
  · cases h with
    | scan hmax => exact hmax.circularDist_le he heq.ge
    | current _ hrun =>
        have hready : (s.envs best).envStatus = .runnable := hbest
        rw [hrun] at hready
        cases hready

/-! ## The losers -/

theorem envRun_state_wait (t : Slot) :
    ((envRun c s best).state.envs t).envWaitTicks = (s.envs t).envWaitTicks := by
  have hpreempt : ((preempt c s).envs t).envWaitTicks = (s.envs t).envWaitTicks := by
    rw [preempt_envs]
  have hrun : (((preempt c s).modEnv best fun env =>
      { env with envStatus := .running, envRuns := env.envRuns + 1 }).envs t).envWaitTicks =
      (s.envs t).envWaitTicks := by
    refine (modEnv_proj Env.envWaitTicks fun env => ?_).trans hpreempt
    rfl
  unfold envRun
  dsimp only
  split
  · exact hrun
  · rw [Exit.state]
    refine (modEnv_proj Env.envWaitTicks fun env => ?_).trans hrun
    rfl

theorem schedRun_state_wait (t : Slot) :
    ((schedRun c s best prio).state.envs t).envWaitTicks = (s.envs t).envWaitTicks := by
  have hrecord : (schedRecord s best prio).envs = s.envs := by
    unfold schedRecord schedAccountCputicks
    dsimp only
    split <;> rfl
  rw [schedRun, envRun_state_wait, hrecord]

theorem schedAge_wait (t : Slot) :
    ((schedAge s best).envs t).envWaitTicks = agedWait s best t := by
  unfold schedAge agedWait
  dsimp only
  split
  · rfl
  · split
    · next hready => exact (if_pos hready).symm
    · next hready => exact (if_neg hready).symm

/-! ## The decision -/

/-- Whoever could be picked, the decision goes to a winner, which `sched_run` gets with the priority
that made it win; all others that are ready age by one and nobody else does.  If nobody can be
picked the CPU goes to `sched_halt`. -/
theorem schedYield_optimal (hpolicy : s.policy = .priorities) :
    ((∃ e, Candidate c s e) → ∃ best, Winner c s best ∧
      schedYield c s =
        schedRun c (schedAge (countCall s) best) best (schedEffectivePriority (s.envs best)) ∧
      ∀ e, ((schedYield c s).state.envs e).envWaitTicks = agedWait s best e) ∧
    ((¬ ∃ e, Candidate c s e) → schedYield c s = schedHalt c (countCall s)) := by
  have hpick : schedPick c (countCall s) = schedPick c s := schedPick_congr rfl rfl
  constructor
  · rintro ⟨e, he⟩
    cases hfound : schedPick c s with
    | none => exact absurd he (not_contending_of_schedPick hfound e)
    | some pick =>
        obtain ⟨best, prio⟩ := pick
        obtain rfl := schedPick_prio hfound
        have hyield : schedYield c s =
            schedRun c (schedAge (countCall s) best) best
              (schedEffectivePriority (s.envs best)) := by
          unfold schedYield
          dsimp only
          rw [show (countCall s).policy = .priorities from hpolicy, hpick, hfound]
        refine ⟨best, (schedPick_picked hfound).winner, hyield, fun t => ?_⟩
        rw [hyield, schedRun_state_wait, schedAge_wait]
        rfl
  · intro hnone
    cases hfound : schedPick c s with
    | some pick => exact absurd ⟨pick.1, (schedPick_picked hfound).candidate⟩ hnone
    | none =>
        unfold schedYield
        dsimp only
        rw [show (countCall s).policy = .priorities from hpolicy, hpick, hfound]
        dsimp only
        unfold schedIdle
        split
        · next cur hcur => exact if_neg fun hrun => hnone ⟨cur, .inr ⟨hcur, hrun⟩⟩
        · rfl

/-- Two ready environments of priorities 3 and 5. -/
def twoReady : Kernel :=
  ((bootedMachine .priorities 64).modEnv 0 fun env =>
    { env with envStatus := .runnable, envPriority := 3 }).modEnv 1 fun env =>
    { env with envStatus := .runnable, envPriority := 5 }

theorem schedYield_optimal_twoReady : ∃ best, Winner 0 twoReady best ∧
    schedYield 0 twoReady = schedRun 0 (schedAge (countCall twoReady) best) best
      (schedEffectivePriority (twoReady.envs best)) ∧
    ∀ e, ((schedYield 0 twoReady).state.envs e).envWaitTicks = agedWait twoReady best e :=
  (schedYield_optimal (c := 0) (s := twoReady) rfl).1 ⟨1, .inl rfl⟩

end JosSched
