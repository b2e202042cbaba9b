import Mathlib.Logic.Function.Basic

/-!
# A spin lock that checks how it is used

The lock is a word that is exchanged, and a note of who holds it.  Every processor is at some point
of the code of the lock, or outside of it, or inside, between acquiring and releasing.  A processor
that acquires the lock while it is inside, or releases it without being inside, panics.

The points of the code are the single reads and writes, in the order of the program, so that the
steps of the processors interleave between any two of them.  In particular the check of `holding`
reads `locked` first and `cpu` later, and a lock that has been taken is not yet noted.
-/

variable {ι : Type*}

/-- `locked`, and the processor noted as the holder. -/
structure SpinLock (ι : Type*) where
  locked : Bool := false
  cpu : Option ι := none

/-- Where a processor is in the code of the lock. -/
inductive LockPc where
  | outside
  /-- `spin_lock`, about to read `locked` for the check. -/
  | locking
  /-- About to read `cpu` for the check. -/
  | lockingCpu
  /-- About to exchange `locked` with `1`. -/
  | spinning
  /-- About to note that it is the holder. -/
  | taken
  | inside
  /-- `spin_unlock`, about to read `locked` for the check. -/
  | unlocking
  /-- About to read `cpu` for the check. -/
  | unlockingCpu
  /-- About to clear `cpu`. -/
  | clearing
  /-- About to exchange `locked` with `0`. -/
  | releasing
  | panicked
  deriving DecidableEq, Repr

namespace LockPc

/-- In the code of `spin_lock`, before the exchange that succeeds. -/
def waits : LockPc → Bool
  | .locking | .lockingCpu | .spinning => true
  | _ => false

/-- After the exchange that takes the lock, and before the one that frees it. -/
def holds : LockPc → Bool
  | .taken | .inside | .unlocking | .unlockingCpu | .clearing | .releasing => true
  | _ => false

/-- While the processor is noted as the holder. -/
def owns : LockPc → Bool
  | .inside | .unlocking | .unlockingCpu | .clearing => true
  | _ => false

/-- In `spin_lock`, or back from it. -/
def acquires : LockPc → Bool
  | .locking | .lockingCpu | .spinning | .taken | .inside => true
  | _ => false

/-- In `spin_unlock`, or back from it. -/
def releases : LockPc → Bool
  | .unlocking | .unlockingCpu | .clearing | .releasing | .outside => true
  | _ => false

/-- Not in the code of the lock. -/
def atRest : LockPc → Bool
  | .outside | .inside => true
  | _ => false

theorem holds_of_owns {pc : LockPc} (h : pc.owns = true) : pc.holds = true := by
  cases pc <;> first | rfl | cases h

theorem eq_inside {pc : LockPc} (hacquires : pc.acquires = true) (hrest : pc.atRest = true) :
    pc = .inside := by
  cases pc with
  | inside => rfl
  | locking | lockingCpu | spinning | taken => exact absurd hrest Bool.false_ne_true
  | outside | unlocking | unlockingCpu | clearing | releasing | panicked =>
      exact absurd hacquires Bool.false_ne_true

theorem eq_outside {pc : LockPc} (hreleases : pc.releases = true) (hrest : pc.atRest = true) :
    pc = .outside := by
  cases pc with
  | outside => rfl
  | unlocking | unlockingCpu | clearing | releasing => exact absurd hrest Bool.false_ne_true
  | locking | lockingCpu | spinning | taken | inside | panicked =>
      exact absurd hreleases Bool.false_ne_true

end LockPc

namespace SpinLock

variable {l : SpinLock ι} {pc : ι → LockPc} {i j : ι}

/-- The lock is held by exactly the processor that is between the two exchanges, and noted as
held by exactly the one that is between the two notes; nobody has panicked. -/
structure Valid (l : SpinLock ι) (pc : ι → LockPc) : Prop where
  locked : l.locked = true ↔ ∃ i, (pc i).holds = true
  unique : ∀ i j, (pc i).holds = true → (pc j).holds = true → i = j
  cpu : ∀ i, l.cpu = some i ↔ (pc i).owns = true
  unpanicked : ∀ i, pc i ≠ .panicked

/-- A free lock is held by nobody. -/
theorem Valid.free (h : Valid l pc) (hl : ¬ l.locked = true) (j : ι) : ¬ (pc j).holds = true :=
  fun hj => hl (h.locked.mpr ⟨j, hj⟩)

variable [DecidableEq ι]

/-- One read or write of processor `i`. -/
def step (i : ι) (l : SpinLock ι) : LockPc → SpinLock ι × LockPc
  | .locking => (l, if l.locked then .lockingCpu else .spinning)
  | .lockingCpu => (l, if l.cpu = some i then .panicked else .spinning)
  | .spinning => ({ l with locked := true }, if l.locked then .spinning else .taken)
  | .taken => ({ l with cpu := some i }, .inside)
  | .unlocking => (l, if l.locked then .unlockingCpu else .panicked)
  | .unlockingCpu => (l, if l.cpu = some i then .clearing else .panicked)
  | .clearing => ({ l with cpu := none }, .releasing)
  | .releasing => ({ l with locked := false }, .outside)
  | .outside => (l, .outside)
  | .inside => (l, .inside)
  | .panicked => (l, .panicked)

/-- A processor moves, and the lock stays as it is. -/
theorem Valid.move (h : Valid l pc) {p : LockPc} (hholds : p.holds = (pc i).holds)
    (howns : p.owns = (pc i).owns) (hp : p ≠ .panicked) : Valid l (Function.update pc i p) := by
  have hsame : ∀ j, (Function.update pc i p j).holds = (pc j).holds ∧
      (Function.update pc i p j).owns = (pc j).owns ∧ Function.update pc i p j ≠ .panicked := by
    intro j
    by_cases hj : j = i
    · subst hj
      rw [Function.update_self]
      exact ⟨hholds, howns, hp⟩
    · rw [Function.update_of_ne hj]
      exact ⟨rfl, rfl, h.unpanicked j⟩
  refine ⟨?_, fun i₁ i₂ h₁ h₂ => ?_, fun j => ?_, fun j => (hsame j).2.2⟩
  · rw [h.locked]
    exact exists_congr fun j => by rw [(hsame j).1]
  · rw [(hsame i₁).1] at h₁
    rw [(hsame i₂).1] at h₂
    exact h.unique _ _ h₁ h₂
  · rw [(hsame j).2.1]
    exact h.cpu j

/-- The call of `spin_lock`. -/
theorem Valid.acquire (h : Valid l pc) (hi : pc i = .outside) :
    Valid l (Function.update pc i .locking) :=
  h.move (by rw [hi]; rfl) (by rw [hi]; rfl) LockPc.noConfusion

/-- The call of `spin_unlock`. -/
theorem Valid.release (h : Valid l pc) (hi : pc i = .inside) :
    Valid l (Function.update pc i .unlocking) :=
  h.move (by rw [hi]; rfl) (by rw [hi]; rfl) LockPc.noConfusion

/-- The exchange that takes a free lock. -/
theorem Valid.take (h : Valid l pc) (hl : ¬ l.locked = true) :
    Valid { l with locked := true } (Function.update pc i .taken) := by
  have hfree := h.free hl
  have hself : ∀ j, (Function.update pc i .taken j).holds = true → j = i := by
    intro j hj
    by_contra hne
    rw [Function.update_of_ne hne] at hj
    exact hfree j hj
  refine ⟨⟨fun _ => ⟨i, ?_⟩, fun _ => rfl⟩, fun i₁ i₂ h₁ h₂ => ?_, fun j => ?_, fun j => ?_⟩
  · rw [Function.update_self]
    rfl
  · rw [hself i₁ h₁, hself i₂ h₂]
  · -- nobody was noted, and nobody is yet
    have hnone : ¬ (pc j).owns = true := fun howns => hfree j (LockPc.holds_of_owns howns)
    by_cases hj : j = i
    · subst hj
      rw [Function.update_self]
      exact iff_of_false ((h.cpu j).not.mpr hnone) Bool.false_ne_true
    · rw [Function.update_of_ne hj]
      exact h.cpu j
  · by_cases hj : j = i
    · subst hj
      rw [Function.update_self]
      exact LockPc.noConfusion
    · rw [Function.update_of_ne hj]
      exact h.unpanicked j

/-- The holder writes its note. -/
theorem Valid.note (h : Valid l pc) {p : LockPc} {cpu : Option ι} (hi : (pc i).holds = true)
    (hp : p.holds = true) (hcpu : ∀ j, cpu = some j ↔ j = i ∧ p.owns = true) :
    Valid { l with cpu := cpu } (Function.update pc i p) := by
  have hholds : ∀ j, (Function.update pc i p j).holds = (pc j).holds := by
    intro j
    by_cases hj : j = i
    · subst hj
      rw [Function.update_self, hp, hi]
    · rw [Function.update_of_ne hj]
  refine ⟨?_, fun i₁ i₂ h₁ h₂ => ?_, fun j => ?_, fun j => ?_⟩
  · rw [h.locked]
    exact exists_congr fun j => by rw [hholds]
  · rw [hholds] at h₁ h₂
    exact h.unique _ _ h₁ h₂
  · rw [hcpu j]
    by_cases hj : j = i
    · subst hj
      rw [Function.update_self]
      exact and_iff_right rfl
    · rw [Function.update_of_ne hj]
      refine iff_of_false (fun hand => hj hand.1) fun howns => hj ?_
      exact h.unique _ _ (LockPc.holds_of_owns howns) hi
  · by_cases hj : j = i
    · subst hj
      rw [Function.update_self]
      rintro rfl
      cases hp
    · rw [Function.update_of_ne hj]
      exact h.unpanicked j

/-- The exchange that frees the lock. -/
theorem Valid.drop (h : Valid l pc) (hi : pc i = .releasing) :
    Valid { l with locked := false } (Function.update pc i .outside) := by
  have hholds : (pc i).holds = true := by rw [hi]; rfl
  have hnone : ∀ j, ¬ (Function.update pc i .outside j).holds = true := by
    intro j hj
    by_cases hji : j = i
    · subst hji
      rw [Function.update_self] at hj
      cases hj
    · rw [Function.update_of_ne hji] at hj
      exact hji (h.unique _ _ hj hholds)
  refine ⟨⟨fun hl => (by cases hl), fun ⟨j, hj⟩ => absurd hj (hnone j)⟩,
    fun i₁ _ h₁ _ => absurd h₁ (hnone i₁), fun j => ?_, fun j => ?_⟩
  · by_cases hj : j = i
    · subst hj
      rw [Function.update_self, h.cpu j, hi]
      exact Iff.rfl
    · rw [Function.update_of_ne hj]
      exact h.cpu j
  · by_cases hj : j = i
    · subst hj
      rw [Function.update_self]
      exact LockPc.noConfusion
    · rw [Function.update_of_ne hj]
      exact h.unpanicked j

/-- Every read and write of the code of the lock keeps it valid; in particular the two checks
never fail. -/
theorem Valid.step (h : Valid l pc) (i : ι) : Valid (SpinLock.step i l (pc i)).1
    (Function.update pc i (SpinLock.step i l (pc i)).2) := by
  -- a step that writes nothing
  have hstay : ∀ {p}, pc i = p → Valid l (Function.update pc i p) := by
    rintro p rfl
    rw [Function.update_eq_self]
    exact h
  cases hi : pc i with
  | outside | inside => exact hstay hi
  | panicked => exact absurd hi (h.unpanicked i)
  | locking =>
      dsimp only [SpinLock.step]
      split
      · exact h.move (by rw [hi]; rfl) (by rw [hi]; rfl) LockPc.noConfusion
      · exact h.move (by rw [hi]; rfl) (by rw [hi]; rfl) LockPc.noConfusion
  | lockingCpu =>
      -- this CPU does not hold the lock, so `spin_lock` does not panic
      have hnot : ¬ l.cpu = some i := by
        rw [h.cpu i, hi]
        exact Bool.false_ne_true
      dsimp only [SpinLock.step]
      rw [if_neg hnot]
      exact h.move (by rw [hi]; rfl) (by rw [hi]; rfl) LockPc.noConfusion
  | spinning =>
      dsimp only [SpinLock.step]
      by_cases hl : l.locked = true
      · have hsame : { l with locked := true } = l := by rw [← hl]
        rw [if_pos hl, hsame]
        exact hstay hi
      · rw [if_neg hl]
        exact h.take hl
  | taken =>
      refine h.note (by rw [hi]; rfl) rfl fun j => ?_
      exact ⟨fun hj => ⟨(Option.some.inj hj).symm, rfl⟩, fun hand => congrArg some hand.1.symm⟩
  | unlocking =>
      -- it holds the lock, so `spin_unlock` does not panic
      have hl : l.locked = true := h.locked.mpr ⟨i, by rw [hi]; rfl⟩
      dsimp only [SpinLock.step]
      rw [if_pos hl]
      exact h.move (by rw [hi]; rfl) (by rw [hi]; rfl) LockPc.noConfusion
  | unlockingCpu =>
      have hcpu : l.cpu = some i := (h.cpu i).mpr (by rw [hi]; rfl)
      dsimp only [SpinLock.step]
      rw [if_pos hcpu]
      exact h.move (by rw [hi]; rfl) (by rw [hi]; rfl) LockPc.noConfusion
  | clearing =>
      refine h.note (by rw [hi]; rfl) rfl fun j => ?_
      exact iff_of_false (fun hj => by cases hj) fun hand => Bool.false_ne_true hand.2
  | releasing => exact h.drop hi

/-- Without a panic, `spin_lock` goes on until it returns. -/
theorem step_acquires {p : LockPc} (hp : p.acquires = true)
    (hpanic : (SpinLock.step i l p).2 ≠ .panicked) : (SpinLock.step i l p).2.acquires = true := by
  cases p with
  | locking | spinning =>
      dsimp only [SpinLock.step]
      split <;> rfl
  | lockingCpu =>
      dsimp only [SpinLock.step] at hpanic ⊢
      split
      · next hcpu => exact absurd (if_pos hcpu) hpanic
      · rfl
  | taken | inside => rfl
  | outside | unlocking | unlockingCpu | clearing | releasing | panicked =>
      exact absurd hp Bool.false_ne_true

/-- Without a panic, `spin_unlock` goes on until it returns. -/
theorem step_releases {p : LockPc} (hp : p.releases = true)
    (hpanic : (SpinLock.step i l p).2 ≠ .panicked) : (SpinLock.step i l p).2.releases = true := by
  cases p with
  | unlocking =>
      dsimp only [SpinLock.step] at hpanic ⊢
      split
      · rfl
      · next hl => exact absurd (if_neg hl) hpanic
  | unlockingCpu =>
      dsimp only [SpinLock.step] at hpanic ⊢
      split
      · rfl
      · next hcpu => exact absurd (if_neg hcpu) hpanic
  | clearing | releasing | outside => rfl
  | locking | lockingCpu | spinning | taken | inside | panicked =>
      exact absurd hp Bool.false_ne_true

end SpinLock
