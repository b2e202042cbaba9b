import JosSched.Kern.Machine
import JosSched.User.Syscall

/-!
# Replaying runs

Steps are computable, so a finite run from a concrete state can be checked by evaluation.
`bootedMachine` is such a state: a machine with `n` pages as the kernel leaves it after
`mem_init` and `env_init`.
-/

namespace JosSched

/-! ## Replay -/

/-- A statement about the value of a computation is decided by computing it. -/
instance decidableForallOk {ε α : Type} (x : Except ε α) (p : α → Prop) [DecidablePred p] :
    Decidable (∀ a, x = .ok a → p a) :=
  match x with
  | .ok a => decidable_of_iff (p a) ⟨fun h _ heq => Except.ok.inj heq ▸ h, fun h => h a rfl⟩
  | .error _ => isTrue fun _ heq => nomatch heq

instance decidableForallSome {α : Type} (x : Option α) (p : α → Prop) [DecidablePred p] :
    Decidable (∀ a, x = some a → p a) :=
  match x with
  | some a => decidable_of_iff (p a) ⟨fun h _ heq => Option.some.inj heq ▸ h, fun h => h a rfl⟩
  | none => isTrue fun _ heq => nomatch heq

instance (s : Kernel) (c : Cpu) : Decidable (s.inUser c) :=
  inferInstanceAs (Decidable (_ ∧ _))

instance (s : Kernel) (ev : Event) : Decidable (ev.Enabled s) :=
  match ev with
  | .boot _ => inferInstanceAs (Decidable (∀ _, _))
  | .start _ => inferInstanceAs (Decidable (_ = _))
  | .trap _ _ _ => inferInstanceAs (Decidable (_ ∧ _))
  | .timer _ => inferInstanceAs (Decidable (_ = _))
  | .store _ _ _ => inferInstanceAs (Decidable (_ ∧ _))

/-- The state after the event, when it can happen and the CPU leaves the kernel again. -/
def Event.next (s : Kernel) (ev : Event) : Option Kernel :=
  if ev.Enabled s then
    match ev.exec s with
    | .leave s' => some s'
    | .stuck _ _ => none
  else none

theorem step_of_next {s s' : Kernel} {ev : Event} (h : ev.next s = some s') : Step s ev s' := by
  unfold Event.next at h
  split at h
  · next henabled =>
      refine ⟨henabled, ?_⟩
      cases hexec : ev.exec s with
      | leave s₁ =>
          rw [hexec] at h
          rw [Option.some.inj h]
      | stuck why s₁ =>
          rw [hexec] at h
          cases h
  · cases h

/-- Runs the events in order, as long as each of them passes the test `ok`. -/
def replay (ok : Kernel → Event → Prop) [∀ s ev, Decidable (ok s ev)] (s : Kernel)
    (evs : List Event) : Option Kernel :=
  evs.foldlM (fun s ev => if ok s ev then ev.next s else none) s

/-- A run found by evaluation. -/
theorem exists_trace (ok : Kernel → Event → Prop) [∀ s ev, Decidable (ok s ev)] (s : Kernel)
    (evs : List Event) (p : Kernel → Bool) (h : (replay ok s evs).any p = true) :
    ∃ s', Trace (fun s ev s' => Step s ev s' ∧ ok s ev) s evs s' ∧ p s' = true := by
  obtain ⟨s', hrun, hp⟩ := Trace.exists_of_foldlM _ s evs p h
  refine ⟨s', hrun.mono fun s ev s' hnext => ?_, hp⟩
  split at hnext
  · next hok => exact ⟨step_of_next hnext, hok⟩
  · cases hnext

/-! ## A machine that has just booted -/

/-- `n` pages, the first eight of them in use by the kernel. -/
def bootedMem (n : ℕ) : Mem where
  npages := n
  pages pp :=
    if 8 ≤ pp.toNat ∧ pp.toNat + 1 < n then { ppLink := some (pp + 1) } else {}
  pageFreeList := some 8
  phys _ _ := 0
  kernPgdir := 1

def bootedMachine (policy : Policy) (n : ℕ) : Kernel where
  policy := policy
  mem := bootedMem n
  envs e := { envLink := if h : e.val + 1 < NENV then some ⟨e.val + 1, h⟩ else none }
  envFreeList := some 0
  cpus _ := { cpuCr3 := 1 }

/-- The free pages of `bootedMem`, in the order of the list. -/
def bootedFree (a k : ℕ) : List Ppn := (List.range' a k).map (BitVec.ofNat 20)

theorem chain_bootedFree {n : ℕ} (hn : n ≤ 2 ^ 16) (k : ℕ) :
    ∀ a, 8 ≤ a → a + (k + 1) = n →
      Chain (fun pp => ((bootedMem n).pages pp).ppLink) (some (BitVec.ofNat 20 a))
        (bootedFree a (k + 1)) := by
  have hlink : ∀ a, 8 ≤ a → a < n → ((bootedMem n).pages (BitVec.ofNat 20 a)).ppLink =
      if a + 1 < n then some (BitVec.ofNat 20 (a + 1)) else none := by
    intro a ha han
    have hto : (BitVec.ofNat 20 a).toNat = a := by
      rw [BitVec.toNat_ofNat]
      omega
    have hsucc : (BitVec.ofNat 20 a : Ppn) + 1 = BitVec.ofNat 20 (a + 1) := by
      rw [BitVec.ofNat_add]
      rfl
    simp only [bootedMem, hto, ha, true_and, hsucc]
    split <;> rfl
  induction k with
  | zero =>
      intro a ha han
      have h := hlink a ha (by omega)
      rw [if_neg (by omega)] at h
      refine .cons ?_
      dsimp only
      rw [h]
      exact .nil
  | succ k ih =>
      intro a ha han
      have h := hlink a ha (by omega)
      rw [if_pos (by omega)] at h
      refine .cons ?_
      rw [h]
      exact ih (a + 1) (by omega) (by omega)

theorem booted_bootedMachine (policy : Policy) {n : ℕ} (h9 : 9 ≤ n) (hn : n ≤ 2 ^ 16) :
    Booted (bootedMachine policy n) where
  envs _ := rfl
  envFreeList := rfl
  cpus _ := ⟨rfl, rfl⟩
  ticks := rfl
  stats := rfl
  freePages := by
    have hmem : ∀ pp ∈ bootedFree 8 (n - 9 + 1), 8 ≤ pp.toNat ∧ pp.toNat < n := by
      intro pp hpp
      obtain ⟨a, ha, rfl⟩ := List.mem_map.mp hpp
      rw [List.mem_range'_1] at ha
      rw [BitVec.toNat_ofNat]
      omega
    refine ⟨bootedFree 8 (n - 9 + 1), chain_bootedFree hn _ 8 le_rfl (by omega), ?_, ?_, ?_⟩
    · refine List.Nodup.map_on ?_ List.nodup_range'
      intro a ha b hb hab
      rw [List.mem_range'_1] at ha hb
      have h := congrArg BitVec.toNat hab
      rw [BitVec.toNat_ofNat, BitVec.toNat_ofNat] at h
      omega
    · intro hk
      have h8 : 8 ≤ (1 : Ppn).toNat := (hmem _ hk).1
      exact absurd h8 (by decide)
    · intro pp hpp
      refine ⟨(hmem pp hpp).2, ?_⟩
      show (if 8 ≤ _ ∧ _ then _ else _ : PageInfo).ppRef = 0
      split <;> rfl
  memory := hn
  kernPgdir _ _ := rfl

/-- A binary with no segments: `env_create` gives it a stack and nothing else. -/
def emptyImage : Image := { segments := [], entry := 0x800020 }

/-- A CPU makes a system call from user mode. -/
def sysTrap (c : Cpu) (no : Sysno) (a1 a2 a3 a4 a5 : Word) : Event :=
  .trap c {} (sysFrame {} no a1 a2 a3 a4 a5)

/-- The clock interrupts a CPU in user mode. -/
def clock (c : Cpu) : Event :=
  .trap c {} { tfTrapno := IRQ_OFFSET + IRQ_TIMER, tfCs := GD_UT ||| 3 }

/-- The id of the first environment a kernel creates. -/
def firstEnv : Word := 0x1000

/-- The first process, running alone on CPU 0, creates a thread. -/
def createThread : List Event :=
  [.boot emptyImage, .start 0, sysTrap 0 .threadCreate 0x800020 0xeebfe000 0 0 0]

/-- The thread starts on CPU 1. -/
def startThread : List Event := createThread ++ [.start 1]

/-- The id of that thread. -/
def firstThread : Word := 0x1001

end JosSched
