import JosSched.User.Machine

/-!
# Page faults on the exception stack

The part of `page_fault_handler` that a program sees, `_pgfault_upcall` of `lib/pfentry.S`, and
the runs of the two: handlers may fault again, and so may the upcall where it touches the stack
of the program.
-/

open Bytes

namespace JosSched

/-- Where `_pgfault_upcall` is, and the variable `_pgfault_handler`. -/
structure Upcall where
  entry : Word
  handlerVar : Word

/-! ## The kernel's side -/

/-- What the fault pushes for the kernel. -/
def UserState.trapframe (s : UserState) (err : Word) : Trapframe where
  tfRegs := s.regs
  tfErr := err
  tfEip := s.eip
  tfEflags := s.eflags
  tfEsp := s.esp

/-- `page_fault_handler` for an environment whose exception stack is writable, up to the return
to user mode; `none` is the panic at an overflow. -/
def pageFault (u : Upcall) (faultVa err : Word) (s : UserState) : Option UserState :=
  let (tmp, mem) :=
    if s.esp < exstk ∨ exstkTop < s.esp then (exstkTop - UTF_SIZE, s.mem)
    else (s.esp - 4 - UTF_SIZE, s.mem.writeWord (s.esp - 4) 0)
  let mem := mem.writeWords tmp (utrapframe faultVa (s.trapframe err))
  if tmp < exstk ∨ exstkTop < tmp then none
  else some { s with esp := tmp, eip := u.entry, mem := mem }

/-! ## The upcall -/

/-- From the entry to the handler. -/
def callHandler (u : Upcall) : List Instr := [.pushlEsp, .movlMemEax u.handlerVar, .callEax]

/-- Where the handler returns to. -/
def Upcall.back (u : Upcall) : Word := u.entry + ((callHandler u).map Instr.length).sum

/-- From the return of the handler to the store into the trap-time stack. -/
def prepare : List Instr := [.addlEsp, .movlEspEax 40, .movlEspEbx 48, .sublEbx]

/-- After that store. -/
def restore : List Instr :=
  [.movlEbxEsp 48, .poplEax, .poplEax, .popal, .addlEsp, .popfl, .poplEsp, .ret]

/-! ## Runs -/

/-- The parts of a run. -/
inductive UpcallPhase where
  /-- A fault, until the program continues. -/
  | fault
  /-- A handler in C, from its entry to its return. -/
  | handler
  /-- The upcall before its store into the trap-time stack. -/
  | store
  deriving DecidableEq

def changes (s s' : UserState) : Set Word := changed s.mem s'.mem

/-- `UTF_SIZE` bytes from `F` on. -/
def frame (F : Word) : Set Word := range F 52

/-- `Unwinds u phase live s M s'`: a run of the phase from `s` to `s'`.  `live` are the frames
of the faults that are being handled, and `M` collects the bytes changed by the kernel and by
the upcall.  The program of a handler may do anything that user mode can. -/
inductive Unwinds (u : Upcall) : UpcallPhase → List Word → UserState → Set Word → UserState → Prop
  | upcall {live : List Word} {faultVa err : Word} {s s₀ s₁ s₂ : UserState} {M₁ M₂ : Set Word} :
      pageFault u faultVa err s = some s₀ →
      -- the two words of the call fit below the frame
      exstk + 8 ≤ s₀.esp →
      Unwinds u .handler (s₀.esp :: live) (s₀.run (callHandler u)) M₁ s₁ →
      s₁.eip = u.back → s₁.esp = s₀.esp - 4 →
      (∀ F ∈ s₀.esp :: live, ∀ x ∈ frame F, s₁.mem x = (s₀.run (callHandler u)).mem x) →
      Unwinds u .store (s₀.esp :: live) (s₁.run prepare) M₂ s₂ →
      -- the store does not fault any more; above `UTOP` it always would
      (∀ x ∈ range s₂.regs.regEbx 4, x < UTOP) →
      Unwinds u .fault live s
        (changes s s₀ ∪ changes s₀ (s₀.run (callHandler u)) ∪ M₁ ∪ changes s₁ (s₁.run prepare) ∪
          M₂ ∪ changes s₂ (s₂.exec .movlEaxEbx) ∪
          changes (s₂.exec .movlEaxEbx) ((s₂.exec .movlEaxEbx).run restore))
        ((s₂.exec .movlEaxEbx).run restore)
  | done {phase : UpcallPhase} {live : List Word} {s : UserState} : phase ≠ .fault →
      Unwinds u phase live s ∅ s
  | own {live : List Word} {s s' s'' : UserState} {M : Set Word} :
      s'.eflags &&& ~~~FL_USER = s.eflags &&& ~~~FL_USER →
      Unwinds u .handler live s' M s'' → Unwinds u .handler live s M s''
  | nested {phase : UpcallPhase} {live : List Word} {s s' s'' : UserState} {M M' : Set Word} :
      phase ≠ .fault → exstk ≤ s.esp → s.esp ≤ exstkTop → (∀ F ∈ live, s.esp ≤ F) →
      Unwinds u .fault live s M s' → Unwinds u phase live s' M' s'' →
      Unwinds u phase live s (M ∪ M') s''

/-- The program continues where it was. -/
structure Resumes (s s' : UserState) : Prop where
  regs : s'.regs = s.regs
  eip : s'.eip = s.eip
  eflags : s'.eflags = s.eflags
  esp : s'.esp = s.esp

/-- The frames of outer faults are on the exception stack, above the stack pointer. -/
def Placed (live : List Word) (esp : Word) : Prop :=
  ∀ F ∈ live, exstk ≤ esp ∧ esp ≤ F ∧ F ≤ exstkTop - UTF_SIZE

/-- The word below the stack pointer, and the exception stack below the live frames. -/
def scratch (live : List Word) (esp : Word) : Set Word :=
  range (esp - 4) 4 ∪ {x | exstk ≤ x ∧ x ≤ exstkTop ∧ ∀ F ∈ live, x < F}

/-! ## Addresses on the exception stack -/

variable {u : Upcall} {live : List Word} {faultVa err esp F x : Word} {s s' s₀ : UserState}
  {mem mem' : Bytes} {M : Set Word} {ws : List Word} {phase : UpcallPhase}

/-- The stack pointer is not on the exception stack. -/
def OffExstk (esp : Word) : Prop := esp < exstk ∨ exstkTop < esp

instance : Decidable (OffExstk esp) := inferInstanceAs (Decidable (_ ∨ _))

/-- Where the frame of a fault goes. -/
def frameAt (esp : Word) : Word :=
  if OffExstk esp then exstkTop - UTF_SIZE else esp - 4 - UTF_SIZE

/-- What handling a fault writes: the word below the stack pointer, and the exception stack,
below the stack pointer if that is there. -/
def used (esp : Word) : Set Word :=
  range (esp - 4) 4 ∪ {x | exstk ≤ x ∧ x ≤ exstkTop ∧ (OffExstk esp ∨ x < esp)}

theorem offExstk_iff : OffExstk esp ↔ esp.toNat < 0xeebff000 ∨ 0xeebfffff < esp.toNat := Iff.rfl

theorem mem_range {a : Word} {n : ℕ} : x ∈ range a n ↔ (x - a).toNat < n := Iff.rfl

theorem mem_used : x ∈ used esp ↔ (x - (esp - 4)).toNat < 4 ∨
    0xeebff000 ≤ x.toNat ∧ x.toNat ≤ 0xeebfffff ∧ (OffExstk esp ∨ x.toNat < esp.toNat) := Iff.rfl

theorem toNat_frameAt : OffExstk esp ∧ (frameAt esp).toNat = 0xeebfffcb ∨
    ¬ OffExstk esp ∧ (frameAt esp).toNat = esp.toNat - 56 := by
  by_cases hoff : OffExstk esp
  · refine .inl ⟨hoff, ?_⟩
    rw [frameAt, if_pos hoff]
    rfl
  · refine .inr ⟨hoff, ?_⟩
    rw [frameAt, if_neg hoff, UTF_SIZE]
    rw [offExstk_iff] at hoff
    bv_omega

theorem frameAt_bounds (h : exstk + 8 ≤ frameAt esp) :
    0xeebff008 ≤ (frameAt esp).toNat ∧ (frameAt esp).toNat ≤ 0xeebfffcb := by
  refine ⟨h, ?_⟩
  rcases toNat_frameAt with ⟨-, heq⟩ | ⟨hon, heq⟩
  · exact heq.le
  · rw [offExstk_iff] at hon
    omega

/-- The frame and the words of the call below it are on the exception stack. -/
theorem mem_used_of_frame (h : exstk + 8 ≤ frameAt esp) (hx : x ∈ range (frameAt esp - 8) 60) :
    x ∈ used esp := by
  have hbounds := frameAt_bounds h
  rw [mem_range] at hx
  rw [mem_used]
  right
  rcases toNat_frameAt with ⟨hoff, heq⟩ | ⟨hon, heq⟩
  · generalize frameAt esp = F at *
    exact ⟨by bv_omega, by bv_omega, .inl hoff⟩
  · rw [offExstk_iff] at hon
    generalize frameAt esp = F at *
    exact ⟨by bv_omega, by bv_omega, .inr (by bv_omega)⟩

/-- The word below the stack pointer is not among the words that the upcall restores. -/
theorem notMem_frame (h : exstk + 8 ≤ frameAt esp) (hx : x ∈ range (frameAt esp) 48) :
    x ∉ range (esp - 4) 4 := by
  have hbounds := frameAt_bounds h
  rw [mem_range] at hx ⊢
  rcases toNat_frameAt with ⟨hoff, heq⟩ | ⟨hon, heq⟩
  · rw [offExstk_iff] at hoff
    generalize frameAt esp = F at *
    bv_omega
  · rw [offExstk_iff] at hon
    generalize frameAt esp = F at *
    bv_omega

theorem frame_subset : frame F ⊆ range (F - 8) 60 := by
  intro x hx
  have hx : (x - F).toNat < 52 := hx
  rw [mem_range]
  bv_omega

theorem used_subset_scratch (h : Placed live esp) : used esp ⊆ scratch live esp := by
  rintro x (hx | ⟨hlo, hhi, hbelow⟩)
  · exact .inl hx
  · refine .inr ⟨hlo, hhi, fun F hF => ?_⟩
    obtain ⟨hesp, hle, htop⟩ := h F hF
    rcases hbelow with hoff | hlt
    · have hlo : 0xeebff000 ≤ esp.toNat := hesp
      have hle : esp.toNat ≤ F.toNat := hle
      have htop : F.toNat ≤ 0xeebfffcb := htop
      rw [offExstk_iff] at hoff
      omega
    · exact Nat.lt_of_lt_of_le (m := esp.toNat) hlt hle

/-- Below the live frames lies what a fault on the exception stack writes. -/
theorem used_subset_below (hon : ¬ OffExstk esp) (hfit : exstk + 8 ≤ frameAt esp)
    (h : ∀ F ∈ live, esp ≤ F) : used esp ⊆ {x | exstk ≤ x ∧ x ≤ exstkTop ∧ ∀ F ∈ live, x < F} := by
  have hbounds := frameAt_bounds hfit
  have hlt : ∀ x ∈ used esp, exstk ≤ x ∧ x ≤ exstkTop ∧ x < esp := by
    intro x hx
    rw [mem_used] at hx
    rcases toNat_frameAt with ⟨hoff, -⟩ | ⟨-, heq⟩
    · exact absurd hoff hon
    · rw [offExstk_iff] at hon hx
      show 0xeebff000 ≤ x.toNat ∧ x.toNat ≤ 0xeebfffff ∧ x.toNat < esp.toNat
      generalize frameAt esp = F at *
      bv_omega
  intro x hx
  obtain ⟨hlo, hhi, hlt⟩ := hlt x hx
  exact ⟨hlo, hhi, fun F hF => Nat.lt_of_lt_of_le (m := esp.toNat) hlt (h F hF)⟩

/-- Live frames lie above what a fault uses. -/
theorem notMem_used (h : Placed live esp) (hF : F ∈ live) (hx : x ∈ frame F) : x ∉ used esp := by
  obtain ⟨hesp, hle, htop⟩ := h F hF
  have hlo : 0xeebff000 ≤ esp.toNat := hesp
  have hle : esp.toNat ≤ F.toNat := hle
  have htop : F.toNat ≤ 0xeebfffcb := htop
  have hx : (x - F).toNat < 52 := hx
  rw [mem_used, offExstk_iff]
  bv_omega

/-! ## Frames -/

/-- The words of a frame are in memory from `F` on. -/
def Holds (mem : Bytes) (F : Word) (ws : List Word) : Prop :=
  ∀ i (h : i < ws.length), mem.readWord (F + BitVec.ofNat 32 (4 * i)) = ws[i]

theorem holds_writeWords (h : 4 * ws.length ≤ 2 ^ 32) : Holds (mem.writeWords F ws) F ws :=
  fun _ hi => readWord_writeWords hi h

theorem Holds.congr (h : Holds mem F ws) (hmem : ∀ x ∈ range F (4 * ws.length), mem' x = mem x)
    (hlen : 4 * ws.length ≤ 2 ^ 32) : Holds mem' F ws := by
  intro i hi
  rw [← h i hi]
  refine readWord_congr fun x hx => hmem x ?_
  rw [mem_range] at hx ⊢
  bv_omega

/-! ## The kernel's push -/

/-- What `page_fault_handler` does to a program. -/
theorem pageFault_eq_some (h : pageFault u faultVa err s = some s₀) :
    s₀ = { s with esp := frameAt s.esp, eip := u.entry, mem := s₀.mem } ∧
      Holds s₀.mem s₀.esp (utrapframe faultVa (s.trapframe err)) ∧
      (exstk + 8 ≤ s₀.esp → changes s s₀ ⊆ used s.esp) := by
  have hlen : (utrapframe faultVa (s.trapframe err)).length = 13 := rfl
  unfold pageFault at h
  by_cases hoff : s.esp < exstk ∨ exstkTop < s.esp
  · have hF : frameAt s.esp = exstkTop - UTF_SIZE := if_pos hoff
    rw [if_pos hoff] at h
    dsimp only at h
    split at h
    · cases h
    · obtain rfl := Option.some.inj h
      refine ⟨by rw [hF], holds_writeWords (by rw [hlen]; decide), fun hfit x hx => ?_⟩
      have hx := changed_writeWords hx
      rw [hlen] at hx
      refine mem_used_of_frame (by rw [hF]; exact hfit) (frame_subset ?_)
      rw [hF]
      exact hx
  · have hF : frameAt s.esp = s.esp - 4 - UTF_SIZE := if_neg hoff
    rw [if_neg hoff] at h
    dsimp only at h
    split at h
    · cases h
    · obtain rfl := Option.some.inj h
      refine ⟨by rw [hF], holds_writeWords (by rw [hlen]; decide), fun hfit x hx => ?_⟩
      rcases changed_trans (s.mem.writeWord (s.esp - 4) 0) hx with hx | hx
      · exact .inl (changed_writeWord hx)
      · have hx := changed_writeWords hx
        rw [hlen] at hx
        refine mem_used_of_frame (by rw [hF]; exact hfit) (frame_subset ?_)
        rw [hF]
        exact hx

end JosSched
