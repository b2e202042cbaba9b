import JosSched.User.Pfentry

/-!
# The page fault upcall is transparent

A program that faults continues with the registers it had, whatever handlers fault in between.
The one exception is a stack pointer at `UXSTACKTOP`: the kernel takes it for one that is off
the exception stack, and the word below it overlaps the frame.
-/

open Bytes

namespace JosSched

variable {u : Upcall} {live : List Word} {faultVa err F x : Word} {s s' s₀ s₁ s₂ : UserState}
  {mem mem' : Bytes} {M : Set Word} {ws : List Word} {phase : UpcallPhase}

/-! ## Flags -/

theorem setFlags_system (e w : Word) :
    setFlags e FL_ARITH w &&& ~~~FL_USER = e &&& ~~~FL_USER := by
  have hkeep : ~~~FL_ARITH &&& ~~~FL_USER = ~~~FL_USER := by decide
  have hnone : FL_ARITH &&& ~~~FL_USER = 0 := by decide
  calc setFlags e FL_ARITH w &&& ~~~FL_USER
      = (e &&& ~~~FL_ARITH) &&& ~~~FL_USER ||| (w &&& FL_ARITH) &&& ~~~FL_USER :=
        BitVec.and_or_distrib_right ..
    _ = e &&& ~~~FL_USER ||| w &&& 0 := by
        rw [BitVec.and_assoc, BitVec.and_assoc, hkeep, hnone]
    _ = e &&& ~~~FL_USER := by
        rw [show w &&& 0 = 0 from BitVec.and_zero]
        exact BitVec.or_zero

theorem setFlags_user {e w : Word} (h : e &&& ~~~FL_USER = w &&& ~~~FL_USER) :
    setFlags e FL_USER w = w := by
  calc setFlags e FL_USER w = w &&& ~~~FL_USER ||| w &&& FL_USER := by rw [setFlags, h]
    _ = w &&& (~~~FL_USER ||| FL_USER) := BitVec.and_or_distrib_left.symm
    _ = w := by
        rw [BitVec.or_comm, BitVec.or_not_self]
        exact BitVec.and_allOnes

/-! ## The code of the upcall -/

theorem callHandler_mem : (s.run (callHandler u)).mem =
    (s.mem.writeWord (s.esp - 4) s.esp).writeWord (s.esp - 4 - 4) (s.eip + 1 + 5 + 2) := rfl

/-- The call writes the two words below the frame. -/
theorem changes_callHandler : changes s (s.run (callHandler u)) ⊆ range (s.esp - 8) 8 := by
  intro x hx
  rw [changes, callHandler_mem] at hx
  rw [mem_range]
  rcases changed_trans (s.mem.writeWord (s.esp - 4) s.esp) hx with hx | hx
  · have hx := changed_writeWord hx
    rw [mem_range] at hx
    generalize s.esp = F at hx
    bv_omega
  · have hx := changed_writeWord hx
    rw [mem_range] at hx
    generalize s.esp = F at hx
    bv_omega

theorem callHandler_frame (hx : x ∈ frame s.esp) : (s.run (callHandler u)).mem x = s.mem x := by
  by_contra hne
  have hcall := changes_callHandler hne
  have hx : (x - s.esp).toNat < 52 := hx
  rw [mem_range] at hcall
  generalize s.esp = F at hx hcall
  bv_omega

/-- What the upcall has in its registers when it comes to its store. -/
theorem run_prepare (h : Holds s.mem F (utrapframe faultVa (s'.trapframe err)))
    (hesp : s.esp = F - 4) : (s.run prepare).esp = F ∧ (s.run prepare).mem = s.mem ∧
      (s.run prepare).regs.regEax = s'.eip ∧ (s.run prepare).regs.regEbx = s'.esp - 4 ∧
      (s.run prepare).eflags &&& ~~~FL_USER = s.eflags &&& ~~~FL_USER := by
  have hF : s.esp + 4 = F := by
    rw [hesp]
    exact BitVec.sub_add_cancel F 4
  have heip : s.mem.readWord (F + 40) = s'.eip := h 10 (by simp [utrapframe])
  have hstack : s.mem.readWord (F + 48) = s'.esp := h 12 (by simp [utrapframe])
  refine ⟨hF, rfl, ?_, ?_, (setFlags_system _ _).trans (setFlags_system _ _)⟩
  · show s.mem.readWord (s.esp + 4 + 40) = _
    rw [hF, heip]
  · show s.mem.readWord (s.esp + 4 + 48) - 4 = _
    rw [hF, hstack]

/-- What is in memory after the last stores of the upcall. -/
def finalMem (mem : Bytes) (F esp eip : Word) : Bytes :=
  (mem.writeWord (esp - 4) eip).writeWord (F + 48) (esp - 4)

/-- The words of the frame that are restored. -/
theorem readWord_finalMem (h : Holds mem (frameAt esp) ws) (hfit : exstk + 8 ≤ frameAt esp)
    {i : ℕ} (hi : i < 12) (hlen : i < ws.length) {eip : Word} :
    (finalMem mem (frameAt esp) esp eip).readWord (frameAt esp + BitVec.ofNat 32 (4 * i)) =
      ws[i] := by
  rw [← h i hlen]
  refine readWord_congr fun x hx => ?_
  have hx48 : x ∈ range (frameAt esp) 48 := by
    rw [mem_range] at hx ⊢
    generalize frameAt esp = F at hx ⊢
    bv_omega
  have hlast : x ∉ range (frameAt esp + 48) 4 := by
    rw [mem_range] at hx48 ⊢
    generalize frameAt esp = F at hx48 ⊢
    bv_omega
  rw [finalMem, writeWord_of_notMem hlast, writeWord_of_notMem (notMem_frame hfit hx48)]

theorem popRegs_frame : popRegs mem (F + 4 + 4) =
    { regEdi := mem.readWord (F + BitVec.ofNat 32 (4 * 2))
      regEsi := mem.readWord (F + BitVec.ofNat 32 (4 * 3))
      regEbp := mem.readWord (F + BitVec.ofNat 32 (4 * 4))
      regEbx := mem.readWord (F + BitVec.ofNat 32 (4 * 6))
      regEdx := mem.readWord (F + BitVec.ofNat 32 (4 * 7))
      regEcx := mem.readWord (F + BitVec.ofNat 32 (4 * 8))
      regEax := mem.readWord (F + BitVec.ofNat 32 (4 * 9)) } := by
  unfold popRegs
  simp only [BitVec.add_assoc]
  rfl

/-- The end of the upcall: everything is restored, but `eip` is what the word below the
trap-time stack pointer holds by then. -/
theorem run_restore (h : Holds s₂.mem (frameAt s.esp) (utrapframe faultVa (s.trapframe err)))
    (hfit : exstk + 8 ≤ frameAt s.esp) (hesp : s₂.esp = frameAt s.esp)
    (heax : s₂.regs.regEax = s.eip) (hebx : s₂.regs.regEbx = s.esp - 4)
    (hflags : s₂.eflags &&& ~~~FL_USER = s.eflags &&& ~~~FL_USER)
    (ht : s' = (s₂.exec .movlEaxEbx).run restore) :
    s'.mem = finalMem s₂.mem (frameAt s.esp) s.esp s.eip ∧ s'.regs = s.regs ∧
      s'.esp = s.esp ∧ s'.eflags = s.eflags ∧ s'.eip = s'.mem.readWord (s.esp - 4) := by
  have hmem : s'.mem = finalMem s₂.mem (frameAt s.esp) s.esp s.eip := by
    rw [ht, finalMem, ← hesp, ← heax, ← hebx]
    rfl
  -- the words of the frame but its last one are what the fault had saved
  have hword : ∀ i, i < 12 → ∀ hlen : i < (utrapframe faultVa (s.trapframe err)).length,
      s'.mem.readWord (frameAt s.esp + BitVec.ofNat 32 (4 * i)) =
        (utrapframe faultVa (s.trapframe err))[i] := fun i hi hlen => by
    rw [hmem]
    exact readWord_finalMem h hfit hi hlen
  have hregs : s'.regs = s.regs := by
    have hpop : s'.regs = popRegs s'.mem (frameAt s.esp + 4 + 4) := by
      rw [ht, ← hesp]
      rfl
    have hlen : (utrapframe faultVa (s.trapframe err)).length = 13 := rfl
    have h2 := hword 2 (by decide) (by omega)
    have h3 := hword 3 (by decide) (by omega)
    have h4 := hword 4 (by decide) (by omega)
    have h6 := hword 6 (by decide) (by omega)
    have h7 := hword 7 (by decide) (by omega)
    have h8 := hword 8 (by decide) (by omega)
    have h9 := hword 9 (by decide) (by omega)
    rw [hpop, popRegs_frame, h2, h3, h4, h6, h7, h8, h9]
    rfl
  -- the last one is the trap-time stack pointer, less the word of the return address
  have hlast : s'.mem.readWord (frameAt s.esp + 4 + 4 + 32 + 4 + 4) = s.esp - 4 := by
    have haddr : frameAt s.esp + 4 + 4 + 32 + 4 + 4 = frameAt s.esp + 48 := by
      simp only [BitVec.add_assoc]
      rfl
    rw [haddr, hmem, finalMem, readWord_writeWord]
  have hstack : s'.esp = s.esp := by
    have hpop : s'.esp = s'.mem.readWord (frameAt s.esp + 4 + 4 + 32 + 4 + 4) + 4 := by
      rw [ht, ← hesp]
      rfl
    rw [hpop, hlast]
    exact BitVec.sub_add_cancel s.esp 4
  have hret : s'.eip = s'.mem.readWord (s.esp - 4) := by
    have hpop : s'.eip =
        s'.mem.readWord (s'.mem.readWord (frameAt s.esp + 4 + 4 + 32 + 4 + 4)) := by
      rw [ht, ← hesp]
      rfl
    rw [hpop, hlast]
  refine ⟨hmem, hregs, hstack, ?_, hret⟩
  have hpop : s'.eflags = setFlags (setFlags s₂.eflags FL_ARITH (addFlags (s₂.esp + 4 + 4 + 32) 4))
      FL_USER (s'.mem.readWord (frameAt s.esp + 4 + 4 + 32 + 4)) := by
    rw [ht, ← hesp]
    rfl
  have hsaved : s'.mem.readWord (frameAt s.esp + 4 + 4 + 32 + 4) = s.eflags := by
    simp only [BitVec.add_assoc]
    exact hword 11 (by decide) (by simp [utrapframe])
  rw [hpop, hsaved]
  exact setFlags_user ((setFlags_system _ _).trans hflags)

/-! ## The return address -/

/-- Where the program continues.  With the stack pointer at `UXSTACKTOP` the saved stack
pointer overwrites three bytes of the return address. -/
def returnEip (esp eip : Word) : Word :=
  if esp = UXSTACKTOP then eip &&& 0xff000000 ||| 0x00eebfff else eip

theorem returnEip_eq_iff {esp eip : Word} :
    returnEip esp eip = eip ↔ esp ≠ UXSTACKTOP ∨ eip &&& 0x00ffffff = 0x00eebfff := by
  unfold returnEip
  by_cases hesp : esp = UXSTACKTOP
  · rw [if_pos hesp, or_iff_right (not_not.mpr hesp)]
    constructor
    · intro h
      have hnone : (0xff000000 : Word) &&& 0x00ffffff = 0 := by decide
      have hkeep : (0x00eebfff : Word) &&& 0x00ffffff = 0x00eebfff := by decide
      rw [← h, BitVec.and_or_distrib_right, BitVec.and_assoc, hnone, hkeep]
      simp
    · intro h
      have hall : (0xff000000 : Word) ||| 0x00ffffff = BitVec.allOnes 32 := by decide
      rw [← h, ← BitVec.and_or_distrib_left, hall]
      exact BitVec.and_allOnes
  · rw [if_neg hesp]
    exact ⟨fun _ => .inl hesp, fun _ => rfl⟩

theorem byteOf_return {eip : Word} {k : ℕ} (hk : k < 4) :
    byteOf (eip &&& 0xff000000 ||| 0x00eebfff) k =
      if k = 3 then byteOf eip 3 else byteOf 0xeebffffc (k + 1) := by
  unfold byteOf
  rw [BitVec.extractLsb'_or, BitVec.extractLsb'_and]
  obtain rfl | rfl | rfl | rfl : k = 0 ∨ k = 1 ∨ k = 2 ∨ k = 3 := by omega
  · simp
  · simp
  · simp
  · have hall : BitVec.extractLsb' (8 * 3) 8 (0xff000000 : Word) = BitVec.allOnes 8 := by decide
    have hnone : BitVec.extractLsb' (8 * 3) 8 (0x00eebfff : Word) = 0 := by decide
    rw [hall, hnone, BitVec.and_allOnes, if_pos rfl]
    exact BitVec.or_zero

theorem readWord_return {esp eip : Word} (hfit : exstk + 8 ≤ frameAt esp)
    (huser : ∀ x ∈ range (esp - 4) 4, x < UTOP) :
    (finalMem mem (frameAt esp) esp eip).readWord (esp - 4) = returnEip esp eip := by
  by_cases hesp : esp = UXSTACKTOP
  · rw [returnEip, if_pos hesp, hesp]
    refine readWord_eq fun k hk => ?_
    rw [byteOf_return hk]
    obtain rfl | rfl | rfl | rfl : k = 0 ∨ k = 1 ∨ k = 2 ∨ k = 3 := by omega
    all_goals rfl
  · rw [returnEip, if_neg hesp, finalMem, readWord_writeWord_of_disjoint, readWord_writeWord]
    intro x hx
    have hlast := huser (esp - 1) (by rw [mem_range]; bv_omega)
    have hlast : (esp - 1).toNat < 0xeec00000 := hlast
    have hesp : esp.toNat ≠ 0xeec00000 := fun h => hesp (BitVec.eq_of_toNat_eq h)
    have hbounds := frameAt_bounds hfit
    rw [mem_range] at hx ⊢
    rcases toNat_frameAt with ⟨hoff, heq⟩ | ⟨hon, heq⟩
    · rw [offExstk_iff] at hoff
      generalize frameAt esp = F at *
      bv_omega
    · rw [offExstk_iff] at hon
      generalize frameAt esp = F at *
      bv_omega

/-! ## Every run -/

/-- What handling a fault comes to. -/
structure Returned (live : List Word) (s s' : UserState) (M : Set Word) : Prop where
  fits : exstk + 8 ≤ frameAt s.esp
  used : M ⊆ used s.esp
  regs : s'.regs = s.regs
  eip : s'.eip = returnEip s.esp s.eip
  eflags : s'.eflags = s.eflags
  esp : s'.esp = s.esp
  frames : ∀ F ∈ live, ∀ x ∈ frame F, s'.mem x = s.mem x

def InRange (live : List Word) : Prop := ∀ F ∈ live, F ≤ exstkTop - UTF_SIZE

/-- The exception stack below the live frames. -/
def below (live : List Word) : Set Word := {x | exstk ≤ x ∧ x ≤ exstkTop ∧ ∀ F ∈ live, x < F}

theorem below_subset_used : below (frameAt esp :: live) ⊆ used esp := by
  rintro x ⟨hlo, hhi, hlive⟩
  have hlt : x.toNat < (frameAt esp).toNat := hlive _ List.mem_cons_self
  refine .inr ⟨hlo, hhi, ?_⟩
  rcases toNat_frameAt with ⟨hoff, -⟩ | ⟨-, heq⟩
  · exact .inl hoff
  · exact .inr (show x.toNat < esp.toNat by omega)

theorem eq_of_notMem_changes (h : x ∉ changes s s') : s'.mem x = s.mem x := not_not.mp h

theorem Holds.frame_congr (h : Holds mem F (utrapframe faultVa (s.trapframe err)))
    (hmem : ∀ x ∈ frame F, mem' x = mem x) :
    Holds mem' F (utrapframe faultVa (s.trapframe err)) :=
  h.congr hmem (by simp [utrapframe])

/-- The last stores of the upcall stay where the fault may write. -/
theorem changes_restore (hfit : exstk + 8 ≤ frameAt s.esp) (hesp : s₂.esp = frameAt s.esp)
    (hebx : s₂.regs.regEbx = s.esp - 4) :
    changes s₂ (s₂.exec .movlEaxEbx) ⊆ used s.esp ∧
      changes (s₂.exec .movlEaxEbx) ((s₂.exec .movlEaxEbx).run restore) ⊆ used s.esp := by
  constructor
  · intro x hx
    have hx : x ∈ changed s₂.mem (s₂.mem.writeWord s₂.regs.regEbx s₂.regs.regEax) := hx
    have hx := changed_writeWord hx
    rw [hebx] at hx
    exact .inl hx
  · intro x hx
    have hx : x ∈ changed (s₂.exec .movlEaxEbx).mem
        ((s₂.exec .movlEaxEbx).mem.writeWord (s₂.esp + 48) s₂.regs.regEbx) := hx
    have hx := changed_writeWord hx
    refine mem_used_of_frame hfit ?_
    rw [hesp] at hx
    rw [mem_range] at hx ⊢
    generalize frameAt s.esp = F at hx ⊢
    bv_omega

/-- By induction on the run.  A fault needs that the handler leaves the live frames alone, which
it is assumed to do, and that the faults inside only write below them. -/
theorem unwinds_spec (h : Unwinds u phase live s M s') :
    (phase = .fault → Placed live s.esp → Returned live s s' M) ∧
      (phase ≠ .fault → InRange live → M ⊆ below live ∧
        s'.eflags &&& ~~~FL_USER = s.eflags &&& ~~~FL_USER) ∧
      (phase = .store → InRange live → Resumes s s' ∧
        ∀ F ∈ live, ∀ x ∈ frame F, s'.mem x = s.mem x) := by
  induction h with
  | @upcall live faultVa err s s₀ s₁ s₂ M₁ M₂ hfault hfit hhandler heip hesp hframes hstore huser
      ihHandler ihStore =>
      refine ⟨fun _ hplaced => ?_, fun hne => absurd rfl hne, fun heq _ => (by cases heq)⟩
      obtain ⟨hs₀, hholds, hpush⟩ := pageFault_eq_some hfault
      have hF : s₀.esp = frameAt s.esp := by rw [hs₀]
      have hpush := hpush hfit
      have hfit' : exstk + 8 ≤ frameAt s.esp := hF ▸ hfit
      have hrange : InRange (s₀.esp :: live) := by
        intro F hmem
        rcases List.mem_cons.mp hmem with rfl | hmem
        · rw [hF]
          exact (frameAt_bounds hfit').2
        · exact (hplaced F hmem).2.2
      obtain ⟨hM₁, hflags₁⟩ := ihHandler.2.1 (by decide) hrange
      obtain ⟨hM₂, -⟩ := ihStore.2.1 (by decide) hrange
      obtain ⟨hresumes, hframes₂⟩ := ihStore.2.2 rfl hrange
      rw [hF] at hM₁ hM₂ hesp hframes hframes₂
      -- the call of the handler writes below the frame
      have hcall : changes s₀ (s₀.run (callHandler u)) ⊆ used s.esp := fun x hx => by
        refine mem_used_of_frame hfit' ?_
        have hx := changes_callHandler hx
        rw [hF] at hx
        exact Nat.lt_of_lt_of_le (m := 8) hx (by decide)
      -- the frame is as the kernel left it, until the upcall reads it
      have hholds₁ : Holds s₁.mem (frameAt s.esp) (utrapframe faultVa (s.trapframe err)) := by
        rw [hF] at hholds
        refine (hholds.frame_congr fun x hx => ?_).frame_congr (hframes _ List.mem_cons_self)
        exact callHandler_frame (hF ▸ hx)
      obtain ⟨hprepEsp, hprepMem, hprepEax, hprepEbx, hprepFlags⟩ := run_prepare hholds₁ hesp
      have hholds₂ : Holds s₂.mem (frameAt s.esp) (utrapframe faultVa (s.trapframe err)) :=
        (hprepMem ▸ hholds₁).frame_congr (hframes₂ _ List.mem_cons_self)
      have hesp₂ : s₂.esp = frameAt s.esp := hresumes.esp.trans hprepEsp
      have hebx₂ : s₂.regs.regEbx = s.esp - 4 := by rw [hresumes.regs, hprepEbx]
      have heax₂ : s₂.regs.regEax = s.eip := by rw [hresumes.regs, hprepEax]
      have hsystem : s₂.eflags &&& ~~~FL_USER = s.eflags &&& ~~~FL_USER := by
        rw [hresumes.eflags, hprepFlags, hflags₁]
        show s₀.eflags &&& _ = _
        rw [hs₀]
      -- so the upcall restores from the frame what the fault had saved
      obtain ⟨hmem, hregs, hstack, heflags, hret⟩ :=
        run_restore hholds₂ hfit' hesp₂ heax₂ hebx₂ hsystem rfl
      obtain ⟨hlast, hlast'⟩ := changes_restore hfit' hesp₂ hebx₂
      refine ⟨hfit', ?_, hregs, ?_, heflags, hstack, fun G hG x hx => ?_⟩
      · have hprep : changes s₁ (s₁.run prepare) = ∅ := changed_self
        rw [hprep, Set.union_empty]
        exact Set.union_subset (Set.union_subset (Set.union_subset (Set.union_subset
          (Set.union_subset hpush hcall) (hM₁.trans below_subset_used))
          (hM₂.trans below_subset_used)) hlast) hlast'
      · rw [hret, hmem]
        exact readWord_return hfit' (hebx₂ ▸ huser)
      -- a live frame is above all that has been written, step by step
      · have hno := notMem_used hplaced hG hx
        have hmem := List.mem_cons_of_mem (frameAt s.esp) hG
        calc ((s₂.exec .movlEaxEbx).run restore).mem x = (s₂.exec .movlEaxEbx).mem x :=
              eq_of_notMem_changes fun h => hno (hlast' h)
          _ = s₂.mem x := eq_of_notMem_changes fun h => hno (hlast h)
          _ = s₁.mem x := hframes₂ G hmem x hx
          _ = (s₀.run (callHandler u)).mem x := hframes G hmem x hx
          _ = s₀.mem x := eq_of_notMem_changes fun h => hno (hcall h)
          _ = s.mem x := eq_of_notMem_changes fun h => hno (hpush h)
  | done hne =>
      exact ⟨fun heq => absurd heq hne, fun _ _ => ⟨Set.empty_subset _, rfl⟩,
        fun _ _ => ⟨⟨rfl, rfl, rfl, rfl⟩, fun _ _ _ _ => rfl⟩⟩
  | own hflags hrun ih =>
      refine ⟨fun heq _ => (by cases heq), fun hne hrange => ?_, fun heq _ => (by cases heq)⟩
      obtain ⟨hM, hsystem⟩ := ih.2.1 hne hrange
      exact ⟨hM, hsystem.trans hflags⟩
  -- a fault in a handler: it returns to the handler, which goes on as if it had not been
  | @nested phase live s s' s'' M M' hne hlo hhi hlive hfault hrest ihFault ihRest =>
      have hlo : 0xeebff000 ≤ s.esp.toNat := hlo
      have hhi : s.esp.toNat ≤ 0xeebfffff := hhi
      have hon : ¬ OffExstk s.esp := by
        rw [offExstk_iff]
        omega
      have htop : s.esp ≠ UXSTACKTOP := fun heq => by
        rw [heq] at hhi
        exact absurd hhi (by decide)
      have hreturned : InRange live → Returned live s s' M := fun hrange =>
        ihFault.1 rfl fun F hF => ⟨hlo, hlive F hF, hrange F hF⟩
      refine ⟨fun heq => absurd heq hne, fun _ hrange => ?_, fun heq hrange => ?_⟩
      · obtain ⟨hfit, hused, -, -, heflags, -⟩ := hreturned hrange
        obtain ⟨hM', hsystem⟩ := ihRest.2.1 hne hrange
        rw [heflags] at hsystem
        exact ⟨Set.union_subset (hused.trans (used_subset_below hon hfit hlive)) hM', hsystem⟩
      · obtain ⟨-, -, hregs, heip, heflags, hesp, hframes⟩ := hreturned hrange
        obtain ⟨hrest, hframes'⟩ := ihRest.2.2 heq hrange
        rw [returnEip, if_neg htop] at heip
        refine ⟨⟨hrest.regs.trans hregs, hrest.eip.trans heip, hrest.eflags.trans heflags,
          hrest.esp.trans hesp⟩, fun F hF x hx => ?_⟩
        exact (hframes' F hF x hx).trans (hframes F hF x hx)

/-! ## Transparency -/

/-- Whatever handles the fault of a program in state `s`, the program continues where it was,
and only scratch memory has been written for it. -/
def Transparent (u : Upcall) (s : UserState) : Prop :=
  ∀ live M s', Placed live s.esp → Unwinds u .fault live s M s' →
    Resumes s s' ∧ M ⊆ scratch live s.esp

/-- A handler that returns at once, for a stack pointer just above the exception stack. -/
theorem exists_unwinds (hesp : s.esp = UXSTACKTOP) : ∃ M s', Unwinds u .fault [] s M s' := by
  have hoff : s.esp < exstk ∨ exstkTop < s.esp := by
    rw [hesp]
    decide
  have hF : frameAt s.esp = exstkTop - UTF_SIZE := if_pos hoff
  obtain ⟨s₀, hs₀⟩ : ∃ s₀, pageFault u 0 0 s = some s₀ := by
    unfold pageFault
    rw [if_pos hoff]
    dsimp only
    rw [if_neg (by decide)]
    exact ⟨_, rfl⟩
  obtain ⟨heq, hholds, -⟩ := pageFault_eq_some hs₀
  have hesp₀ : s₀.esp = exstkTop - UTF_SIZE := by rw [heq, hF]
  have hfit : exstk + 8 ≤ s₀.esp := by
    rw [hesp₀]
    decide
  -- the state in which the handler returns
  let s₁ : UserState := { s₀.run (callHandler u) with eip := u.back, esp := s₀.esp - 4 }
  have hholds₁ : Holds s₁.mem s₀.esp (utrapframe 0 (s.trapframe 0)) :=
    hholds.frame_congr fun x hx => callHandler_frame hx
  obtain ⟨-, -, -, hebx, -⟩ := run_prepare hholds₁ rfl
  have hne : UpcallPhase.handler ≠ .fault := by decide
  have hreturned : Unwinds u .handler [s₀.esp] s₁ ∅ s₁ := .done hne
  have hhandler : Unwinds u .handler [s₀.esp] (s₀.run (callHandler u)) ∅ s₁ :=
    .own (by rfl) hreturned
  have hstore : Unwinds u .store [s₀.esp] (s₁.run prepare) ∅ (s₁.run prepare) :=
    .done (by decide)
  refine ⟨_, _, .upcall hs₀ hfit hhandler rfl rfl (fun _ _ _ _ => rfl) hstore fun x hx => ?_⟩
  rw [hebx, hesp, mem_range] at hx
  show x.toNat < 0xeec00000
  have htop : (UXSTACKTOP - 4 : Word) = 0xeebffffc := by decide
  rw [htop] at hx
  bv_omega

/-- The upcall is transparent, unless the stack pointer is just above the exception stack (and
the return address is not by chance the one that is read back). -/
theorem transparent_iff :
    Transparent u s ↔ s.esp ≠ UXSTACKTOP ∨ s.eip &&& 0x00ffffff = 0x00eebfff := by
  rw [← returnEip_eq_iff]
  constructor
  · intro h
    by_cases hesp : s.esp = UXSTACKTOP
    · obtain ⟨M, s', hrun⟩ := exists_unwinds (u := u) hesp
      have hplaced : Placed [] s.esp := fun F hF => by cases hF
      have hreturned := (unwinds_spec hrun).1 rfl hplaced
      rw [← hreturned.eip]
      exact (h [] M s' hplaced hrun).1.eip
    · exact if_neg hesp
  · intro h live M s' hplaced hrun
    obtain ⟨-, hused, hregs, heip, heflags, hesp, -⟩ := (unwinds_spec hrun).1 rfl hplaced
    exact ⟨⟨hregs, heip.trans h, heflags, hesp⟩, hused.trans (used_subset_scratch hplaced)⟩

/-- A program that takes the exception stack for its own, and is about to use it. -/
theorem not_transparent_top : ¬ Transparent ⟨0x800100, 0x804000⟩
    { eip := 0x800020, eflags := 0x202, esp := UXSTACKTOP, mem := fun _ => 0 } := by
  intro h
  obtain ⟨M, s', hrun⟩ := exists_unwinds (u := ⟨0x800100, 0x804000⟩)
    (s := { eip := 0x800020, eflags := 0x202, esp := UXSTACKTOP, mem := fun _ => 0 }) rfl
  have hplaced : Placed [] UXSTACKTOP := fun F hF => by cases hF
  have heip := ((unwinds_spec hrun).1 rfl hplaced).eip
  rw [(h [] M s' hplaced hrun).1.eip] at heip
  exact absurd heip (by decide)

end JosSched
