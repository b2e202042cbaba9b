import JosSched.User.Pfentry
import JosSched.Kern.PmapSpec

/-!
# Memory as a program sees it

`view` reads physical memory through a page directory.  Where the exception stack is a page of
its own, what `page_fault_handler` does to physical memory is `pageFault` in the view.
-/

open Bytes Except

namespace JosSched

variable {m m' : Mem} {d pp : Ppn} {va va' w perm : Word} {b : BitVec 8} {k : ℕ}

/-- The memory of the environment with page directory `d`; unmapped bytes are `0`. -/
def view (m : Mem) (d : Ppn) : Bytes := fun va =>
  match mmu m d va with
  | some (pp, _) => byteOf (m.load (pp, wordIdx va)) (va % 4).toNat
  | none => 0

/-- The exception stack is frame `pp`, which has no other use in the address space. -/
structure ExstkAt (m : Mem) (d pp : Ppn) : Prop where
  mapped : ∃ flags, flags &&& PTE_W = PTE_W ∧
    ∀ va, exstk ≤ va → va ≤ exstkTop → mmu m d va = some (pp, flags)
  alone : ∀ va flags, mmu m d va = some (pp, flags) → exstk ≤ va ∧ va ≤ exstkTop
  notDir : pp ≠ d
  notTable : ∀ va, m.load (d, pdx va) &&& PTE_P ≠ 0 → pgnum (m.load (d, pdx va)) ≠ pp

theorem toNat_mod4 (va : Word) : (va % 4).toNat = va.toNat % 4 := BitVec.toNat_umod

theorem getLsbD_ff (i : ℕ) : (0xff : Word).getLsbD i = decide (i < 8) := by
  have hlt : (0xff : Word).getLsbD i = Nat.testBit (2 ^ 8 - 1) i := by
    rw [BitVec.getLsbD]
    rfl
  rw [hlt, Nat.testBit_two_pow_sub_one]

theorem byteOf_setByte (hk : k < 4) :
    byteOf (setByte w va b) k = if k = (va % 4).toNat then b else byteOf w k := by
  have hlt : (va % 4).toNat < 4 := by
    rw [toNat_mod4]
    omega
  unfold setByte byteOf
  generalize (va % 4).toNat = j at hlt ⊢
  ext i hi
  simp only [BitVec.getElem_extractLsb', BitVec.getLsbD_or, BitVec.getLsbD_and,
    BitVec.getLsbD_not, BitVec.getLsbD_shiftLeft, BitVec.getLsbD_setWidth, getLsbD_ff]
  rcases lt_trichotomy k j with hlt | rfl | hlt
  · have h1 : 8 * k + i < 8 * j := by omega
    have h2 : 8 * k + i < 32 := by omega
    rw [if_neg hlt.ne]
    simp [h1, h2]
  · have h1 : 8 * k + i < 32 := by omega
    have h2 : i < 32 := by omega
    have h3 : ¬ 8 * k + i < 8 * k := by omega
    have h4 : 8 * k + i - 8 * k = i := by omega
    rw [if_pos rfl, h4]
    simp [h1, h2, h3, hi]
  · have h1 : 8 * k + i < 32 := by omega
    have h2 : ¬ 8 * k + i - 8 * j < 8 := by omega
    have h3 : b.getLsbD (8 * k + i - 8 * j) = false := BitVec.getLsbD_of_ge _ _ (by omega)
    rw [if_neg hlt.ne']
    simp [h1, h2, h3]

/-! ## Stores -/

theorem wordIdx_inj (hdiv : va.toNat / 4096 = va'.toNat / 4096) (hidx : wordIdx va = wordIdx va')
    (hmod : (va % 4).toNat = (va' % 4).toNat) : va = va' := by
  have hidx : va.toNat >>> 2 % 1024 = va'.toNat >>> 2 % 1024 := congrArg Fin.val hidx
  rw [Nat.shiftRight_eq_div_pow, Nat.shiftRight_eq_div_pow] at hidx
  rw [toNat_mod4, toNat_mod4] at hmod
  rw [BitVec.toNat_eq]
  omega

namespace ExstkAt

theorem mmu_store (h : ExstkAt m d pp) {i : Idx} : mmu (m.store (pp, i) w) d = mmu m d := by
  funext va
  have hpde : (m.store (pp, i) w).load (d, pdx va) = m.load (d, pdx va) :=
    Mem.load_store_ne fun heq => h.notDir (Prod.mk.inj heq).1.symm
  unfold mmu
  dsimp only
  rw [hpde]
  split
  · rfl
  · next hne =>
      have hpte : (m.store (pp, i) w).load (pgnum (m.load (d, pdx va)), ptx va) =
          m.load (pgnum (m.load (d, pdx va)), ptx va) :=
        Mem.load_store_ne fun heq => h.notTable va hne (Prod.mk.inj heq).1
      rw [hpte]

theorem of_store (h : ExstkAt m d pp) {i : Idx} : ExstkAt (m.store (pp, i) w) d pp := by
  have hpde : ∀ va, (m.store (pp, i) w).load (d, pdx va) = m.load (d, pdx va) := fun va =>
    Mem.load_store_ne fun heq => h.notDir (Prod.mk.inj heq).1.symm
  exact {
    mapped := by
      rw [h.mmu_store]
      exact h.mapped
    alone := by
      rw [h.mmu_store]
      exact h.alone
    notDir := h.notDir
    notTable := fun va hva => by
      rw [hpde] at hva ⊢
      exact h.notTable va hva }

/-- A store of the kernel to the exception stack changes one byte of the view. -/
theorem view_storeByte (h : ExstkAt m d pp) (hlo : exstk ≤ va) (hhi : va ≤ exstkTop) :
    ∃ m', storeByte m d PTE_W va b = some m' ∧ ExstkAt m' d pp ∧
      view m' d = Function.update (view m d) va b := by
  obtain ⟨flags, hflags, hmapped⟩ := h.mapped
  unfold storeByte
  rw [hmapped va hlo hhi]
  dsimp only
  rw [if_pos hflags]
  refine ⟨_, rfl, h.of_store, ?_⟩
  funext x
  have hmod : ∀ y : Word, (y % 4).toNat < 4 := fun y => by
    rw [toNat_mod4]
    omega
  unfold view
  rw [h.mmu_store]
  by_cases hx : x = va
  · subst hx
    rw [hmapped x hlo hhi, Function.update_self]
    dsimp only
    rw [Mem.load_store_self, byteOf_setByte (hmod x), if_pos rfl]
  · rw [Function.update_of_ne hx]
    cases hmmu : mmu m d x with
    | none => rfl
    | some r =>
        obtain ⟨q, flags'⟩ := r
        dsimp only
        by_cases hcell : (q, wordIdx x) = (pp, wordIdx va)
        · obtain ⟨rfl, hidx⟩ := Prod.mk.inj hcell
          obtain ⟨hxlo, hxhi⟩ := h.alone x flags' hmmu
          have hne : ¬ (x % 4).toNat = (va % 4).toNat := fun hmod => by
            have h1 : 0xeebff000 ≤ x.toNat := hxlo
            have h2 : x.toNat ≤ 0xeebfffff := hxhi
            have h3 : 0xeebff000 ≤ va.toNat := hlo
            have h4 : va.toNat ≤ 0xeebfffff := hhi
            exact hx (wordIdx_inj (by omega) hidx hmod)
          rw [hidx, Mem.load_store_self, byteOf_setByte (hmod x), if_neg hne]
        · rw [Mem.load_store_ne hcell]

theorem view_kernStore (h : ExstkAt m d pp) {bytes : List (BitVec 8)} (hlo : exstk ≤ va)
    (hhi : va.toNat + bytes.length ≤ UXSTACKTOP.toNat) :
    ∃ m', kernStore m d va bytes = .ok m' ∧ ExstkAt m' d pp ∧ view m' d = fun x =>
      if hx : (x - va).toNat < bytes.length then bytes[(x - va).toNat] else view m d x := by
  have htop : UXSTACKTOP.toNat = 0xeec00000 := rfl
  induction bytes generalizing m va with
  | nil => exact ⟨m, rfl, h, funext fun x => by simp⟩
  | cons b rest ih =>
      have hlo' : 0xeebff000 ≤ va.toNat := hlo
      rw [List.length_cons, htop] at hhi
      obtain ⟨m₁, hstore, h₁, hview₁⟩ := h.view_storeByte hlo
        (show va.toNat ≤ 0xeebfffff by omega) (b := b)
      have hnext : (va + 1).toNat = va.toNat + 1 := by bv_omega
      have hlo₁ : exstk ≤ va + 1 := show 0xeebff000 ≤ (va + 1).toNat by omega
      obtain ⟨m', hrest, h', hview⟩ := ih h₁ hlo₁ (by omega)
      refine ⟨m', by rw [kernStore, hstore]; exact hrest, h', ?_⟩
      rw [hview, hview₁]
      funext x
      by_cases hx : x = va
      · subst hx
        have hself : (x - x).toNat = 0 := by simp
        have hwrap : ¬ (x - (x + 1)).toNat < rest.length := by bv_omega
        rw [dif_neg hwrap, Function.update_self, dif_pos (by rw [hself]; exact Nat.succ_pos _)]
        simp only [hself, List.getElem_cons_zero]
      · have hoff : (x - va).toNat = (x - (va + 1)).toNat + 1 := by bv_omega
        rw [Function.update_of_ne hx]
        by_cases hlt : (x - (va + 1)).toNat < rest.length
        · rw [dif_pos hlt, dif_pos (by rw [hoff]; exact Nat.succ_lt_succ hlt)]
          simp only [hoff, List.getElem_cons_succ]
        · rw [dif_neg hlt, dif_neg (by rw [hoff, List.length_cons]; omega)]

theorem length_wordBytes {ws : List Word} : (ws.flatMap wordBytes).length = 4 * ws.length := by
  induction ws with
  | nil => rfl
  | cons w rest ih =>
      rw [List.flatMap_cons, List.length_append, ih, List.length_cons]
      show 4 + _ = _
      omega

theorem getElem_wordBytes {ws : List Word} {i : ℕ} (hi : i < (ws.flatMap wordBytes).length)
    (hdiv : i / 4 < ws.length) : (ws.flatMap wordBytes)[i] = byteOf ws[i / 4] (i % 4) := by
  induction ws generalizing i with
  | nil => cases hdiv
  | cons w rest ih =>
      simp only [List.flatMap_cons]
      by_cases hlt : i < 4
      · have hzero : i / 4 = 0 := by omega
        have hmod : i % 4 = i := by omega
        rw [List.getElem_append_left (show i < (wordBytes w).length from hlt)]
        simp only [hzero, hmod, List.getElem_cons_zero]
        obtain rfl | rfl | rfl | rfl : i = 0 ∨ i = 1 ∨ i = 2 ∨ i = 3 := by omega
        all_goals rfl
      · have hlen : (wordBytes w).length = 4 := rfl
        rw [List.getElem_append_right (show (wordBytes w).length ≤ i by omega)]
        have hdiv' : i / 4 = (i - 4) / 4 + 1 := by omega
        have hmod' : i % 4 = (i - 4) % 4 := by omega
        simp only [hlen, hdiv', hmod', List.getElem_cons_succ]
        exact ih _ _

/-- The stores of the kernel, as words of the view. -/
theorem view_kernStore_words (h : ExstkAt m d pp) {ws : List Word} (hlo : exstk ≤ va)
    (hhi : va.toNat + 4 * ws.length ≤ UXSTACKTOP.toNat) :
    ∃ m', kernStore m d va (ws.flatMap wordBytes) = .ok m' ∧ ExstkAt m' d pp ∧
      view m' d = (view m d).writeWords va ws := by
  obtain ⟨m', hstore, h', hview⟩ := h.view_kernStore hlo (by rw [length_wordBytes]; exact hhi)
  refine ⟨m', hstore, h', ?_⟩
  rw [hview]
  funext x
  by_cases hx : (x - va).toNat < (ws.flatMap wordBytes).length
  · have hdiv : (x - va).toNat / 4 < ws.length := by
      rw [length_wordBytes] at hx
      omega
    rw [dif_pos hx, getElem_wordBytes hx hdiv, writeWords, List.getElem?_eq_getElem hdiv]
  · rw [dif_neg hx]
    rw [length_wordBytes] at hx
    exact (writeWords_of_notMem hx).symm

end ExstkAt

/-- Where the frame fits, the kernel pushes it as `pageFault` does. -/
theorem pageFault_eq_pushUtrapframe {u : Upcall} {faultVa err : Word} {s : UserState}
    (h : ExstkAt m d pp) (hmem : s.mem = view m d) (hfit : exstk + 8 ≤ frameAt s.esp) :
    ∃ m', pushUtrapframe m d faultVa (s.trapframe err) = .ok (frameAt s.esp, m') ∧
      ExstkAt m' d pp ∧ pageFault u faultVa err s =
        some { s with esp := frameAt s.esp, eip := u.entry, mem := view m' d } := by
  have hbounds := frameAt_bounds hfit
  have htop : UXSTACKTOP.toNat = 0xeec00000 := rfl
  have hno : ¬ (frameAt s.esp < exstk ∨ exstkTop < frameAt s.esp) := by
    rintro (hlt | hlt)
    · have hlt : (frameAt s.esp).toNat < 0xeebff000 := hlt
      omega
    · have hlt : 0xeebfffff < (frameAt s.esp).toNat := hlt
      omega
  have hframe : ∀ {m₁ : Mem}, ExstkAt m₁ d pp → ∃ m',
      kernStore m₁ d (frameAt s.esp) ((utrapframe faultVa (s.trapframe err)).flatMap wordBytes) =
        .ok m' ∧ ExstkAt m' d pp ∧ view m' d =
          (view m₁ d).writeWords (frameAt s.esp) (utrapframe faultVa (s.trapframe err)) := by
    intro m₁ h₁
    refine h₁.view_kernStore_words (show 0xeebff000 ≤ (frameAt s.esp).toNat by omega) ?_
    have hlen : (utrapframe faultVa (s.trapframe err)).length = 13 := rfl
    omega
  unfold pushUtrapframe frameBase pageFault
  -- a first fault pushes the frame, a recursive one the scratch word before it
  by_cases hoff : s.esp < exstk ∨ exstkTop < s.esp
  · obtain ⟨m', hstore, h', hview⟩ := hframe h
    have hF : exstkTop - UTF_SIZE = frameAt s.esp := (if_pos hoff).symm
    have hoff' : (s.trapframe err).tfEsp < exstk ∨ exstkTop < (s.trapframe err).tfEsp := hoff
    refine ⟨m', ?_, h', ?_⟩
    · rw [if_pos hoff', hF]
      dsimp only [bind, Except.bind]
      rw [hstore]
      exact if_neg hno
    · rw [if_pos hoff, hF]
      dsimp only
      rw [if_neg hno, hview, hmem]
  · have hF : s.esp - 4 - UTF_SIZE = frameAt s.esp := (if_neg hoff).symm
    have hoff' : ¬ ((s.trapframe err).tfEsp < exstk ∨ exstkTop < (s.trapframe err).tfEsp) := hoff
    have hword : exstk ≤ s.esp - 4 ∧ (s.esp - 4).toNat + 4 * [(0 : Word)].length ≤
        UXSTACKTOP.toNat := by
      rcases toNat_frameAt with ⟨hoff'', -⟩ | ⟨hon, heq⟩
      · exact absurd hoff'' hoff
      · rw [offExstk_iff] at hon
        have hsub : (s.esp - 4).toNat = s.esp.toNat - 4 := by
          generalize s.esp = esp at *
          bv_omega
        refine ⟨show 0xeebff000 ≤ (s.esp - 4).toNat by omega, ?_⟩
        rw [List.length_singleton]
        omega
    obtain ⟨m₁, hzero, h₁, hview₁⟩ := h.view_kernStore_words hword.1 hword.2
    obtain ⟨m', hstore, h', hview⟩ := hframe h₁
    refine ⟨m', ?_, h', ?_⟩
    · rw [if_neg hoff']
      have hzero' : kernStore m d ((s.trapframe err).tfEsp - 4) (wordBytes 0) = .ok m₁ := hzero
      rw [hzero']
      have hF' : (s.trapframe err).tfEsp - 4 - UTF_SIZE = frameAt s.esp := hF
      dsimp only [bind, Except.bind, Except.map]
      rw [hF', hstore]
      exact if_neg hno
    · rw [if_neg hoff, hF]
      dsimp only
      rw [if_neg hno, hview, hview₁, hmem]
      rfl

end JosSched
