import JosSched.Kern.PmapSpec
import JosSched.Lib.Chain
import JosSched.Lib.RefCount
import Mathlib.Data.Finite.Prod
import Mathlib.Data.Finite.Sum

/-!
# The layout of physical memory

Every page frame that was free after boot is on the free list, or a page directory, or a page
table, or holds user data (`Use`).  `Layout` says how memory, the free list, the reference
counts and the page directories of the environments agree with such an assignment.  Seen from
an environment, its two levels of tables are a map from user pages to words, `leaf`.
-/

namespace JosSched

/-- What a page frame is used for. -/
inductive Use where
  | kernel
  | free
  | pgdir
  | table
  | data
  deriving DecidableEq

/-! ## Entries -/

/-- The entry of a page directory for a page table. -/
def tableEntry (t : Ppn) : Word := page2pa t ||| PTE_P ||| PTE_W ||| PTE_U

/-- The entry that `page_insert` writes. -/
def userEntry (pp : Ppn) (perm : Word) : Word := page2pa pp ||| perm ||| PTE_P

theorem ne_zero_of_and {w flag : Word} (h : w &&& flag ≠ 0) : w ≠ 0 := by
  rintro rfl
  exact h BitVec.zero_and

theorem pgnum_flags {perm : Word} (h : perm &&& ~~~PTE_SYSCALL = 0) : pgnum perm = 0 := by
  have hsplit : perm = perm &&& PTE_SYSCALL := by
    calc perm = perm &&& (PTE_SYSCALL ||| ~~~PTE_SYSCALL) := by
          rw [BitVec.or_not_self, BitVec.and_allOnes]
      _ = perm &&& PTE_SYSCALL ||| perm &&& ~~~PTE_SYSCALL := BitVec.and_or_distrib_left ..
      _ = perm &&& PTE_SYSCALL := by
        rw [h]
        exact BitVec.or_zero
  have hzero : BitVec.extractLsb' 12 20 PTE_SYSCALL = 0#20 := by decide
  rw [pgnum, hsplit, BitVec.extractLsb'_and, hzero]
  exact BitVec.and_zero

theorem pgnum_tableEntry (t : Ppn) : pgnum (tableEntry t) = t := by
  unfold tableEntry
  rw [pgnum_or _ _ (by decide), pgnum_or _ _ (by decide), pgnum_or _ _ (by decide), pgnum_page2pa]

theorem pgnum_userEntry {pp : Ppn} {perm : Word} (h : perm &&& ~~~PTE_SYSCALL = 0) :
    pgnum (userEntry pp perm) = pp := by
  unfold userEntry
  rw [pgnum_or _ _ (by decide), pgnum_or _ _ (pgnum_flags h), pgnum_page2pa]

theorem userEntry_present (pp : Ppn) (perm : Word) : userEntry pp perm &&& PTE_P ≠ 0 := by
  intro h
  have hbit := congrArg (fun w => w.getLsbD 0) h
  simp [userEntry, PTE_P] at hbit

theorem tableEntry_present (t : Ppn) : tableEntry t &&& PTE_P ≠ 0 := by
  intro h
  have hbit := congrArg (fun w => w.getLsbD 0) h
  simp [tableEntry, PTE_P] at hbit

/-! ## References -/

/-- The words that hold the references of user address spaces. -/
def IsEntry (use : Ppn → Use) (x : PteRef) : Prop :=
  use x.1 = .pgdir ∧ x.2.val < PDX_UTOP ∨ use x.1 = .table

instance (use : Ppn → Use) (x : PteRef) : Decidable (IsEntry use x) :=
  inferInstanceAs (Decidable (_ ∨ _))

/-- The frame that an entry refers to. -/
def links (m : Mem) (use : Ppn → Use) (x : PteRef) : Option Ppn :=
  if IsEntry use x ∧ m.load x ≠ 0 then some (pgnum (m.load x)) else none

instance : Finite Ppn := .of_injective BitVec.toFin fun _ _ h => BitVec.eq_of_toFin_eq h

/-- How many environments and entries refer to a frame. -/
noncomputable def refs (m : Mem) (dirs : Slot → Option Ppn) (use : Ppn → Use) (pp : Ppn) : ℕ :=
  refCount (Sum.elim dirs (links m use)) pp

/-- An entry of frame `f` is empty, or refers to a table from a page directory, or to a page of
user data from a table. -/
inductive EntryOk (use : Ppn → Use) (f : Ppn) (w : Word) : Prop
  | empty : w = 0 → EntryOk use f w
  | pde {t} : use f = .pgdir → use t = .table → w = tableEntry t → EntryOk use f w
  | pte {pp perm} : use f = .table → use pp = .data → perm &&& ~~~PTE_SYSCALL = 0 →
      w = userEntry pp perm → EntryOk use f w

/-- `use` describes the memory `m` of a kernel whose environments have the page directories
`dirs`.  `pool` are the frames that were free after boot, those in `lost` may have that use
without a reference, and the kernel itself counts a reference to `held` for the moment. -/
structure Layout (pool : Set Ppn) (lost : Set (Ppn × Use)) (m : Mem) (dirs : Slot → Option Ppn)
    (held : Option Ppn) (use : Ppn → Use) : Prop where
  kernel : ∀ pp, use pp = .kernel ↔ pp ∉ pool
  memory : ∀ pp ∈ pool, pp.toNat < m.npages
  kernPgdir : m.kernPgdir ∉ pool
  template : ∀ k : Idx, k.val < PDX_UTOP → m.load (m.kernPgdir, k) = 0
  freeList : ∃ l, Chain (fun pp => (m.pages pp).ppLink) m.pageFreeList l ∧ l.Nodup ∧
    ∀ pp, pp ∈ l ↔ use pp = .free
  holders : ∀ e pp, dirs e = some pp → use pp = .pgdir
  entries : ∀ x, IsEntry use x → EntryOk use x.1 (m.load x)
  holding : ∀ pp, held = some pp → use pp = .data
  counted : ∀ pp ∈ pool, (m.ref pp).toNat = refs m dirs use pp + if held = some pp then 1 else 0
  single : ∀ t, use t = .table → refs m dirs use t ≤ 1
  found : ∀ pp ∈ pool, use pp ≠ .free → refs m dirs use pp = 0 → held ≠ some pp →
    (pp, use pp) ∈ lost

variable {pool : Set Ppn} {lost lost' : Set (Ppn × Use)} {m m' m₁ : Mem}
  {dirs dirs' : Slot → Option Ppn}
  {held : Option Ppn} {use use' : Ppn → Use} {d f pp t : Ppn} {x y : PteRef} {w va perm : Word}

theorem links_eq_some :
    links m use x = some pp ↔ IsEntry use x ∧ m.load x ≠ 0 ∧ pgnum (m.load x) = pp := by
  unfold links
  by_cases h : IsEntry use x ∧ m.load x ≠ 0
  · rw [if_pos h, Option.some.injEq]
    exact ⟨fun heq => ⟨h.1, h.2, heq⟩, fun hall => hall.2.2⟩
  · rw [if_neg h]
    exact ⟨fun hnone => (by cases hnone), fun hall => absurd ⟨hall.1, hall.2.1⟩ h⟩

/-- Two assignments see the same references where an entry of either is an entry of both with
the same word. -/
theorem links_congr (h : ∀ x, IsEntry use' x ∧ m'.load x ≠ 0 ∨ IsEntry use x ∧ m.load x ≠ 0 →
    IsEntry use' x ∧ IsEntry use x ∧ m'.load x = m.load x) : links m' use' = links m use := by
  funext x
  unfold links
  by_cases hx : IsEntry use' x ∧ m'.load x ≠ 0 ∨ IsEntry use x ∧ m.load x ≠ 0
  · obtain ⟨h', h, hload⟩ := h x hx
    rw [hload]
    simp only [h', h, true_and]
  · rw [if_neg fun hand => hx (.inl hand), if_neg fun hand => hx (.inr hand)]

theorem EntryOk.of_pgdir (h : EntryOk use f w) (hf : use f = .pgdir) (hw : w ≠ 0) :
    ∃ t, use t = .table ∧ w = tableEntry t := by
  cases h with
  | empty h => exact absurd h hw
  | @pde t _ ht h => exact ⟨t, ht, h⟩
  | pte hf' =>
      rw [hf] at hf'
      cases hf'

theorem EntryOk.of_table (h : EntryOk use f w) (hf : use f = .table) (hw : w ≠ 0) :
    ∃ pp perm, use pp = .data ∧ perm &&& ~~~PTE_SYSCALL = 0 ∧ w = userEntry pp perm := by
  cases h with
  | empty h => exact absurd h hw
  | pde hf' =>
      rw [hf] at hf'
      cases hf'
  | @pte pp perm _ hpp hperm h => exact ⟨pp, perm, hpp, hperm, h⟩

/-- An entry refers to a table or to user data. -/
theorem EntryOk.target (h : EntryOk use f w) (hw : w ≠ 0) :
    use f = .pgdir ∧ use (pgnum w) = .table ∨ use f = .table ∧ use (pgnum w) = .data := by
  cases h with
  | empty h => exact absurd h hw
  | pde hf ht h => exact .inl ⟨hf, by rw [h, pgnum_tableEntry, ht]⟩
  | pte hf hpp hperm h => exact .inr ⟨hf, by rw [h, pgnum_userEntry hperm, hpp]⟩

/-- Other frames may change their use. -/
theorem EntryOk.congr (h : EntryOk use f w) (hf : use' f = use f)
    (hw : w ≠ 0 → use' (pgnum w) = use (pgnum w)) : EntryOk use' f w := by
  cases h with
  | empty h => exact .empty h
  | @pde t hd ht h =>
      have hne : w ≠ 0 := ne_zero_of_and (h ▸ tableEntry_present t)
      have hsame := hw hne
      rw [h, pgnum_tableEntry] at hsame
      exact .pde (hf.trans hd) (hsame.trans ht) h
  | @pte pp perm hd hpp hperm h =>
      have hne : w ≠ 0 := ne_zero_of_and (h ▸ userEntry_present pp perm)
      have hsame := hw hne
      rw [h, pgnum_userEntry hperm] at hsame
      exact .pte (hf.trans hd) (hsame.trans hpp) hperm h

namespace Layout

theorem mem_pool (h : Layout pool lost m dirs held use) (hpp : use pp ≠ .kernel) : pp ∈ pool := by
  by_contra hno
  exact hpp ((h.kernel pp).mpr hno)

/-- What a cell refers to. -/
theorem use_of_cell (h : Layout pool lost m dirs held use) {a : Slot ⊕ PteRef}
    (ha : Sum.elim dirs (links m use) a = some pp) :
    use pp = .pgdir ∧ (∃ e, a = .inl e) ∨
      (use pp = .table ∨ use pp = .data) ∧ ∃ x, a = .inr x := by
  cases a with
  | inl e => exact .inl ⟨h.holders e pp ha, e, rfl⟩
  | inr x =>
      obtain ⟨hentry, hne, rfl⟩ := links_eq_some.mp ha
      refine .inr ⟨?_, x, rfl⟩
      exact ((h.entries x hentry).target hne).imp And.right And.right

/-- Nothing refers to a frame that is free, or not of the pool. -/
theorem refs_eq_zero (h : Layout pool lost m dirs held use)
    (hpp : use pp = .free ∨ use pp = .kernel) : refs m dirs use pp = 0 := by
  refine refCount_eq_zero.mpr fun a ha => ?_
  rcases h.use_of_cell ha with ⟨huse, -⟩ | ⟨huse | huse, -⟩ <;> rw [huse] at hpp <;>
    rcases hpp with hpp | hpp <;> cases hpp

theorem ref_eq_zero (h : Layout pool lost m dirs held use) (hpp : use pp = .free) :
    m.ref pp = 0 := by
  have hcount := h.counted pp (h.mem_pool (by rw [hpp]; decide))
  have hheld : held ≠ some pp := fun hheld => by
    have hdata := h.holding pp hheld
    rw [hpp] at hdata
    cases hdata
  rw [h.refs_eq_zero (.inl hpp), if_neg hheld] at hcount
  exact BitVec.eq_of_toNat_eq hcount

/-- The head of the free list is a free frame. -/
theorem use_of_head (h : Layout pool lost m dirs held use) (hpp : m.pageFreeList = some pp) :
    use pp = .free := by
  obtain ⟨l, hchain, -, hfree⟩ := h.freeList
  rw [hpp] at hchain
  obtain ⟨rest, rfl, -⟩ := hchain.exists_cons
  exact (hfree pp).mp List.mem_cons_self

theorem mono (h : Layout pool lost m dirs held use) (hlost : lost ⊆ lost') :
    Layout pool lost' m dirs held use :=
  { h with found := fun pp hpool hfree hrefs hheld => hlost (h.found pp hpool hfree hrefs hheld) }

end Layout

/-! ## Address spaces -/

/-- Where the entry for `va` would be, in the page table that the directory names. -/
def cell (m : Mem) (d : Ppn) (va : Word) : PteRef := (pgnum (m.load (d, pdx va)), ptx va)

/-- The entry for `va`, or `0` where there is no table. -/
def leaf (m : Mem) (d : Ppn) (va : Word) : Word :=
  if m.load (d, pdx va) = 0 then 0 else m.load (cell m d va)

/-- The addresses are on one page. -/
def SamePage (va va' : Word) : Prop := pdx va = pdx va' ∧ ptx va = ptx va'

/-- No mapping of a user address space differs, but maybe that of `va` in directory `d`. -/
def OnlyAt (use : Ppn → Use) (m m' : Mem) (d : Ppn) (va : Word) : Prop :=
  ∀ d' va', use d' = .pgdir → va' < UTOP → ¬ (d' = d ∧ SamePage va va') →
    leaf m' d' va' = leaf m d' va'

theorem pdx_lt (h : va < UTOP) : (pdx va).val < PDX_UTOP := by
  have htop : UTOP.toNat = 0xeec00000 := rfl
  have hlt : va.toNat < UTOP.toNat := h
  rw [toNat_pdx]
  show _ < 955
  omega

namespace Layout

/-- A page directory has an entry for every user address. -/
theorem isEntry_pgdir (hd : use d = .pgdir) (hva : va < UTOP) : IsEntry use (d, pdx va) :=
  .inl ⟨hd, pdx_lt hva⟩

theorem table_of_pde (h : Layout pool lost m dirs held use) (hd : use d = .pgdir) (hva : va < UTOP)
    (hpde : m.load (d, pdx va) ≠ 0) :
    use (pgnum (m.load (d, pdx va))) = .table ∧
      m.load (d, pdx va) = tableEntry (pgnum (m.load (d, pdx va))) := by
  obtain ⟨t, ht, heq⟩ := (h.entries _ (isEntry_pgdir hd hva)).of_pgdir hd hpde
  rw [heq, pgnum_tableEntry]
  exact ⟨ht, rfl⟩

theorem isEntry_cell (h : Layout pool lost m dirs held use) (hd : use d = .pgdir) (hva : va < UTOP)
    (hpde : m.load (d, pdx va) ≠ 0) : IsEntry use (cell m d va) :=
  .inr (h.table_of_pde hd hva hpde).1

/-- Different pages have different entries. -/
theorem cell_inj (h : Layout pool lost m dirs held use) {d' : Ppn} {va' : Word}
    (hd : use d = .pgdir) (hva : va < UTOP) (hpde : m.load (d, pdx va) ≠ 0)
    (hd' : use d' = .pgdir) (hva' : va' < UTOP) (hpde' : m.load (d', pdx va') ≠ 0)
    (heq : cell m d va = cell m d' va') : d = d' ∧ SamePage va va' := by
  obtain ⟨ht, -⟩ := h.table_of_pde hd hva hpde
  obtain ⟨htable, hptx⟩ := Prod.mk.inj heq
  have hlink : Sum.elim dirs (links m use) (.inr (d, pdx va)) =
      some (pgnum (m.load (d, pdx va))) :=
    links_eq_some.mpr ⟨isEntry_pgdir hd hva, hpde, rfl⟩
  have hlink' : Sum.elim dirs (links m use) (.inr (d', pdx va')) =
      some (pgnum (m.load (d, pdx va))) :=
    links_eq_some.mpr ⟨isEntry_pgdir hd' hva', hpde', htable.symm⟩
  have hsame := eq_of_refCount_le_one (h.single _ ht) hlink hlink'
  obtain ⟨rfl, hpdx⟩ := Prod.mk.inj (Sum.inr.inj hsame)
  exact ⟨rfl, hpdx, hptx⟩

/-- A mapped page is user data. -/
theorem data_of_leaf (h : Layout pool lost m dirs held use) (hd : use d = .pgdir) (hva : va < UTOP)
    (hleaf : leaf m d va ≠ 0) :
    ∃ pp perm, use pp = .data ∧ perm &&& ~~~PTE_SYSCALL = 0 ∧ leaf m d va = userEntry pp perm := by
  unfold leaf at hleaf ⊢
  by_cases hpde : m.load (d, pdx va) = 0
  · rw [if_pos hpde] at hleaf
    exact absurd rfl hleaf
  · rw [if_neg hpde] at hleaf ⊢
    exact (h.entries _ (h.isEntry_cell hd hva hpde)).of_table (h.table_of_pde hd hva hpde).1 hleaf

end Layout

end JosSched
