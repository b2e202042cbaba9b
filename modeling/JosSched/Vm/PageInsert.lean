import JosSched.Vm.Accurate

/-!
# What `page_insert` does

With accurate counts nothing in `page_insert` can panic, and what it changes can be told in full:
two entries, the counters of at most three pages, and the front of the free list.

* `pgdir_walk` takes the head of the free list when the page table is absent (`tabled`).
* The counter of the page goes up first.
* `page_remove` clears the entry and drops the old page (`unmapped`), which is not the new one's
  last reference even where both are the same page.
* The entry is written.

A new page table shows at one more place than the page itself: the page directory maps itself at
`UVPT`, so the table is now a page of that window.
-/

open Except

namespace JosSched

variable {m m' m₁ : Mem} {owned : Ppn → ℕ} {use use' : Ppn → Use} {d d' f pp q t : Ppn}
  {x y : PteRef} {va va' w perm : Word} {l : List Ppn}

/-- The page mapped at `va`. -/
def pageAt (m : Mem) (d : Ppn) (va : Word) : Option Ppn :=
  if leaf m d va = 0 then none else some (pgnum (leaf m d va))

/-- The frame that `pgdir_walk` takes for the page table of `va`. -/
def newTable (m : Mem) (d : Ppn) (va : Word) : Option Ppn :=
  if m.load (d, pdx va) = 0 then m.pageFreeList else none

/-- The memory after `pgdir_walk(pgdir, va, 1)`. -/
def tabled (m : Mem) (d : Ppn) (va : Word) : Mem :=
  match newTable m d va with
  | some t => withTable m d t va
  | none => m

/-- The memory after `page_remove(pgdir, va)`. -/
def unmapped (m : Mem) (d : Ppn) (va : Word) : Mem :=
  match pageAt m d va with
  | some q => (decref m q).store (cell m d va) 0
  | none => m

/-! ## The walk -/

theorem newTable_eq_some : newTable m d va = some t ↔
    m.load (d, pdx va) = 0 ∧ m.pageFreeList = some t := by
  unfold newTable
  by_cases hpde : m.load (d, pdx va) = 0
  · rw [if_pos hpde]
    exact (and_iff_right hpde).symm
  · rw [if_neg hpde]
    exact ⟨fun hnone => (by cases hnone), fun hand => absurd hand.1 hpde⟩

theorem tabled_of_some (h : newTable m d va = some t) : tabled m d va = withTable m d t va := by
  rw [tabled, h]

theorem tabled_of_none (h : newTable m d va = none) : tabled m d va = m := by rw [tabled, h]

theorem npages_tabled : (tabled m d va).npages = m.npages := by
  unfold tabled
  split <;> rfl

namespace Accurate

theorem pgdirEntry_eq (h : Accurate m owned use) (hd : use d = .pgdir) (hva : va < UTOP) :
    pgdirEntry m d va = .ok (if m.load (d, pdx va) = 0 then none else some (cell m d va)) := by
  unfold pgdirEntry
  by_cases hpde : m.load (d, pdx va) = 0
  · rw [if_pos hpde, if_neg (not_not.mpr hpde)]
  · rw [if_neg hpde, if_pos hpde, kaddr_ok (h.memory _ (.inr (h.table_of_pde hd hva hpde)))]
    rfl

/-- After the walk the page table is there, unless there was no frame for it. -/
theorem tabled_accurate (h : Accurate m owned use) (hd : use d = .pgdir) (hva : va < UTOP) :
    ∃ use', Accurate (tabled m d va) owned use' ∧ TakesTable use use' := by
  cases hnew : newTable m d va with
  | none =>
      rw [tabled_of_none hnew]
      exact ⟨use, h, fun _ => .inl rfl⟩
  | some t =>
      rw [tabled_of_some hnew]
      obtain ⟨hpde, hhead⟩ := newTable_eq_some.mp hnew
      refine ⟨_, h.addTable hd hva hpde hhead, fun p => ?_⟩
      by_cases hp : p = t
      · rw [hp, Function.update_self]
        exact .inr ⟨h.use_of_head hhead, rfl⟩
      · exact .inl (Function.update_of_ne hp ..)

theorem pgdirWalk_create (h : Accurate m owned use) (hd : use d = .pgdir) (hva : va < UTOP) :
    pgdirWalk m d va true = .ok (if m.load (d, pdx va) = 0 ∧ m.pageFreeList = none then none
      else some (cell (tabled m d va) d va), tabled m d va) := by
  unfold pgdirWalk
  by_cases hpde : m.load (d, pdx va) = 0
  · rw [if_pos ⟨hpde, rfl⟩]
    cases hhead : m.pageFreeList with
    | none =>
        have hnew : newTable m d va = none := by rw [newTable, if_pos hpde, hhead]
        have hcreate : pgdirCreate m d va = .ok m := by
          unfold pgdirCreate pageAlloc
          rw [hhead]
          rfl
        rw [hcreate, tabled_of_none hnew, if_pos ⟨hpde, rfl⟩]
        dsimp only [bind, Except.bind]
        rw [h.pgdirEntry_eq hd hva, if_pos hpde]
        rfl
    | some t =>
        have hnew : newTable m d va = some t := newTable_eq_some.mpr ⟨hpde, hhead⟩
        have hcreate : pgdirCreate m d va = .ok (withTable m d t va) := by
          unfold pgdirCreate
          rw [pageAlloc_eq hhead (h.memory t (.inl (h.use_of_head hhead)))]
          have href : ((takePage m t).fill t fun _ => 0).ref t = m.ref t := ref_takePage
          dsimp only [bind, Except.bind]
          rw [href]
          rfl
        obtain ⟨use', h', htakes⟩ := h.tabled_accurate hd hva
        rw [tabled_of_some hnew] at h' ⊢
        have hd' : use' d = .pgdir := (htakes.eq_of_ne_free (by rw [hd]; decide)).trans hd
        rw [hcreate, if_neg fun hand => Option.some_ne_none t hand.2]
        dsimp only [bind, Except.bind]
        rw [h'.pgdirEntry_eq hd' hva, load_withTable_pde,
          if_neg (ne_zero_of_and (tableEntry_present t))]
        rfl
  · have hnew : newTable m d va = none := if_neg hpde
    rw [if_neg fun hand => hpde hand.1, if_neg fun hand => hpde hand.1, tabled_of_none hnew]
    dsimp only [bind, Except.bind]
    rw [h.pgdirEntry_eq hd hva, if_neg hpde]
    rfl

end Accurate

/-! ## The removal -/

theorem pageAt_eq_some : pageAt m d va = some q ↔ leaf m d va ≠ 0 ∧ pgnum (leaf m d va) = q := by
  unfold pageAt
  by_cases hleaf : leaf m d va = 0
  · rw [if_pos hleaf]
    exact ⟨fun hnone => (by cases hnone), fun hand => absurd hleaf hand.1⟩
  · rw [if_neg hleaf, Option.some.injEq]
    exact (and_iff_right hleaf).symm

/-- The use of the frames after `page_remove`. -/
def unmappedUse (m : Mem) (use : Ppn → Use) (d : Ppn) (va : Word) : Ppn → Use :=
  match pageAt m d va with
  | some q => release m use q
  | none => use

theorem unmapped_of_some (h : pageAt m d va = some q) :
    unmapped m d va = (decref m q).store (cell m d va) 0 := by rw [unmapped, h]

theorem unmapped_of_none (h : pageAt m d va = none) : unmapped m d va = m := by rw [unmapped, h]

theorem load_unmapped_ne (hx : x ≠ cell m d va) : (unmapped m d va).load x = m.load x := by
  cases hat : pageAt m d va with
  | none => rw [unmapped_of_none hat]
  | some q => rw [unmapped_of_some hat, Mem.load_store_ne hx, load_decref]

@[simp] theorem npages_unmapped : (unmapped m d va).npages = m.npages := by
  cases hat : pageAt m d va with
  | none => rw [unmapped_of_none hat]
  | some q =>
      rw [unmapped_of_some hat]
      exact npages_decref

theorem load_unmapped_self (hpde : m.load (d, pdx va) ≠ 0) :
    (unmapped m d va).load (cell m d va) = 0 := by
  cases hat : pageAt m d va with
  | none =>
      rw [unmapped_of_none hat, ← leaf_of_pde hpde]
      by_contra hleaf
      rw [pageAt, if_neg hleaf] at hat
      cases hat
  | some q => rw [unmapped_of_some hat, Mem.load_store_self]

namespace Accurate

theorem links_of_pageAt (h : Accurate m owned use) (hd : use d = .pgdir) (hva : va < UTOP)
    (hat : pageAt m d va = some q) : links m use (cell m d va) = some q := by
  obtain ⟨hleaf, rfl⟩ := pageAt_eq_some.mp hat
  exact h.links_cell hd hva hleaf

/-- The entry of a mapped page is in a page table. -/
theorem table_of_pageAt (h : Accurate m owned use) (hd : use d = .pgdir) (hva : va < UTOP)
    (hat : pageAt m d va = some q) : use (cell m d va).1 = .table :=
  h.table_of_pde hd hva (pde_ne_zero_of_leaf (pageAt_eq_some.mp hat).1)

theorem use_of_pageAt (h : Accurate m owned use) (hd : use d = .pgdir) (hva : va < UTOP)
    (hat : pageAt m d va = some q) : use q ≠ .free :=
  (h.use_of_links (h.links_of_pageAt hd hva hat)).1

theorem pageLookup_eq (h : Accurate m owned use) (hd : use d = .pgdir) (hva : va < UTOP) :
    pageLookup m d va = .ok ((pageAt m d va).map fun q => (q, cell m d va)) := by
  unfold pageLookup pgdirWalk
  rw [if_neg fun hand => Bool.false_ne_true hand.2]
  dsimp only [bind, Except.bind]
  rw [h.pgdirEntry_eq hd hva]
  by_cases hpde : m.load (d, pdx va) = 0
  · have hat : pageAt m d va = none := if_pos (if_pos hpde)
    rw [if_pos hpde, hat]
    rfl
  · rw [if_neg hpde]
    dsimp only [pure, Except.pure]
    by_cases hpte : m.load (cell m d va) = 0
    · have hat : pageAt m d va = none := if_pos ((leaf_of_pde hpde).trans hpte)
      rw [if_pos hpte, hat]
      rfl
    · have hat : pageAt m d va = some (pgnum (m.load (cell m d va))) :=
        pageAt_eq_some.mpr (by rw [leaf_of_pde hpde]; exact ⟨hpte, rfl⟩)
      have hentry := h.isEntry_cell hd hva hpde
      have hpage := (h.entries _ hentry hpte).page (h.table_of_pde hd hva hpde)
      rw [if_neg hpte, hat, pa2page, if_neg (not_le.mpr hpage.existing)]
      rfl

/-- `page_remove` never panics. -/
theorem pageRemove_eq (h : Accurate m owned use) (hd : use d = .pgdir) (hva : va < UTOP) :
    pageRemove m d va = .ok (unmapped m d va) := by
  unfold pageRemove
  rw [h.pageLookup_eq hd hva]
  dsimp only [bind, Except.bind]
  cases hat : pageAt m d va with
  | none =>
      rw [unmapped_of_none hat]
      rfl
  | some q =>
      rw [unmapped_of_some hat]
      dsimp only [Option.map]
      rw [pageDecref_eq (h.unlinked q (h.use_of_pageAt hd hva hat))]
      rfl

theorem unmapped_accurate (h : Accurate m owned use) (hd : use d = .pgdir) (hva : va < UTOP) :
    Accurate (unmapped m d va) owned (unmappedUse m use d va) ∧
      FreesData use (unmappedUse m use d va) := by
  unfold unmappedUse
  cases hat : pageAt m d va with
  | none =>
      rw [unmapped_of_none hat]
      exact ⟨h, fun _ => .inl rfl⟩
  | some q =>
      rw [unmapped_of_some hat]
      have htable := h.table_of_pageAt hd hva hat
      have hlink := h.links_of_pageAt hd hva hat
      exact ⟨h.clear htable hlink, h.freesData_release htable hlink⟩

/-- The page that was mapped loses a reference, and no other page does. -/
theorem ref_unmapped (h : Accurate m owned use) (hd : use d = .pgdir) (hva : va < UTOP) (q : Ppn) :
    ((unmapped m d va).ref q).toNat + (if pageAt m d va = some q then 1 else 0) =
      (m.ref q).toNat := by
  cases hat : pageAt m d va with
  | none =>
      rw [unmapped_of_none hat, if_neg (Option.some_ne_none q).symm, Nat.add_zero]
  | some p =>
      rw [unmapped_of_some hat, Mem.ref_store]
      by_cases hq : q = p
      · subst hq
        have hle := h.one_le_ref (h.links_of_pageAt hd hva hat)
        have hone : (1 : BitVec 16).toNat = 1 := rfl
        rw [ref_decref_self, if_pos rfl,
          BitVec.toNat_sub_of_le (by rw [BitVec.le_def, hone]; exact hle), hone]
        omega
      · rw [ref_decref_ne hq, if_neg fun heq => hq (Option.some.inj heq).symm, Nat.add_zero]

end Accurate

/-- The pages that `page_remove` puts on the free list. -/
def freedAt (m : Mem) (d : Ppn) (va : Word) : List Ppn :=
  match pageAt m d va with
  | some q => if m.ref q = 1 then [q] else []
  | none => []

theorem Accurate.freeList_unmapped (h : Accurate m owned use) (hd : use d = .pgdir)
    (hva : va < UTOP) (hl : FreeList m l) : FreeList (unmapped m d va) (freedAt m d va ++ l) := by
  unfold freedAt
  cases hat : pageAt m d va with
  | none =>
      rw [unmapped_of_none hat]
      exact hl
  | some q =>
      rw [unmapped_of_some hat]
      have hfree := hl.decref (h.not_mem_of_use hl (h.use_of_pageAt hd hva hat))
      dsimp only
      by_cases hone : m.ref q = 1
      · rw [if_pos hone] at hfree ⊢
        exact hfree.congr .store
      · rw [if_neg hone] at hfree ⊢
        exact hfree.congr .store

/-! ## The insertion -/

/-- The memory once the counter of the new page has gone up. -/
def countedUp (m : Mem) (d pp : Ppn) (va : Word) : Mem :=
  (tabled m d va).setRef pp ((tabled m d va).ref pp + 1)

/-- The memory after a successful `page_insert`. -/
def inserted (m : Mem) (d pp : Ppn) (va perm : Word) : Mem :=
  (unmapped (countedUp m d pp va) d va).store (cell (tabled m d va) d va) (userEntry pp perm)

@[simp] theorem load_countedUp : (countedUp m d pp va).load x = (tabled m d va).load x := rfl

@[simp] theorem cell_countedUp : cell (countedUp m d pp va) d va = cell (tabled m d va) d va := rfl

theorem leaf_tabled (hd : use d = .pgdir) (h : Accurate m owned use) :
    leaf (tabled m d va) d va = leaf m d va := by
  cases hnew : newTable m d va with
  | none => rw [tabled_of_none hnew]
  | some t =>
      obtain ⟨hpde, hhead⟩ := newTable_eq_some.mp hnew
      have hdt := Accurate.ne_of_use hd (h.use_of_head hhead)
      rw [tabled_of_some hnew, leaf, leaf, if_pos hpde, cell, load_withTable_pde, pgnum_tableEntry,
        load_withTable_table hdt]
      exact ite_self 0

theorem load_inserted_ne (hx : x ≠ cell (tabled m d va) d va) :
    (inserted m d pp va perm).load x = (tabled m d va).load x := by
  rw [inserted, Mem.load_store_ne hx, load_unmapped_ne (by rwa [cell_countedUp]), load_countedUp]

theorem load_inserted_self : (inserted m d pp va perm).load (cell (tabled m d va) d va) =
    userEntry pp perm := Mem.load_store_self

/-! ## Translations -/

/-- Translations are the same where the entries on the way are. -/
theorem mmu_congr (hpde : m'.load (d, pdx va) = m.load (d, pdx va))
    (hpte : m.load (d, pdx va) &&& PTE_P ≠ 0 →
      m'.load (pgnum (m.load (d, pdx va)), ptx va) = m.load (pgnum (m.load (d, pdx va)), ptx va)) :
    mmu m' d va = mmu m d va := by
  unfold mmu
  dsimp only
  rw [hpde]
  split
  · rfl
  · next hpresent => rw [hpte hpresent]

/-- A present entry names the table that the MMU reads. -/
theorem mmu_of_present (hpde : m.load (d, pdx va) &&& PTE_P ≠ 0)
    (hpte : m.load (cell m d va) &&& PTE_P ≠ 0) :
    mmu m d va =
      some (pgnum (m.load (cell m d va)), m.load (d, pdx va) &&& m.load (cell m d va)) := by
  unfold mmu
  dsimp only
  rw [if_neg hpde]
  exact if_neg hpte

/-- Where the present entries of a page directory lead: to page tables of the user part, to those
of the kernel, or to the page directory itself. -/
def Leads (m : Mem) (use : Ppn → Use) (d : Ppn) : Prop :=
  ∀ k : Idx, m.load (d, k) &&& PTE_P ≠ 0 →
    links m use (d, k) = some (pgnum (m.load (d, k))) ∧ use (pgnum (m.load (d, k))) = .table ∨
      use (pgnum (m.load (d, k))) = .kernel ∨ k = pdxUvpt ∧ pgnum (m.load (d, k)) = d

namespace Leads

/-- Writing the entry of one page, in a table of that page's directory only, changes no other
translation. -/
theorem mmu_of_load (h : Leads m use d') (hd' : use d' = .pgdir)
    (ht : use (pgnum (m.load (d, pdx va))) = .table)
    (hunshared : ∀ k, links m use (d', k) = some (pgnum (m.load (d, pdx va))) →
      (d', k) = (d, pdx va))
    (hload : ∀ x, x ≠ cell m d va → m'.load x = m.load x) (hne : ¬ (d' = d ∧ SamePage va va')) :
    mmu m' d' va' = mmu m d' va' := by
  refine mmu_congr (hload _ fun heq => ?_) fun hpresent => hload _ fun heq => ?_
  · rw [(Prod.mk.inj heq).1, ht] at hd'
    cases hd'
  · obtain ⟨hf, hptx⟩ := Prod.mk.inj heq
    rcases h _ hpresent with ⟨hlink, -⟩ | hkernel | ⟨-, hself⟩
    · rw [hf] at hlink
      obtain ⟨rfl, hpdx⟩ := Prod.mk.inj (hunshared _ hlink)
      exact hne ⟨rfl, hpdx.symm, hptx.symm⟩
    · rw [hf, ht] at hkernel
      cases hkernel
    · rw [hf] at hself
      rw [← hself, ht] at hd'
      cases hd'

/-- A new page table maps nothing, and shows only in the window of its page directory. -/
theorem mmu_withTable (h : Leads m use d') (hd : use d = .pgdir) (hd' : use d' = .pgdir)
    (hpde : m.load (d, pdx va) = 0) (ht : use t = .free)
    (hwindow : ¬ (d' = d ∧ pdx va' = pdxUvpt ∧ ptx va' = pdx va)) :
    mmu (withTable m d t va) d' va' = mmu m d' va' := by
  have hdt := Accurate.ne_of_use hd ht
  have hdt' := Accurate.ne_of_use hd' ht
  by_cases hentry : (d', pdx va') = (d, pdx va)
  · obtain ⟨rfl, hpdx⟩ := Prod.mk.inj hentry
    have hold : mmu m d' va' = none := by
      unfold mmu
      dsimp only
      rw [hpdx, hpde]
      exact if_pos BitVec.zero_and
    rw [hold]
    unfold mmu
    dsimp only
    rw [hpdx, load_withTable_pde, pgnum_tableEntry, load_withTable_table hdt]
    rw [if_neg (tableEntry_present t)]
    exact if_pos BitVec.zero_and
  · refine mmu_congr (load_withTable_ne hentry hdt'.symm) fun hpresent => ?_
    have huse := h _ hpresent
    have hft : pgnum (m.load (d', pdx va')) ≠ t := fun heq => by
      rw [heq] at huse
      rcases huse with ⟨-, huse⟩ | huse | ⟨-, hself⟩
      · rw [ht] at huse
        cases huse
      · rw [ht] at huse
        cases huse
      · exact hdt' hself
    refine load_withTable_ne (fun heq => ?_) hft
    obtain ⟨hf, hptx⟩ := Prod.mk.inj heq
    rw [hf] at huse
    rcases huse with ⟨-, huse⟩ | huse | ⟨huvpt, hself⟩
    · rw [hd] at huse
      cases huse
    · rw [hd] at huse
      cases huse
    · exact hwindow ⟨hself.symm, huvpt, hptx⟩

end Leads

namespace Accurate

theorem use_of_pde (h : Accurate m owned use) (hd : use d = .pgdir) : Leads m use d := by
  intro k hpresent
  by_cases hk : k.val < PDX_UTOP
  · have hne := ne_zero_of_and hpresent
    have hentry : IsEntry use (d, k) := .inl ⟨hd, hk⟩
    exact .inl ⟨links_eq_some.mpr ⟨hentry, hne, rfl⟩, (h.entries _ hentry hne).table hd⟩
  · exact .inr (h.kernelPart d k hd (not_lt.mp hk) hpresent)

/-- Writing the entry of one page changes no other translation. -/
theorem mmu_of_load (h : Accurate m owned use) (hd : use d = .pgdir) (hva : va < UTOP)
    (hpde : m.load (d, pdx va) ≠ 0) (hload : ∀ x, x ≠ cell m d va → m'.load x = m.load x)
    (hd' : use d' = .pgdir) (hne : ¬ (d' = d ∧ SamePage va va')) :
    mmu m' d' va' = mmu m d' va' :=
  (h.use_of_pde hd').mmu_of_load hd' (h.table_of_pde hd hva hpde)
    (fun _ hlink => h.unshared _ _ _ hd' hd hlink (links_pde hd hva hpde)) hload hne

end Accurate

/-- The page of the window at `UVPT` where a new page table of `va` shows. -/
def OnTable (m : Mem) (d : Ppn) (va va' : Word) : Prop :=
  (newTable m d va).isSome ∧ pdx va' = pdxUvpt ∧ ptx va' = pdx va

/-- What a successful `page_insert` changes. -/
structure PageInserted (use : Ppn → Use) (m m' : Mem) (d pp : Ppn) (va perm : Word) : Prop where
  entry : leaf m' d va = userEntry pp perm
  mapped : mmu m' d va = some (pp, m'.load (d, pdx va) &&& userEntry pp perm)
  others : ∀ d' va', use d' = .pgdir → ¬ (d' = d ∧ SamePage va va') →
    ¬ (d' = d ∧ OnTable m d va va') → mmu m' d' va' = mmu m d' va'
  refs : ∀ q, (m'.ref q).toNat + (if pageAt m d va = some q then 1 else 0) =
    (m.ref q).toNat + (if q = pp then 1 else 0) + (if newTable m d va = some q then 1 else 0)
  freeList : ∀ l, FreeList m l → FreeList m'
    ((if pageAt m d va = some pp then [] else freedAt m d va) ++
      if (newTable m d va).isSome then l.tail else l)

theorem pgnum_of_lt (h : perm.toNat < 4096) : pgnum perm = 0 := by
  rw [BitVec.toNat_eq, pgnum, BitVec.extractLsb'_toNat, Nat.shiftRight_eq_div_pow,
    Nat.div_eq_of_lt h]
  rfl

theorem pgnum_userEntry_of_lt (h : perm.toNat < 4096) : pgnum (userEntry pp perm) = pp := by
  unfold userEntry
  rw [pgnum_or _ _ (by decide), pgnum_or _ _ (pgnum_of_lt h), pgnum_page2pa]

namespace Accurate

/-- The counters after `pgdir_walk`. -/
theorem ref_tabled (h : Accurate m owned use) (q : Ppn) : ((tabled m d va).ref q).toNat =
    (m.ref q).toNat + if newTable m d va = some q then 1 else 0 := by
  cases hnew : newTable m d va with
  | none => rw [tabled_of_none hnew, if_neg (Option.some_ne_none q).symm, Nat.add_zero]
  | some t =>
      rw [tabled_of_some hnew]
      by_cases hq : q = t
      · subst hq
        rw [ref_withTable_self, h.ref_free (h.use_of_head (newTable_eq_some.mp hnew).2), if_pos rfl]
        rfl
      · rw [ref_withTable_ne hq, if_neg fun heq => hq (Option.some.inj heq).symm, Nat.add_zero]

theorem freeList_tabled (h : Accurate m owned use) (hl : FreeList m l) :
    FreeList (tabled m d va) (if (newTable m d va).isSome then l.tail else l) := by
  cases hnew : newTable m d va with
  | none =>
      rw [tabled_of_none hnew]
      exact hl
  | some t =>
      obtain ⟨l', hl', hnodup, -⟩ := h.freeList
      obtain rfl := Chain.unique hl' hl
      obtain ⟨rest, rfl, hrest⟩ := hl.takePage (newTable_eq_some.mp hnew).2 hnodup
      rw [tabled_of_some hnew]
      exact hrest.congr sameList_withTable

theorem mmu_tabled (h : Accurate m owned use) (hd : use d = .pgdir) (hd' : use d' = .pgdir)
    (hwindow : ¬ (d' = d ∧ OnTable m d va va')) : mmu (tabled m d va) d' va' = mmu m d' va' := by
  cases hnew : newTable m d va with
  | none => rw [tabled_of_none hnew]
  | some t =>
      obtain ⟨hpde, hhead⟩ := newTable_eq_some.mp hnew
      rw [tabled_of_some hnew]
      refine (h.use_of_pde hd').mmu_withTable hd hd' hpde (h.use_of_head hhead)
        fun ⟨heq, hrest⟩ => ?_
      exact hwindow ⟨heq, by rw [hnew]; rfl, hrest⟩

theorem pde_tabled (htable : m.load (d, pdx va) = 0 → m.pageFreeList ≠ none) :
    (tabled m d va).load (d, pdx va) ≠ 0 := by
  cases hnew : newTable m d va with
  | none =>
      rw [tabled_of_none hnew]
      intro hpde
      rw [newTable, if_pos hpde] at hnew
      exact htable hpde hnew
  | some t =>
      rw [tabled_of_some hnew, load_withTable_pde]
      exact ne_zero_of_and (tableEntry_present t)

/-- With the page held once more, the counters are still right. -/
theorem countedUp_accurate (h : Accurate m owned use) (hd : use d = .pgdir) (hva : va < UTOP)
    (hpp : use pp ≠ .free) (hfit : (m.ref pp).toNat + 1 < 2 ^ 16) :
    (tabled m d va).ref pp = m.ref pp ∧ ∃ use', TakesTable use use' ∧
      Accurate (tabled m d va) owned use' ∧
        Accurate (countedUp m d pp va) (holding owned pp) use' := by
  obtain ⟨use', h', htakes⟩ := h.tabled_accurate hd hva
  -- the new page is not the frame of the new table
  have href : (tabled m d va).ref pp = m.ref pp := by
    have hnew : newTable m d va ≠ some pp := fun hnew =>
      hpp (h.use_of_head (newTable_eq_some.mp hnew).2)
    have heq : ((tabled m d va).ref pp).toNat = _ := h.ref_tabled pp
    rw [if_neg hnew, Nat.add_zero] at heq
    exact BitVec.eq_of_toNat_eq heq
  have hpp' : use' pp ≠ .free := by rwa [htakes.eq_of_ne_free hpp]
  exact ⟨href, use', htakes, h', h'.hold hpp' (by rwa [href])⟩

theorem pageAt_countedUp (h : Accurate m owned use) (hd : use d = .pgdir) :
    pageAt (countedUp m d pp va) d va = pageAt m d va := by
  have hleaf : leaf (countedUp m d pp va) d va = leaf m d va := leaf_tabled hd h
  rw [pageAt, pageAt, hleaf]

theorem pageInsert_eq (h : Accurate m owned use) (hd : use d = .pgdir) (hva : va < UTOP)
    (hpp : use pp ≠ .free) (hfit : (m.ref pp).toNat + 1 < 2 ^ 16)
    (htable : m.load (d, pdx va) = 0 → m.pageFreeList ≠ none) :
    pageInsert m d pp va perm = .ok (0, inserted m d pp va perm) := by
  obtain ⟨-, use₁, htakes, -, h₂⟩ := h.countedUp_accurate hd hva hpp hfit
  have hd₁ : use₁ d = .pgdir := (htakes.eq_of_ne_free (by rw [hd]; decide)).trans hd
  have hno : ¬ (m.load (d, pdx va) = 0 ∧ m.pageFreeList = none) := fun hand =>
    htable hand.1 hand.2
  have hremove : pageRemove ((tabled m d va).setRef pp ((tabled m d va).ref pp + 1)) d va =
      .ok (unmapped (countedUp m d pp va) d va) := h₂.pageRemove_eq hd₁ hva
  unfold pageInsert
  rw [h.pgdirWalk_create hd hva, if_neg hno]
  dsimp only [bind, Except.bind]
  rw [hremove]
  rfl

/-- The entry that is written is in a page table, and the directory leads there. -/
theorem table_tabled (h : Accurate m owned use) (hd : use d = .pgdir) (hva : va < UTOP)
    (htable : m.load (d, pdx va) = 0 → m.pageFreeList ≠ none) :
    ∃ use₁, Accurate (tabled m d va) owned use₁ ∧ TakesTable use use₁ ∧ use₁ d = .pgdir ∧
      use₁ (cell (tabled m d va) d va).1 = .table := by
  obtain ⟨use₁, h₁, htakes⟩ := h.tabled_accurate hd hva
  have hd₁ : use₁ d = .pgdir := (htakes.eq_of_ne_free (by rw [hd]; decide)).trans hd
  exact ⟨use₁, h₁, htakes, hd₁, h₁.table_of_pde hd₁ hva (pde_tabled htable)⟩

theorem pde_inserted (h : Accurate m owned use) (hd : use d = .pgdir) (hva : va < UTOP)
    (htable : m.load (d, pdx va) = 0 → m.pageFreeList ≠ none) :
    (inserted m d pp va perm).load (d, pdx va) = (tabled m d va).load (d, pdx va) := by
  obtain ⟨use₁, -, -, hd₁, ht⟩ := h.table_tabled hd hva htable
  refine load_inserted_ne fun heq => ?_
  rw [congrArg Prod.fst heq.symm, hd₁] at ht
  cases ht

theorem ref_inserted (h : Accurate m owned use) (hd : use d = .pgdir) (hva : va < UTOP)
    (hpp : use pp ≠ .free) (hfit : (m.ref pp).toNat + 1 < 2 ^ 16) (q : Ppn) :
    ((inserted m d pp va perm).ref q).toNat + (if pageAt m d va = some q then 1 else 0) =
      (m.ref q).toNat + (if q = pp then 1 else 0) +
        (if newTable m d va = some q then 1 else 0) := by
  obtain ⟨href, use₁, htakes, -, h₂⟩ := h.countedUp_accurate hd hva hpp hfit
  have hd₁ : use₁ d = .pgdir := (htakes.eq_of_ne_free (by rw [hd]; decide)).trans hd
  have hold := h₂.ref_unmapped hd₁ hva q
  have hnew : ((tabled m d va).ref q).toNat = _ := h.ref_tabled q
  rw [h.pageAt_countedUp hd] at hold
  have hstore : (inserted m d pp va perm).ref q = (unmapped (countedUp m d pp va) d va).ref q :=
    Mem.ref_store
  rw [hstore, hold, countedUp]
  by_cases hq : q = pp
  · subst hq
    have hone : (1 : BitVec 16).toNat = 1 := rfl
    rw [Mem.ref_setRef_self, if_pos rfl, BitVec.toNat_add, hone,
      Nat.mod_eq_of_lt (by rw [href]; exact hfit)]
    omega
  · rw [Mem.ref_setRef_ne hq, if_neg hq]
    exact hnew

/-- The page that is freed is the old one, if the mapping was its last reference and it is not
the new page as well. -/
theorem freedAt_countedUp (h : Accurate m owned use) (hd : use d = .pgdir) (hva : va < UTOP)
    (hpp : use pp ≠ .free) (hfit : (m.ref pp).toNat + 1 < 2 ^ 16) :
    freedAt (countedUp m d pp va) d va =
      if pageAt m d va = some pp then [] else freedAt m d va := by
  obtain ⟨href, -⟩ := h.countedUp_accurate hd hva hpp hfit
  unfold freedAt
  rw [h.pageAt_countedUp hd]
  cases hat : pageAt m d va with
  | none => rfl
  | some q =>
      dsimp only
      by_cases hq : q = pp
      · subst hq
        have hle := h.one_le_ref (h.links_of_pageAt hd hva hat)
        rw [if_pos rfl, if_neg]
        intro hone
        have hnat := congrArg BitVec.toNat hone
        have hone : (1 : BitVec 16).toNat = 1 := rfl
        rw [countedUp, Mem.ref_setRef_self, BitVec.toNat_add, hone,
          Nat.mod_eq_of_lt (by rw [href]; exact hfit), href] at hnat
        omega
      · have hnew : newTable m d va ≠ some q := fun hnew =>
          h.use_of_pageAt hd hva hat (h.use_of_head (newTable_eq_some.mp hnew).2)
        have heq : ((tabled m d va).ref q).toNat = _ := h.ref_tabled q
        rw [if_neg hnew, Nat.add_zero] at heq
        rw [if_neg fun heq => hq (Option.some.inj heq), countedUp, Mem.ref_setRef_ne hq,
          BitVec.eq_of_toNat_eq heq]

theorem inserted_spec (h : Accurate m owned use) (hd : use d = .pgdir) (hva : va < UTOP)
    (hpp : use pp ≠ .free) (hfit : (m.ref pp).toNat + 1 < 2 ^ 16) (hperm : perm.toNat < 4096)
    (htable : m.load (d, pdx va) = 0 → m.pageFreeList ≠ none) :
    PageInserted use m (inserted m d pp va perm) d pp va perm := by
  obtain ⟨use₁, h₁, htakes, hd₁, ht⟩ := h.table_tabled hd hva htable
  have hpde₁ := pde_tabled htable
  have hpde : (inserted m d pp va perm).load (d, pdx va) = _ := h.pde_inserted hd hva htable
  have hcell : cell (inserted m d pp va perm) d va = cell (tabled m d va) d va := by
    rw [cell, hpde, cell]
  refine ⟨?_, ?_, fun d' va' hd' hne hwindow => ?_, h.ref_inserted hd hva hpp hfit,
    fun l hl => ?_⟩
  · rw [leaf_of_pde (by rw [hpde]; exact hpde₁), hcell, load_inserted_self]
  · have hpresent := (h₁.entries _ (isEntry_pgdir hd₁ hva) hpde₁).present
    have hmmu : mmu (inserted m d pp va perm) d va = _ :=
      mmu_of_present (by rw [hpde]; exact hpresent)
        (by rw [hcell, load_inserted_self]; exact userEntry_present pp perm)
    rw [hcell, load_inserted_self, pgnum_userEntry_of_lt hperm] at hmmu
    exact hmmu
  · have hd₁' : use₁ d' = .pgdir := (htakes.eq_of_ne_free (by rw [hd']; decide)).trans hd'
    calc mmu (inserted m d pp va perm) d' va' = mmu (tabled m d va) d' va' :=
          h₁.mmu_of_load hd₁ hva hpde₁ (fun _ hx => load_inserted_ne hx) hd₁' hne
      _ = mmu m d' va' := h.mmu_tabled hd hd' hwindow
  · obtain ⟨-, use₂, htakes₂, -, h₂⟩ := h.countedUp_accurate hd hva hpp hfit
    have hd₂ : use₂ d = .pgdir := (htakes₂.eq_of_ne_free (by rw [hd]; decide)).trans hd
    have hl₂ : FreeList (countedUp m d pp va) (if (newTable m d va).isSome then l.tail else l) :=
      (h.freeList_tabled hl).congr .setRef
    rw [← h.freedAt_countedUp hd hva hpp hfit]
    exact (h₂.freeList_unmapped hd₂ hva hl₂).congr .store

/-- The counters are right again once the entry is written. -/
theorem inserted_accurate (h : Accurate m owned use) (hd : use d = .pgdir) (hva : va < UTOP)
    (hpp : use pp ≠ .free) (hpage : Mappable m owned use pp) (hfit : (m.ref pp).toNat + 1 < 2 ^ 16)
    (hperm : perm.toNat < 4096) (htable : m.load (d, pdx va) = 0 → m.pageFreeList ≠ none) :
    ∃ use', Accurate (inserted m d pp va perm) owned use' := by
  obtain ⟨-, use₁, htakes, h₁, h₂⟩ := h.countedUp_accurate hd hva hpp hfit
  have hd₁ : use₁ d = .pgdir := (htakes.eq_of_ne_free (by rw [hd]; decide)).trans hd
  have hpde₁ := pde_tabled htable
  obtain ⟨h₃, hfrees⟩ := h₂.unmapped_accurate hd₁ hva
  obtain ⟨use₃, huse₃⟩ : ∃ use₃, use₃ = unmappedUse (countedUp m d pp va) use₁ d va := ⟨_, rfl⟩
  rw [← huse₃] at h₃ hfrees
  have hx : use₃ (cell (tabled m d va) d va).1 = .table :=
    (hfrees.iff (by decide) (by decide)).mpr (h₁.table_of_pde hd₁ hva hpde₁)
  -- the kernel holds the page, so it has not been freed
  have hheld : use₃ pp ≠ .free := fun hfree => by
    have hzero := h₃.unowned pp hfree
    rw [holding, if_pos rfl] at hzero
    exact Nat.succ_ne_zero _ hzero
  have huse : use₃ pp = use pp :=
    ((hfrees pp).resolve_right fun hand => hheld hand.2).trans (htakes.eq_of_ne_free hpp)
  refine ⟨use₃, h₃.place ?_ hx ?_ (userEntry_present pp perm) (pgnum_userEntry_of_lt hperm)⟩
  · exact hpage.congr (npages_unmapped.trans npages_tabled) (fun hor => by rwa [huse]) id
  · exact load_unmapped_self hpde₁

end Accurate

/-- `page_insert` either changes nothing, because there is no frame for the page table, or maps the
page, and what it does to the other mappings and to the counters is known exactly. -/
theorem page_insert_exact (h : Accurate m owned use) (hd : use d = .pgdir) (hva : va < UTOP)
    (hpp : use pp ≠ .free) (hfit : (m.ref pp).toNat + 1 < 2 ^ 16) (hperm : perm.toNat < 4096) :
    (m.load (d, pdx va) = 0 ∧ m.pageFreeList = none →
      pageInsert m d pp va perm = .ok (-E_NO_MEM, m)) ∧
    (¬ (m.load (d, pdx va) = 0 ∧ m.pageFreeList = none) →
      ∃ m', pageInsert m d pp va perm = .ok (0, m') ∧ PageInserted use m m' d pp va perm ∧
        (Mappable m owned use pp → ∃ use', Accurate m' owned use')) := by
  refine ⟨fun hnone => ?_, fun hsome => ?_⟩
  · unfold pageInsert
    have hnew : newTable m d va = none := by rw [newTable, if_pos hnone.1, hnone.2]
    rw [h.pgdirWalk_create hd hva, if_pos hnone, tabled_of_none hnew]
    rfl
  · have htable : m.load (d, pdx va) = 0 → m.pageFreeList ≠ none := fun hpde hlist =>
      hsome ⟨hpde, hlist⟩
    exact ⟨_, h.pageInsert_eq hd hva hpp hfit htable, h.inserted_spec hd hva hpp hfit hperm htable,
      fun hpage => h.inserted_accurate hd hva hpp hpage hfit hperm htable⟩

/-! ## The window of the page tables

A machine of three pages: frame `0` holds data, frame `1` is a page directory and frame `2` is
free. -/

def threePages : Mem where
  npages := 3
  pages pp := if pp = 1 then { ppRef := 1 } else {}
  pageFreeList := some 2
  phys f k := if f = 1 ∧ k = pdxUvpt then page2pa 1 ||| PTE_P ||| PTE_U else 0
  kernPgdir := 0

def threeUses (pp : Ppn) : Use := if pp = 1 then .pgdir else if pp = 2 then .free else .data

def threeOwned (pp : Ppn) : ℕ := if pp = 1 then 1 else 0

theorem accurate_threePages : Accurate threePages threeOwned threeUses := by
  have hpgdir : ∀ {pp}, threeUses pp = .pgdir → pp = 1 := fun {pp} hpp => by
    unfold threeUses at hpp
    by_contra hne
    rw [if_neg hne] at hpp
    split at hpp <;> cases hpp
  have hfree : ∀ {pp}, threeUses pp = .free ↔ pp = 2 := fun {pp} => by
    unfold threeUses
    by_cases hone : pp = 1
    · rw [if_pos hone, hone]
      exact ⟨fun h => (by cases h), fun h => absurd h (by decide)⟩
    · rw [if_neg hone]
      by_cases htwo : pp = 2
      · rw [if_pos htwo]
        exact iff_of_true rfl htwo
      · rw [if_neg htwo]
        exact iff_of_false (by decide) htwo
  have htable : ∀ {pp}, threeUses pp ≠ .table := fun {pp} hpp => by
    unfold threeUses at hpp
    split at hpp
    · cases hpp
    · split at hpp <;> cases hpp
  -- the entry of the window is the only one that is set, and it lies above `UTOP`
  have hempty : ∀ x, IsEntry threeUses x → threePages.load x = 0 := by
    rintro ⟨f, k⟩ (⟨-, hk⟩ | ht)
    · refine if_neg fun hand => ?_
      rw [hand.2] at hk
      exact absurd hk (by decide)
    · exact absurd ht htable
  have hlinks : ∀ x, links threePages threeUses x = none := fun x =>
    if_neg fun hand => hand.2 (hempty x hand.1)
  refine ⟨⟨[2], .cons .nil, List.nodup_singleton 2, fun pp => by rw [List.mem_singleton, hfree]⟩,
    fun pp hpp => ?_, fun pp _ => ?_, fun x hx hne => absurd (hempty x hx) hne,
    fun t ht => absurd ht htable, fun x y t _ _ hx => ?_, fun d k hd _ hpresent => ?_, fun pp => ?_,
    fun pp hpp => ?_⟩
  · rcases hpp with hpp | hpp
    · rw [hfree.mp hpp]
      decide
    · exact absurd hpp htable
  · unfold threePages
    dsimp only
    split <;> rfl
  · rw [hlinks] at hx
    cases hx
  · have hk : k = pdxUvpt := by
      by_contra hne
      have hzero : threePages.load (d, k) = 0 := if_neg fun hand => hne hand.2
      rw [hzero] at hpresent
      exact hpresent BitVec.zero_and
    rw [hk, hpgdir hd]
    exact .inr ⟨rfl, by decide⟩
  · have hzero : refCount (links threePages threeUses) pp = 0 :=
      refCount_eq_zero.mpr fun x hx => by
        rw [hlinks] at hx
        cases hx
    rw [hzero, Nat.add_zero]
    unfold threePages threeOwned Mem.ref
    dsimp only
    split <;> rfl
  · rw [hfree.mp hpp]
    rfl

theorem page_insert_exact_threePages :
    (threePages.load (1, pdx 0x800000) = 0 ∧ threePages.pageFreeList = none →
      pageInsert threePages 1 0 0x800000 PTE_U = .ok (-E_NO_MEM, threePages)) ∧
    (¬ (threePages.load (1, pdx 0x800000) = 0 ∧ threePages.pageFreeList = none) →
      ∃ m', pageInsert threePages 1 0 0x800000 PTE_U = .ok (0, m') ∧
        PageInserted threeUses threePages m' 1 0 0x800000 PTE_U ∧
        (Mappable threePages threeOwned threeUses 0 → ∃ use', Accurate m' threeOwned use')) :=
  page_insert_exact accurate_threePages (by decide) (by decide) (by decide) (by decide) (by decide)

/-- The frame of the new page table appears in the window of its page directory. -/
theorem window_page_appears : ¬ ∀ (m m' : Mem) (owned : Ppn → ℕ) (use : Ppn → Use) (d pp : Ppn)
    (va perm : Word), Accurate m owned use → (∀ q, (m.ref q).toNat + 1 < 2 ^ 16) → use d = .pgdir →
    va < UTOP → pgoff va = 0 → use pp ≠ .free → perm.toNat < 4096 →
    pageInsert m d pp va perm = .ok (0, m') → ∀ d' va', use d' = .pgdir →
    ¬ (d' = d ∧ SamePage va va') → mmu m' d' va' = mmu m d' va' := by
  intro hclaim
  have hfit : ∀ q, (threePages.ref q).toNat + 1 < 2 ^ 16 := fun q => by
    unfold threePages Mem.ref
    dsimp only
    split <;> decide
  have hins : pageInsert threePages 1 0 0x800000 PTE_U =
      .ok (0, inserted threePages 1 0 0x800000 PTE_U) :=
    accurate_threePages.pageInsert_eq (by decide) (by decide) (by decide) (by decide) (by decide)
  have hsame := hclaim threePages _ threeOwned threeUses 1 0 0x800000 PTE_U accurate_threePages hfit
    (by decide) (by decide) (by decide) (by decide) (by decide) hins 1 0xef402000 (by decide)
    fun hand => absurd hand.2.1 (by decide)
  exact absurd hsame (by decide +kernel)

end JosSched
