import JosSched.Vm.PageInsert

/-!
# Page tables in the making

The kernel fills an address space from the front of the free list: the page tables of the part
that it is filling are its own, one for each entry (`Growing`).  Then `pgdir_walk` and
`page_remove` never panic, a new page table maps nothing, and writing the entry of a page changes
this page only (`Growing.leaf_store`).
-/

open Except

namespace JosSched

variable {part : Set Idx} {m m' m₁ : Mem} {d t q : Ppn} {l rest : List Ppn}
  {va va' w : Word} {k : Idx}

/-! ## Pages -/

theorem samePage_iff : SamePage va va' ↔ va.toNat / 4096 = va'.toNat / 4096 := by
  unfold SamePage
  rw [Fin.ext_iff, Fin.ext_iff, toNat_pdx, toNat_pdx, toNat_ptx, toNat_ptx]
  omega

theorem SamePage.symm (h : SamePage va va') : SamePage va' va := ⟨h.1.symm, h.2.symm⟩

/-! ## Entries -/

theorem and_mask_of_aligned {a mask : Word} (ha : pgoff a = 0) (hmask : 0xfff &&& mask = mask) :
    a &&& mask = 0 := by
  have hlow : a &&& 0xfff = 0 := by
    apply BitVec.eq_of_toNat_eq
    rw [BitVec.toNat_and]
    exact (Nat.and_two_pow_sub_one_eq_mod _ 12).trans (pgoff_eq_zero_iff.mp ha)
  rw [← hmask, ← BitVec.and_assoc, hlow]
  exact BitVec.zero_and

theorem pgoff_page2pa (t : Ppn) : pgoff (page2pa t) = 0 := by
  rw [pgoff_eq_zero_iff, page2pa, BitVec.toNat_append, Nat.shiftLeft_eq]
  show (t.toNat * 4096 ||| 0) % 4096 = 0
  rw [Nat.or_zero]
  omega

theorem tableEntry_flags (t : Ppn) :
    tableEntry t &&& (PTE_P ||| PTE_W ||| PTE_U) = PTE_P ||| PTE_W ||| PTE_U := by
  have hpage : page2pa t &&& (PTE_P ||| PTE_W ||| PTE_U) = 0 :=
    and_mask_of_aligned (pgoff_page2pa t) (by decide)
  have hsplit : tableEntry t = page2pa t ||| (PTE_P ||| PTE_W ||| PTE_U) := by
    rw [tableEntry, BitVec.or_assoc, BitVec.or_assoc, BitVec.or_assoc]
  rw [hsplit, BitVec.and_or_distrib_right, hpage]
  decide

/-! ## Part of a page directory -/

/-- Part of page directory `d` in the making, with free list `l`. -/
structure Growing (part : Set Idx) (m : Mem) (d : Ppn) (l : List Ppn) : Prop where
  freeList : FreeList m l
  nodup : l.Nodup
  dir : d ∉ l
  free : ∀ pp ∈ l, pp.toNat < m.npages
  tables : ∀ k ∈ part, m.load (d, k) ≠ 0 →
    ∃ t, m.load (d, k) = tableEntry t ∧ t ≠ d ∧ t ∉ l ∧ t.toNat < m.npages
  apart : ∀ k ∈ part, ∀ k' ∈ part, m.load (d, k) ≠ 0 → m.load (d, k') = m.load (d, k) → k' = k

/-- The machine is the same, and no entry of the page directory has gone. -/
structure Extends (m m' : Mem) (d : Ppn) : Prop where
  npages : m'.npages = m.npages
  kernPgdir : m'.kernPgdir = m.kernPgdir
  kept : ∀ k, m.load (d, k) ≠ 0 → m'.load (d, k) = m.load (d, k)

theorem Extends.refl : Extends m m d := ⟨rfl, rfl, fun _ _ => rfl⟩

theorem Extends.trans (h : Extends m m₁ d) (h' : Extends m₁ m' d) : Extends m m' d := by
  refine ⟨h'.npages.trans h.npages, h'.kernPgdir.trans h.kernPgdir, fun k hk => ?_⟩
  have heq := h.kept k hk
  rw [h'.kept k (heq.symm ▸ hk), heq]

/-- Not even the mappings of the part differ. -/
structure SameLeaves (part : Set Idx) (m m' : Mem) (d : Ppn) : Prop extends Extends m m' d where
  leaf : ∀ va, pdx va ∈ part → leaf m' d va = leaf m d va

theorem SameLeaves.refl : SameLeaves part m m d := ⟨.refl, fun _ _ => rfl⟩

theorem takePage_link (hq : q ≠ t) : ((takePage m t).pages q).ppLink = (m.pages q).ppLink := by
  simp [takePage, Mem.setLink, hq]

theorem FreeList.exists_head (h : FreeList m (t :: rest)) : m.pageFreeList = some t := by
  cases hfree : m.pageFreeList with
  | none =>
      rw [FreeList, hfree] at h
      cases h
  | some t' =>
      rw [FreeList, hfree] at h
      obtain ⟨rest, heq, -⟩ := h.exists_cons
      rw [(List.cons.inj heq).1]

namespace Growing

/-- An entry that is there leads to a page table. -/
theorem table (h : Growing part m d l) (hva : pdx va ∈ part) (hpde : m.load (d, pdx va) ≠ 0) :
    (cell m d va).1 ≠ d ∧ (cell m d va).1 ∉ l ∧ (cell m d va).1.toNat < m.npages := by
  obtain ⟨t, heq, hrest⟩ := h.tables _ hva hpde
  have ht : (cell m d va).1 = t := by
    show pgnum (m.load (d, pdx va)) = t
    rw [heq, pgnum_tableEntry]
  rw [ht]
  exact hrest

/-! ### New page tables -/

/-- A free frame is not a page table. -/
theorem load_ne_tableEntry (h : Growing part m d l) (ht : t ∈ l) (hk : k ∈ part) :
    m.load (d, k) ≠ tableEntry t := by
  intro heq
  have hne : m.load (d, k) ≠ 0 := heq ▸ ne_zero_of_and (tableEntry_present t)
  obtain ⟨t', heq', -, hnot, -⟩ := h.tables k hk hne
  have htt : t' = t := by rw [← pgnum_tableEntry t', ← heq', heq, pgnum_tableEntry]
  exact hnot (htt ▸ ht)

/-- Other entries of the page directory stay. -/
theorem load_withTable_dir (h : Growing part m d l) (ht : t ∈ l) (hk : k ≠ pdx va) :
    (withTable m d t va).load (d, k) = m.load (d, k) := by
  have hdt : d ≠ t := fun heq => h.dir (heq ▸ ht)
  exact load_withTable_ne (fun heq => hk (Prod.mk.inj heq).2) hdt

/-- A new page table maps nothing. -/
theorem sameLeaves_withTable (h : Growing part m d l) (ht : t ∈ l)
    (hpde : m.load (d, pdx va) = 0) : SameLeaves part m (withTable m d t va) d := by
  have htd : t ≠ d := fun heq => h.dir (heq ▸ ht)
  refine ⟨⟨rfl, rfl, fun k hk => ?_⟩, fun va' hva' => ?_⟩
  · exact h.load_withTable_dir ht fun heq => hk (heq ▸ hpde)
  by_cases hk : pdx va' = pdx va
  · have hzero : leaf m d va' = 0 := if_pos (hk ▸ hpde)
    rw [hzero, leaf, cell, hk, load_withTable_pde, pgnum_tableEntry, load_withTable_table htd]
    exact ite_self 0
  · refine leaf_congr (h.load_withTable_dir ht hk) fun hne => ?_
    obtain ⟨hdir, hfree, -⟩ := h.table hva' hne
    exact load_withTable_ne (fun heq => hdir (Prod.mk.inj heq).1) fun heq => hfree (heq ▸ ht)

/-- The frame at the front of the free list becomes a page table. -/
theorem addTable (h : Growing part m d (t :: rest)) :
    Growing part (withTable m d t va) d rest := by
  have ht : t ∈ t :: rest := List.mem_cons_self
  obtain ⟨rest', heq, hrest⟩ := h.freeList.takePage h.freeList.exists_head h.nodup
  obtain rfl := (List.cons.inj heq).2
  obtain ⟨htrest, hnodup⟩ := List.nodup_cons.mp h.nodup
  have hother : ∀ k, k ≠ pdx va → (withTable m d t va).load (d, k) = m.load (d, k) :=
    fun k hk => h.load_withTable_dir ht hk
  refine ⟨hrest.congr sameList_withTable, hnodup, fun hin => h.dir (List.mem_cons_of_mem _ hin),
    fun pp hpp => h.free pp (List.mem_cons_of_mem _ hpp), fun k hk hne => ?_,
    fun k hk k' hk' hne heq => ?_⟩
  · by_cases hkva : k = pdx va
    · rw [hkva, load_withTable_pde]
      exact ⟨t, rfl, fun heq => h.dir (heq ▸ ht), htrest, h.free t ht⟩
    · rw [hother k hkva] at hne ⊢
      obtain ⟨t', heq, htd', hnot, hlt⟩ := h.tables k hk hne
      exact ⟨t', heq, htd', fun hin => hnot (List.mem_cons_of_mem _ hin), hlt⟩
  · by_cases hkva : k = pdx va
    · by_cases hkva' : k' = pdx va
      · rw [hkva, hkva']
      · rw [hother k' hkva', hkva, load_withTable_pde] at heq
        exact absurd heq (h.load_ne_tableEntry ht hk')
    · rw [hother k hkva] at heq hne
      by_cases hkva' : k' = pdx va
      · rw [hkva', load_withTable_pde] at heq
        exact absurd heq.symm (h.load_ne_tableEntry ht hk)
      · rw [hother k' hkva'] at heq
        exact h.apart k hk k' hk' hne heq

/-! ### `pgdir_walk` and `page_remove` -/

theorem pgdirEntry_eq (h : Growing part m d l) (hva : pdx va ∈ part) :
    pgdirEntry m d va = .ok (if m.load (d, pdx va) = 0 then none else some (cell m d va)) := by
  unfold pgdirEntry
  by_cases hpde : m.load (d, pdx va) = 0
  · rw [if_pos hpde, if_neg (not_not.mpr hpde)]
  · have hkaddr : kaddr m (pgnum (m.load (d, pdx va))) = .ok () :=
      kaddr_ok (h.table hva hpde).2.2
    rw [if_neg hpde, if_pos hpde, hkaddr]
    rfl

theorem pgdirWalk_find (h : Growing part m d l) (hva : pdx va ∈ part) :
    pgdirWalk m d va false =
      .ok (if m.load (d, pdx va) = 0 then none else some (cell m d va), m) := by
  unfold pgdirWalk
  rw [if_neg fun hand => Bool.false_ne_true hand.2]
  dsimp only [bind, Except.bind]
  rw [h.pgdirEntry_eq hva]
  rfl

/-- `pgdir_walk` finds a page table. -/
theorem pgdirWalk_old (h : Growing part m d l) (hva : pdx va ∈ part)
    (hpde : m.load (d, pdx va) ≠ 0) : pgdirWalk m d va true = .ok (some (cell m d va), m) := by
  unfold pgdirWalk
  rw [if_neg fun hand => hpde hand.1]
  dsimp only [bind, Except.bind]
  rw [h.pgdirEntry_eq hva, if_neg hpde]
  rfl

/-- `pgdir_walk` makes a page table. -/
theorem pgdirWalk_new (h : Growing part m d (t :: rest)) (hva : pdx va ∈ part)
    (hpde : m.load (d, pdx va) = 0) :
    pgdirWalk m d va true =
      .ok (some (cell (withTable m d t va) d va), withTable m d t va) := by
  have hpde₁ : (withTable m d t va).load (d, pdx va) ≠ 0 := by
    rw [load_withTable_pde]
    exact ne_zero_of_and (tableEntry_present t)
  have hcreate : pgdirCreate m d va = .ok (withTable m d t va) := by
    unfold pgdirCreate
    rw [pageAlloc_eq h.freeList.exists_head (h.free t List.mem_cons_self)]
    have href : ((takePage m t).fill t fun _ => 0).ref t = m.ref t := ref_takePage
    dsimp only [bind, Except.bind]
    rw [href]
    rfl
  unfold pgdirWalk
  rw [if_pos ⟨hpde, rfl⟩, hcreate]
  dsimp only [bind, Except.bind]
  rw [h.addTable.pgdirEntry_eq hva, if_neg hpde₁]
  rfl

/-- There is nothing to remove where nothing is mapped. -/
theorem pageRemove_empty (h : Growing part m d l) (hva : pdx va ∈ part)
    (hpde : m.load (d, pdx va) ≠ 0) (hleaf : leaf m d va = 0) : pageRemove m d va = .ok m := by
  rw [leaf_of_pde hpde] at hleaf
  have hlookup : pageLookup m d va = .ok none := by
    unfold pageLookup
    rw [h.pgdirWalk_find hva, if_neg hpde]
    dsimp only [bind, Except.bind]
    rw [if_pos hleaf]
    rfl
  unfold pageRemove
  rw [hlookup]
  rfl

/-! ### Writing entries -/

/-- Memory has changed outside of the page directory. -/
theorem congr (h : Growing part m d l) (hfree : FreeList m' l) (hnpages : m'.npages = m.npages)
    (hload : ∀ k, m'.load (d, k) = m.load (d, k)) : Growing part m' d l := by
  refine ⟨hfree, h.nodup, h.dir, fun pp hpp => hnpages ▸ h.free pp hpp, fun k hk hne => ?_,
    fun k hk k' hk' hne heq => ?_⟩
  · rw [hload] at hne ⊢
    rw [hnpages]
    exact h.tables k hk hne
  · rw [hload] at hne heq
    rw [hload] at heq
    exact h.apart k hk k' hk' hne heq

theorem load_store_dir (h : Growing part m d l) (hva : pdx va ∈ part)
    (hpde : m.load (d, pdx va) ≠ 0) : (m.store (cell m d va) w).load (d, k) = m.load (d, k) :=
  Mem.load_store_ne fun heq => (h.table hva hpde).1 (Prod.mk.inj heq).1.symm

/-- Writing the entry of a page. -/
theorem store (h : Growing part m d l) (hva : pdx va ∈ part)
    (hpde : m.load (d, pdx va) ≠ 0) : Growing part (m.store (cell m d va) w) d l :=
  h.congr (h.freeList.congr .store) rfl fun _ => h.load_store_dir hva hpde

theorem leaf_store (h : Growing part m d l) (hva : pdx va ∈ part)
    (hpde : m.load (d, pdx va) ≠ 0) (hva' : pdx va' ∈ part) :
    leaf (m.store (cell m d va) w) d va' =
      if va.toNat / 4096 = va'.toNat / 4096 then w else leaf m d va' := by
  have hload : ∀ k, (m.store (cell m d va) w).load (d, k) = m.load (d, k) := fun k =>
    h.load_store_dir hva hpde
  by_cases hpage : va.toNat / 4096 = va'.toNat / 4096
  · have hsame : SamePage va va' := samePage_iff.mpr hpage
    have hpde' : (m.store (cell m d va) w).load (d, pdx va) ≠ 0 := by rwa [hload]
    have hcell : cell (m.store (cell m d va) w) d va = cell m d va :=
      Prod.ext (congrArg pgnum (hload _)) rfl
    rw [if_pos hpage, ← leaf_samePage hsame, leaf_of_pde hpde', hcell, Mem.load_store_self]
  · rw [if_neg hpage]
    refine leaf_congr (hload _) fun hpde' => Mem.load_store_ne fun heq => hpage ?_
    obtain ⟨hframe, hptx⟩ := Prod.mk.inj heq
    obtain ⟨t, ht, -⟩ := h.tables _ hva hpde
    obtain ⟨t', ht', -⟩ := h.tables _ hva' hpde'
    rw [ht, ht', pgnum_tableEntry, pgnum_tableEntry] at hframe
    have hpdx := h.apart _ hva _ hva' hpde (by rw [ht, ht', hframe])
    exact samePage_iff.mp ⟨hpdx.symm, hptx.symm⟩

end Growing

end JosSched
