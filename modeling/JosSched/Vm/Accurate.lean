import JosSched.Vm.Insert

/-!
# Accurate reference counts

`Layout` describes the memories that a run goes through.  `Accurate` says less and so covers
more: the counters are right, the free list is a list of unreferenced frames, and the two levels
of tables are in order.  Any page that is not free may be mapped, at any number of places, and
that page may itself be a page table or a page directory.

`owned` counts the references from outside the page tables: those of the environments and of the
kernel.  A reference is dropped in two steps, the entry and then the counter (`decref`), and a
page is freed by the second; each step below says what becomes of the counters.
-/

open Except

namespace JosSched

variable {m m' m₁ : Mem} {owned owned' : Ppn → ℕ} {use use' : Ppn → Use} {d d' f pp q t : Ppn}
  {x y : PteRef} {va va' w perm : Word} {l : List Ppn} {k : Idx}

/-! ## The free list -/

/-- The pages of the free list, in order. -/
def FreeList (m : Mem) (l : List Ppn) : Prop :=
  Chain (fun pp => (m.pages pp).ppLink) m.pageFreeList l

theorem FreeList.congr (h : FreeList m l) (hsame : SameList m m') : FreeList m' l := by
  unfold FreeList at h ⊢
  rw [hsame.pageFreeList]
  exact Chain.congr h fun q _ => hsame.link q

/-- What `page_decref` makes of a page that is in use. -/
def decref (m : Mem) (pp : Ppn) : Mem :=
  if m.ref pp = 1 then { (m.setRef pp 0).setLink pp m.pageFreeList with pageFreeList := some pp }
  else m.setRef pp (m.ref pp - 1)

theorem pageDecref_eq (h : (m.pages pp).ppLink = none) : pageDecref m pp = .ok (decref m pp) := by
  unfold decref
  split
  · next hone => exact pageDecref_last hone h
  · next hne => exact pageDecref_shared hne

@[simp] theorem load_decref : (decref m pp).load x = m.load x := by
  unfold decref
  split <;> rfl

@[simp] theorem npages_decref : (decref m pp).npages = m.npages := by
  unfold decref
  split <;> rfl

@[simp] theorem kernPgdir_decref : (decref m pp).kernPgdir = m.kernPgdir := by
  unfold decref
  split <;> rfl

theorem ref_decref_self : (decref m pp).ref pp = m.ref pp - 1 := by
  unfold decref
  split
  · next hone =>
      rw [hone]
      simp [Mem.setLink, Mem.ref, Mem.setRef]
  · exact Mem.ref_setRef_self

theorem ref_decref_ne (h : q ≠ pp) : (decref m pp).ref q = m.ref q := by
  unfold decref
  split
  · simp [Mem.setLink, Mem.ref, Mem.setRef, h]
  · exact Mem.ref_setRef_ne h

/-- A page that loses its last reference goes to the front of the free list. -/
theorem FreeList.decref (h : FreeList m l) (hq : q ∉ l) :
    FreeList (decref m q) (if m.ref q = 1 then q :: l else l) := by
  unfold JosSched.decref
  by_cases hone : m.ref q = 1
  · rw [if_pos hone, if_pos hone]
    have hnext : (fun p => (({ (m.setRef q 0).setLink q m.pageFreeList with
        pageFreeList := some q } : Mem).pages p).ppLink) =
        Function.update (fun p => (m.pages p).ppLink) q m.pageFreeList := by
      funext p
      by_cases hp : p = q
      · subst hp
        simp [Mem.setLink]
      · simp [Mem.setLink, Mem.setRef, hp]
    unfold FreeList
    rw [hnext]
    exact Chain.push h hq
  · rw [if_neg hone, if_neg hone]
    exact h.congr .setRef

theorem link_decref_ne (h : pp ≠ q) : ((decref m q).pages pp).ppLink = (m.pages pp).ppLink := by
  unfold decref
  split <;> simp [Mem.setLink, Mem.setRef, h]

theorem link_decref_shared (h : m.ref q ≠ 1) :
    ((decref m q).pages pp).ppLink = (m.pages pp).ppLink := by
  unfold decref
  rw [if_neg h]
  exact SameList.setRef.link pp

/-- Taking the first page off the free list. -/
theorem FreeList.takePage (h : FreeList m l) (hhead : m.pageFreeList = some t) (hnodup : l.Nodup) :
    ∃ rest, l = t :: rest ∧ FreeList (takePage m t) rest := by
  unfold FreeList at h
  rw [hhead] at h
  obtain ⟨rest, rfl, hrest⟩ := h.exists_cons
  refine ⟨rest, rfl, Chain.congr hrest fun q hq => ?_⟩
  have hne : q ≠ t := ne_of_mem_of_not_mem hq (List.nodup_cons.mp hnodup).1
  simp [JosSched.takePage, Mem.setLink, hne]

/-! ## Accurate counts -/

/-- A page that may be mapped: one that `page_free` has not got back.  The page directories and
the tables of the kernel are held by their owners all the time. -/
structure Mappable (m : Mem) (owned : Ppn → ℕ) (use : Ppn → Use) (pp : Ppn) : Prop where
  existing : pp.toNat < m.npages
  allocated : use pp = .data ∨ use pp = .table ∨ 0 < owned pp

/-- The word in an entry of frame `f` that is not empty. -/
structure EntryFits (m : Mem) (owned : Ppn → ℕ) (use : Ppn → Use) (f : Ppn) (w : Word) : Prop where
  present : w &&& PTE_P ≠ 0
  table : use f = .pgdir → use (pgnum w) = .table
  page : use f = .table → Mappable m owned use (pgnum w)

/-- The counters of the memory `m` are right.  Every page table is in one entry of one page
directory; the entries from `UTOP` on are the tables of the kernel, and the page directory
itself at `UVPT`. -/
structure Accurate (m : Mem) (owned : Ppn → ℕ) (use : Ppn → Use) : Prop where
  freeList : ∃ l, FreeList m l ∧ l.Nodup ∧ ∀ pp, pp ∈ l ↔ use pp = .free
  memory : ∀ pp, use pp = .free ∨ use pp = .table → pp.toNat < m.npages
  unlinked : ∀ pp, use pp ≠ .free → (m.pages pp).ppLink = none
  entries : ∀ x, IsEntry use x → m.load x ≠ 0 → EntryFits m owned use x.1 (m.load x)
  rooted : ∀ t, use t = .table → ∃ x, use x.1 = .pgdir ∧ links m use x = some t
  unshared : ∀ x y t, use x.1 = .pgdir → use y.1 = .pgdir → links m use x = some t →
    links m use y = some t → x = y
  kernelPart : ∀ d k, use d = .pgdir → PDX_UTOP ≤ k.val → m.load (d, k) &&& PTE_P ≠ 0 →
    use (pgnum (m.load (d, k))) = .kernel ∨ k = pdxUvpt ∧ pgnum (m.load (d, k)) = d
  counted : ∀ pp, (m.ref pp).toNat = owned pp + refCount (links m use) pp
  unowned : ∀ pp, use pp = .free → owned pp = 0

theorem Mappable.congr (h : Mappable m owned use pp) (hnpages : m'.npages = m.npages)
    (huse : use pp = .data ∨ use pp = .table → use' pp = .data ∨ use' pp = .table)
    (howned : 0 < owned pp → 0 < owned' pp) : Mappable m' owned' use' pp where
  existing := hnpages ▸ h.existing
  allocated := by
    rcases h.allocated with hdata | htable | hpos
    · exact (huse (.inl hdata)).imp_right .inl
    · exact (huse (.inr htable)).imp_right .inl
    · exact .inr (.inr (howned hpos))

namespace Accurate

/-- An entry does not refer to a free page. -/
theorem use_of_links (h : Accurate m owned use) (hx : links m use x = some q) :
    use q ≠ .free ∧ (use x.1 = .pgdir ∧ use q = .table ∨
      use x.1 = .table ∧ Mappable m owned use q) := by
  obtain ⟨hentry, hne, rfl⟩ := links_eq_some.mp hx
  have hrefers := h.entries x hentry hne
  rcases hentry with ⟨hd, -⟩ | ht
  · have htable := hrefers.table hd
    exact ⟨by rw [htable]; decide, .inl ⟨hd, htable⟩⟩
  · have hpage := hrefers.page ht
    refine ⟨fun hfree => ?_, .inr ⟨ht, hpage⟩⟩
    rcases hpage.allocated with hdata | htable | hpos
    · rw [hfree] at hdata
      cases hdata
    · rw [hfree] at htable
      cases htable
    · rw [h.unowned _ hfree] at hpos
      exact Nat.lt_irrefl 0 hpos

theorem refs_free (h : Accurate m owned use) (hq : use q = .free) :
    refCount (links m use) q = 0 :=
  refCount_eq_zero.mpr fun _ hx => (h.use_of_links hx).1 hq

theorem ref_free (h : Accurate m owned use) (hq : use q = .free) : m.ref q = 0 := by
  have hcount := h.counted q
  rw [h.unowned q hq, h.refs_free hq] at hcount
  exact BitVec.eq_of_toNat_eq hcount

/-- A referenced page has been counted. -/
theorem one_le_ref (h : Accurate m owned use) (hx : links m use x = some q) :
    1 ≤ (m.ref q).toNat := by
  have hpos := refCount_pos hx
  have hcount := h.counted q
  omega

theorem not_mem_of_use (h : Accurate m owned use) (hl : FreeList m l) (hq : use q ≠ .free) :
    q ∉ l := by
  obtain ⟨l', hl', -, hmem⟩ := h.freeList
  rw [Chain.unique hl hl']
  exact fun hin => hq ((hmem q).mp hin)

theorem isEntry_pgdir (hd : use d = .pgdir) (hva : va < UTOP) : IsEntry use (d, pdx va) :=
  .inl ⟨hd, pdx_lt hva⟩

theorem links_pde (hd : use d = .pgdir) (hva : va < UTOP) (hpde : m.load (d, pdx va) ≠ 0) :
    links m use (d, pdx va) = some (pgnum (m.load (d, pdx va))) :=
  links_eq_some.mpr ⟨isEntry_pgdir hd hva, hpde, rfl⟩

theorem table_of_pde (h : Accurate m owned use) (hd : use d = .pgdir) (hva : va < UTOP)
    (hpde : m.load (d, pdx va) ≠ 0) : use (pgnum (m.load (d, pdx va))) = .table :=
  (h.entries _ (isEntry_pgdir hd hva) hpde).table hd

theorem isEntry_cell (h : Accurate m owned use) (hd : use d = .pgdir) (hva : va < UTOP)
    (hpde : m.load (d, pdx va) ≠ 0) : IsEntry use (cell m d va) :=
  .inr (h.table_of_pde hd hva hpde)

/-- What the entry of a user page refers to. -/
theorem links_cell (h : Accurate m owned use) (hd : use d = .pgdir) (hva : va < UTOP)
    (hleaf : leaf m d va ≠ 0) : links m use (cell m d va) = some (pgnum (leaf m d va)) := by
  have hpde := pde_ne_zero_of_leaf hleaf
  rw [leaf_of_pde hpde] at hleaf ⊢
  exact links_eq_some.mpr ⟨h.isEntry_cell hd hva hpde, hleaf, rfl⟩

/-- Different pages have different entries. -/
theorem cell_inj (h : Accurate m owned use) (hd : use d = .pgdir) (hva : va < UTOP)
    (hpde : m.load (d, pdx va) ≠ 0) (hd' : use d' = .pgdir) (hva' : va' < UTOP)
    (hpde' : m.load (d', pdx va') ≠ 0) (heq : cell m d va = cell m d' va') :
    d = d' ∧ SamePage va va' := by
  obtain ⟨htable, hptx⟩ := Prod.mk.inj heq
  have hlink' := links_pde hd' hva' hpde'
  rw [← htable] at hlink'
  have hsame := h.unshared _ _ _ hd hd' (links_pde hd hva hpde) hlink'
  obtain ⟨rfl, hpdx⟩ := Prod.mk.inj hsame
  exact ⟨rfl, hpdx, hptx⟩

end Accurate

/-- Only user data is freed. -/
theorem FreesData.iff (h : FreesData use use') {u : Use} (hdata : u ≠ .data) (hfree : u ≠ .free) :
    use' q = u ↔ use q = u := by
  rcases h q with heq | ⟨hq, hq'⟩
  · rw [heq]
  · rw [hq, hq']
    exact ⟨fun h => absurd h.symm hfree, fun h => absurd h.symm hdata⟩

theorem FreesData.isEntry (h : FreesData use use') : IsEntry use' x ↔ IsEntry use x := by
  simp only [IsEntry, h.iff (u := .pgdir) (by decide) (by decide),
    h.iff (u := .table) (by decide) (by decide)]

namespace Accurate

/-! ## Steps

What changes is an entry of a page table, the counter of a page, and perhaps pages of user data
are freed. -/

theorem change (h : Accurate m owned use)
    (hlist : ∃ l, FreeList m' l ∧ l.Nodup ∧ ∀ pp, pp ∈ l ↔ use' pp = .free)
    (hnpages : m'.npages = m.npages)
    (hunlinked : ∀ pp, use' pp ≠ .free → (m'.pages pp).ppLink = none)
    (huse : FreesData use use')
    (hmemory : ∀ pp, use pp = .data → use' pp = .free → pp.toNat < m.npages)
    (hload : ∀ y, m'.load y = m.load y ∨ use y.1 = .table ∧
      (m'.load y ≠ 0 → EntryFits m' owned' use' y.1 (m'.load y)))
    (hmap : ∀ p, Mappable m owned use p → 0 < refCount (links m' use') p →
      Mappable m' owned' use' p)
    (hcounted : ∀ pp, (m'.ref pp).toNat = owned' pp + refCount (links m' use') pp)
    (hunowned : ∀ pp, use' pp = .free → owned' pp = 0) : Accurate m' owned' use' := by
  -- page directories are untouched, so what hangs on them is as it was
  have hpgdir : ∀ {y : PteRef}, use y.1 = .pgdir → m'.load y = m.load y := fun {y} hy => by
    refine (hload y).resolve_right fun hand => ?_
    rw [hy] at hand
    cases hand.1
  have hlinks : ∀ {y : PteRef}, use y.1 = .pgdir → links m' use' y = links m use y :=
    fun {y} hy => by
    simp only [links, huse.isEntry, hpgdir hy]
  refine ⟨hlist, fun pp hpp => ?_, hunlinked, fun y hy hne => ?_, fun t ht => ?_,
    fun y z t hy hz hyt hzt => ?_, fun d k hd hk hpresent => ?_, hcounted, hunowned⟩
  · rw [hnpages]
    rcases huse pp with heq | ⟨hdata, hfree⟩
    · rw [heq] at hpp
      exact h.memory pp hpp
    · exact hmemory pp hdata hfree
  -- an entry that is as it was still fits; a new one does by assumption
  · rcases hload y with heq | ⟨-, hnew⟩
    · have hsome : links m' use' y = some (pgnum (m'.load y)) := links_eq_some.mpr ⟨hy, hne, rfl⟩
      have hpos := refCount_pos hsome
      rw [heq] at hne hpos ⊢
      obtain ⟨hpresent, htable, hpage⟩ := h.entries y (huse.isEntry.mp hy) hne
      refine ⟨hpresent, fun hd => ?_, fun ht => ?_⟩
      · rw [huse.iff (by decide) (by decide)] at hd ⊢
        exact htable hd
      · rw [huse.iff (by decide) (by decide)] at ht
        exact hmap _ (hpage ht) hpos
    · exact hnew hne
  · rw [huse.iff (by decide) (by decide)] at ht
    obtain ⟨y, hy, hyt⟩ := h.rooted t ht
    exact ⟨y, (huse.iff (by decide) (by decide)).mpr hy, (hlinks hy).trans hyt⟩
  · rw [huse.iff (by decide) (by decide)] at hy hz
    rw [hlinks hy] at hyt
    rw [hlinks hz] at hzt
    exact h.unshared y z t hy hz hyt hzt
  · rw [huse.iff (by decide) (by decide)] at hd
    rw [hpgdir hd] at hpresent ⊢
    rw [huse.iff (by decide) (by decide)]
    exact h.kernelPart d k hd hk hpresent

end Accurate

/-- The counts with one more reference to `pp`, which the kernel holds. -/
def holding (owned : Ppn → ℕ) (pp : Ppn) : Ppn → ℕ := fun q => owned q + if q = pp then 1 else 0

/-- The use of the frames once `q` has lost a reference. -/
def release (m : Mem) (use : Ppn → Use) (q : Ppn) : Ppn → Use :=
  if m.ref q = 1 then Function.update use q .free else use

namespace Accurate

/-- The kernel takes a reference to a page. -/
theorem hold (h : Accurate m owned use) (hpp : use pp ≠ .free)
    (hfit : (m.ref pp).toNat + 1 < 2 ^ 16) :
    Accurate (m.setRef pp (m.ref pp + 1)) (holding owned pp) use := by
  have hsame : SameList m (m.setRef pp (m.ref pp + 1)) := .setRef
  have hlinks : links (m.setRef pp (m.ref pp + 1)) use = links m use := rfl
  refine h.change ?_ rfl (fun q hq => (hsame.link q).trans (h.unlinked q hq)) (fun _ => .inl rfl)
    (fun q hdata hfree => ?_) (fun y => .inl rfl) (fun q hq _ => ?_) (fun q => ?_) fun q hq => ?_
  · obtain ⟨l, hl, hrest⟩ := h.freeList
    exact ⟨l, hl.congr hsame, hrest⟩
  · rw [hdata] at hfree
    cases hfree
  · exact hq.congr rfl id fun hpos => Nat.lt_of_lt_of_le hpos (Nat.le_add_right ..)
  · rw [hlinks]
    have hcount := h.counted q
    unfold holding
    by_cases hqp : q = pp
    · subst hqp
      have hone : (1 : BitVec 16).toNat = 1 := rfl
      rw [Mem.ref_setRef_self, if_pos rfl, BitVec.toNat_add, hone, Nat.mod_eq_of_lt hfit]
      omega
    · rw [Mem.ref_setRef_ne hqp, if_neg hqp]
      exact hcount
  · have hne : q ≠ pp := fun heq => hpp (heq ▸ hq)
    unfold holding
    rw [if_neg hne]
    exact h.unowned q hq

/-- The reference that the kernel holds moves into an empty entry. -/
theorem place (h : Accurate m (holding owned pp) use) (hpp : Mappable m owned use pp)
    (hx : use x.1 = .table) (hempty : m.load x = 0) (hw : w &&& PTE_P ≠ 0) (hpage : pgnum w = pp) :
    Accurate (m.store x w) owned use := by
  have hmap : ∀ q, Mappable m (holding owned pp) use q → Mappable (m.store x w) owned use q := by
    intro q hq
    by_cases hqp : q = pp
    · rw [hqp]
      exact hpp.congr rfl id id
    · refine hq.congr rfl id fun hpos => ?_
      unfold holding at hpos
      rwa [if_neg hqp] at hpos
  refine h.change h.freeList rfl h.unlinked (fun _ => .inl rfl) (fun q hdata hfree => ?_)
    (fun y => ?_)
    (fun q hq _ => hmap q hq) (fun q => ?_) fun q hq => ?_
  · rw [hdata] at hfree
    cases hfree
  · by_cases hy : y = x
    · subst hy
      rw [Mem.load_store_self]
      refine .inr ⟨hx, fun _ => ⟨hw, fun hd => ?_, fun _ => ?_⟩⟩
      · rw [hx] at hd
        cases hd
      · rw [hpage]
        exact hpp.congr rfl id id
    · exact .inl (Mem.load_store_ne hy)
  -- the entry takes over the reference that `holding` counted for the kernel
  · have hentry : IsEntry use x := .inr hx
    have hold : links m use x = none := if_neg fun hand => hand.2 hempty
    have hadd := refCount_update (links m use) x (some pp) q
    rw [hold, if_neg (Option.some_ne_none q).symm, Nat.add_zero] at hadd
    have hcount := h.counted q
    rw [links_store hentry, if_neg (ne_zero_of_and hw), hpage, hadd, Mem.ref_store, hcount]
    unfold holding
    simp only [Option.some.injEq, eq_comm (a := pp)]
    omega
  · have hzero := h.unowned q hq
    unfold holding at hzero
    omega

/-- Only user data goes back to the free list when an entry of a page table is cleared: a page
table has its page directory entry as well, and everything else its owner. -/
theorem data_of_last (h : Accurate m owned use) (hx : use x.1 = .table)
    (hlink : links m use x = some q) (hone : m.ref q = 1) : use q = .data := by
  have hcount := h.counted q
  have hpos := refCount_pos hlink
  have hnat : (m.ref q).toNat = 1 := by
    rw [hone]
    rfl
  rcases (h.use_of_links hlink).2 with ⟨hd, -⟩ | ⟨-, hpage⟩
  · rw [hx] at hd
    cases hd
  · rcases hpage.allocated with hdata | htable | howned
    · exact hdata
    · obtain ⟨y, hy, hyt⟩ := h.rooted q htable
      have heq := eq_of_refCount_le_one (by omega) hlink hyt
      rw [heq, hy] at hx
      cases hx
    · omega

theorem freesData_release (h : Accurate m owned use) (hx : use x.1 = .table)
    (hlink : links m use x = some q) : FreesData use (release m use q) := by
  intro p
  unfold release
  split
  · next hone =>
      by_cases hp : p = q
      · rw [hp, Function.update_self]
        exact .inr ⟨h.data_of_last hx hlink hone, rfl⟩
      · rw [Function.update_of_ne hp]
        exact .inl rfl
  · exact .inl rfl

/-- The free list after a page has lost a reference. -/
theorem freeList_release (h : Accurate m owned use) (hq : use q ≠ .free) :
    ∃ l, FreeList ((decref m q).store x w) l ∧ l.Nodup ∧
      ∀ pp, pp ∈ l ↔ release m use q pp = .free := by
  obtain ⟨l, hl, hnodup, hmem⟩ := h.freeList
  have hnot : q ∉ l := fun hin => hq ((hmem q).mp hin)
  refine ⟨_, hl.decref hnot, ?_, fun p => ?_⟩
  · split
    · exact List.nodup_cons.mpr ⟨hnot, hnodup⟩
    · exact hnodup
  · unfold release
    split
    · by_cases hp : p = q
      · subst hp
        simp
      · rw [Function.update_of_ne hp, ← hmem, List.mem_cons, or_iff_right hp]
    · exact hmem p

/-- An entry of a page table is cleared, and the page it referred to loses the reference. -/
theorem clear (h : Accurate m owned use) (hx : use x.1 = .table) (hlink : links m use x = some q) :
    Accurate ((decref m q).store x 0) owned (release m use q) := by
  have hfrees := h.freesData_release hx hlink
  have hpage := (h.use_of_links hlink).2.resolve_left fun hand => by
    rw [hx] at hand
    cases hand.1
  -- as a map of references, the memory has lost the one at `x` and no other
  have hlinks : links ((decref m q).store x 0) (release m use q) =
      Function.update (links m use) x none := by
    have hstore : links (m.store x 0) use =
        Function.update (links m use) x (if (0 : Word) = 0 then none else some (pgnum 0)) :=
      links_store (.inr hx)
    rw [if_pos rfl] at hstore
    rw [← hstore]
    funext y
    have hload : ((decref m q).store x 0).load y = (m.store x 0).load y := by
      by_cases hy : y = x
      · rw [hy, Mem.load_store_self, Mem.load_store_self]
      · rw [Mem.load_store_ne hy, Mem.load_store_ne hy, load_decref]
    simp only [links, hfrees.isEntry, hload]
  have hrefs : ∀ p, refCount (links ((decref m q).store x 0) (release m use q)) p +
      (if p = q then 1 else 0) = refCount (links m use) p := fun p => by
    have hadd := refCount_update (links m use) x none p
    rw [hlink, if_neg (Option.some_ne_none p).symm, Nat.add_zero] at hadd
    rw [hlinks, ← hadd]
    simp only [Option.some.injEq, eq_comm]
  have hone_le := h.one_le_ref hlink
  -- only `q` may be freed, and only when the reference was its last one
  have hfree : ∀ {p}, release m use q p = .free → use p ≠ .free → p = q ∧ m.ref q = 1 := by
    intro p hp hp'
    unfold release at hp
    split at hp
    · next hone =>
        by_cases hpq : p = q
        · exact ⟨hpq, hone⟩
        · rw [Function.update_of_ne hpq] at hp
          exact absurd hp hp'
    · exact absurd hp hp'
  refine h.change ?_ npages_decref (fun p hp => ?_) hfrees (fun p hdata hp => ?_) (fun y => ?_)
    (fun p hp hpos => ?_) (fun p => ?_) fun p hp => ?_
  · exact h.freeList_release (h.use_of_links hlink).1
  · have hp' : use p ≠ .free := fun heq => hp <| by
      rcases hfrees p with hsame | ⟨-, hfree⟩
      · rw [hsame, heq]
      · exact hfree
    by_cases hpq : p = q
    · subst hpq
      have hne : m.ref p ≠ 1 := fun hone => hp (by rw [release, if_pos hone, Function.update_self])
      exact (link_decref_shared hne).trans (h.unlinked p hp')
    · exact (link_decref_ne hpq).trans (h.unlinked p hp')
  · obtain ⟨rfl, -⟩ := hfree hp (by rw [hdata]; decide)
    exact hpage.2.existing
  · by_cases hy : y = x
    · rw [hy, Mem.load_store_self]
      exact .inr ⟨hx, fun hne => absurd rfl hne⟩
    · rw [Mem.load_store_ne hy, load_decref]
      exact .inl rfl
  · refine hp.congr npages_decref (fun hor => ?_) id
    rcases hfrees p with hsame | ⟨hdata, hp'⟩
    · rwa [hsame]
    · -- it has still a reference, so it was not the one that is freed
      obtain ⟨rfl, hone⟩ := hfree hp' (by rw [hdata]; decide)
      have hsub := hrefs p
      have hcount := h.counted p
      have hnat : (m.ref p).toNat = 1 := by
        rw [hone]
        rfl
      rw [if_pos rfl] at hsub
      omega
  · have hsub := hrefs p
    have hcount := h.counted p
    rw [Mem.ref_store]
    by_cases hpq : p = q
    · subst hpq
      rw [if_pos rfl] at hsub
      have hone : (1 : BitVec 16).toNat = 1 := rfl
      rw [ref_decref_self, BitVec.toNat_sub_of_le
        (by rw [BitVec.le_def, hone]; exact hone_le), hone]
      omega
    · rw [if_neg hpq] at hsub
      rw [ref_decref_ne hpq]
      omega
  · by_cases hp' : use p = .free
    · exact h.unowned p hp'
    · obtain ⟨rfl, hone⟩ := hfree hp hp'
      have hcount := h.counted p
      have hpos := refCount_pos hlink
      have hnat : (m.ref p).toNat = 1 := by
        rw [hone]
        rfl
      omega

end Accurate

/-! ## Page tables -/

/-- The memory once `pgdir_walk` has put a new page table, frame `t`, into the directory. -/
def withTable (m : Mem) (d t : Ppn) (va : Word) : Mem :=
  (((takePage m t).fill t fun _ => 0).setRef t (m.ref t + 1)).store (d, pdx va) (tableEntry t)

section withTable

theorem load_withTable_pde : (withTable m d t va).load (d, pdx va) = tableEntry t :=
  Mem.load_store_self

theorem load_withTable_table (hdt : t ≠ d) : (withTable m d t va).load (t, k) = 0 := by
  have hne : (t, k) ≠ (d, pdx va) := fun heq => hdt (Prod.mk.inj heq).1
  exact (Mem.load_store_ne hne).trans load_fill_self

theorem load_withTable_ne (hx : x ≠ (d, pdx va)) (hxt : x.1 ≠ t) :
    (withTable m d t va).load x = m.load x :=
  (Mem.load_store_ne hx).trans (load_fill_ne hxt)

theorem sameList_withTable : SameList (takePage m t) (withTable m d t va) := by
  have hfill : SameList (takePage m t) ((takePage m t).fill t fun _ => 0) :=
    ⟨rfl, rfl, rfl, fun _ => rfl⟩
  exact hfill.trans (SameList.setRef.trans .store)

theorem ref_withTable_self : (withTable m d t va).ref t = m.ref t + 1 :=
  Mem.ref_setRef_self

theorem ref_withTable_ne (hq : q ≠ t) : (withTable m d t va).ref q = m.ref q :=
  (Mem.ref_setRef_ne hq).trans ref_takePage

end withTable

namespace Accurate

/-- The head of the free list is a free page. -/
theorem use_of_head (h : Accurate m owned use) (ht : m.pageFreeList = some t) : use t = .free := by
  obtain ⟨l, hl, hnodup, hmem⟩ := h.freeList
  obtain ⟨rest, rfl, -⟩ := hl.takePage ht hnodup
  exact (hmem t).mp List.mem_cons_self

theorem ne_of_use (hd : use d = .pgdir) (ht : use t = .free) : t ≠ d := fun heq => by
  rw [heq, hd] at ht
  cases ht

/-- The references once a page table has been added. -/
theorem links_withTable (hd : use d = .pgdir) (hva : va < UTOP)
    (ht : use t = .free) : links (withTable m d t va) (Function.update use t .table) =
      Function.update (links m use) (d, pdx va) (some t) := by
  have hdt := ne_of_use hd ht
  funext y
  by_cases hy : y = (d, pdx va)
  · subst hy
    have hentry : IsEntry (Function.update use t .table) (d, pdx va) :=
      (isEntry_update_ne hdt.symm).mpr (isEntry_pgdir hd hva)
    rw [Function.update_self]
    refine links_eq_some.mpr ⟨hentry, ?_, ?_⟩ <;> rw [load_withTable_pde]
    · exact ne_zero_of_and (tableEntry_present t)
    · exact pgnum_tableEntry t
  · rw [Function.update_of_ne hy]
    by_cases hyt : y.1 = t
    · obtain ⟨f, j⟩ := y
      obtain rfl : f = t := hyt
      have hno : ¬ IsEntry use (f, j) := by
        rintro (⟨huse, -⟩ | huse) <;> dsimp only at huse <;> rw [ht] at huse <;> cases huse
      rw [links, if_neg fun hand => hand.2 (load_withTable_table hdt), links,
        if_neg fun hand => hno hand.1]
    · simp only [links, isEntry_update_ne hyt, load_withTable_ne hy hyt]

/-- `pgdir_walk` adds a page table. -/
theorem addTable (h : Accurate m owned use) (hd : use d = .pgdir) (hva : va < UTOP)
    (hpde : m.load (d, pdx va) = 0) (hhead : m.pageFreeList = some t) :
    Accurate (withTable m d t va) owned (Function.update use t .table) := by
  have ht := h.use_of_head hhead
  have hdt := ne_of_use hd ht
  have hlinks := links_withTable (m := m) hd hva ht
  have hnone : links m use (d, pdx va) = none := if_neg fun hand => hand.2 hpde
  -- nothing refers to `t` before, because it is free
  have hnever : ∀ {y}, links m use y ≠ some t := fun {y} hy => (h.use_of_links hy).1 ht
  have hself : Function.update use t .table t = .table := Function.update_self ..
  have hother : ∀ {p}, p ≠ t → Function.update use t .table p = use p := fun {p} hp =>
    Function.update_of_ne hp ..
  have hroot : ∀ {y : PteRef}, Function.update use t .table y.1 = .pgdir → y.1 ≠ t :=
    fun {y} hy heq => by
    rw [heq, hself] at hy
    cases hy
  refine ⟨?_, fun pp hpp => ?_, fun pp hpp => ?_, fun y hy hne => ?_, fun t' ht' => ?_,
    fun y z t' hy hz hyt hzt => ?_, fun d' j hd' hj hpresent => ?_, fun pp => ?_, fun pp hpp => ?_⟩
  -- the free list, without its head
  · obtain ⟨l, hl, hnodup, hmem⟩ := h.freeList
    obtain ⟨rest, rfl, hrest⟩ := hl.takePage hhead hnodup
    obtain ⟨hnot, hnodup'⟩ := List.nodup_cons.mp hnodup
    refine ⟨rest, hrest.congr sameList_withTable, hnodup', fun p => ?_⟩
    by_cases hp : p = t
    · subst hp
      rw [hself]
      exact ⟨fun hin => absurd hin hnot, fun heq => by cases heq⟩
    · rw [hother hp, ← hmem, List.mem_cons, or_iff_right hp]
  · by_cases hp : pp = t
    · exact hp ▸ h.memory t (.inl ht)
    · rw [hother hp] at hpp
      exact h.memory pp hpp
  · rw [sameList_withTable.link]
    by_cases hp : pp = t
    · subst hp
      simp [takePage, Mem.setLink]
    · rw [hother hp] at hpp
      have hlink : ((takePage m t).pages pp).ppLink = (m.pages pp).ppLink := by
        simp [takePage, Mem.setLink, hp]
      exact hlink.trans (h.unlinked pp hpp)
  -- the entries: the new one, those of the new table, which are empty, and the old ones
  · by_cases hyx : y = (d, pdx va)
    · subst hyx
      rw [load_withTable_pde]
      refine ⟨tableEntry_present t, fun _ => by rw [pgnum_tableEntry, hself], fun htable => ?_⟩
      dsimp only at htable
      rw [hother hdt.symm, hd] at htable
      cases htable
    · by_cases hyt : y.1 = t
      · obtain ⟨f, j⟩ := y
        obtain rfl : f = t := hyt
        exact absurd (load_withTable_table hdt) hne
      · rw [isEntry_update_ne hyt] at hy
        rw [load_withTable_ne hyx hyt] at hne ⊢
        have hlink : links m use y = some (pgnum (m.load y)) := links_eq_some.mpr ⟨hy, hne, rfl⟩
        have htarget : pgnum (m.load y) ≠ t := fun heq => hnever (heq ▸ hlink)
        obtain ⟨hpresent, htable, hpage⟩ := h.entries y hy hne
        rw [← hother hyt] at htable hpage
        refine ⟨hpresent, fun hd' => (hother htarget).trans (htable hd'), fun ht' => ?_⟩
        exact (hpage ht').congr rfl (fun hor => by rwa [hother htarget]) id
  · by_cases heq : t' = t
    · refine ⟨(d, pdx va), (hother hdt.symm).trans hd, ?_⟩
      rw [hlinks, Function.update_self, heq]
    · rw [hother heq] at ht'
      obtain ⟨y, hy, hyt⟩ := h.rooted t' ht'
      have hyd : y ≠ (d, pdx va) := fun heq => by
        rw [heq, hnone] at hyt
        cases hyt
      have hyt' : y.1 ≠ t := fun heq => by
        rw [heq, ht] at hy
        cases hy
      exact ⟨y, (hother hyt').trans hy, by rw [hlinks, Function.update_of_ne hyd, hyt]⟩
  -- two entries for one table: neither can be the new one, since `t` had no reference
  · have hy' := (hother (hroot hy)).symm.trans hy
    have hz' := (hother (hroot hz)).symm.trans hz
    rw [hlinks] at hyt hzt
    by_cases hyd : y = (d, pdx va)
    · by_cases hzd : z = (d, pdx va)
      · rw [hyd, hzd]
      · rw [hyd, Function.update_self] at hyt
        rw [Function.update_of_ne hzd, ← hyt] at hzt
        exact absurd hzt hnever
    · rw [Function.update_of_ne hyd] at hyt
      by_cases hzd : z = (d, pdx va)
      · rw [hzd, Function.update_self] at hzt
        exact absurd (hyt.trans hzt.symm) hnever
      · rw [Function.update_of_ne hzd] at hzt
        exact h.unshared y z t' hy' hz' hyt hzt
  · have hdt' : d' ≠ t := hroot (y := (d', j)) hd'
    rw [hother hdt'] at hd'
    have hne : (d', j) ≠ (d, pdx va) := fun heq => by
      rw [(Prod.mk.inj heq).2] at hj
      exact absurd (pdx_lt hva) (not_lt.mpr hj)
    rw [load_withTable_ne hne hdt'] at hpresent ⊢
    refine (h.kernelPart d' j hd' hj hpresent).imp_left fun hkernel => ?_
    have htarget : pgnum (m.load (d', j)) ≠ t := fun heq => by
      rw [heq, ht] at hkernel
      cases hkernel
    rw [hother htarget, hkernel]
  -- the counters: `t` goes from zero to one
  · have hadd := refCount_update (links m use) (d, pdx va) (some t) pp
    rw [hnone, if_neg (Option.some_ne_none pp).symm, Nat.add_zero] at hadd
    rw [hlinks, hadd]
    have hcount := h.counted pp
    by_cases hp : pp = t
    · subst hp
      rw [ref_withTable_self, h.ref_free ht, if_pos rfl]
      rw [h.ref_free ht] at hcount
      have hzero : (0 : BitVec 16).toNat = 0 := rfl
      have hone : (0 + 1 : BitVec 16).toNat = 1 := rfl
      omega
    · rw [ref_withTable_ne hp, if_neg fun heq => hp (Option.some.inj heq).symm]
      exact hcount
  · have hp : pp ≠ t := fun heq => by
      rw [heq, hself] at hpp
      cases hpp
    rw [hother hp] at hpp
    exact h.unowned pp hpp

/-- A page directory gives up an empty page table.  Where user pages map the table it goes on as a
page like any other. -/
theorem dropTable (h : Accurate m owned use) (hd : use d = .pgdir) (hk : k.val < PDX_UTOP)
    (hlink : links m use (d, k) = some t) (hempty : ∀ j, m.load (t, j) = 0) :
    Accurate ((decref m t).store (d, k) 0) owned
      (Function.update use t (if m.ref t = 1 then .free else .data)) := by
  obtain ⟨u, hu⟩ : ∃ u, u = if m.ref t = 1 then Use.free else .data := ⟨_, rfl⟩
  rw [← hu]
  have hu' : (m.ref t = 1 ∧ u = .free) ∨ (m.ref t ≠ 1 ∧ u = .data) := by
    rw [hu]
    by_cases hone : m.ref t = 1
    · exact .inl ⟨hone, if_pos hone⟩
    · exact .inr ⟨hone, if_neg hone⟩
  have ht : use t = .table := by
    rcases (h.use_of_links hlink).2 with ⟨-, ht⟩ | ⟨hd', -⟩
    · exact ht
    · rw [hd] at hd'
      cases hd'
  have hself : Function.update use t u t = u := Function.update_self ..
  have hother : ∀ {p}, p ≠ t → Function.update use t u p = use p := fun {p} hp =>
    Function.update_of_ne hp ..
  -- a frame that is a directory or a table afterwards was one before, and is not `t`
  have hkind : ∀ {p v}, Function.update use t u p = v → v ≠ .free → v ≠ .data →
      p ≠ t ∧ use p = v := by
    intro p v hp hfree hdata
    have hne : p ≠ t := fun heq => by
      rw [heq, hself] at hp
      rcases hu' with ⟨-, hu'⟩ | ⟨-, hu'⟩ <;> rw [hu'] at hp
      · exact hfree hp.symm
      · exact hdata hp.symm
    exact ⟨hne, (hother hne).symm.trans hp⟩
  have hload : ∀ y, y ≠ (d, k) → ((decref m t).store (d, k) 0).load y = m.load y := fun y hy =>
    (Mem.load_store_ne hy).trans load_decref
  have hdt : d ≠ t := fun heq => by
    rw [heq, ht] at hd
    cases hd
  -- the entries of `t` are empty, so only the reference from `d` goes away
  have hlinks : links ((decref m t).store (d, k) 0) (Function.update use t u) =
      Function.update (links m use) (d, k) none := by
    funext y
    by_cases hy : y = (d, k)
    · rw [hy, Function.update_self]
      exact if_neg fun hand => hand.2 Mem.load_store_self
    · rw [Function.update_of_ne hy]
      by_cases hyt : y.1 = t
      · obtain ⟨f, j⟩ := y
        obtain rfl : f = t := hyt
        rw [links, if_neg fun hand => hand.2 ((hload _ hy).trans (hempty j)), links,
          if_neg fun hand => hand.2 (hempty j)]
      · simp only [links, isEntry_update_ne hyt, hload y hy]
  have hsub : ∀ p, refCount (links ((decref m t).store (d, k) 0) (Function.update use t u)) p +
      (if p = t then 1 else 0) = refCount (links m use) p := fun p => by
    have hadd := refCount_update (links m use) (d, k) none p
    rw [hlink, if_neg (Option.some_ne_none p).symm, Nat.add_zero] at hadd
    rw [hlinks, ← hadd]
    simp only [Option.some.injEq, eq_comm]
  have hle := h.one_le_ref hlink
  -- `t` is freed only when no page table maps it as a page
  have hlast : u = .free → owned t = 0 ∧ refCount (links m use) t = 1 := fun hfree => by
    have hone : m.ref t = 1 := by
      rcases hu' with ⟨hone, -⟩ | ⟨-, hdata⟩
      · exact hone
      · rw [hdata] at hfree
        cases hfree
    have hcount := h.counted t
    have hpos := refCount_pos hlink
    have hnat : (m.ref t).toNat = 1 := by
      rw [hone]
      rfl
    omega
  refine ⟨?_, fun pp hpp => ?_, fun pp hpp => ?_, fun y hy hne => ?_, fun t' ht' => ?_,
    fun y z t' hy hz hyt hzt => ?_, fun d' j hd' hj hpresent => ?_, fun pp => ?_, fun pp hpp => ?_⟩
  · obtain ⟨l, hl, hnodup, hmem⟩ := h.freeList_release (q := t) (w := 0) (by rw [ht]; decide)
    refine ⟨l, hl.congr ⟨rfl, rfl, rfl, fun _ => rfl⟩, hnodup, fun p => ?_⟩
    rw [hmem, release]
    rcases hu' with ⟨hone, hu'⟩ | ⟨hne, hu'⟩
    · rw [if_pos hone, hu']
    · rw [if_neg hne]
      by_cases hp : p = t
      · rw [hp, hself, ht, hu']
        exact iff_of_false (by decide) (by decide)
      · rw [hother hp]
  · have hnpages : ((decref m t).store (d, k) 0).npages = m.npages := npages_decref
    rw [hnpages]
    by_cases hp : pp = t
    · exact hp ▸ h.memory t (.inr ht)
    · rw [hother hp] at hpp
      exact h.memory pp hpp
  · by_cases hp : pp = t
    · subst hp
      rw [hself] at hpp
      have hne : m.ref pp ≠ 1 := by
        rcases hu' with ⟨-, hu'⟩ | ⟨hne, -⟩
        · exact absurd hu' hpp
        · exact hne
      exact (link_decref_shared hne).trans (h.unlinked pp (by rw [ht]; decide))
    · rw [hother hp] at hpp
      exact (link_decref_ne hp).trans (h.unlinked pp hpp)
  · have hyd : y ≠ (d, k) := fun heq => by
      rw [heq] at hne
      exact hne Mem.load_store_self
    have hsome : links ((decref m t).store (d, k) 0) (Function.update use t u) y =
        some (pgnum (((decref m t).store (d, k) 0).load y)) := links_eq_some.mpr ⟨hy, hne, rfl⟩
    have hpos := refCount_pos hsome
    rw [hlinks, Function.update_of_ne hyd] at hsome
    rw [hload y hyd] at hsome hpos ⊢
    obtain ⟨hentry, hne', -⟩ := links_eq_some.mp hsome
    obtain ⟨hpresent, htable, hpage⟩ := h.entries y hentry hne'
    refine ⟨hpresent, fun hd' => ?_, fun ht' => ?_⟩
    · have hd' := (hkind hd' (by decide) (by decide)).2
      have htarget : pgnum (m.load y) ≠ t := fun heq => by
        rw [heq] at hsome
        exact hyd (h.unshared y (d, k) t hd' hd hsome hlink)
      rw [hother htarget]
      exact htable hd'
    · have ht' := (hkind ht' (by decide) (by decide)).2
      refine (hpage ht').congr npages_decref (fun hor => ?_) id
      by_cases hp : pgnum (m.load y) = t
      · -- the table is still mapped, so its entry was not the last reference
        rw [hp, hself]
        rcases hu' with ⟨-, hfree⟩ | ⟨-, hdata⟩
        · have hone := (hlast hfree).2
          have hcount := hsub t
          rw [hp] at hpos
          rw [if_pos rfl] at hcount
          omega
        · exact .inl hdata
      · rwa [hother hp]
  · obtain ⟨hne, ht'⟩ := hkind ht' (by decide) (by decide)
    obtain ⟨y, hy, hyt⟩ := h.rooted t' ht'
    have hyd : y ≠ (d, k) := fun heq => by
      rw [heq, hlink] at hyt
      exact hne (Option.some.inj hyt).symm
    have hyt' : y.1 ≠ t := fun heq => by
      rw [heq, ht] at hy
      cases hy
    exact ⟨y, (hother hyt').trans hy, by rw [hlinks, Function.update_of_ne hyd, hyt]⟩
  -- references that are left were there before
  · have hnone : ∀ {y}, links ((decref m t).store (d, k) 0) (Function.update use t u) y = some t' →
        links m use y = some t' := fun {y} hy => by
      rw [hlinks] at hy
      by_cases hyd : y = (d, k)
      · rw [hyd, Function.update_self] at hy
        cases hy
      · rwa [Function.update_of_ne hyd] at hy
    exact h.unshared y z t' (hkind hy (by decide) (by decide)).2
      (hkind hz (by decide) (by decide)).2
      (hnone hyt) (hnone hzt)
  · have hd' := (hkind hd' (by decide) (by decide)).2
    have hne : (d', j) ≠ (d, k) := fun heq => by
      rw [(Prod.mk.inj heq).2] at hj
      exact absurd hk (not_lt.mpr hj)
    rw [hload _ hne] at hpresent ⊢
    refine (h.kernelPart d' j hd' hj hpresent).imp_left fun hkernel => ?_
    have htarget : pgnum (m.load (d', j)) ≠ t := fun heq => by
      rw [heq, ht] at hkernel
      cases hkernel
    rw [hother htarget, hkernel]
  -- the counters: `t` has lost one reference
  · have hcount := h.counted pp
    have hsubp := hsub pp
    rw [Mem.ref_store]
    by_cases hp : pp = t
    · subst hp
      have hone : (1 : BitVec 16).toNat = 1 := rfl
      rw [if_pos rfl] at hsubp
      rw [ref_decref_self, BitVec.toNat_sub_of_le (by rw [BitVec.le_def, hone]; exact hle), hone]
      omega
    · rw [if_neg hp] at hsubp
      rw [ref_decref_ne hp]
      omega
  · by_cases hp : pp = t
    · subst hp
      rw [hself] at hpp
      exact (hlast hpp).1
    · rw [hother hp] at hpp
      exact h.unowned pp hpp

end Accurate

end JosSched
