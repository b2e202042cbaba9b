import JosSched.Vm.Pages

/-!
# Page tables as maps

`page_lookup` reads `leaf`, and `page_remove` and `page_insert` change it at one page.
-/

open Except

namespace JosSched

variable {pool : Set Ppn} {lost : Set (Ppn × Use)} {m m' : Mem} {dirs : Slot → Option Ppn}
  {held : Option Ppn}
  {use use' : Ppn → Use} {d d' pp q : Ppn} {x : PteRef} {va va' perm : Word} {r : ℤ}

/-- Frames of user data may have been freed, and nothing else has changed its use. -/
def FreesData (use use' : Ppn → Use) : Prop :=
  ∀ q, use' q = use q ∨ use q = .data ∧ use' q = .free

/-- A page table may have been allocated, and nothing else has changed its use. -/
def TakesTable (use use' : Ppn → Use) : Prop :=
  ∀ q, use' q = use q ∨ use q = .free ∧ use' q = .table

theorem leaf_of_pde (h : m.load (d, pdx va) ≠ 0) : leaf m d va = m.load (cell m d va) := if_neg h

theorem pde_ne_zero_of_leaf (h : leaf m d va ≠ 0) : m.load (d, pdx va) ≠ 0 := fun hpde => by
  rw [leaf, if_pos hpde] at h
  exact h rfl

/-- All addresses of a page have one mapping. -/
theorem leaf_samePage (h : SamePage va va') : leaf m d va = leaf m d va' := by
  unfold leaf cell
  rw [h.1, h.2]

/-- Mappings are the same where the entries on the way are. -/
theorem leaf_congr (hpde : m'.load (d, pdx va) = m.load (d, pdx va))
    (hpte : m.load (d, pdx va) ≠ 0 → m'.load (cell m d va) = m.load (cell m d va)) :
    leaf m' d va = leaf m d va := by
  unfold leaf
  have hcell : cell m' d va = cell m d va := by rw [cell, hpde, cell]
  rw [hpde, hcell]
  split
  · rfl
  · next hne => exact hpte hne

theorem kaddr_ok (h : pp.toNat < m.npages) : kaddr m pp = .ok () := if_neg (not_le.mpr h)

namespace Layout

/-- Writing one entry of a page table changes the mapping of one page. -/
theorem onlyAt_of_load (h : Layout pool lost m dirs held use) (hd : use d = .pgdir)
    (hva : va < UTOP) (hpde : m.load (d, pdx va) ≠ 0)
    (hload : ∀ x, x ≠ cell m d va → m'.load x = m.load x) : OnlyAt use m m' d va := by
  intro d' va' hd' hva' hne
  have htable := (h.table_of_pde hd hva hpde).1
  refine leaf_congr (hload _ fun heq => ?_) fun hpde' => hload _ fun heq => ?_
  · obtain ⟨rfl, -⟩ := Prod.mk.inj heq
    rw [htable] at hd'
    cases hd'
  · obtain ⟨rfl, hpage⟩ := h.cell_inj hd hva hpde hd' hva' hpde' heq.symm
    exact hne ⟨rfl, hpage⟩

/-! ## Lookups -/

theorem pageLookup_eq (h : Layout pool lost m dirs held use) (hd : use d = .pgdir)
    (hva : va < UTOP) : pageLookup m d va =
      .ok (if leaf m d va = 0 then none else some (pgnum (leaf m d va), cell m d va)) := by
  unfold pageLookup pgdirWalk pgdirEntry
  rw [if_neg fun hand => Bool.false_ne_true hand.2]
  by_cases hpde : m.load (d, pdx va) = 0
  · rw [leaf, if_pos hpde, if_pos rfl]
    dsimp only [bind, Except.bind]
    rw [if_neg (not_not.mpr hpde)]
    rfl
  · have htable := h.table_of_pde hd hva hpde
    have hkaddr := kaddr_ok (h.memory _ (h.mem_pool (by rw [htable.1]; decide)))
    dsimp only [bind, Except.bind]
    rw [if_pos hpde, hkaddr]
    dsimp only [Except.map, pure, Except.pure]
    have hcell : ((pgnum (m.load (d, pdx va)), ptx va) : PteRef) = cell m d va := rfl
    rw [leaf_of_pde hpde, hcell]
    by_cases hpte : m.load (cell m d va) = 0
    · rw [if_pos hpte, if_pos hpte]
    · have hleaf : leaf m d va ≠ 0 := by rwa [leaf_of_pde hpde]
      obtain ⟨pp, perm, hdata, hperm, heq⟩ := h.data_of_leaf hd hva hleaf
      rw [leaf_of_pde hpde] at heq
      have hpp := h.memory pp (h.mem_pool (by rw [hdata]; decide))
      have hpage : pa2page m (m.load (cell m d va)) = .ok (pgnum (m.load (cell m d va))) := by
        rw [heq, pa2page, pgnum_userEntry hperm, if_neg (not_le.mpr hpp)]
      rw [if_neg hpte, if_neg hpte, hpage]

/-! ## Removal -/

theorem pageRemove (h : Layout pool lost m dirs held use) (hd : use d = .pgdir) (hva : va < UTOP)
    (hrm : JosSched.pageRemove m d va = .ok m') :
    ∃ use', Layout pool lost m' dirs held use' ∧ FreesData use use' ∧ leaf m' d va = 0 ∧
      m'.load (d, pdx va) = m.load (d, pdx va) ∧
      (∀ x, x ≠ cell m d va → m'.load x = m.load x) ∧ OnlyAt use m m' d va := by
  unfold JosSched.pageRemove at hrm
  rw [h.pageLookup_eq hd hva] at hrm
  dsimp only [bind, Except.bind] at hrm
  by_cases hleaf : leaf m d va = 0
  · rw [if_pos hleaf] at hrm
    obtain rfl := Except.ok.inj hrm
    exact ⟨use, h, fun _ => .inl rfl, hleaf, rfl, fun _ _ => rfl, fun _ _ _ _ _ => rfl⟩
  · rw [if_neg hleaf] at hrm
    dsimp only at hrm
    obtain ⟨m₁, hdec, hm'⟩ := bind_eq_ok.mp hrm
    obtain rfl := Except.ok.inj hm'
    have hpde := pde_ne_zero_of_leaf hleaf
    have hentry := h.isEntry_cell hd hva hpde
    have htable := (h.table_of_pde hd hva hpde).1
    have hdata : use (pgnum (leaf m d va)) = .data := by
      obtain ⟨pp, perm, hdata, hperm, heq⟩ := h.data_of_leaf hd hva hleaf
      rw [heq, pgnum_userEntry hperm, hdata]
    have hcell := leaf_of_pde hpde
    have hload : ∀ x, x ≠ cell m d va → (m.store (cell m d va) 0).load x = m.load x :=
      fun x hx => Mem.load_store_ne hx
    have hsome : Sum.elim dirs (links m use) (.inr (cell m d va)) = some (pgnum (leaf m d va)) := by
      rw [hcell] at hleaf ⊢
      exact links_eq_some.mpr ⟨hentry, hleaf, rfl⟩
    have htarget : Sum.elim dirs (links (m.store (cell m d va) 0) use) =
        Function.update (Sum.elim dirs (links m use)) (.inr (cell m d va)) none := by
      rw [links_store hentry, if_pos rfl, Sum.update_elim_inr]
    have hkern : ∀ k, (m.store (cell m d va) 0).load (m.kernPgdir, k) = m.load (m.kernPgdir, k) :=
      fun k => hload _ fun heq => by
        have hker := (h.kernel m.kernPgdir).mpr h.kernPgdir
        rw [(Prod.mk.inj heq).1, htable] at hker
        cases hker
    have hentries : ∀ x, IsEntry use x → EntryOk use x.1 ((m.store (cell m d va) 0).load x) := by
      intro x hx
      by_cases hx' : x = cell m d va
      · rw [hx', Mem.load_store_self]
        exact .empty rfl
      · rw [hload x hx']
        exact h.entries x hx
    -- the page is user data and holds no entries, whatever is stored in it
    have hnoEntry : ∀ k, ¬ IsEntry use (pgnum (leaf m d va), k) := by
      rintro k (⟨huse, -⟩ | huse) <;> dsimp only at huse <;> rw [hdata] at huse <;> cases huse
    obtain ⟨use', hlayout, hreleased, hsame, -⟩ := h.drop .store hkern hentries h.holders hsome
      htarget (fun _ => Mem.ref_store) (fun _ k hk => absurd hk (hnoEntry k))
        (pageDecref_store hdec)
    · have hpde' : (m.store (cell m d va) 0).load (d, pdx va) = m.load (d, pdx va) :=
        hload _ fun heq => by
          rw [(Prod.mk.inj heq).1, htable] at hd
          cases hd
      have hsame' : ∀ x, x ≠ cell m d va → (m₁.store (cell m d va) 0).load x = m.load x :=
        fun x hx => (hsame x).trans (hload x hx)
      refine ⟨use', hlayout, fun q => ?_, ?_, (hsame _).trans hpde', hsame',
        h.onlyAt_of_load hd hva hpde hsame'⟩
      · rcases hreleased with rfl | rfl
        · exact .inl rfl
        · by_cases hq : q = pgnum (leaf m d va)
          · rw [hq, Function.update_self]
            exact .inr ⟨hdata, rfl⟩
          · rw [Function.update_of_ne hq]
            exact .inl rfl
      · have hcell' : cell (m₁.store (cell m d va) 0) d va = cell m d va := by
          rw [cell, hsame, hpde', cell]
        rw [leaf, hcell', Mem.load_store_self]
        exact ite_self 0

/-- Removing a mapping gives no frame another reference. -/
theorem pageRemove_ref (h : Layout pool lost m dirs held use) (hd : use d = .pgdir)
    (hva : va < UTOP) (hrm : JosSched.pageRemove m d va = .ok m') (q : Ppn) :
    (m'.ref q).toNat ≤ (m.ref q).toNat := by
  unfold JosSched.pageRemove at hrm
  rw [h.pageLookup_eq hd hva] at hrm
  dsimp only [bind, Except.bind] at hrm
  by_cases hleaf : leaf m d va = 0
  · rw [if_pos hleaf] at hrm
    obtain rfl := Except.ok.inj hrm
    exact le_rfl
  · rw [if_neg hleaf] at hrm
    dsimp only at hrm
    obtain ⟨m₁, hdec, hm'⟩ := bind_eq_ok.mp hrm
    obtain rfl := Except.ok.inj hm'
    have hpde := pde_ne_zero_of_leaf hleaf
    rw [Mem.ref_store]
    by_cases hq : q = pgnum (leaf m d va)
    · -- the entry refers to it, so it has been counted
      obtain ⟨pp, perm, hdata, hperm, heq⟩ := h.data_of_leaf hd hva hleaf
      have hpp : pgnum (leaf m d va) = pp := by rw [heq, pgnum_userEntry hperm]
      have hlink : Sum.elim dirs (links m use) (.inr (cell m d va)) = some q := by
        rw [hq]
        rw [leaf_of_pde hpde] at hleaf ⊢
        exact links_eq_some.mpr ⟨h.isEntry_cell hd hva hpde, hleaf, rfl⟩
      have hpos : 0 < refs m dirs use q := refCount_pos hlink
      have hcount := h.counted q (h.mem_pool (by rw [hq, hpp, hdata]; decide))
      have hle : 1 ≤ (m.ref q).toNat := by omega
      rw [← hq] at hdec
      rw [ref_of_pageDecref hdec, BitVec.toNat_sub_of_le hle]
      exact Nat.sub_le ..
    · rw [ref_of_pageDecref_ne hdec hq]

end Layout

end JosSched
