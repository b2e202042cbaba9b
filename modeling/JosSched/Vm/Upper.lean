import JosSched.Vm.Space

/-!
# The part of a page directory above `UTOP`

`page_insert`, `page_remove` and `env_free` write page tables and the entries of page directories
below `UTOP`, and stores of a process reach its own pages.  So what the kernel put into its own
page directory at boot, and `env_setup_vm` into that of an environment above `UTOP`, stays
(`SameUpper`).
-/

open Except

namespace JosSched

variable {pool : Set Ppn} {lost : Set (Ppn × Use)} {m m' m₁ : Mem} {dirs : Slot → Option Ppn}
  {held : Option Ppn} {use : Ppn → Use} {d f p pp q : Ppn} {x : PteRef} {va perm w : Word}
  {r : ℤ} {pdeno : Idx}

/-- Neither the kernel nor a page directory uses the frame. -/
def Lower (use : Ppn → Use) (f : Ppn) : Prop := use f ≠ .kernel ∧ use f ≠ .pgdir

/-- The frames of the kernel are the same, and so are the page directories above `UTOP`. -/
structure SameUpper (use : Ppn → Use) (m m' : Mem) : Prop where
  npages : m'.npages = m.npages
  kernPgdir : m'.kernPgdir = m.kernPgdir
  kernel : ∀ x, use x.1 = .kernel → m'.load x = m.load x
  pgdir : ∀ x, use x.1 = .pgdir → PDX_UTOP ≤ x.2.val → m'.load x = m.load x

theorem lower_of_use (h : use f = .free ∨ use f = .table ∨ use f = .data) : Lower use f := by
  rcases h with h | h | h <;> rw [Lower, h] <;> exact ⟨by decide, by decide⟩

/-- The page table for `va`, if there is one, is neither of the kernel nor a page directory. -/
def LowerTable (use : Ppn → Use) (m : Mem) (d : Ppn) (va : Word) : Prop :=
  m.load (d, pdx va) ≠ 0 → Lower use (pgnum (m.load (d, pdx va)))

theorem Layout.lowerTable (h : Layout pool lost m dirs held use) (hd : use d = .pgdir)
    (hva : va < UTOP) : LowerTable use m d va := fun hpde =>
  lower_of_use (.inr (.inl (h.table_of_pde hd hva hpde).1))

namespace SameUpper

theorem refl : SameUpper use m m := ⟨rfl, rfl, fun _ _ => rfl, fun _ _ _ => rfl⟩

theorem trans (h : SameUpper use m m₁) (h' : SameUpper use m₁ m') : SameUpper use m m' where
  npages := h'.npages.trans h.npages
  kernPgdir := h'.kernPgdir.trans h.kernPgdir
  kernel x hx := (h'.kernel x hx).trans (h.kernel x hx)
  pgdir x hx hk := (h'.pgdir x hx hk).trans (h.pgdir x hx hk)

/-- A word is written that is not of the upper part. -/
theorem store (hx : Lower use x.1 ∨ use x.1 = .pgdir ∧ x.2.val < PDX_UTOP) :
    SameUpper use m (m.store x w) := by
  refine ⟨rfl, rfl, fun y hy => Mem.load_store_ne ?_, fun y hy hk => Mem.load_store_ne ?_⟩
  · rintro rfl
    rcases hx with hx | ⟨hx, -⟩
    · exact hx.1 hy
    · rw [hx] at hy
      cases hy
  · rintro rfl
    rcases hx with hx | ⟨-, hx⟩
    · exact hx.2 hy
    · exact absurd hx (not_lt.mpr hk)

theorem setRef {r : BitVec 16} (h : SameUpper use m m') : SameUpper use m (m'.setRef q r) :=
  ⟨h.npages, h.kernPgdir, h.kernel, h.pgdir⟩

/-- Nothing but frame `f` has been written. -/
theorem of_load_ne (hf : Lower use f) (hnpages : m'.npages = m.npages)
    (hkern : m'.kernPgdir = m.kernPgdir) (hload : ∀ x, x.1 ≠ f → m'.load x = m.load x) :
    SameUpper use m m' := by
  refine ⟨hnpages, hkern, fun x hx => hload x ?_, fun x hx _ => hload x ?_⟩
  · rintro rfl
    exact hf.1 hx
  · rintro rfl
    exact hf.2 hx

theorem pageDecref (h : JosSched.pageDecref m pp = .ok m') : SameUpper use m m' := by
  refine ⟨?_, ?_, fun x _ => load_of_pageDecref h x, fun x _ _ => load_of_pageDecref h x⟩
  · rcases pageDecref_eq_ok h with ⟨-, rfl⟩ | ⟨-, -, rfl⟩ <;> rfl
  · rcases pageDecref_eq_ok h with ⟨-, rfl⟩ | ⟨-, -, rfl⟩ <;> rfl

/-- A page comes off the free list, and may be zeroed. -/
theorem pageAlloc {zero : Bool} (h : JosSched.pageAlloc m zero = .ok (some p, m'))
    (hp : Lower use p) : SameUpper use m m' := by
  rcases pageAlloc_eq_ok h with ⟨hnone, -⟩ | ⟨q, hq, -, rfl⟩
  · cases hnone
  obtain rfl := Option.some.inj hq
  cases zero with
  | false => exact ⟨rfl, rfl, fun _ _ => rfl, fun _ _ _ => rfl⟩
  | true =>
      refine of_load_ne hp rfl rfl fun x hx => ?_
      exact load_fill_ne hx

end SameUpper

/-! ## Mapping and unmapping pages -/

/-- The entry that `page_lookup` finds is in the page table for `va`. -/
theorem pageLookup_some {pte : PteRef} (h : pageLookup m d va = .ok (some (pp, pte))) :
    m.load (d, pdx va) ≠ 0 ∧ pte = cell m d va := by
  unfold pageLookup pgdirWalk pgdirEntry at h
  rw [if_neg fun hand => Bool.false_ne_true hand.2] at h
  by_cases hpde : m.load (d, pdx va) = 0
  · dsimp only [bind, Except.bind] at h
    rw [if_neg (not_not.mpr hpde)] at h
    cases h
  · refine ⟨hpde, ?_⟩
    obtain ⟨⟨pte', m₁⟩, hwalk, hfound⟩ := bind_eq_ok.mp h
    dsimp only [bind, Except.bind] at hwalk
    rw [if_pos hpde] at hwalk
    obtain ⟨found, hentry, hpair⟩ := bind_eq_ok.mp hwalk
    obtain ⟨-, -, rfl⟩ := map_eq_ok.mp hentry
    obtain ⟨rfl, rfl⟩ := Prod.mk.inj (Except.ok.inj hpair)
    dsimp only at hfound
    split at hfound
    · cases Except.ok.inj hfound
    · obtain ⟨page, -, hpair⟩ := bind_eq_ok.mp hfound
      exact (Prod.mk.inj (Option.some.inj (Except.ok.inj hpair))).2.symm

/-- `page_remove` writes one word at most, the entry that it empties. -/
theorem load_of_pageRemove (h : pageRemove m d va = .ok m')
    (hx : m.load (d, pdx va) ≠ 0 → x ≠ cell m d va) : m'.load x = m.load x := by
  unfold pageRemove at h
  obtain ⟨found, hlookup, h⟩ := bind_eq_ok.mp h
  cases found with
  | none =>
      obtain rfl := Except.ok.inj h
      rfl
  | some found =>
      obtain ⟨pp, pte⟩ := found
      obtain ⟨hpde, rfl⟩ := pageLookup_some hlookup
      obtain ⟨m₁, hdec, hm'⟩ := bind_eq_ok.mp h
      obtain rfl := Except.ok.inj hm'
      rw [Mem.load_store_ne (hx hpde), load_of_pageDecref hdec]

theorem size_of_pageRemove (h : pageRemove m d va = .ok m') :
    m'.npages = m.npages ∧ m'.kernPgdir = m.kernPgdir := by
  unfold pageRemove at h
  obtain ⟨found, -, h⟩ := bind_eq_ok.mp h
  cases found with
  | none =>
      obtain rfl := Except.ok.inj h
      exact ⟨rfl, rfl⟩
  | some found =>
      obtain ⟨m₁, hdec, hm'⟩ := bind_eq_ok.mp h
      obtain rfl := Except.ok.inj hm'
      rcases pageDecref_eq_ok hdec with ⟨-, rfl⟩ | ⟨-, -, rfl⟩ <;> exact ⟨rfl, rfl⟩

namespace SameUpper

theorem pageRemove (htable : LowerTable use m d va)
    (h : JosSched.pageRemove m d va = .ok m') : SameUpper use m m' := by
  obtain ⟨hnpages, hkern⟩ := size_of_pageRemove h
  refine ⟨hnpages, hkern, fun x hx => load_of_pageRemove h fun hpde heq => ?_,
    fun x hx _ => load_of_pageRemove h fun hpde heq => ?_⟩
  · rw [heq] at hx
    exact (htable hpde).1 hx
  · rw [heq] at hx
    exact (htable hpde).2 hx

/-- `pgdir_walk` puts the new page table into the lower part of the directory. -/
theorem pgdirCreate (hhead : ∀ t, m.pageFreeList = some t → Lower use t) (hd : use d = .pgdir)
    (hva : va < UTOP) (hpde : m.load (d, pdx va) = 0)
    (h : JosSched.pgdirCreate m d va = .ok m') : SameUpper use m m' ∧ LowerTable use m' d va := by
  unfold JosSched.pgdirCreate at h
  obtain ⟨⟨page, m₁⟩, halloc, h⟩ := bind_eq_ok.mp h
  cases page with
  | none =>
      obtain rfl := Except.ok.inj h
      rcases pageAlloc_eq_ok halloc with ⟨-, -, rfl⟩ | ⟨t, ht, -⟩
      · exact ⟨.refl, fun hne => absurd hpde hne⟩
      · cases ht
  | some t =>
      have hlower : Lower use t := by
        rcases pageAlloc_eq_ok halloc with ⟨hnone, -⟩ | ⟨t', ht', hfirst, -⟩
        · cases hnone
        · exact Option.some.inj ht' ▸ hhead t' hfirst
      have hm' : (m₁.setRef t (m₁.ref t + 1)).store (d, pdx va) (tableEntry t) = m' :=
        Except.ok.inj h
      have hsame := (SameUpper.pageAlloc halloc hlower).setRef (q := t) (r := m₁.ref t + 1)
      rw [← hm']
      refine ⟨hsame.trans (.store (.inr ⟨hd, pdx_lt hva⟩)), fun _ => ?_⟩
      rw [Mem.load_store_self, pgnum_tableEntry]
      exact hlower

theorem pgdirWalk {pte : Option PteRef} {create : Bool}
    (hhead : ∀ t, m.pageFreeList = some t → Lower use t) (hd : use d = .pgdir) (hva : va < UTOP)
    (htable : LowerTable use m d va) (h : JosSched.pgdirWalk m d va create = .ok (pte, m')) :
    SameUpper use m m' ∧ LowerTable use m' d va ∧
      ∀ x, pte = some x → m'.load (d, pdx va) ≠ 0 ∧ x = cell m' d va := by
  unfold JosSched.pgdirWalk at h
  obtain ⟨m₁, hcreate, h⟩ := bind_eq_ok.mp h
  obtain ⟨pte', hentry, h⟩ := bind_eq_ok.mp h
  obtain ⟨rfl, rfl⟩ := Prod.mk.inj (Except.ok.inj h)
  have hsame : SameUpper use m m₁ ∧ LowerTable use m₁ d va := by
    split at hcreate
    · next hpde => exact pgdirCreate hhead hd hva hpde.1 hcreate
    · obtain rfl := Except.ok.inj hcreate
      exact ⟨.refl, htable⟩
  refine ⟨hsame.1, hsame.2, fun x hx => ?_⟩
  unfold pgdirEntry at hentry
  dsimp only at hentry
  split at hentry
  · next hpde =>
      obtain ⟨-, -, hsome⟩ := map_eq_ok.mp hentry
      exact ⟨hpde, (Option.some.inj (hsome.trans hx)).symm⟩
  · rw [← Except.ok.inj hentry] at hx
    cases hx

theorem pageInsert (h : Layout pool lost m dirs held use) (hd : use d = .pgdir) (hva : va < UTOP)
    (hins : JosSched.pageInsert m d pp va perm = .ok (r, m')) : SameUpper use m m' := by
  have hhead : ∀ t, m.pageFreeList = some t → Lower use t := fun t ht =>
    lower_of_use (.inl (h.use_of_head ht))
  unfold JosSched.pageInsert at hins
  obtain ⟨⟨pte, m₁⟩, hwalk, hins⟩ := bind_eq_ok.mp hins
  obtain ⟨hsame, htable, hcell⟩ := pgdirWalk hhead hd hva (h.lowerTable hd hva) hwalk
  cases pte with
  | none =>
      obtain ⟨-, rfl⟩ := Prod.mk.inj (Except.ok.inj hins)
      exact hsame
  | some pte =>
      obtain ⟨hpde, rfl⟩ := hcell pte rfl
      obtain ⟨m₂, hremove, hins⟩ := bind_eq_ok.mp hins
      obtain ⟨-, rfl⟩ := Prod.mk.inj (Except.ok.inj hins)
      have htable' : LowerTable use (m₁.setRef pp (m₁.ref pp + 1)) d va := htable
      exact (hsame.setRef.trans (pageRemove htable' hremove)).trans (.store (.inl (htable hpde)))

end SameUpper

/-! ## Emptying an address space -/

/-- While `env_free` empties page directory `d`: what the directory still names below `UTOP` are
page tables. -/
structure Sweeping (use : Ppn → Use) (m : Mem) (d : Ppn) (m' : Mem) : Prop where
  same : SameUpper use m m'
  tables : ∀ k : Idx, k.val < PDX_UTOP →
    m'.load (d, k) ≠ 0 → use (pgnum (m'.load (d, k))) = .table

namespace Sweeping

theorem unmapTable {pt : Ppn} (h : Sweeping use m d m₁) (hd : use d = .pgdir)
    (hpdeno : pdeno.val < PDX_UTOP) (hunmap : JosSched.unmapTable m₁ d pdeno pt = .ok m') :
    Sweeping use m d m' := by
  unfold JosSched.unmapTable at hunmap
  refine (Ensures.foldlM (I := Sweeping use m d) (E := fun _ => True) _ h
    fun m₁ k _ h₁ => ⟨fun m₂ hm₂ => ?_, fun _ _ => trivial⟩).of_ok m' hunmap
  split at hm₂
  · have htable : m₁.load (d, pdx (pgaddr pdeno k)) ≠ 0 →
        use (pgnum (m₁.load (d, pdx (pgaddr pdeno k)))) = .table := by
      rw [pdx_pgaddr]
      exact h₁.tables pdeno hpdeno
    have hlower : LowerTable use m₁ d (pgaddr pdeno k) := fun hpde =>
      lower_of_use (.inr (.inl (htable hpde)))
    refine ⟨h₁.same.trans (.pageRemove hlower hm₂), fun k' hk' => ?_⟩
    rw [load_of_pageRemove hm₂ fun hpde heq => ?_]
    · exact h₁.tables k' hk'
    · -- the entry that is emptied is in a page table
      have hentry := htable hpde
      rw [show pgnum (m₁.load (d, pdx (pgaddr pdeno k))) = d from (Prod.mk.inj heq).1.symm, hd]
        at hentry
      cases hentry
  · obtain rfl := Except.ok.inj hm₂
    exact h₁

theorem unmapPde (h : Sweeping use m d m₁) (hd : use d = .pgdir) (hpdeno : pdeno.val < PDX_UTOP)
    (hunmap : JosSched.unmapPde d m₁ pdeno = .ok m') : Sweeping use m d m' := by
  unfold JosSched.unmapPde at hunmap
  dsimp only at hunmap
  split at hunmap
  · obtain rfl := Except.ok.inj hunmap
    exact h
  · obtain ⟨_, -, hunmap⟩ := bind_eq_ok.mp hunmap
    obtain ⟨m₂, htable, hunmap⟩ := bind_eq_ok.mp hunmap
    obtain ⟨pp, -, hdec⟩ := bind_eq_ok.mp hunmap
    have h₂ := h.unmapTable hd hpdeno htable
    refine ⟨(h₂.same.trans (.store (.inr ⟨hd, hpdeno⟩))).trans (.pageDecref hdec),
      fun k hk => ?_⟩
    rw [load_of_pageDecref hdec]
    by_cases heq : k = pdeno
    · rw [heq, Mem.load_store_self]
      exact fun hne => absurd rfl hne
    · rw [Mem.load_store_ne fun h => heq (Prod.mk.inj h).2]
      exact h₂.tables k hk

end Sweeping

theorem SameUpper.unmapUser (h : Layout pool lost m dirs held use) (hd : use d = .pgdir)
    (hunmap : JosSched.unmapUser m d = .ok m') : SameUpper use m m' := by
  have hstart : Sweeping use m d m := by
    refine ⟨.refl, fun k hk hpde => ?_⟩
    obtain ⟨t, ht, heq⟩ := (h.entries _ (.inl ⟨hd, hk⟩)).of_pgdir hd hpde
    rw [heq, pgnum_tableEntry, ht]
  unfold JosSched.unmapUser at hunmap
  refine Sweeping.same <| (Ensures.foldlM (I := Sweeping use m d) (E := fun _ => True) _ hstart
    fun m₁ k hk h₁ => ⟨fun m₂ hm₂ => ?_, fun _ _ => trivial⟩).of_ok m' hunmap
  exact h₁.unmapPde hd (of_decide_eq_true (List.mem_filter.mp hk).2) hm₂

/-! ## Stores -/

namespace SameUpper

theorem storeByte (h : Layout pool lost m dirs none use) (hd : use d = .pgdir) (hva : va < UTOP)
    {b : BitVec 8} (hstore : JosSched.storeByte m d perm va b = some m') : SameUpper use m m' := by
  unfold JosSched.storeByte at hstore
  split at hstore
  · next pp flags hmmu =>
      split at hstore
      · obtain rfl := Option.some.inj hstore
        exact .store (.inl (lower_of_use (.inr (.inr (h.mmu_data hd hva hmmu)))))
      · cases hstore
  · cases hstore

theorem kernStore (h : Layout pool lost m dirs none use) (hd : use d = .pgdir)
    {bytes : List (BitVec 8)} (hva : va.toNat + bytes.length ≤ UTOP.toNat)
    (hstore : JosSched.kernStore m d va bytes = .ok m') : SameUpper use m m' := by
  induction bytes generalizing m va with
  | nil =>
      obtain rfl := Except.ok.inj hstore
      exact .refl
  | cons b rest ih =>
      unfold JosSched.kernStore at hstore
      rw [List.length_cons] at hva
      split at hstore
      · cases hstore
      · next m₁ hbyte =>
          have hlt : va.toNat < UTOP.toNat := by omega
          refine (SameUpper.storeByte h hd hlt hbyte).trans
            (ih (h.storeByte hd hlt hbyte).layout ?_ hstore)
          have htop : UTOP.toNat = 0xeec00000 := rfl
          have hnext : (va + 1).toNat = va.toNat + 1 := by
            rw [htop] at hlt
            bv_omega
          omega

/-! ## New page directories -/

/-- `env_setup_vm` copies the page directory of the kernel, and maps the new one into itself. -/
theorem newPgdir (h : Layout pool lost m dirs none use)
    (halloc : JosSched.pageAlloc m true = .ok (some p, m₁)) :
    SameUpper use m (JosSched.newPgdir m₁ p) ∧ ∀ k, (JosSched.newPgdir m₁ p).load (p, k) =
      if k = pdxUvpt then page2pa p ||| PTE_P ||| PTE_U else m.load (m.kernPgdir, k) := by
  have hfree : use p = .free := by
    rcases pageAlloc_eq_ok halloc with ⟨hnone, -⟩ | ⟨q, hq, hhead, -⟩
    · cases hnone
    · exact Option.some.inj hq ▸ h.use_of_head hhead
  have hlower : Lower use p := lower_of_use (.inl hfree)
  have hsame := SameUpper.pageAlloc halloc hlower
  have hkern := (h.kernel m.kernPgdir).mpr h.kernPgdir
  refine ⟨hsame.trans ?_, fun k => ?_⟩
  · refine of_load_ne hlower rfl rfl fun x hx => ?_
    have hne : x ≠ (p, pdxUvpt) := fun heq => hx (congrArg Prod.fst heq)
    exact (Mem.load_store_ne hne).trans (load_fill_ne hx)
  · unfold JosSched.newPgdir
    dsimp only
    by_cases hk : k = pdxUvpt
    · rw [if_pos hk, hk, Mem.load_store_self]
    · rw [if_neg hk, Mem.load_store_ne fun heq => hk (Prod.mk.inj heq).2]
      have hfill : (m₁.fill p (m₁.phys m₁.kernPgdir)).load (p, k) = m₁.load (m₁.kernPgdir, k) :=
        load_fill_self
      rw [Mem.load_setRef, hfill, hsame.kernPgdir]
      exact hsame.kernel _ hkern

end SameUpper

end JosSched
