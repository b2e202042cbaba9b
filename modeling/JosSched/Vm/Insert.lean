import JosSched.Vm.Tables

/-!
# Mapping a page

`pgdir_walk` may take a free frame for a page table, which no translation notices.
`page_insert` holds the page while it removes the one that was mapped before, so the page may
well be the same one.
-/

open Except

namespace JosSched

variable {pool : Set Ppn} {lost : Set (Ppn × Use)} {m m' : Mem} {dirs : Slot → Option Ppn}
  {held : Option Ppn}
  {use use' use'' : Ppn → Use} {d d' pp q t : Ppn} {x : PteRef} {va va' perm : Word} {r : ℤ}

/-! ## Frames that change their use -/

/-- A page table may have been allocated and frames of user data freed; nothing else has changed
its use. -/
def Remaps (use use' : Ppn → Use) : Prop :=
  ∀ q, use' q = use q ∨ use q = .free ∧ use' q = .table ∨ use q = .data ∧ use' q = .free

theorem Remaps.refl : Remaps use use := fun _ => .inl rfl

theorem FreesData.remaps (h : FreesData use use') : Remaps use use' := fun q => (h q).imp_right .inr

theorem TakesTable.frees (h : TakesTable use use') (h' : FreesData use' use'') :
    Remaps use use'' := fun q => by
  rcases h q with heq | ⟨hfree, htable⟩
  · exact heq ▸ (h' q).imp_right .inr
  · refine .inr (.inl ⟨hfree, ?_⟩)
    rcases h' q with heq' | ⟨hdata, -⟩
    · exact heq'.trans htable
    · rw [htable] at hdata
      cases hdata

theorem TakesTable.remaps (h : TakesTable use use') : Remaps use use' :=
  h.frees fun _ => .inl rfl

theorem TakesTable.eq_of_ne_free (h : TakesTable use use') (hq : use q ≠ .free) : use' q = use q :=
  (h q).resolve_right fun hand => hq hand.1

theorem Remaps.pgdir (h : Remaps use use') (hd : use d = .pgdir) : use' d = .pgdir := by
  rcases h d with heq | ⟨hfree, -⟩ | ⟨hdata, -⟩
  · exact heq.trans hd
  · rw [hd] at hfree
    cases hfree
  · rw [hd] at hdata
    cases hdata

theorem Remaps.of_pgdir (h : Remaps use use') (hd : use' d = .pgdir) : use d = .pgdir := by
  rcases h d with heq | ⟨-, htable⟩ | ⟨-, hfree⟩
  · exact heq.symm.trans hd
  · rw [htable] at hd
    cases hd
  · rw [hfree] at hd
    cases hd

/-! ## Filling a frame -/

@[simp] theorem load_fill_self {contents : Idx → Word} {k : Idx} :
    (m.fill pp contents).load (pp, k) = contents k := by
  simp [Mem.load, Mem.fill]

theorem load_fill_ne {contents : Idx → Word} (h : x.1 ≠ pp) :
    (m.fill pp contents).load x = m.load x := by
  simp [Mem.load, Mem.fill, h]

@[simp] theorem ref_takePage : (takePage m pp).ref q = m.ref q := by
  by_cases hq : q = pp
  · subst hq
    simp [takePage, Mem.setLink, Mem.ref]
  · simp [takePage, Mem.setLink, Mem.ref, hq]

namespace Layout

/-- `page_alloc(ALLOC_ZERO)`: a zeroed frame with the use it is meant for. -/
theorem pageAlloc (h : Layout pool lost m dirs held use) {u : Use} (hu : u ≠ .kernel)
    (hu' : u ≠ .free) (halloc : JosSched.pageAlloc m true = .ok (some pp, m')) :
    use pp = .free ∧ m' = (takePage m pp).fill pp (fun _ => 0) ∧
      Layout pool (insert (pp, u) lost) m' dirs held (Function.update use pp u) := by
  rcases pageAlloc_eq_ok halloc with ⟨hnone, -⟩ | ⟨p, hp, hhead, rfl⟩
  · cases hnone
  · obtain rfl := Option.some.inj hp
    refine ⟨h.use_of_head hhead, rfl, h.take hhead hu hu' rfl rfl rfl rfl ?_ ?_⟩
    · exact fun x hx => load_fill_ne hx
    · exact fun k _ => load_fill_self

/-- A frame for user data need not be zeroed. -/
theorem pageAllocData (h : Layout pool lost m dirs held use) {zero : Bool}
    (halloc : JosSched.pageAlloc m zero = .ok (some pp, m')) :
    use pp = .free ∧ (∀ q, m'.ref q = m.ref q) ∧ (∀ x, x.1 ≠ pp → m'.load x = m.load x) ∧
      m'.pageFreeList = (m.pages pp).ppLink ∧ m.pageFreeList = some pp ∧
      Layout pool (insert (pp, .data) lost) m' dirs held (Function.update use pp .data) := by
  have hnew : ∀ {m'' : Mem} k, IsEntry (Function.update use pp .data) (pp, k) →
      m''.load (pp, k) = 0 := by
    rintro m'' k (⟨hdata, -⟩ | hdata) <;> dsimp only at hdata <;>
      rw [Function.update_self] at hdata <;> cases hdata
  rcases pageAlloc_eq_ok halloc with ⟨hnone, -⟩ | ⟨p, hp, hhead, rfl⟩
  · cases hnone
  · obtain rfl := Option.some.inj hp
    have hfree := h.use_of_head hhead
    split
    · exact ⟨hfree, fun q => ref_takePage, fun x hx => load_fill_ne hx, rfl, hhead,
        h.take hhead (by decide) (by decide) rfl rfl rfl rfl (fun x hx => load_fill_ne hx) hnew⟩
    · exact ⟨hfree, fun q => ref_takePage, fun x hx => rfl, rfl, hhead,
        h.take hhead (by decide) (by decide) rfl rfl rfl rfl (fun x hx => rfl) hnew⟩

/-! ## Page tables -/

/-- The entry for a fresh page table. -/
theorem linkTable (h : Layout pool (insert (t, .table) lost) m dirs held use) (ht : use t = .table)
    (href : m.ref t = 0) (hd : use d = .pgdir) (hva : va < UTOP)
    (hpde : m.load (d, pdx va) = 0) :
    Layout pool lost ((m.setRef t (m.ref t + 1)).store (d, pdx va) (tableEntry t)) dirs held
      use := by
  have hentry : IsEntry use (d, pdx va) := isEntry_pgdir hd hva
  have hne : tableEntry t ≠ 0 := ne_zero_of_and (tableEntry_present t)
  have hload : ∀ x, x ≠ (d, pdx va) →
      ((m.setRef t (m.ref t + 1)).store (d, pdx va) (tableEntry t)).load x = m.load x :=
    fun x hx => Mem.load_store_ne hx
  have hlist : SameList m ((m.setRef t (m.ref t + 1)).store (d, pdx va) (tableEntry t)) :=
    SameList.setRef.trans .store
  refine h.link hlist (fun k => hload _ fun heq => ?_) (fun x hx => ?_) h.holders
    (a := .inr (d, pdx va)) ?_ ?_ Mem.ref_setRef_self (fun q hq => Mem.ref_setRef_ne hq) ?_
    (fun _ => ?_) le_rfl
  · have hkern := (h.kernel m.kernPgdir).mpr h.kernPgdir
    rw [(Prod.mk.inj heq).1, hd] at hkern
    cases hkern
  · by_cases hx' : x = (d, pdx va)
    · rw [hx', Mem.load_store_self]
      exact .pde hd ht rfl
    · rw [hload x hx']
      exact h.entries x hx
  · exact if_neg fun hand => hand.2 hpde
  · have hlinks : links (m.setRef t (m.ref t + 1)) use = links m use := rfl
    rw [links_store hentry, if_neg hne, pgnum_tableEntry, hlinks, Sum.update_elim_inr]
  · rw [href]
    decide
  · have hcount := h.counted t (h.mem_pool (by rw [ht]; decide))
    rw [href] at hcount
    exact (Nat.add_eq_zero_iff.mp hcount.symm).1

/-- The page table that `pgdir_walk` creates: an empty one, so that no translation changes. -/
theorem pgdirCreate (h : Layout pool lost m dirs held use) (hd : use d = .pgdir) (hva : va < UTOP)
    (hpde : m.load (d, pdx va) = 0) (hcreate : JosSched.pgdirCreate m d va = .ok m') :
    (m' = m ∧ m.pageFreeList = none) ∨
      ∃ use', Layout pool lost m' dirs held use' ∧ TakesTable use use' ∧
        m'.load (d, pdx va) ≠ 0 ∧ (∀ q, use q ≠ .free → m'.ref q = m.ref q) ∧
        (∀ x, use x.1 ≠ .free → x ≠ (d, pdx va) → m'.load x = m.load x) ∧
        ∀ d' va', use d' = .pgdir → va' < UTOP → leaf m' d' va' = leaf m d' va' := by
  unfold JosSched.pgdirCreate at hcreate
  obtain ⟨⟨page, m₁⟩, halloc, hcreate⟩ := bind_eq_ok.mp hcreate
  cases page with
  | none =>
      obtain rfl := Except.ok.inj hcreate
      rcases pageAlloc_eq_ok halloc with ⟨-, hnone, rfl⟩ | ⟨p, hp, -⟩
      · exact .inl ⟨rfl, hnone⟩
      · cases hp
  | some t =>
      have hm' : (m₁.setRef t (m₁.ref t + 1)).store (d, pdx va) (tableEntry t) = m' :=
        Except.ok.inj hcreate
      obtain ⟨hfree, hm₁, h₁⟩ := h.pageAlloc (u := .table) (by decide) (by decide) halloc
      have hzeroed : ∀ k, m₁.load (t, k) = 0 := fun k => by
        rw [hm₁]
        exact load_fill_self
      have hkeep : ∀ x, x.1 ≠ t → m₁.load x = m.load x := fun x hx => by
        rw [hm₁]
        exact load_fill_ne hx
      have href₁ : ∀ q, m₁.ref q = m.ref q := fun q => by
        rw [hm₁]
        exact ref_takePage
      have hne : ∀ {q}, use q ≠ .free → q ≠ t := fun hq heq => hq (heq ▸ hfree)
      have hdt : d ≠ t := hne (by rw [hd]; decide)
      have hd₁ : Function.update use t .table d = .pgdir := by rwa [Function.update_of_ne hdt]
      have ht₁ : Function.update use t .table t = .table := Function.update_self ..
      have h₂ := h₁.linkTable ht₁ ((href₁ t).trans (h.ref_eq_zero hfree)) hd₁ hva
        ((hkeep _ hdt).trans hpde)
      rw [hm'] at h₂
      have hload : ∀ x, x ≠ (d, pdx va) → m'.load x = m₁.load x := fun x hx => by
        rw [← hm']
        exact Mem.load_store_ne hx
      have hnew : m'.load (d, pdx va) = tableEntry t := by rw [← hm', Mem.load_store_self]
      refine .inr ⟨_, h₂, fun q => ?_, ?_, fun q hq => ?_, fun x hx hne' => ?_,
        fun d' va' hd' hva' => ?_⟩
      · by_cases hq : q = t
        · exact .inr ⟨hq ▸ hfree, hq ▸ ht₁⟩
        · exact .inl (Function.update_of_ne hq ..)
      · rw [hnew]
        exact ne_zero_of_and (tableEntry_present t)
      · rw [← hm', Mem.ref_store, Mem.ref_setRef_ne (hne hq), href₁]
      · exact (hload x hne').trans (hkeep x (hne hx))
      -- translations: through the new table there are none, as before through no table
      · by_cases hsame : (d', pdx va') = (d, pdx va)
        · obtain ⟨rfl, hpdx⟩ := Prod.mk.inj hsame
          have hcell : cell m' d' va' = (t, ptx va') := by
            rw [cell, hpdx, hnew, pgnum_tableEntry]
          have hempty : m'.load (t, ptx va') = 0 :=
            (hload _ fun heq => hdt (Prod.mk.inj heq).1.symm).trans (hzeroed _)
          rw [leaf, hcell, hempty, ite_self, leaf, hpdx, if_pos hpde]
        · have hd't : d' ≠ t := hne (by rw [hd']; decide)
          refine leaf_congr ((hload _ hsame).trans (hkeep _ hd't)) fun hpde' => ?_
          have htable := (h.table_of_pde hd' hva' hpde').1
          refine (hload _ fun heq => ?_).trans (hkeep _ (hne (by rw [cell, htable]; decide)))
          have hdtable := (Prod.mk.inj heq).1
          rw [hdtable, hd] at htable
          cases htable

theorem pgdirEntry_eq (h : Layout pool lost m dirs held use) (hd : use d = .pgdir)
    (hva : va < UTOP) (hpde : m.load (d, pdx va) ≠ 0) :
    pgdirEntry m d va = .ok (some (cell m d va)) := by
  have htable := (h.table_of_pde hd hva hpde).1
  unfold pgdirEntry
  dsimp only
  rw [if_pos hpde, kaddr_ok (h.memory _ (h.mem_pool (by rw [htable]; decide)))]
  rfl

/-- `pgdir_walk` with `create`: it fails when there is neither a page table nor a free frame. -/
theorem pgdirWalk {pte : Option PteRef} (h : Layout pool lost m dirs held use)
    (hd : use d = .pgdir) (hva : va < UTOP)
    (hwalk : JosSched.pgdirWalk m d va true = .ok (pte, m')) :
    (pte = none ∧ m' = m ∧ m.pageFreeList = none ∧ m.load (d, pdx va) = 0) ∨
      ∃ use', pte = some (cell m' d va) ∧ Layout pool lost m' dirs held use' ∧
        TakesTable use use' ∧ m'.load (d, pdx va) ≠ 0 ∧ (∀ q, use q ≠ .free → m'.ref q = m.ref q) ∧
        (∀ x, use x.1 ≠ .free → x ≠ (d, pdx va) → m'.load x = m.load x) ∧
        ∀ d' va', use d' = .pgdir → va' < UTOP → leaf m' d' va' = leaf m d' va' := by
  unfold JosSched.pgdirWalk at hwalk
  obtain ⟨m₁, hcreate, hwalk⟩ := bind_eq_ok.mp hwalk
  obtain ⟨pte', hentry, hwalk⟩ := bind_eq_ok.mp hwalk
  obtain ⟨rfl, rfl⟩ := Prod.mk.inj (Except.ok.inj hwalk)
  by_cases hpde : m.load (d, pdx va) = 0
  · rw [if_pos ⟨hpde, rfl⟩] at hcreate
    rcases h.pgdirCreate hd hva hpde hcreate with ⟨rfl, hnone⟩ |
      ⟨use', h', htakes, hpde', href, hload, hleaves⟩
    · unfold pgdirEntry at hentry
      dsimp only at hentry
      rw [if_neg (not_not.mpr hpde)] at hentry
      exact .inl ⟨(Except.ok.inj hentry).symm, rfl, hnone, hpde⟩
    · rw [h'.pgdirEntry_eq (htakes.remaps.pgdir hd) hva hpde'] at hentry
      exact .inr ⟨use', (Except.ok.inj hentry).symm, h', htakes, hpde', href, hload, hleaves⟩
  · rw [if_neg fun hand => hpde hand.1] at hcreate
    obtain rfl := Except.ok.inj hcreate
    rw [h.pgdirEntry_eq hd hva hpde] at hentry
    exact .inr ⟨use, (Except.ok.inj hentry).symm, h, fun _ => .inl rfl, hpde,
      fun _ _ => rfl, fun _ _ _ => rfl, fun _ _ _ _ => rfl⟩

end Layout

/-! ## `page_insert` -/

/-- Page `pp` has been mapped at `va` in page directory `d`. -/
structure Inserted (pool : Set Ppn) (lost : Set (Ppn × Use)) (dirs : Slot → Option Ppn)
    (use : Ppn → Use) (m m' : Mem) (d : Ppn) (va : Word) (pp : Ppn) (perm : Word) : Prop where
  layout : ∃ use', Layout pool lost m' dirs none use' ∧ Remaps use use'
  leaf : leaf m' d va = userEntry pp perm
  onlyAt : OnlyAt use m m' d va
  load : ∀ x, use x.1 = .data ∨ use x.1 = .pgdir → x ≠ (d, pdx va) → m'.load x = m.load x
  ref : ∀ q, use q ≠ .free → (m'.ref q).toNat ≤ (m.ref q).toNat + if q = pp then 1 else 0

namespace Layout

/-- The kernel counts a reference of its own to a page. -/
theorem hold (h : Layout pool (insert (pp, .data) lost) m dirs none use) (hpp : use pp = .data)
    (hfit : (m.ref pp).toNat + 1 < 2 ^ 16) :
    Layout pool lost (m.setRef pp (m.ref pp + 1)) dirs (some pp) use := by
  have hlinks : links (m.setRef pp (m.ref pp + 1)) use = links m use := rfl
  have hrefs : ∀ q, refs (m.setRef pp (m.ref pp + 1)) dirs use q = refs m dirs use q := fun q => by
    rw [refs, hlinks, refs]
  refine h.rewire .setRef (fun k => rfl) h.entries h.holders (fun q hq => ?_) (fun q hq => ?_)
    (fun t ht => ?_) fun q hq hfree hzero hheld => ?_
  · rwa [← Option.some.inj hq]
  · have hcount := h.counted q hq
    rw [if_neg (Option.some_ne_none q).symm, Nat.add_zero] at hcount
    rw [hrefs]
    by_cases hqp : q = pp
    · subst hqp
      have hone : (1 : BitVec 16).toNat = 1 := rfl
      rw [Mem.ref_setRef_self, if_pos rfl, BitVec.toNat_add, hone, Nat.mod_eq_of_lt hfit, hcount]
    · rw [Mem.ref_setRef_ne hqp, if_neg fun heq => hqp (Option.some.inj heq).symm, hcount,
        Nat.add_zero]
  · rw [hrefs]
    exact h.single t ht
  · rw [hrefs] at hzero
    have hin := h.found q hq hfree hzero (Option.some_ne_none q).symm
    exact (Set.mem_insert_iff.mp hin).resolve_left fun heq =>
      hheld (congrArg some (Prod.mk.inj heq).1.symm)

/-- The reference that the kernel holds goes into an empty entry. -/
theorem place (h : Layout pool lost m dirs (some pp) use) (hx : use x.1 = .table)
    (hzero : m.load x = 0) (hperm : perm &&& ~~~PTE_SYSCALL = 0) :
    Layout pool lost (m.store x (userEntry pp perm)) dirs none use := by
  have hpp := h.holding pp rfl
  have hentry : IsEntry use x := .inr hx
  have hne : userEntry pp perm ≠ 0 := ne_zero_of_and (userEntry_present pp perm)
  have hload : ∀ y, y ≠ x → (m.store x (userEntry pp perm)).load y = m.load y :=
    fun y hy => Mem.load_store_ne hy
  have htarget : Sum.elim dirs (links (m.store x (userEntry pp perm)) use) =
      Function.update (Sum.elim dirs (links m use)) (.inr x) (some pp) := by
    rw [links_store hentry, if_neg hne, pgnum_userEntry hperm, Sum.update_elim_inr]
  have hnone : Sum.elim dirs (links m use) (.inr x) = none := if_neg fun hand => hand.2 hzero
  have hrefs : ∀ q, refs (m.store x (userEntry pp perm)) dirs use q =
      refs m dirs use q + if some pp = some q then 1 else 0 := fun q => by
    have hadd := refs_add htarget q
    rwa [hnone, if_neg (Option.some_ne_none q).symm, Nat.add_zero] at hadd
  refine h.rewire .store (fun k => hload _ fun heq => ?_) (fun y hy => ?_) h.holders
    (fun q hq => by cases hq) (fun q hq => ?_) (fun t ht => ?_) fun q hq hfree hz hheld => ?_
  · have hkern := (h.kernel m.kernPgdir).mpr h.kernPgdir
    rw [← heq, hkern] at hx
    cases hx
  · by_cases hyx : y = x
    · rw [hyx, Mem.load_store_self]
      exact .pte hx hpp hperm rfl
    · rw [hload y hyx]
      exact h.entries y hy
  · rw [Mem.ref_store, hrefs, h.counted q hq, if_neg (Option.some_ne_none q).symm, Nat.add_zero]
  · rw [hrefs, if_neg fun heq => ?_, Nat.add_zero]
    · exact h.single t ht
    · rw [Option.some.inj heq, ht] at hpp
      cases hpp
  · rw [hrefs] at hz
    have hz := Nat.add_eq_zero_iff.mp hz
    refine h.found q hq hfree hz.1 fun heq => ?_
    rw [if_pos heq] at hz
    cases hz.2

/-- `page_insert` fails only for want of a page table, and then changes nothing. -/
theorem pageInsert_result (h : Layout pool lost m dirs held use) (hd : use d = .pgdir)
    (hva : va < UTOP) (hins : JosSched.pageInsert m d pp va perm = .ok (r, m')) :
    (r = -E_NO_MEM ∧ m' = m ∧ m.load (d, pdx va) = 0) ∨ r = 0 := by
  unfold JosSched.pageInsert at hins
  obtain ⟨⟨pte, m₁⟩, hwalk, hins⟩ := bind_eq_ok.mp hins
  rcases h.pgdirWalk hd hva hwalk with ⟨rfl, hm, -, hpde⟩ | ⟨use₁, rfl, -⟩
  · rw [hm] at hins
    obtain ⟨rfl, rfl⟩ := Prod.mk.inj (Except.ok.inj hins)
    exact .inl ⟨rfl, rfl, hpde⟩
  · dsimp only at hins
    obtain ⟨m₂, -, hins⟩ := bind_eq_ok.mp hins
    exact .inr (Prod.mk.inj (Except.ok.inj hins)).1.symm

/-- `page_insert` fails for want of a page table and changes nothing, or it maps the page. -/
theorem pageInsert (h : Layout pool (insert (pp, .data) lost) m dirs none use) (hd : use d = .pgdir)
    (hva : va < UTOP) (hpp : use pp = .data) (hperm : perm &&& ~~~PTE_SYSCALL = 0)
    (hfit : (m.ref pp).toNat + 1 < 2 ^ 16)
    (hins : JosSched.pageInsert m d pp va perm = .ok (r, m')) :
    (r = -E_NO_MEM ∧ m' = m ∧ m.pageFreeList = none ∧ m.load (d, pdx va) = 0) ∨
      r = 0 ∧ Inserted pool lost dirs use m m' d va pp perm := by
  unfold JosSched.pageInsert at hins
  obtain ⟨⟨pte, m₁⟩, hwalk, hins⟩ := bind_eq_ok.mp hins
  rcases h.pgdirWalk hd hva hwalk with ⟨rfl, hm, hnone, hpde⟩ |
    ⟨use₁, rfl, h₁, htakes, hpde, href, hload₁, hleaves⟩
  · rw [hm] at hins
    obtain ⟨rfl, rfl⟩ := Prod.mk.inj (Except.ok.inj hins)
    exact .inl ⟨rfl, rfl, hnone, hpde⟩
  · dsimp only at hins
    obtain ⟨m₂, hremove, hins⟩ := bind_eq_ok.mp hins
    obtain ⟨rfl, rfl⟩ := Prod.mk.inj (Except.ok.inj hins)
    have hpp₁ : use₁ pp = .data := (htakes.eq_of_ne_free (by rw [hpp]; decide)).trans hpp
    have hd₁ : use₁ d = .pgdir := htakes.remaps.pgdir hd
    have href₁ : m₁.ref pp = m.ref pp := href pp (by rw [hpp]; decide)
    -- while the old mapping is removed the kernel holds the page, so that it is not freed
    have h₂ := h₁.hold hpp₁ (by rwa [href₁])
    obtain ⟨use₂, h₃, hfrees, hzero, hpde₃, hload₂, honly⟩ := h₂.pageRemove hd₁ hva hremove
    have href₂ := h₂.pageRemove_ref hd₁ hva hremove
    have hpde₁ : m₂.load (d, pdx va) = m₁.load (d, pdx va) := hpde₃
    have hpde₂ : m₂.load (d, pdx va) ≠ 0 := by rwa [hpde₁]
    have hcell : cell m₁ d va = cell m₂ d va := by rw [cell, ← hpde₁, cell]
    have hd₂ : use₂ d = .pgdir := hfrees.remaps.pgdir hd₁
    have htable := (h₃.table_of_pde hd₂ hva hpde₂).1
    rw [leaf_of_pde hpde₂] at hzero
    have hentry : page2pa pp ||| perm ||| PTE_P = userEntry pp perm := rfl
    rw [hcell, hentry]
    have hload : ∀ x, x ≠ cell m₂ d va →
        (m₂.store (cell m₂ d va) (userEntry pp perm)).load x = m₂.load x :=
      fun x hx => Mem.load_store_ne hx
    have hpde' : (m₂.store (cell m₂ d va) (userEntry pp perm)).load (d, pdx va) =
        m₂.load (d, pdx va) := hload _ fun heq => by
      rw [(Prod.mk.inj heq).1, htable] at hd₂
      cases hd₂
    -- the reference that it holds then moves into the entry
    refine .inr ⟨rfl, ⟨use₂, h₃.place htable hzero hperm, htakes.frees hfrees⟩, ?_,
      fun d' va' hd' hva' hne => ?_, fun x hx hne => ?_, fun q hq => ?_⟩
    · have hcell' : cell (m₂.store (cell m₂ d va) (userEntry pp perm)) d va = cell m₂ d va := by
        rw [cell, hpde', cell]
      rw [leaf_of_pde (by rwa [hpde']), hcell', Mem.load_store_self]
    · have hd'₁ := htakes.remaps.pgdir hd'
      calc leaf (m₂.store (cell m₂ d va) (userEntry pp perm)) d' va'
          = leaf m₂ d' va' :=
            h₃.onlyAt_of_load hd₂ hva hpde₂ hload d' va' (hfrees.remaps.pgdir hd'₁) hva' hne
        _ = leaf (m₁.setRef pp (m₁.ref pp + 1)) d' va' := honly d' va' hd'₁ hva' hne
        _ = leaf m d' va' := hleaves d' va' hd' hva'
    · -- the entry that is written is in a page table
      have htable₁ : use₁ (cell m₁ d va).1 = .table := (h₁.table_of_pde hd₁ hva hpde).1
      have hcell' : x ≠ cell m₁ d va := by
        rintro rfl
        rcases htakes (cell m₁ d va).1 with heq | ⟨hfree, -⟩
        · rw [heq] at htable₁
          rw [htable₁] at hx
          rcases hx with hx | hx <;> cases hx
        · rw [hfree] at hx
          rcases hx with hx | hx <;> cases hx
      have hused : use x.1 ≠ .free := by
        rcases hx with hx | hx <;> rw [hx] <;> decide
      calc (m₂.store (cell m₂ d va) (userEntry pp perm)).load x
          = m₂.load x := hload x (hcell ▸ hcell')
        _ = m₁.load x := hload₂ x hcell'
        _ = m.load x := hload₁ x hused hne
    · rw [Mem.ref_store]
      refine (href₂ q).trans ?_
      by_cases hqp : q = pp
      · rw [hqp, Mem.ref_setRef_self, href₁, if_pos rfl, BitVec.toNat_add]
        exact Nat.mod_le ..
      · rw [Mem.ref_setRef_ne hqp, if_neg hqp, href q hq]
        exact le_rfl

end Layout

end JosSched
