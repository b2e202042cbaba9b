import JosSched.Vm.Layout

/-!
# Taking and giving back pages

The steps that the functions of `kern/pmap.c` are made of, and what each does to the layout: a
frame is taken off the free list or put back on it, a reference is added or dropped, and the
reference that the kernel holds is moved into an entry.
-/

open Except

namespace JosSched

variable {pool : Set Ppn} {lost lost' : Set (Ppn × Use)} {m m' m₁ : Mem}
  {dirs dirs' : Slot → Option Ppn}
  {held held' : Option Ppn} {use use' : Ppn → Use} {d f pp q t : Ppn} {x y : PteRef}
  {w va perm : Word} {a : Slot ⊕ PteRef} {u : Use}

/-! ## The free list -/

/-- The memories agree on the frames of the machine and on the free list. -/
structure SameList (m m' : Mem) : Prop where
  npages : m'.npages = m.npages
  kernPgdir : m'.kernPgdir = m.kernPgdir
  pageFreeList : m'.pageFreeList = m.pageFreeList
  link : ∀ pp, (m'.pages pp).ppLink = (m.pages pp).ppLink

theorem SameList.store : SameList m (m.store x w) := ⟨rfl, rfl, rfl, fun _ => rfl⟩

theorem SameList.setRef {r : BitVec 16} : SameList m (m.setRef pp r) := by
  refine ⟨rfl, rfl, rfl, fun q => ?_⟩
  by_cases hq : q = pp
  · subst hq
    simp [Mem.setRef]
  · simp [Mem.setRef, hq]

theorem SameList.trans (h : SameList m m₁) (h' : SameList m₁ m') : SameList m m' :=
  ⟨h'.npages.trans h.npages, h'.kernPgdir.trans h.kernPgdir,
    h'.pageFreeList.trans h.pageFreeList, fun pp => (h'.link pp).trans (h.link pp)⟩

/-! ## References -/

theorem isEntry_update_ne (h : x.1 ≠ pp) :
    IsEntry (Function.update use pp u) x ↔ IsEntry use x := by
  simp only [IsEntry, Function.update_of_ne h]

theorem refs_add {v : Option Ppn} (htarget : Sum.elim dirs' (links m' use') =
    Function.update (Sum.elim dirs (links m use)) a v) (q : Ppn) :
    refs m' dirs' use' q + (if Sum.elim dirs (links m use) a = some q then 1 else 0) =
      refs m dirs use q + (if v = some q then 1 else 0) := by
  unfold refs
  rw [htarget]
  exact refCount_update _ a v q

/-- Writing an entry. -/
theorem links_store (hx : IsEntry use x) : links (m.store x w) use =
    Function.update (links m use) x (if w = 0 then none else some (pgnum w)) := by
  funext y
  by_cases hy : y = x
  · subst hy
    rw [Function.update_self, links, Mem.load_store_self]
    by_cases hw : w = 0
    · rw [if_pos hw, if_neg fun hand => hand.2 hw]
    · rw [if_neg hw, if_pos ⟨hx, hw⟩]
  · rw [Function.update_of_ne hy, links, links, Mem.load_store_ne hy]

/-- Writing any other word. -/
theorem links_store_of_not (hx : ¬ IsEntry use x) : links (m.store x w) use = links m use := by
  refine links_congr fun y hy => ?_
  have hentry : IsEntry use y := hy.elim And.left And.left
  have hne : y ≠ x := fun heq => hx (heq ▸ hentry)
  exact ⟨hentry, hentry, Mem.load_store_ne hne⟩

namespace Layout

/-- The references change, and nothing else. -/
theorem rewire (h : Layout pool lost m dirs held use) (hlist : SameList m m')
    (hkern : ∀ k, m'.load (m.kernPgdir, k) = m.load (m.kernPgdir, k))
    (hentries : ∀ x, IsEntry use x → EntryOk use x.1 (m'.load x))
    (hholders : ∀ e pp, dirs' e = some pp → use pp = .pgdir)
    (hholding : ∀ pp, held' = some pp → use pp = .data)
    (hcounted : ∀ q ∈ pool,
      (m'.ref q).toNat = refs m' dirs' use q + if held' = some q then 1 else 0)
    (hsingle : ∀ t, use t = .table → refs m' dirs' use t ≤ 1)
    (hfound : ∀ q ∈ pool, use q ≠ .free → refs m' dirs' use q = 0 → held' ≠ some q →
      (q, use q) ∈ lost') :
    Layout pool lost' m' dirs' held' use where
  kernel := h.kernel
  memory pp hpp := by
    rw [hlist.npages]
    exact h.memory pp hpp
  kernPgdir := by
    rw [hlist.kernPgdir]
    exact h.kernPgdir
  template k hk := by
    rw [hlist.kernPgdir, hkern]
    exact h.template k hk
  freeList := by
    obtain ⟨l, hchain, hnodup, hfree⟩ := h.freeList
    refine ⟨l, ?_, hnodup, hfree⟩
    rw [hlist.pageFreeList]
    exact hchain.congr fun pp _ => hlist.link pp
  holders := hholders
  entries := hentries
  holding := hholding
  counted := hcounted
  single := hsingle
  found := hfound

/-- A cell gets a reference to `pp`, and it is counted. -/
theorem link (h : Layout pool lost m dirs held use) (hlist : SameList m m')
    (hkern : ∀ k, m'.load (m.kernPgdir, k) = m.load (m.kernPgdir, k))
    (hentries : ∀ x, IsEntry use x → EntryOk use x.1 (m'.load x))
    (hholders : ∀ e pp, dirs' e = some pp → use pp = .pgdir)
    (hnone : Sum.elim dirs (links m use) a = none)
    (htarget : Sum.elim dirs' (links m' use) =
      Function.update (Sum.elim dirs (links m use)) a (some pp))
    (hself : m'.ref pp = m.ref pp + 1) (hother : ∀ q, q ≠ pp → m'.ref q = m.ref q)
    (hfit : (m.ref pp).toNat + 1 < 2 ^ 16) (hsingle : use pp = .table → refs m dirs use pp = 0)
    (hlost : lost ⊆ insert (pp, u) lost') : Layout pool lost' m' dirs' held use := by
  -- one reference more to `pp`, and no other changes
  have hrefs : ∀ q, refs m' dirs' use q = refs m dirs use q + if q = pp then 1 else 0 := fun q => by
    have hadd := refs_add htarget q
    rw [hnone, if_neg (Option.some_ne_none q).symm, Nat.add_zero] at hadd
    rw [hadd]
    congr 1
    by_cases hq : q = pp
    · rw [if_pos hq, if_pos (by rw [hq])]
    · rw [if_neg hq, if_neg fun heq => hq (Option.some.inj heq).symm]
  refine h.rewire hlist hkern hentries hholders h.holding (fun q hq => ?_) (fun t ht => ?_)
    fun q hq hfree hzero hheld => ?_
  · have hcount := h.counted q hq
    rw [hrefs]
    by_cases hqp : q = pp
    · subst hqp
      rw [hself, if_pos rfl, BitVec.toNat_add]
      have hone : (1 : BitVec 16).toNat = 1 := rfl
      rw [hone, Nat.mod_eq_of_lt hfit, hcount]
      omega
    · rw [hother q hqp, if_neg hqp, Nat.add_zero]
      exact hcount
  · rw [hrefs]
    by_cases htp : t = pp
    · rw [htp, hsingle (htp ▸ ht), if_pos rfl]
    · rw [if_neg htp, Nat.add_zero]
      exact h.single t ht
  · rw [hrefs] at hzero
    by_cases hqp : q = pp
    · rw [if_pos hqp] at hzero
      omega
    · rw [if_neg hqp, Nat.add_zero] at hzero
      exact (Set.mem_insert_iff.mp (hlost (h.found q hq hfree hzero hheld))).resolve_left
        fun heq => hqp (Prod.mk.inj heq).1

/-- A cell loses its reference to `pp`, and the counter follows. -/
theorem unlink (h : Layout pool lost m dirs held use) (hlist : SameList m m')
    (hkern : ∀ k, m'.load (m.kernPgdir, k) = m.load (m.kernPgdir, k))
    (hentries : ∀ x, IsEntry use x → EntryOk use x.1 (m'.load x))
    (hholders : ∀ e pp, dirs' e = some pp → use pp = .pgdir)
    (hsome : Sum.elim dirs (links m use) a = some pp)
    (htarget : Sum.elim dirs' (links m' use) =
      Function.update (Sum.elim dirs (links m use)) a none)
    (hself : m'.ref pp = m.ref pp - 1) (hother : ∀ q, q ≠ pp → m'.ref q = m.ref q) :
    Layout pool (insert (pp, use pp) lost) m' dirs' held use ∧
      refs m dirs use pp = refs m' dirs' use pp + 1 := by
  -- one reference less to `pp`, and no other changes
  have hrefs : ∀ q, refs m' dirs' use q + (if q = pp then 1 else 0) = refs m dirs use q :=
    fun q => by
      have hadd := refs_add htarget q
      rw [hsome, if_neg (Option.some_ne_none q).symm, Nat.add_zero] at hadd
      rw [← hadd]
      congr 1
      by_cases hq : q = pp
      · rw [if_pos hq, if_pos (by rw [hq])]
      · rw [if_neg hq, if_neg fun heq => hq (Option.some.inj heq).symm]
  have hself' := hrefs pp
  rw [if_pos rfl] at hself'
  refine ⟨h.rewire hlist hkern hentries hholders h.holding (fun q hq => ?_) (fun t ht => ?_)
    fun q hq hfree hzero hheld => ?_, hself'.symm⟩
  · have hcount := h.counted q hq
    rw [← hrefs] at hcount
    by_cases hqp : q = pp
    · subst hqp
      rw [if_pos rfl] at hcount
      have hone : (1 : BitVec 16).toNat = 1 := rfl
      rw [hself, BitVec.toNat_sub_of_le (by rw [BitVec.le_def, hone]; omega), hone, hcount]
      omega
    · rw [if_neg hqp, Nat.add_zero] at hcount
      rw [hother q hqp]
      exact hcount
  · have hle := h.single t ht
    rw [← hrefs] at hle
    omega
  · by_cases hqp : q = pp
    · exact Set.mem_insert_iff.mpr (.inl (by rw [hqp]))
    · have hq' := hrefs q
      rw [if_neg hqp, Nat.add_zero] at hq'
      exact Set.mem_insert_of_mem _ (h.found q hq hfree (hq'.symm.trans hzero) hheld)

/-! ## Frames -/

/-- A frame without references changes its use, and its contents with it. -/
theorem retype (h : Layout pool lost m dirs held use) (hpp : pp ∈ pool) (hu : u ≠ .kernel)
    (hrefs : refs m dirs use pp = 0) (hheld : held ≠ some pp)
    (hnpages : m'.npages = m.npages) (hkernPgdir : m'.kernPgdir = m.kernPgdir)
    (hload : ∀ x, x.1 ≠ pp → m'.load x = m.load x)
    (hold : ∀ k, IsEntry use (pp, k) → m.load (pp, k) = 0)
    (hnew : ∀ k, IsEntry (Function.update use pp u) (pp, k) → m'.load (pp, k) = 0)
    (href : ∀ q, m'.ref q = m.ref q)
    (hfree : ∃ l, Chain (fun pp => (m'.pages pp).ppLink) m'.pageFreeList l ∧ l.Nodup ∧
      ∀ q, q ∈ l ↔ Function.update use pp u q = .free)
    (hlost : ∀ q ∈ lost, q.1 ≠ pp → q ∈ lost') (hin : u ≠ .free → (pp, u) ∈ lost') :
    Layout pool lost' m' dirs held (Function.update use pp u) := by
  -- entries of the frame are empty before and after, so references stay as they are
  have hlinks : links m' (Function.update use pp u) = links m use := by
    refine links_congr fun x hx => ?_
    by_cases hxp : x.1 = pp
    · obtain ⟨f, k⟩ := x
      obtain rfl : f = pp := hxp
      rcases hx with ⟨hentry, hne⟩ | ⟨hentry, hne⟩
      · exact absurd (hnew k hentry) hne
      · exact absurd (hold k hentry) hne
    · have hentry : IsEntry use x :=
        hx.elim (fun hand => (isEntry_update_ne hxp).mp hand.1) And.left
      exact ⟨(isEntry_update_ne hxp).mpr hentry, hentry, hload x hxp⟩
  have hrefs' : ∀ q, refs m' dirs (Function.update use pp u) q = refs m dirs use q := fun q => by
    rw [refs, hlinks, refs]
  -- nothing refers to the frame, so whatever is in use is another one
  have hno : ∀ {a}, Sum.elim dirs (links m use) a ≠ some pp := fun {a} =>
    refCount_eq_zero.mp hrefs a
  have hkern : m.kernPgdir ≠ pp := fun heq => h.kernPgdir (heq ▸ hpp)
  refine ⟨fun q => ?_, fun q hq => ?_, ?_, fun k hk => ?_, hfree, fun e q he => ?_, fun x hx => ?_,
    fun q hq => ?_, fun q hq => ?_, fun t ht => ?_, fun q hq hfree hzero hne => ?_⟩
  · by_cases hq : q = pp
    · subst hq
      rw [Function.update_self]
      exact ⟨fun heq => absurd heq hu, fun hno => absurd hpp hno⟩
    · rw [Function.update_of_ne hq]
      exact h.kernel q
  · rw [hnpages]
    exact h.memory q hq
  · rw [hkernPgdir]
    exact h.kernPgdir
  · rw [hkernPgdir, hload (m.kernPgdir, k) hkern]
    exact h.template k hk
  · have hq : q ≠ pp := fun heq => hno (a := .inl e) (heq ▸ he)
    rw [Function.update_of_ne hq]
    exact h.holders e q he
  · by_cases hxp : x.1 = pp
    · obtain ⟨f, k⟩ := x
      obtain rfl : f = pp := hxp
      exact .empty (hnew k hx)
    · have hentry := (isEntry_update_ne hxp).mp hx
      rw [hload x hxp]
      refine (h.entries x hentry).congr (Function.update_of_ne hxp ..) fun hw => ?_
      refine Function.update_of_ne (fun heq => ?_) ..
      exact hno (a := .inr x) (links_eq_some.mpr ⟨hentry, hw, heq⟩)
  · have hne : q ≠ pp := fun heq => hheld (heq ▸ hq)
    rw [Function.update_of_ne hne]
    exact h.holding q hq
  · rw [href, hrefs']
    exact h.counted q hq
  · rw [hrefs']
    by_cases htp : t = pp
    · rw [htp, hrefs]
      exact Nat.zero_le _
    · rw [Function.update_of_ne htp] at ht
      exact h.single t ht
  · by_cases hqp : q = pp
    · subst hqp
      rw [Function.update_self] at hfree
      rw [Function.update_self]
      exact hin hfree
    · rw [Function.update_of_ne hqp] at hfree ⊢
      rw [hrefs'] at hzero
      exact hlost _ (h.found q hq hfree hzero hne) hqp

/-- A free frame is taken, and may have been filled. -/
theorem take (h : Layout pool lost m dirs held use) (hhead : m.pageFreeList = some pp)
    (hu : u ≠ .kernel) (hu' : u ≠ .free) (hnpages : m'.npages = m.npages)
    (hkernPgdir : m'.kernPgdir = m.kernPgdir) (hpages : m'.pages = (takePage m pp).pages)
    (hlist : m'.pageFreeList = (m.pages pp).ppLink)
    (hload : ∀ x, x.1 ≠ pp → m'.load x = m.load x)
    (hnew : ∀ k, IsEntry (Function.update use pp u) (pp, k) → m'.load (pp, k) = 0) :
    Layout pool (insert (pp, u) lost) m' dirs held (Function.update use pp u) := by
  have hfree := h.use_of_head hhead
  have hpool : pp ∈ pool := h.mem_pool (by rw [hfree]; decide)
  have hlink : ∀ q, q ≠ pp → (m'.pages q).ppLink = (m.pages q).ppLink := fun q hq => by
    rw [hpages]
    simp [takePage, Mem.setLink, hq]
  have href : ∀ q, m'.ref q = m.ref q := fun q => by
    rw [Mem.ref, hpages]
    by_cases hq : q = pp
    · subst hq
      simp [takePage, Mem.setLink, Mem.ref]
    · simp [takePage, Mem.setLink, Mem.ref, hq]
  refine h.retype hpool hu (h.refs_eq_zero (.inl hfree)) (fun hheld => ?_) hnpages hkernPgdir hload
    (fun k hentry => ?_) hnew href ?_ (fun q hq _ => .inr hq) fun _ => .inl rfl
  · have hdata := h.holding pp hheld
    rw [hfree] at hdata
    cases hdata
  · rcases hentry with ⟨huse, -⟩ | huse <;> dsimp only at huse <;> rw [hfree] at huse <;>
      cases huse
  · obtain ⟨l, hchain, hnodup, hmem⟩ := h.freeList
    rw [hhead] at hchain
    obtain ⟨rest, rfl, hrest⟩ := hchain.exists_cons
    obtain ⟨hnot, hnodup'⟩ := List.nodup_cons.mp hnodup
    refine ⟨rest, ?_, hnodup', fun q => ?_⟩
    · rw [hlist]
      exact hrest.congr fun q hq => hlink q (ne_of_mem_of_not_mem hq hnot)
    · by_cases hq : q = pp
      · subst hq
        rw [Function.update_self]
        exact ⟨fun hin => absurd hin hnot, fun heq => absurd heq hu'⟩
      · rw [Function.update_of_ne hq, ← hmem, List.mem_cons, or_iff_right hq]

/-- A frame without references goes back to the free list. -/
theorem putBack (h : Layout pool (insert (pp, use pp) lost) m dirs held use)
    (hpp : use pp ≠ .kernel)
    (hpp' : use pp ≠ .free) (hrefs : refs m dirs use pp = 0) (hheld : held ≠ some pp)
    (hold : ∀ k, IsEntry use (pp, k) → m.load (pp, k) = 0) :
    Layout pool lost { m.setLink pp m.pageFreeList with pageFreeList := some pp } dirs held
      (Function.update use pp .free) := by
  refine h.retype (h.mem_pool hpp) (by decide) hrefs hheld rfl rfl (fun _ _ => rfl) hold
    (fun k hentry => ?_) (fun q => ?_) ?_ (fun q hq hne => ?_)
    fun hne => absurd rfl hne
  · rcases hentry with ⟨huse, -⟩ | huse <;> dsimp only at huse <;>
      rw [Function.update_self] at huse <;> cases huse
  · by_cases hq : q = pp
    · subst hq
      simp [Mem.setLink, Mem.ref]
    · simp [Mem.setLink, Mem.ref, hq]
  · obtain ⟨l, hchain, hnodup, hmem⟩ := h.freeList
    have hnot : pp ∉ l := fun hin => hpp' ((hmem pp).mp hin)
    refine ⟨pp :: l, ?_, List.nodup_cons.mpr ⟨hnot, hnodup⟩, fun q => ?_⟩
    · have hnext : (fun q => (({ m.setLink pp m.pageFreeList with
          pageFreeList := some pp } : Mem).pages q).ppLink) =
          Function.update (fun q => (m.pages q).ppLink) pp m.pageFreeList := by
        funext q
        by_cases hq : q = pp
        · subst hq
          simp [Mem.setLink]
        · simp [Mem.setLink, hq]
      rw [hnext]
      exact hchain.push hnot
    · by_cases hq : q = pp
      · subst hq
        simp
      · rw [Function.update_of_ne hq, ← hmem, List.mem_cons, or_iff_right hq]
  · exact (Set.mem_insert_iff.mp hq).resolve_left fun heq => hne (by rw [heq])

/-- A frame with a reference is not lost. -/
theorem shrink (h : Layout pool (insert (pp, u) lost) m dirs held use) (hpp : pp ∈ pool)
    (href : m.ref pp ≠ 0) : Layout pool lost m dirs held use :=
  { h with
    found := fun q hq hfree hzero hheld => by
      refine (Set.mem_insert_iff.mp (h.found q hq hfree hzero hheld)).resolve_left ?_
      intro heq
      obtain rfl := (Prod.mk.inj heq).1
      have hcount := h.counted q hpp
      rw [hzero, if_neg hheld] at hcount
      exact href (BitVec.eq_of_toNat_eq hcount) }

end Layout

theorem pageDecref_eq_ok (h : pageDecref m pp = .ok m') :
    (m.ref pp ≠ 1 ∧ m' = m.setRef pp (m.ref pp - 1)) ∨
      (m.ref pp = 1 ∧ (m.pages pp).ppLink = none ∧
        m' = { (m.setRef pp 0).setLink pp m.pageFreeList with pageFreeList := some pp }) := by
  by_cases href : m.ref pp = 1
  · refine .inr ⟨href, ?_⟩
    unfold pageDecref pageFree at h
    dsimp only at h
    have hzero : m.ref pp - 1 = 0 := by
      rw [href]
      rfl
    rw [hzero, if_pos (by simp), if_neg (by simp)] at h
    split at h
    · cases h
    · next hlink =>
        rw [Bool.not_eq_true, Option.isSome_eq_false_iff, Option.isNone_iff_eq_none] at hlink
        refine ⟨?_, (Except.ok.inj h).symm⟩
        rw [← hlink]
        exact (SameList.setRef.link pp).symm
  · rw [pageDecref_shared href] at h
    exact .inl ⟨href, (Except.ok.inj h).symm⟩

theorem ref_of_pageDecref (h : pageDecref m pp = .ok m') : m'.ref pp = m.ref pp - 1 := by
  rcases pageDecref_eq_ok h with ⟨-, rfl⟩ | ⟨hone, -, rfl⟩
  · exact Mem.ref_setRef_self
  · rw [hone]
    simp [Mem.setLink, Mem.ref, Mem.setRef]

theorem ref_of_pageDecref_ne (h : pageDecref m pp = .ok m') (hq : q ≠ pp) :
    m'.ref q = m.ref q := by
  rcases pageDecref_eq_ok h with ⟨-, rfl⟩ | ⟨-, -, rfl⟩
  · exact Mem.ref_setRef_ne hq
  · simp [Mem.setLink, Mem.ref, Mem.setRef, hq]

theorem load_of_pageDecref (h : pageDecref m pp = .ok m') (x : PteRef) : m'.load x = m.load x := by
  rcases pageDecref_eq_ok h with ⟨-, rfl⟩ | ⟨-, -, rfl⟩ <;> rfl

theorem pageDecref_store (h : pageDecref m pp = .ok m') :
    pageDecref (m.store x w) pp = .ok (m'.store x w) := by
  rcases pageDecref_eq_ok h with ⟨hne, rfl⟩ | ⟨hone, hlink, rfl⟩
  · exact pageDecref_shared hne
  · exact pageDecref_last hone hlink

/-- `pp` has lost its use: it is free now, or it is as it was. -/
def Released (use use' : Ppn → Use) (pp : Ppn) : Prop :=
  use' = use ∨ use' = Function.update use pp .free

theorem Released.of_pgdir {d : Ppn} (h : Released use use' pp) (hd : use' d = .pgdir) :
    use d = .pgdir := by
  rcases h with rfl | rfl
  · exact hd
  · by_cases hdp : d = pp
    · rw [hdp, Function.update_self] at hd
      cases hd
    · rwa [Function.update_of_ne hdp] at hd

namespace Layout

/-- A cell gives up its reference, and `page_decref` frees the frame if that was the last. -/
theorem drop (h : Layout pool lost m dirs held use) (hlist : SameList m m₁)
    (hkern : ∀ k, m₁.load (m.kernPgdir, k) = m.load (m.kernPgdir, k))
    (hentries : ∀ x, IsEntry use x → EntryOk use x.1 (m₁.load x))
    (hholders : ∀ e pp, dirs' e = some pp → use pp = .pgdir)
    (hsome : Sum.elim dirs (links m use) a = some pp)
    (htarget : Sum.elim dirs' (links m₁ use) =
      Function.update (Sum.elim dirs (links m use)) a none)
    (href : ∀ q, m₁.ref q = m.ref q)
    (hempty : refs m dirs use pp = 1 → ∀ k, IsEntry use (pp, k) → m₁.load (pp, k) = 0)
    (hdec : pageDecref m₁ pp = .ok m') :
    ∃ use', Layout pool lost m' dirs' held use' ∧ Released use use' pp ∧
      (∀ x, m'.load x = m₁.load x) ∧ (use' = use → m'.ref pp ≠ 0) := by
  have huse : use pp ≠ .kernel ∧ use pp ≠ .free := by
    rcases h.use_of_cell hsome with ⟨huse, -⟩ | ⟨huse | huse, -⟩ <;> rw [huse] <;>
      exact ⟨by decide, by decide⟩
  have hpool := h.mem_pool huse.1
  have hlinks : ∀ r, links (m₁.setRef pp r) use = links m₁ use := fun _ => rfl
  have hlist' : SameList m (m₁.setRef pp (m₁.ref pp - 1)) := hlist.trans .setRef
  obtain ⟨hunlinked, hcount⟩ := h.unlink hlist' hkern hentries hholders hsome
    (by rw [hlinks]; exact htarget) (by rw [Mem.ref_setRef_self, href])
    fun q hq => by rw [Mem.ref_setRef_ne hq, href]
  -- other references keep the frame, or it goes back to the list
  rcases pageDecref_eq_ok hdec with ⟨hne, rfl⟩ | ⟨hone, -, rfl⟩
  · have hnz : (m₁.setRef pp (m₁.ref pp - 1)).ref pp ≠ 0 := by
      rw [Mem.ref_setRef_self]
      exact fun hzero => hne (sub_eq_zero.mp hzero)
    exact ⟨use, hunlinked.shrink hpool hnz, .inl rfl, fun _ => rfl, fun _ => hnz⟩
  · have hzero : m₁.ref pp - 1 = 0 := by
      rw [hone]
      rfl
    rw [hzero] at hunlinked hcount
    have hnone := hunlinked.counted pp hpool
    rw [Mem.ref_setRef_self] at hnone
    have hnone : 0 = refs (m₁.setRef pp 0) dirs' use pp + if held = some pp then 1 else 0 := hnone
    have hheld : held ≠ some pp := fun hheld => by
      rw [if_pos hheld] at hnone
      omega
    rw [if_neg hheld] at hnone
    refine ⟨Function.update use pp .free, ?_, .inr rfl, fun _ => rfl, fun heq => ?_⟩
    · exact hunlinked.putBack huse.1 huse.2 (by omega) hheld (hempty (by omega))
    · have hfree := congrFun heq pp
      rw [Function.update_self] at hfree
      exact absurd hfree.symm huse.2

end Layout

end JosSched
