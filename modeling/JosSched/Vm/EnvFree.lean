import JosSched.Vm.PageInsert
import JosSched.Kern.Memory

/-!
# What `env_free` gives back

The loops of `env_free` run over the page tables they are taking apart.  `Freeing` is the
invariant of both: the counters are accurate at every moment, everything outside the address
space is as it was, and a frame has been freed just when its counter has come down to zero
(`Drops`).  The counters at the end then follow from the references that are left, however often
and wherever the pages were mapped.
-/

open Except

namespace JosSched

variable {m m' m₁ m₂ : Mem} {owned : Ppn → ℕ} {use use' use₁ use₂ : Ppn → Use} {d d' f pp q t : Ppn}
  {x y : PteRef} {va va' w : Word} {l : List Ppn} {k j : Idx} {u : Use}

/-! ## Counters that go down -/

/-- Counters have gone down, and the frames whose counter has come down to zero are free. -/
structure Drops (m : Mem) (use : Ppn → Use) (m' : Mem) (use' : Ppn → Use) : Prop where
  le : ∀ q, (m'.ref q).toNat ≤ (m.ref q).toNat
  free : ∀ q, use q = .free → use' q = .free
  freed : ∀ q, use q ≠ .free → (use' q = .free ↔ m.ref q ≠ 0 ∧ m'.ref q = 0)

theorem eq_zero_of_le {a b : BitVec 16} (hle : a.toNat ≤ b.toNat) (hb : b = 0) : a = 0 := by
  rw [hb] at hle
  exact BitVec.eq_of_toNat_eq (Nat.le_zero.mp hle)

namespace Drops

theorem refl : Drops m use m use := by
  refine ⟨fun _ => le_rfl, fun _ hq => hq, fun q hq => ?_⟩
  exact iff_of_false hq fun hand => hand.1 hand.2

theorem trans (h : Drops m use m₁ use₁) (h' : Drops m₁ use₁ m' use') : Drops m use m' use' := by
  refine ⟨fun q => (h'.le q).trans (h.le q), fun q hq => h'.free q (h.free q hq), fun q hq => ?_⟩
  by_cases hq₁ : use₁ q = .free
  · obtain ⟨hne, hzero⟩ := (h.freed q hq).mp hq₁
    exact iff_of_true (h'.free q hq₁) ⟨hne, eq_zero_of_le (h'.le q) hzero⟩
  · rw [h'.freed q hq₁]
    refine and_congr_left fun hzero => ?_
    constructor
    · exact fun hne heq => hne (eq_zero_of_le (h.le q) heq)
    · exact fun hne heq => hq₁ ((h.freed q hq).mpr ⟨hne, heq⟩)

/-- `page_decref` of a page that is in use. -/
theorem decref (hq : use q ≠ .free) (hle : 1 ≤ (m.ref q).toNat) (hu : u ≠ .free) :
    Drops m use ((decref m q).store x w)
      (Function.update use q (if m.ref q = 1 then .free else u)) := by
  have hone : (1 : BitVec 16).toNat = 1 := rfl
  have hself : (((JosSched.decref m q).store x w).ref q).toNat = (m.ref q).toNat - 1 := by
    rw [Mem.ref_store, ref_decref_self,
      BitVec.toNat_sub_of_le (by rw [BitVec.le_def, hone]; exact hle), hone]
  have hother : ∀ {p}, p ≠ q → ((JosSched.decref m q).store x w).ref p = m.ref p := fun {p} hp => by
    rw [Mem.ref_store, ref_decref_ne hp]
  refine ⟨fun p => ?_, fun p hp => ?_, fun p hp => ?_⟩
  · by_cases hpq : p = q
    · rw [hpq, hself]
      exact Nat.sub_le ..
    · rw [hother hpq]
  · have hpq : p ≠ q := fun heq => hq (heq ▸ hp)
    rw [Function.update_of_ne hpq]
    exact hp
  · by_cases hpq : p = q
    · subst hpq
      have hzero : ((JosSched.decref m p).store x w).ref p = 0 ↔ m.ref p = 1 := by
        rw [BitVec.toNat_eq, hself, BitVec.toNat_eq, hone]
        show (m.ref p).toNat - 1 = 0 ↔ _
        omega
      rw [Function.update_self, hzero]
      by_cases href : m.ref p = 1
      · rw [if_pos href]
        exact iff_of_true rfl ⟨by rw [href]; decide, href⟩
      · rw [if_neg href]
        exact iff_of_false hu fun hand => href hand.2
    · rw [Function.update_of_ne hpq, hother hpq]
      exact iff_of_false hp fun hand => hand.1 hand.2

end Drops

theorem release_eq : release m use q =
    Function.update use q (if m.ref q = 1 then .free else use q) := by
  unfold release
  split
  · rfl
  · exact (Function.update_eq_self q use).symm

namespace Accurate

theorem drops_unmapped (h : Accurate m owned use) (hd : use d = .pgdir) (hva : va < UTOP) :
    Drops m use (unmapped m d va) (unmappedUse m use d va) := by
  unfold unmappedUse
  cases hat : pageAt m d va with
  | none =>
      rw [unmapped_of_none hat]
      exact .refl
  | some q =>
      rw [unmapped_of_some hat]
      dsimp only
      rw [release_eq]
      have hq := h.use_of_pageAt hd hva hat
      exact .decref hq (h.one_le_ref (h.links_of_pageAt hd hva hat)) hq

end Accurate

/-! ## The address space that is taken down -/

/-- Frame `f` is a page table of the user part of `d`. -/
def TableOf (m : Mem) (d f : Ppn) : Prop :=
  ∃ k : Idx, k.val < PDX_UTOP ∧ m.load (d, k) ≠ 0 ∧ pgnum (m.load (d, k)) = f

/-- The words of the address space: the user part of the directory, and its page tables. -/
def OfSpace (m : Mem) (d : Ppn) (x : PteRef) : Prop :=
  x.1 = d ∧ x.2.val < PDX_UTOP ∨ TableOf m d x.1

/-- Part of the address space `d` of `m` has been taken down. -/
structure Freeing (m : Mem) (owned : Ppn → ℕ) (use : Ppn → Use) (d : Ppn) (m₁ : Mem)
    (use₁ : Ppn → Use) : Prop where
  accurate : Accurate m₁ owned use₁
  drops : Drops m use m₁ use₁
  npages : m₁.npages = m.npages
  dirs : ∀ f, use₁ f = .pgdir ↔ use f = .pgdir
  tables : ∀ f, ¬ TableOf m d f → (use₁ f = .table ↔ use f = .table)
  load : ∀ x, ¬ OfSpace m d x → m₁.load x = m.load x

namespace Freeing

theorem refl (h : Accurate m owned use) : Freeing m owned use d m use :=
  ⟨h, .refl, rfl, fun _ => Iff.rfl, fun _ _ => Iff.rfl, fun _ _ => rfl⟩

/-- One page is unmapped. -/
theorem unmap (h : Freeing m owned use d m₁ use₁) (hd : use d = .pgdir) (hk : k.val < PDX_UTOP)
    (hsame : m₁.load (d, k) = m.load (d, k)) (hpde : m.load (d, k) ≠ 0) (j : Idx) :
    Freeing m owned use d (unmapped m₁ d (pgaddr k j)) (unmappedUse m₁ use₁ d (pgaddr k j)) := by
  have hd₁ := (h.dirs d).mpr hd
  have hva := pgaddr_lt hk j
  obtain ⟨h', hfrees⟩ := h.accurate.unmapped_accurate hd₁ hva
  have hcell : cell m₁ d (pgaddr k j) = (pgnum (m.load (d, k)), j) := by
    rw [cell, pdx_pgaddr, ptx_pgaddr, hsame]
  refine ⟨h', h.drops.trans (h.accurate.drops_unmapped hd₁ hva), npages_unmapped.trans h.npages,
    fun f => (hfrees.iff (by decide) (by decide)).trans (h.dirs f), fun f hf => ?_, fun x hx => ?_⟩
  · exact (hfrees.iff (by decide) (by decide)).trans (h.tables f hf)
  · refine (load_unmapped_ne fun heq => hx ?_).trans (h.load x hx)
    rw [heq, hcell]
    exact .inr ⟨k, hk, hpde, rfl⟩

/-- A page table without pages is given back. -/
theorem drop (h : Freeing m owned use d m₁ use₁) (hd : use d = .pgdir) (hk : k.val < PDX_UTOP)
    (hsame : m₁.load (d, k) = m.load (d, k)) (hpde : m.load (d, k) ≠ 0)
    (hempty : ∀ j, m₁.load (pgnum (m.load (d, k)), j) = 0) :
    ∃ use₂, Freeing m owned use d ((decref m₁ (pgnum (m.load (d, k)))).store (d, k) 0) use₂ := by
  have hd₁ := (h.dirs d).mpr hd
  have hlink : links m₁ use₁ (d, k) = some (pgnum (m.load (d, k))) := by
    rw [← hsame]
    exact links_eq_some.mpr ⟨.inl ⟨hd₁, hk⟩, by rwa [hsame], rfl⟩
  have huse := h.accurate.use_of_links hlink
  have hmine : TableOf m d (pgnum (m.load (d, k))) := ⟨k, hk, hpde, rfl⟩
  -- what `t` is used for changes, to free or to data; directories and other tables stay
  have hne : ∀ {f v}, v ≠ Use.free → v ≠ .data →
      (Function.update use₁ (pgnum (m.load (d, k)))
        (if m₁.ref (pgnum (m.load (d, k))) = 1 then .free else .data) f = v ↔
          use₁ f = v ∧ f ≠ pgnum (m.load (d, k))) := by
    intro f v hfree hdata
    by_cases hf : f = pgnum (m.load (d, k))
    · rw [hf, Function.update_self]
      refine iff_of_false ?_ fun hand => hand.2 rfl
      split
      · exact hfree.symm
      · exact hdata.symm
    · rw [Function.update_of_ne hf]
      exact (and_iff_left hf).symm
  refine ⟨_, h.accurate.dropTable hd₁ hk hlink hempty,
    h.drops.trans (.decref huse.1 (h.accurate.one_le_ref hlink) (by decide)),
    npages_decref.trans h.npages, fun f => ?_, fun f hf => ?_, fun x hx => ?_⟩
  · rw [hne (by decide) (by decide), h.dirs]
    refine and_iff_left_of_imp fun hf heq => ?_
    rcases huse.2 with ⟨-, ht⟩ | ⟨ht, -⟩
    · rw [← heq, (h.dirs f).mpr hf] at ht
      cases ht
    · rw [hd₁] at ht
      cases ht
  · rw [hne (by decide) (by decide), h.tables f hf]
    exact and_iff_left_of_imp fun _ heq => hf (heq ▸ hmine)
  · refine (Mem.load_store_ne fun heq => hx ?_).trans (load_decref.trans (h.load x hx))
    rw [heq]
    exact .inl ⟨rfl, hk⟩

end Freeing

/-! ## The loops -/

namespace Freeing

/-- The inner loop: all pages of one page table are unmapped. -/
theorem unmapTable (h : Freeing m owned use d m₁ use₁) (hd : use d = .pgdir)
    (hk : k.val < PDX_UTOP) (hsame : m₁.load (d, k) = m.load (d, k)) (hpde : m.load (d, k) ≠ 0) :
    ∃ m₂, JosSched.unmapTable m₁ d k (pgnum (m.load (d, k))) = .ok m₂ ∧
      (∃ use₂, Freeing m owned use d m₂ use₂) ∧ (∀ k', m₂.load (d, k') = m₁.load (d, k')) ∧
      ∀ j, m₂.load (pgnum (m.load (d, k)), j) = 0 := by
  -- entries whose turn has passed are empty; the directory does not change
  let I : List Idx → Mem → Prop := fun rest m₂ =>
    (∃ use₂, Freeing m owned use d m₂ use₂) ∧ (∀ k', m₂.load (d, k') = m₁.load (d, k')) ∧
      ∀ j, j ∉ rest → m₂.load (pgnum (m.load (d, k)), j) = 0
  have hstep : ∀ j rest m₂, I (j :: rest) m₂ →
      (if m₂.load (pgnum (m.load (d, k)), j) &&& PTE_P ≠ 0 then pageRemove m₂ d (pgaddr k j)
        else .ok m₂ : Except Panic Mem).Ensures (I rest) fun _ => False := by
    rintro j rest m₂ ⟨⟨use₂, h₂⟩, hdir, hdone⟩
    have hd₂ := (h₂.dirs d).mpr hd
    have hsame₂ := (hdir k).trans hsame
    have hva := pgaddr_lt hk j
    have hpde₂ : m₂.load (d, pdx (pgaddr k j)) ≠ 0 := by rwa [pdx_pgaddr, hsame₂]
    have hcell : cell m₂ d (pgaddr k j) = (pgnum (m.load (d, k)), j) := by
      rw [cell, pdx_pgaddr, ptx_pgaddr, hsame₂]
    have htable := h₂.accurate.table_of_pde hd₂ hva hpde₂
    rw [pdx_pgaddr, hsame₂] at htable
    -- an entry that is not present is empty already, because the counters are accurate
    refine ensures_ite.mpr ⟨fun _ => ?_, fun habsent => ?_⟩
    · rw [h₂.accurate.pageRemove_eq hd₂ hva, ensures_ok]
      refine ⟨⟨_, h₂.unmap hd hk hsame₂ hpde j⟩, fun k' => ?_, fun j' hj' => ?_⟩
      · refine (load_unmapped_ne fun heq => ?_).trans (hdir k')
        rw [hcell] at heq
        rw [← (Prod.mk.inj heq).1, hd₂] at htable
        cases htable
      · by_cases heq : j' = j
        · rw [heq, ← hcell]
          exact load_unmapped_self hpde₂
        · refine (load_unmapped_ne fun hcell' => ?_).trans (hdone j' fun hin => ?_)
          · rw [hcell] at hcell'
            exact heq (Prod.mk.inj hcell').2
          · exact (List.mem_cons.mp hin).elim heq hj'
    · rw [ensures_ok]
      refine ⟨⟨use₂, h₂⟩, hdir, fun j' hj' => ?_⟩
      by_cases heq : j' = j
      · by_contra hne
        rw [heq] at hne
        exact habsent (h₂.accurate.entries _ (.inr htable) hne).present
      · exact hdone j' fun hin => (List.mem_cons.mp hin).elim heq hj'
  have hstart : I (List.finRange NPTENTRIES) m₁ :=
    ⟨⟨use₁, h⟩, fun _ => rfl, fun j hj => absurd (List.mem_finRange j) hj⟩
  obtain ⟨m₂, heq, hfreeing, hdir, hdone⟩ := (Ensures.foldlM_rest hstep _ m₁ hstart).exists_ok
  exact ⟨m₂, heq, hfreeing, hdir, fun j => hdone j List.not_mem_nil⟩

/-- One round of the outer loop. -/
theorem unmapPde (h : Freeing m owned use d m₁ use₁) (hd : use d = .pgdir)
    (hk : k.val < PDX_UTOP) (hsame : m₁.load (d, k) = m.load (d, k)) :
    ∃ m₂, JosSched.unmapPde d m₁ k = .ok m₂ ∧ (∃ use₂, Freeing m owned use d m₂ use₂) ∧
      m₂.load (d, k) = 0 ∧ ∀ k', k' ≠ k → m₂.load (d, k') = m₁.load (d, k') := by
  have hd₁ := (h.dirs d).mpr hd
  unfold JosSched.unmapPde
  dsimp only
  rw [hsame]
  by_cases habsent : m.load (d, k) &&& PTE_P = 0
  · refine ⟨m₁, if_pos habsent, ⟨use₁, h⟩, ?_, fun _ _ => rfl⟩
    by_contra hne
    have hpresent := (h.accurate.entries (d, k) (.inl ⟨hd₁, hk⟩) hne).present
    rw [hsame] at hpresent
    exact hpresent habsent
  · have hpde := ne_zero_of_and habsent
    obtain ⟨m₂, hunmap, ⟨use₂, h₂⟩, hdir, hempty⟩ := h.unmapTable hd hk hsame hpde
    have hsame₂ := (hdir k).trans hsame
    have hd₂ := (h₂.dirs d).mpr hd
    obtain ⟨use₃, h₃⟩ := h₂.drop hd hk hsame₂ hpde hempty
    -- the frame is still a page table when the loop has ended, so `kaddr` and `pa2page` accept it
    have htable := (h.accurate.entries (d, k) (.inl ⟨hd₁, hk⟩) (by rwa [hsame])).table hd₁
    have htable₂ := (h₂.accurate.entries (d, k) (.inl ⟨hd₂, hk⟩) (by rwa [hsame₂])).table hd₂
    rw [hsame] at htable
    rw [hsame₂] at htable₂
    have hkaddr := kaddr_ok (h.accurate.memory _ (.inr htable))
    have hpa : pa2page (m₂.store (d, k) 0) (m.load (d, k)) = .ok (pgnum (m.load (d, k))) :=
      if_neg (not_le.mpr (h₂.accurate.memory _ (.inr htable₂)))
    have hdec := pageDecref_store (x := (d, k)) (w := 0)
      (pageDecref_eq (h₂.accurate.unlinked _ (by rw [htable₂]; decide)))
    refine ⟨_, ?_, ⟨use₃, h₃⟩, Mem.load_store_self, fun k' hk' => ?_⟩
    · rw [if_neg habsent, hkaddr]
      dsimp only [bind, Except.bind]
      rw [hunmap]
      dsimp only
      rw [hpa]
      exact hdec
    · have hne : (d, k') ≠ (d, k) := fun heq => hk' (Prod.mk.inj heq).2
      exact (Mem.load_store_ne hne).trans (load_decref.trans (hdir k'))

/-- The user part of an address space is taken down. -/
theorem unmapUser (h : Accurate m owned use) (hd : use d = .pgdir) :
    ∃ m₁ use₁, JosSched.unmapUser m d = .ok m₁ ∧ Freeing m owned use d m₁ use₁ ∧ Vacant m₁ d := by
  -- directory entries whose turn has passed are empty, the others are as they were
  let I : List Idx → Mem → Prop := fun rest m₁ =>
    (∃ use₁, Freeing m owned use d m₁ use₁) ∧
      (rest.Nodup ∧ ∀ k ∈ rest, k.val < PDX_UTOP ∧ m₁.load (d, k) = m.load (d, k)) ∧
        ∀ k : Idx, k.val < PDX_UTOP → k ∉ rest → m₁.load (d, k) = 0
  have hstep : ∀ k rest m₁, I (k :: rest) m₁ →
      (JosSched.unmapPde d m₁ k).Ensures (I rest) fun _ => False := by
    rintro k rest m₁ ⟨⟨use₁, h₁⟩, ⟨hnodup, hrest⟩, hdone⟩
    obtain ⟨hk, hsame⟩ := hrest k List.mem_cons_self
    obtain ⟨hnot, hnodup'⟩ := List.nodup_cons.mp hnodup
    obtain ⟨m₂, heq, hfreeing, hzero, hothers⟩ := h₁.unmapPde hd hk hsame
    rw [heq, ensures_ok]
    refine ⟨hfreeing, ⟨hnodup', fun k' hk' => ?_⟩, fun k' hk' hnot' => ?_⟩
    · obtain ⟨hlt, hload⟩ := hrest k' (List.mem_cons_of_mem _ hk')
      exact ⟨hlt, (hothers k' (ne_of_mem_of_not_mem hk' hnot)).trans hload⟩
    · by_cases hkk : k' = k
      · rw [hkk]
        exact hzero
      · rw [hothers k' hkk]
        exact hdone k' hk' fun hin => (List.mem_cons.mp hin).elim hkk hnot'
  have hstart : I ((List.finRange NPTENTRIES).filter fun k => k.val < PDX_UTOP) m := by
    refine ⟨⟨use, .refl h⟩, ⟨(List.nodup_finRange _).filter _, fun k hk => ?_⟩, fun k hk hnot => ?_⟩
    · exact ⟨of_decide_eq_true (List.mem_filter.mp hk).2, rfl⟩
    · exact absurd (List.mem_filter.mpr ⟨List.mem_finRange k, decide_eq_true hk⟩) hnot
  obtain ⟨m₁, heq, ⟨use₁, h₁⟩, -, hdone⟩ := (Ensures.foldlM_rest hstep _ m hstart).exists_ok
  exact ⟨m₁, use₁, heq, h₁, fun k hk => hdone k hk List.not_mem_nil⟩

end Freeing

/-! ## The references that are left -/

/-- How many user pages of the address space are mapped to frame `q`. -/
noncomputable def mapCount (m : Mem) (d q : Ppn) : ℕ :=
  refCount (fun i : Idx × Idx => if i.1.val < PDX_UTOP then pageAt m d (pgaddr i.1 i.2) else none) q

theorem pageAt_pgaddr : pageAt m d (pgaddr k j) = some q ↔ m.load (d, k) ≠ 0 ∧
    m.load (pgnum (m.load (d, k)), j) ≠ 0 ∧ pgnum (m.load (pgnum (m.load (d, k)), j)) = q := by
  rw [pageAt_eq_some, leaf, cell, pdx_pgaddr, ptx_pgaddr]
  by_cases hpde : m.load (d, k) = 0
  · rw [if_pos hpde]
    exact iff_of_false (fun hand => hand.1 rfl) fun hand => hand.1 hpde
  · rw [if_neg hpde]
    exact (and_iff_right hpde).symm

open Classical in
/-- The references of an address space: those of its user pages, and one to each page table. -/
theorem Accurate.refs_space (h : Accurate m owned use) (hd : use d = .pgdir) (q : Ppn) :
    {x | links m use x = some q ∧ OfSpace m d x}.ncard =
      mapCount m d q + if TableOf m d q then 1 else 0 := by
  -- `B`: the entries of its page tables; `C`: its directory entries
  let B : Set PteRef := {x | links m use x = some q ∧ TableOf m d x.1}
  let C : Set PteRef := {x | links m use x = some q ∧ x.1 = d ∧ x.2.val < PDX_UTOP}
  have htable : ∀ {f}, TableOf m d f → use f = .table := by
    rintro f ⟨k, hk, hpde, rfl⟩
    exact (h.entries (d, k) (.inl ⟨hd, hk⟩) hpde).table hd
  have hunion : {x | links m use x = some q ∧ OfSpace m d x} = B ∪ C := by
    ext x
    constructor
    · rintro ⟨hx, hdir | ht⟩
      · exact .inr ⟨hx, hdir⟩
      · exact .inl ⟨hx, ht⟩
    · rintro (⟨hx, ht⟩ | ⟨hx, hdir⟩)
      · exact ⟨hx, .inr ht⟩
      · exact ⟨hx, .inl hdir⟩
  have hdisjoint : Disjoint B C := by
    refine Set.disjoint_left.mpr ?_
    rintro x ⟨-, ht⟩ ⟨-, hx, -⟩
    have ht := htable ht
    rw [hx, hd] at ht
    cases ht
  have hroot : ∀ {k t}, k.val < PDX_UTOP → m.load (d, k) ≠ 0 → pgnum (m.load (d, k)) = t →
      links m use (d, k) = some t := fun hk hpde ht => links_eq_some.mpr ⟨.inl ⟨hd, hk⟩, hpde, ht⟩
  -- each user page is one entry of a table, since no table hangs in two places
  have hB : B.ncard = mapCount m d q := by
    let g : Idx × Idx → PteRef := fun i => (pgnum (m.load (d, i.1)), i.2)
    let P : Set (Idx × Idx) := {i | (if i.1.val < PDX_UTOP then pageAt m d (pgaddr i.1 i.2)
      else none) = some q}
    have hP : ∀ i, i ∈ P ↔ i.1.val < PDX_UTOP ∧ m.load (d, i.1) ≠ 0 ∧ m.load (g i) ≠ 0 ∧
        pgnum (m.load (g i)) = q := fun i => by
      show (if i.1.val < PDX_UTOP then pageAt m d (pgaddr i.1 i.2) else none) = some q ↔ _
      by_cases hk : i.1.val < PDX_UTOP
      · rw [if_pos hk, pageAt_pgaddr]
        exact (and_iff_right hk).symm
      · rw [if_neg hk]
        exact iff_of_false (Option.some_ne_none q).symm fun hand => hk hand.1
    have himage : B = g '' P := by
      ext x
      constructor
      · rintro ⟨hx, k, hk, hpde, ht⟩
        obtain ⟨-, hne, hq⟩ := links_eq_some.mp hx
        have hgx : g (k, x.2) = x := Prod.ext ht rfl
        exact ⟨(k, x.2), (hP _).mpr ⟨hk, hpde, by rw [hgx]; exact hne, by rw [hgx]; exact hq⟩, hgx⟩
      · rintro ⟨i, hi, rfl⟩
        obtain ⟨hk, hpde, hne, hq⟩ := (hP i).mp hi
        have ht : TableOf m d (g i).1 := ⟨i.1, hk, hpde, rfl⟩
        exact ⟨links_eq_some.mpr ⟨.inr (htable ht), hne, hq⟩, ht⟩
    -- different pages have different entries
    have hinj : Set.InjOn g P := by
      intro i hi i' hi' heq
      obtain ⟨hk, hpde, -⟩ := (hP i).mp hi
      obtain ⟨hk', hpde', -⟩ := (hP i').mp hi'
      obtain ⟨ht, hj⟩ := Prod.mk.inj heq
      have hsame := h.unshared _ _ _ hd hd (hroot hk hpde rfl) (hroot hk' hpde' ht.symm)
      exact Prod.ext (Prod.mk.inj hsame).2 hj
    rw [himage, hinj.ncard_image]
    rfl
  -- a page table has one directory entry
  have hC : C.ncard = if TableOf m d q then 1 else 0 := by
    by_cases ht : TableOf m d q
    · obtain ⟨k, hk, hpde, hq⟩ := ht
      have hsingle : C = {(d, k)} := by
        ext x
        constructor
        · rintro ⟨hx, hxd, -⟩
          exact h.unshared x (d, k) q (by rw [hxd, hd]) hd hx (hroot hk hpde hq)
        · rintro rfl
          exact ⟨hroot hk hpde hq, rfl, hk⟩
      rw [if_pos ⟨k, hk, hpde, hq⟩, hsingle, Set.ncard_singleton]
    · have hempty : C = ∅ := by
        refine Set.eq_empty_iff_forall_notMem.mpr ?_
        rintro ⟨f, k⟩ ⟨hx, rfl, hk⟩
        obtain ⟨-, hpde, hq⟩ := links_eq_some.mp hx
        exact ht ⟨k, hk, hpde, hq⟩
      rw [if_neg ht, hempty, Set.ncard_empty]
  rw [hunion, Set.ncard_union_eq hdisjoint (Set.toFinite _) (Set.toFinite _), hB, hC]

namespace Freeing

/-- What is left are the references from outside the address space. -/
theorem links_vacant (h : Freeing m owned use d m₁ use₁) (h₀ : Accurate m owned use)
    (hd : use d = .pgdir) (hvacant : Vacant m₁ d) :
    links m₁ use₁ x = some q ↔ links m use x = some q ∧ ¬ OfSpace m d x := by
  by_cases hx : OfSpace m d x
  · refine iff_of_false (fun hlink => ?_) fun hand => hand.2 hx
    obtain ⟨hentry, hne, -⟩ := links_eq_some.mp hlink
    rcases hx with ⟨hxd, hk⟩ | ⟨k, hk, hpde, ht⟩
    · have hzero : m₁.load x = 0 := by
        have hzero := hvacant x.2 hk
        rwa [← hxd] at hzero
      exact hne hzero
    · have hroot : links m use (d, k) = some x.1 := links_eq_some.mpr ⟨.inl ⟨hd, hk⟩, hpde, ht⟩
      have htable : use x.1 = .table := by
        rw [← ht]
        exact (h₀.entries (d, k) (.inl ⟨hd, hk⟩) hpde).table hd
      rcases hentry with ⟨hpgdir, -⟩ | htable₁
      · rw [h.dirs, htable] at hpgdir
        cases hpgdir
      · -- a table must be in some directory, and its own no longer names it
        obtain ⟨y, hy, hyt⟩ := h.accurate.rooted x.1 htable₁
        obtain ⟨hentry, hne, hpage⟩ := links_eq_some.mp hyt
        have hk' : y.2.val < PDX_UTOP := by
          rcases hentry with ⟨-, hk'⟩ | ht'
          · exact hk'
          · rw [hy] at ht'
            cases ht'
        have hyd : y.1 ≠ d := fun heq => hne <| by
          have hzero := hvacant y.2 hk'
          rwa [← heq] at hzero
        -- so another directory would have named the table before, and it has only one
        have hy' := (h.dirs y.1).mp hy
        have hout : ¬ OfSpace m d y := by
          rintro (⟨heq, -⟩ | ⟨k', hk'', hpde', ht'⟩)
          · exact hyd heq
          · have htab := (h₀.entries (d, k') (.inl ⟨hd, hk''⟩) hpde').table hd
            rw [ht', hy'] at htab
            cases htab
        rw [h.load y hout] at hne hpage
        have hy₀ : links m use y = some x.1 := links_eq_some.mpr ⟨.inl ⟨hy', hk'⟩, hne, hpage⟩
        exact hyd (congrArg Prod.fst (h₀.unshared _ _ _ hy' hd hy₀ hroot))
  · have hnot : ¬ TableOf m d x.1 := fun ht => hx (.inr ht)
    have hentry : IsEntry use₁ x ↔ IsEntry use x := by
      simp only [IsEntry, h.dirs, h.tables x.1 hnot]
    rw [links_eq_some, links_eq_some, h.load x hx, hentry]
    exact (and_iff_left hx).symm

open Classical in
/-- The counters once the user part is gone. -/
theorem refs (h : Freeing m owned use d m₁ use₁) (h₀ : Accurate m owned use) (hd : use d = .pgdir)
    (hvacant : Vacant m₁ d) (q : Ppn) : (m₁.ref q).toNat + mapCount m d q +
      (if TableOf m d q then 1 else 0) = (m.ref q).toNat := by
  -- the references before are those that are left and those of the address space
  have hsplit : {x | links m use x = some q} = {x | links m₁ use₁ x = some q} ∪
      {x | links m use x = some q ∧ OfSpace m d x} := by
    ext x
    show links m use x = some q ↔ links m₁ use₁ x = some q ∨ _
    rw [h.links_vacant h₀ hd hvacant]
    by_cases hx : OfSpace m d x
    · exact ⟨fun hlink => .inr ⟨hlink, hx⟩, fun hor => hor.elim And.left And.left⟩
    · exact ⟨fun hlink => .inl ⟨hlink, hx⟩, fun hor => hor.elim And.left And.left⟩
  have hdisjoint : Disjoint {x | links m₁ use₁ x = some q}
      {x | links m use x = some q ∧ OfSpace m d x} := by
    refine Set.disjoint_left.mpr fun x hx hx' => ?_
    exact ((h.links_vacant h₀ hd hvacant).mp hx).2 hx'.2
  have hcount : refCount (links m use) q =
      refCount (links m₁ use₁) q + (mapCount m d q + if TableOf m d q then 1 else 0) := by
    rw [← h₀.refs_space hd q, refCount, refCount, hsplit,
      Set.ncard_union_eq hdisjoint (Set.toFinite _) (Set.toFinite _)]
  have hold := h₀.counted q
  have hnew := h.accurate.counted q
  omega

/-- Translations outside the address space are not affected. -/
theorem mmu (h : Freeing m owned use d m₁ use₁) (h₀ : Accurate m owned use) (hd : use d = .pgdir)
    (hd' : use d' = .pgdir) (hne : d' ≠ d ∨ UTOP ≤ va ∧ pdx va ≠ pdxUvpt) :
    JosSched.mmu m₁ d' va = JosSched.mmu m d' va := by
  have htable : ∀ {f}, TableOf m d f → use f = .table := by
    rintro f ⟨k, hk, hpde, rfl⟩
    exact (h₀.entries (d, k) (.inl ⟨hd, hk⟩) hpde).table hd
  have hupper : UTOP ≤ va → ¬ (pdx va).val < PDX_UTOP := fun hle => by
    have htop : 0xeec00000 ≤ va.toNat := hle
    rw [toNat_pdx]
    show ¬ _ < 955
    omega
  refine mmu_congr (h.load _ ?_) fun hpresent => h.load _ ?_
  · rintro (⟨heq, hk⟩ | ht)
    · rcases hne with hne | ⟨hle, -⟩
      · exact hne heq
      · exact hupper hle hk
    · have ht := htable ht
      rw [hd'] at ht
      cases ht
  -- the second level: the table of another directory, or the window of `d` itself
  · have huse := h₀.use_of_pde hd' _ hpresent
    rintro (⟨heq, hk⟩ | ⟨k, hk, hpde, ht⟩)
    · dsimp only at heq
      rw [heq, hd] at huse
      rcases huse with ⟨-, huse⟩ | huse | ⟨huvpt, hself⟩
      · cases huse
      · cases huse
      · exact hne.elim (fun hne => hne hself.symm) fun hand => hand.2 huvpt
    · have ht' := htable ⟨k, hk, hpde, ht⟩
      dsimp only at ht ht'
      rw [ht'] at huse
      rcases huse with ⟨hlink, -⟩ | huse | ⟨-, hself⟩
      · have hroot : links m use (d, k) = some (pgnum (m.load (d', pdx va))) :=
          links_eq_some.mpr ⟨.inl ⟨hd, hk⟩, hpde, ht⟩
        obtain ⟨heq, hpdx⟩ := Prod.mk.inj (h₀.unshared _ _ _ hd' hd hlink hroot)
        exact hne.elim (fun hne => hne heq) fun hand => hupper hand.1 (hpdx ▸ hk)
      · cases huse
      · rw [hself, hd'] at ht'
        cases ht'

end Freeing

/-! ## The environment -/

variable {s : Kernel} {base : Ppn → ℕ} {e : Slot} {c : Cpu}

/-- The counters of the kernel are right: those of page directories count the environments that
use them, page tables are in their directory only, and what is mapped are user pages.  `base` is
what the kernel itself refers to. -/
structure RightCounts (s : Kernel) (base : Ppn → ℕ) (use : Ppn → Use) : Prop where
  accurate : Accurate s.mem (fun q => base q + refCount s.dirs q) use
  dirs : ∀ e d, s.dirs e = some d → use d = .pgdir ∧ base d = 0
  tables : ∀ t, use t = .table → base t = 0
  pages : ∀ x q, use x.1 = .table → links s.mem use x = some q → use q = .data

/-- No live thread belongs to the environment, and nobody else uses its page directory. -/
structure Threadless (s : Kernel) (e : Slot) : Prop where
  swept : ∀ t, isThreadOf s e t = false
  alone : ∀ t d, s.dirs e = some d → s.dirs t = some d → t = e

/-- What `env_free` does to the memory `m`, for the page directory `d`. -/
structure SpaceFreed (use : Ppn → Use) (m m' : Mem) (d : Ppn) : Prop where
  refs : ∀ q, q ≠ d → ¬ TableOf m d q → (m'.ref q).toNat + mapCount m d q = (m.ref q).toNat
  unreferenced : ∀ q, q = d ∨ TableOf m d q → m'.ref q = 0
  freeList : ∀ l, FreeList m l → ∃ l', FreeList m' l' ∧ l'.Nodup ∧ ∀ q, q ∈ l' ↔ q ∈ l ∨
    q = d ∨ TableOf m d q ∨ 0 < mapCount m d q ∧ (m.ref q).toNat = mapCount m d q
  others : ∀ d' va, use d' = .pgdir → d' ≠ d → mmu m' d' va = mmu m d' va
  kernel : ∀ d' va, use d' = .pgdir → UTOP ≤ va → pdx va ≠ pdxUvpt → mmu m' d' va = mmu m d' va

namespace RightCounts

/-- No entry refers to a page directory. -/
theorem links_ne_dir (h : RightCounts s base use) (hd : s.dirs e = some d) (x : PteRef) :
    links s.mem use x ≠ some d := fun hx => by
  have hdir := (h.dirs e d hd).1
  rcases (h.accurate.use_of_links hx).2 with ⟨-, ht⟩ | ⟨ht, -⟩
  · rw [hdir] at ht
    cases ht
  · have hdata := h.pages x d ht hx
    rw [hdir] at hdata
    cases hdata

/-- A page directory has as many references as environments use it. -/
theorem ref_eq (h : RightCounts s base use) (hd : s.dirs e = some d) :
    (s.mem.ref d).toNat = refCount s.dirs d := by
  have hcount := h.accurate.counted d
  have hbase := (h.dirs e d hd).2
  have hlinks := refCount_eq_zero.mpr (h.links_ne_dir hd)
  omega

/-- A page directory of one environment has one reference. -/
theorem ref_dir (h : RightCounts s base use) (hd : s.dirs e = some d)
    (halone : ∀ t, s.dirs t = some d → t = e) :
    (s.mem.ref d).toNat = 1 ∧ mapCount s.mem d d = 0 := by
  have hsingle : {t | s.dirs t = some d} = {e} := by
    ext t
    constructor
    · exact halone t
    · rintro rfl
      exact hd
  refine ⟨?_, refCount_eq_zero.mpr fun i hi => ?_⟩
  · rw [h.ref_eq hd, refCount, hsingle, Set.ncard_singleton]
  · split at hi
    · next hk =>
        exact h.links_ne_dir hd _
          (h.accurate.links_of_pageAt (h.dirs e d hd).1 (pgaddr_lt hk i.2) hi)
    · cases hi

/-- A page table has one reference, that of its directory. -/
theorem ref_table (h : RightCounts s base use) (hd : use d = .pgdir) (ht : TableOf s.mem d t) :
    (s.mem.ref t).toNat = 1 := by
  obtain ⟨k, hk, hpde, hkt⟩ := ht
  have hroot : links s.mem use (d, k) = some t := links_eq_some.mpr ⟨.inl ⟨hd, hk⟩, hpde, hkt⟩
  have htable : use t = .table := by
    rw [← hkt]
    exact (h.accurate.entries (d, k) (.inl ⟨hd, hk⟩) hpde).table hd
  have hsingle : {x | links s.mem use x = some t} = {(d, k)} := by
    ext x
    constructor
    · intro hx
      have hx : links s.mem use x = some t := hx
      rcases (h.accurate.use_of_links hx).2 with ⟨hx', -⟩ | ⟨hx', -⟩
      · exact h.accurate.unshared x (d, k) t hx' hd hx hroot
      · have hdata := h.pages x t hx' hx
        rw [htable] at hdata
        cases hdata
    · rintro rfl
      exact hroot
  have hdirs : refCount s.dirs t = 0 := refCount_eq_zero.mpr fun e he => by
    have hpgdir := (h.dirs e t he).1
    rw [htable] at hpgdir
    cases hpgdir
  have hlinks : refCount (links s.mem use) t = 1 := by
    rw [refCount, hsingle, Set.ncard_singleton]
  have hcount := h.accurate.counted t
  have hbase := h.tables t htable
  omega

/-- The address space of an environment without threads is taken down, and its directory
given back. -/
theorem space_freed (h : RightCounts s base use) (hd : s.dirs e = some d)
    (halone : ∀ t, s.dirs t = some d → t = e) : ∃ m₁ m', unmapUser s.mem d = .ok m₁ ∧
      pageDecref m₁ d = .ok m' ∧ SpaceFreed use s.mem m' d := by
  have hdir := (h.dirs e d hd).1
  -- first the pages and the tables below `UTOP`
  obtain ⟨m₁, use₁, hunmap, hfreeing, hvacant⟩ := Freeing.unmapUser h.accurate hdir
  have hd₁ := (hfreeing.dirs d).mpr hdir
  have hrefs := hfreeing.refs h.accurate hdir hvacant
  -- nobody else has the directory, so its own reference is the last one
  obtain ⟨hone, hzero⟩ := h.ref_dir hd halone
  have hnot : ¬ TableOf s.mem d d := fun ⟨k, hk, hpde, hkd⟩ => by
    have htable := (h.accurate.entries (d, k) (.inl ⟨hdir, hk⟩) hpde).table hdir
    rw [hkd, hdir] at htable
    cases htable
  have hone₁ : m₁.ref d = 1 := by
    have hd := hrefs d
    rw [if_neg hnot, hzero, hone] at hd
    exact BitVec.eq_of_toNat_eq hd
  have hother : ∀ {q}, q ≠ d → (decref m₁ d).ref q = m₁.ref q := ref_decref_ne
  have hmmu : ∀ d' va, mmu (decref m₁ d) d' va = mmu m₁ d' va := fun d' va =>
    mmu_congr load_decref fun _ => load_decref
  -- a table is held by its directory alone
  have htables : ∀ {q}, TableOf s.mem d q → (m₁.ref q).toNat = 0 := fun {q} hq => by
    have hcount := hrefs q
    rw [if_pos hq, h.ref_table hdir hq] at hcount
    omega
  refine ⟨m₁, decref m₁ d, hunmap,
    pageDecref_eq (hfreeing.accurate.unlinked d (by rw [hd₁]; decide)),
    fun q hq ht => ?_, fun q hq => ?_, fun l hl => ?_, fun d' va hd' hne => ?_,
    fun d' va hd' hva hwindow => ?_⟩
  · have hcount := hrefs q
    rw [if_neg ht, Nat.add_zero] at hcount
    rw [hother hq, hcount]
  · by_cases heq : q = d
    · rw [heq, ref_decref_self, hone₁]
      rfl
    · rw [hother heq]
      exact BitVec.eq_of_toNat_eq (htables (hq.resolve_left heq))
  -- the free list grows by the directory and by what the sweep gave back
  · obtain ⟨l₁, hl₁, hnodup, hmem⟩ := hfreeing.accurate.freeList
    obtain ⟨l₀, hl₀, -, hmem₀⟩ := h.accurate.freeList
    obtain rfl := Chain.unique hl₀ hl
    have hnotin : d ∉ l₁ := hfreeing.accurate.not_mem_of_use hl₁ (by rw [hd₁]; decide)
    have hl' := hl₁.decref hnotin
    rw [if_pos hone₁] at hl'
    refine ⟨d :: l₁, hl', List.nodup_cons.mpr ⟨hnotin, hnodup⟩, fun q => ?_⟩
    rw [List.mem_cons, hmem, hmem₀]
    by_cases hfree : use q = .free
    · exact iff_of_true (.inr (hfreeing.drops.free q hfree)) (.inl hfree)
    · rw [hfreeing.drops.freed q hfree, or_iff_right hfree]
      refine or_congr_right ?_
      have hcount := hrefs q
      have hnat : ∀ a : BitVec 16, a = 0 ↔ a.toNat = 0 := fun a =>
        ⟨fun heq => by rw [heq]; rfl, fun heq => BitVec.eq_of_toNat_eq heq⟩
      rw [Ne, hnat, hnat]
      by_cases ht : TableOf s.mem d q
      · have hone := h.ref_table hdir ht
        exact iff_of_true ⟨by omega, htables ht⟩ (.inl ht)
      · rw [if_neg ht] at hcount
        rw [or_iff_right ht]
        omega
  · exact (hmmu d' va).trans (hfreeing.mmu h.accurate hdir hd' (.inl hne))
  · exact (hmmu d' va).trans (hfreeing.mmu h.accurate hdir hd' (.inr ⟨hva, hwindow⟩))

end RightCounts

theorem envFreeThreads_none (h : ∀ t, isThreadOf s e t = false) : envFreeThreads c s e = .ok s := by
  have hfold : ∀ l : List Slot, l.foldlM (fun s t =>
      if isThreadOf s e t then envDestroyThread c s t else .ok s : Kernel → Slot →
        Except Exit Kernel) s = .ok s := by
    intro l
    induction l with
    | nil => rfl
    | cons t l ih =>
        rw [List.foldlM_cons, h t, if_neg Bool.false_ne_true]
        exact ih
  exact hfold _

theorem envFreeProcess_eq {m : Mem} (hd : s.dirs e = some d) (hunmap : unmapUser s.mem d = .ok m₁)
    (hdec : pageDecref m₁ d = .ok m) : envFreeProcess c s e = .ok (freed c s e m) := by
  have hpgdir : (s.envs e).envPgdir = some d := hd
  have hdrop : ∀ s₁ : Kernel, dropPgdir (s₁.setMem m₁) e d =
      .ok (((s₁.setMem m₁).modEnv e fun env => { env with envPgdir := none }).setMem m) := fun s₁ =>
    dropPgdir_eq hdec
  have hmem : (if s.curenv c = some e then s.lcr3 c s.mem.kernPgdir else s).mem = s.mem := by
    split <;> rfl
  have henv : envPgdirOf (if s.curenv c = some e then s.lcr3 c s.mem.kernPgdir else s) e =
      .ok d := by
    have henvs : (if s.curenv c = some e then s.lcr3 c s.mem.kernPgdir else s).envs = s.envs := by
      split <;> rfl
    rw [envPgdirOf, henvs, hpgdir]
  unfold envFreeProcess freed
  dsimp only
  rw [henv]
  dsimp only [bind, Except.bind]
  rw [hmem, hunmap]
  dsimp only [Except.map, Kernel.withMem]
  rw [hdrop]
  rfl

end JosSched
