import JosSched.Vm.Upper
import JosSched.Vm.PageInsert

/-!
# Translations that stay

The MMU reads a page directory and the tables that it names (`Reads`).  Where none of these frames
is written, no translation changes (`SameSpace`).  Mapping, unmapping and freeing pages of one
address space writes its own tables and free frames, so the translations of the others stay.  In the
address space itself, `page_insert` changes the translation of its page, and that of the window at
`UVPT` where the page table shows if it is new.
-/

open Except

namespace JosSched

variable {pool : Set Ppn} {lost : Set (Ppn × Use)} {m m' m₁ : Mem} {dirs : Slot → Option Ppn}
  {held : Option Ppn} {use : Ppn → Use} {d d' f p pp t : Ppn} {x : PteRef} {va va' perm : Word}
  {r : ℤ}

/-- The MMU reads frame `f` for the translations of page directory `d`. -/
def Reads (m : Mem) (d f : Ppn) : Prop :=
  f = d ∨ ∃ k, m.load (d, k) &&& PTE_P ≠ 0 ∧ pgnum (m.load (d, k)) = f

/-- Nothing that the MMU reads for page directory `d` has been written. -/
def SameSpace (m m' : Mem) (d : Ppn) : Prop := ∀ x, Reads m d x.1 → m'.load x = m.load x

/-- Above `UTOP`, the page directory names page tables that the kernel keeps, or itself. -/
def KernelPart (pool : Set Ppn) (m : Mem) (d : Ppn) : Prop :=
  ∀ k : Idx, PDX_UTOP ≤ k.val → m.load (d, k) &&& PTE_P ≠ 0 →
    pgnum (m.load (d, k)) ∉ pool ∨ k = pdxUvpt ∧ pgnum (m.load (d, k)) = d

namespace SameSpace

theorem refl : SameSpace m m d := fun _ _ => rfl

theorem dir (h : SameSpace m m' d) (k : Idx) : m'.load (d, k) = m.load (d, k) := h _ (.inl rfl)

theorem reads (h : SameSpace m m' d) : Reads m' d f ↔ Reads m d f := by
  simp only [Reads, h.dir]

theorem trans (h : SameSpace m m₁ d) (h' : SameSpace m₁ m' d) : SameSpace m m' d := fun x hx =>
  (h' x (h.reads.mpr hx)).trans (h x hx)

theorem mmu (h : SameSpace m m' d) (va : Word) : JosSched.mmu m' d va = JosSched.mmu m d va :=
  mmu_congr (h.dir _) fun hpresent => h _ (.inr ⟨_, hpresent, rfl⟩)

theorem kernelPart (h : SameSpace m m' d) (hk : KernelPart pool m d) : KernelPart pool m' d := by
  intro k hle hpresent
  rw [h.dir] at hpresent ⊢
  exact hk k hle hpresent

theorem of_load (h : ∀ x, m'.load x = m.load x) : SameSpace m m' d := fun x _ => h x

end SameSpace

theorem KernelPart.sameUpper (h : KernelPart pool m d) (hd : use d = .pgdir)
    (hsame : SameUpper use m m') : KernelPart pool m' d := by
  intro k hle hpresent
  rw [hsame.pgdir _ hd hle] at hpresent ⊢
  exact h k hle hpresent

/-! ## Address spaces do not share tables -/

namespace Layout

theorem leads (h : Layout pool lost m dirs held use) (hd : use d = .pgdir)
    (hk : KernelPart pool m d) : Leads m use d := by
  intro k hpresent
  by_cases hlt : k.val < PDX_UTOP
  · have hne := ne_zero_of_and hpresent
    have hentry : IsEntry use (d, k) := .inl ⟨hd, hlt⟩
    refine .inl ⟨links_eq_some.mpr ⟨hentry, hne, rfl⟩, ?_⟩
    obtain ⟨t, ht, heq⟩ := (h.entries _ hentry).of_pgdir hd hne
    rw [heq, pgnum_tableEntry]
    exact ht
  · exact .inr ((hk k (not_lt.mp hlt) hpresent).imp_left (h.kernel _).mpr)

/-- A page table is in one page directory, at one place. -/
theorem links_inj (h : Layout pool lost m dirs held use) {x y : PteRef} (ht : use t = .table)
    (hx : links m use x = some t) (hy : links m use y = some t) : x = y := by
  have hcellx : Sum.elim dirs (links m use) (.inr x) = some t := hx
  have hcelly : Sum.elim dirs (links m use) (.inr y) = some t := hy
  exact Sum.inr.inj (eq_of_refCount_le_one (h.single t ht) hcellx hcelly)

theorem links_pde (hd : use d = .pgdir) (hva : va < UTOP) (hpde : m.load (d, pdx va) ≠ 0) :
    links m use (d, pdx va) = some (pgnum (m.load (d, pdx va))) :=
  links_eq_some.mpr ⟨isEntry_pgdir hd hva, hpde, rfl⟩

/-- What the MMU reads for one page directory is neither free nor of another one. -/
theorem reads_foreign (h : Layout pool lost m dirs held use) (hd : use d = .pgdir)
    (hk : KernelPart pool m d) (hd' : use d' = .pgdir) (hne : d ≠ d') (hf : Reads m d f) :
    use f ≠ .free ∧ f ≠ d' ∧
      ∀ k : Idx, k.val < PDX_UTOP → m.load (d', k) ≠ 0 → f ≠ pgnum (m.load (d', k)) := by
  have htable : ∀ k : Idx, k.val < PDX_UTOP → m.load (d', k) ≠ 0 →
      links m use (d', k) = some (pgnum (m.load (d', k))) ∧
        use (pgnum (m.load (d', k))) = .table := fun k hlt hpde => by
    have hentry : IsEntry use (d', k) := .inl ⟨hd', hlt⟩
    obtain ⟨t, ht, heq⟩ := (h.entries _ hentry).of_pgdir hd' hpde
    refine ⟨links_eq_some.mpr ⟨hentry, hpde, rfl⟩, ?_⟩
    rw [heq, pgnum_tableEntry]
    exact ht
  have hself : use d ≠ .free ∧ d ≠ d' ∧
      ∀ k : Idx, k.val < PDX_UTOP → m.load (d', k) ≠ 0 → d ≠ pgnum (m.load (d', k)) := by
    refine ⟨by rw [hd]; decide, hne, fun k hlt hpde heq => ?_⟩
    have ht := (htable k hlt hpde).2
    rw [← heq, hd] at ht
    cases ht
  rcases hf with rfl | ⟨j, hpresent, rfl⟩
  · exact hself
  · rcases h.leads hd hk j hpresent with ⟨hlink, huse⟩ | huse | ⟨-, heq⟩
    · refine ⟨by rw [huse]; decide, fun heq => ?_, fun k hlt hpde heq => ?_⟩
      · rw [heq, hd'] at huse
        cases huse
      · obtain ⟨hlink', huse'⟩ := htable k hlt hpde
        rw [heq] at hlink
        exact hne (congrArg Prod.fst (h.links_inj huse' hlink hlink'))
    · refine ⟨by rw [huse]; decide, fun heq => ?_, fun k hlt hpde heq => ?_⟩
      · rw [heq, hd'] at huse
        cases huse
      · rw [heq, (htable k hlt hpde).2] at huse
        cases huse
    · rw [heq]
      exact hself

/-- A frame that was free has been written. -/
theorem sameSpace_fresh (h : Layout pool lost m dirs held use) (hd : use d = .pgdir)
    (hk : KernelPart pool m d) (hp : use p = .free)
    (hload : ∀ x, x.1 ≠ p → m'.load x = m.load x) : SameSpace m m' d := by
  intro x hx
  refine hload x fun heq => ?_
  rcases hx with hx | ⟨j, hpresent, hx⟩
  · rw [← heq, hx, hd] at hp
    cases hp
  · rw [← heq, ← hx] at hp
    rcases h.leads hd hk j hpresent with ⟨-, huse⟩ | huse | ⟨-, hself⟩
    · rw [huse] at hp
      cases hp
    · rw [huse] at hp
      cases hp
    · rw [hself, hd] at hp
      cases hp

/-- `page_remove` in another page directory. -/
theorem sameSpace_pageRemove (h : Layout pool lost m dirs held use) (hd : use d = .pgdir)
    (hk : KernelPart pool m d) (hd' : use d' = .pgdir) (hne : d ≠ d') (hva : va < UTOP)
    (hrm : JosSched.pageRemove m d' va = .ok m') : SameSpace m m' d := by
  intro x hx
  refine load_of_pageRemove hrm fun hpde heq => ?_
  exact (h.reads_foreign hd hk hd' hne hx).2.2 _ (pdx_lt hva) hpde (congrArg Prod.fst heq)

/-- `env_free` on the owner of another page directory. -/
theorem sameSpace_unmapUser (h : Layout pool lost m dirs none use) (hd : use d = .pgdir)
    (hk : KernelPart pool m d) (hd' : use d' = .pgdir) (hne : d ≠ d')
    (hunmap : JosSched.unmapUser m d' = .ok m') : SameSpace m m' d := by
  obtain ⟨-, -, -, -, hothers⟩ := h.unmapUser hd' hunmap
  have hkernel := (SameUpper.unmapUser h hd' hunmap).kernel
  have hdir : ∀ k, m'.load (d, k) = m.load (d, k) := fun k => hothers.entries d k hd hne
  rintro ⟨f, j⟩ (hf | ⟨k, hpresent, hf⟩)
  · rw [show f = d from hf]
    exact hdir j
  · obtain rfl : pgnum (m.load (d, k)) = f := hf
    rcases h.leads hd hk k hpresent with ⟨hlink, -⟩ | huse | ⟨-, hself⟩
    · -- the word is the entry of a page below `UTOP`
      have hlt : k.val < PDX_UTOP := by
        obtain ⟨⟨-, hlt⟩ | htable, -⟩ := links_eq_some.mp hlink
        · exact hlt
        · rw [hd] at htable
          cases htable
      have hpde : m.load (d, pdx (pgaddr k j)) ≠ 0 := by
        rw [pdx_pgaddr]
        exact ne_zero_of_and hpresent
      have hleaf := hothers.leaves d (pgaddr k j) hd (pgaddr_lt hlt j) hne
      rw [leaf_of_pde hpde, leaf_of_pde (by rw [hdir]; exact hpde), cell, cell, hdir, pdx_pgaddr,
        ptx_pgaddr] at hleaf
      exact hleaf
    · exact hkernel _ huse
    · rw [hself]
      exact hdir j

end Layout

/-! ## `page_insert` -/

theorem pgdirCreate_tabled (hpde : m.load (d, pdx va) = 0)
    (hcreate : pgdirCreate m d va = .ok m') : m' = tabled m d va := by
  unfold pgdirCreate at hcreate
  obtain ⟨⟨page, m₁⟩, halloc, hcreate⟩ := bind_eq_ok.mp hcreate
  cases page with
  | none =>
      obtain rfl := Except.ok.inj hcreate
      rcases pageAlloc_eq_ok halloc with ⟨-, hnone, rfl⟩ | ⟨t, ht, -⟩
      · rw [tabled_of_none (by rw [newTable, if_pos hpde, hnone])]
      · cases ht
  | some t =>
      rcases pageAlloc_eq_ok halloc with ⟨hnone, -⟩ | ⟨t', ht, hhead, rfl⟩
      · cases hnone
      obtain rfl := Option.some.inj ht
      have href : ((takePage m t).fill t fun _ => 0).ref t = m.ref t := ref_takePage
      rw [tabled_of_some (newTable_eq_some.mpr ⟨hpde, hhead⟩), withTable, ← href]
      exact (Except.ok.inj hcreate).symm

/-- The walk takes a frame for the page table, if it is not there. -/
theorem pgdirWalk_tabled {pte : Option PteRef} (hwalk : pgdirWalk m d va true = .ok (pte, m')) :
    m' = tabled m d va ∧ ∀ x, pte = some x → m'.load (d, pdx va) ≠ 0 ∧ x = cell m' d va := by
  unfold pgdirWalk at hwalk
  obtain ⟨m₁, hcreate, hwalk⟩ := bind_eq_ok.mp hwalk
  obtain ⟨pte', hentry, hwalk⟩ := bind_eq_ok.mp hwalk
  obtain ⟨rfl, rfl⟩ := Prod.mk.inj (Except.ok.inj hwalk)
  constructor
  · split at hcreate
    · next hpde => exact pgdirCreate_tabled hpde.1 hcreate
    · next hpde =>
        obtain rfl := Except.ok.inj hcreate
        rw [tabled_of_none (if_neg fun hzero => hpde ⟨hzero, rfl⟩)]
  · rintro x rfl
    unfold pgdirEntry at hentry
    dsimp only at hentry
    split at hentry
    · next hpde =>
        obtain ⟨-, -, hsome⟩ := map_eq_ok.mp hentry
        exact ⟨hpde, (Option.some.inj hsome).symm⟩
    · cases Except.ok.inj hentry

/-- Beyond that, `page_insert` writes one word. -/
theorem load_of_pageInsert (hins : pageInsert m d pp va perm = .ok (r, m')) :
    (∀ x, m'.load x = (tabled m d va).load x) ∨ (tabled m d va).load (d, pdx va) ≠ 0 ∧
      ∀ x, x ≠ cell (tabled m d va) d va → m'.load x = (tabled m d va).load x := by
  unfold pageInsert at hins
  obtain ⟨⟨pte, m₁⟩, hwalk, hins⟩ := bind_eq_ok.mp hins
  obtain ⟨rfl, hcell⟩ := pgdirWalk_tabled hwalk
  cases pte with
  | none =>
      obtain ⟨-, rfl⟩ := Prod.mk.inj (Except.ok.inj hins)
      exact .inl fun _ => rfl
  | some pte =>
      obtain ⟨hpde, rfl⟩ := hcell pte rfl
      obtain ⟨m₂, hremove, hins⟩ := bind_eq_ok.mp hins
      obtain ⟨-, rfl⟩ := Prod.mk.inj (Except.ok.inj hins)
      refine .inr ⟨hpde, fun x hx => ?_⟩
      have hload := load_of_pageRemove (x := x) hremove fun _ => hx
      rw [Mem.load_store_ne hx]
      exact hload

/-- The page of the window at `UVPT` where the page table of `va` shows. -/
def OnWindow (va va' : Word) : Prop := pdx va' = pdxUvpt ∧ ptx va' = pdx va

namespace Layout

theorem mmu_tabled (h : Layout pool lost m dirs held use) (hd : use d = .pgdir)
    (hd' : use d' = .pgdir) (hk : KernelPart pool m d')
    (hwindow : ¬ (d' = d ∧ OnWindow va va' ∧ m.load (d, pdx va) = 0)) :
    mmu (tabled m d va) d' va' = mmu m d' va' := by
  cases hnew : newTable m d va with
  | none => rw [tabled_of_none hnew]
  | some t =>
      obtain ⟨hpde, hhead⟩ := newTable_eq_some.mp hnew
      rw [tabled_of_some hnew]
      exact (h.leads hd' hk).mmu_withTable hd hd' hpde (h.use_of_head hhead)
        fun hand => hwindow ⟨hand.1, hand.2, hpde⟩

theorem mmu_pageInsert (h : Layout pool lost m dirs held use) (hd : use d = .pgdir)
    (hva : va < UTOP)
    (hd' : use d' = .pgdir) (hk : KernelPart pool m d')
    (hins : JosSched.pageInsert m d pp va perm = .ok (r, m'))
    (hne : ¬ (d' = d ∧ (SamePage va va' ∨ OnWindow va va' ∧ m.load (d, pdx va) = 0))) :
    mmu m' d' va' = mmu m d' va' := by
  have htabled := h.mmu_tabled hd hd' hk fun hand => hne ⟨hand.1, .inr hand.2⟩
  have hwords := load_of_pageInsert hins
  unfold JosSched.pageInsert at hins
  obtain ⟨⟨pte, m₁⟩, hwalk, -⟩ := bind_eq_ok.mp hins
  obtain ⟨rfl, -⟩ := pgdirWalk_tabled hwalk
  rcases hwords with hsame | ⟨hpde, hload⟩
  · exact (mmu_congr (hsame _) fun _ => hsame _).trans htabled
  rcases h.pgdirWalk hd hva hwalk with ⟨-, hm, -, hzero⟩ | ⟨use₁, -, h₁, htakes, -⟩
  · rw [hm] at hpde
    exact absurd hzero hpde
  · have hupper := SameUpper.pgdirWalk (fun t ht => lower_of_use (.inl (h.use_of_head ht))) hd hva
      (h.lowerTable hd hva) hwalk
    have hd₁ := htakes.remaps.pgdir hd
    have hd₁' := htakes.remaps.pgdir hd'
    have htable := (h₁.table_of_pde hd₁ hva hpde).1
    refine Eq.trans ?_ htabled
    exact (h₁.leads hd₁' (hk.sameUpper hd' hupper.1)).mmu_of_load hd₁' htable
      (fun k hlink => h₁.links_inj htable hlink (links_pde hd₁ hva hpde)) hload
      fun hand => hne ⟨hand.1, .inl hand.2⟩

/-- A page table that is there stays. -/
theorem pde_pageInsert (h : Layout pool lost m dirs held use) (hd : use d = .pgdir)
    (hva : va < UTOP) (hins : JosSched.pageInsert m d pp va perm = .ok (r, m'))
    (hpde : m.load (d, pdx va) ≠ 0) : m'.load (d, pdx va) = m.load (d, pdx va) := by
  have htabled : tabled m d va = m := by
    cases hnew : newTable m d va with
    | none => exact tabled_of_none hnew
    | some t => exact absurd (newTable_eq_some.mp hnew).1 hpde
  have hwords := load_of_pageInsert hins
  rw [htabled] at hwords
  rcases hwords with hsame | ⟨-, hload⟩
  · exact hsame _
  · -- the word that is written lies in the page table
    refine hload _ fun heq => ?_
    have hself : d = pgnum (m.load (d, pdx va)) := congrArg Prod.fst heq
    have htable := (h.table_of_pde hd hva hpde).1
    rw [← hself, hd] at htable
    cases htable

end Layout

end JosSched
