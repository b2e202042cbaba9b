import JosSched.Kern.MemInit
import JosSched.Vm.Growing

/-!
# The address space of the kernel

While the kernel boots, its page directory has page tables of its own above `UTOP`, taken from the
front of the free list, and nothing below (`KernelSpace`).  Mapping a page then never panics, and
changes the entry of this page only (`KernelSpace.bootMapPage`).  The tests of the page allocator
leave it as it is (`KernelSpace.testsPassed`).
-/

open Except

namespace JosSched

variable {top : ℕ} {m m' m₁ : Mem} {d t q : Ppn} {l rest : List Ppn} {va va' pa perm w : Word}
  {k : Idx}

/-- The entries of a page directory but for the window at `UVPT`. -/
def offWindow : Set Idx := { k | k ≠ pdxUvpt }

/-- The entries for the kernel that have no page table yet. -/
def emptyEntries (m : Mem) (d : Ppn) : Finset Idx :=
  Finset.univ.filter fun k => PDX_UTOP ≤ k.val ∧ k ≠ pdxUvpt ∧ m.load (d, k) = 0

/-- Memory while the kernel boots, with page directory `d` and free list `l`.  The kernel reaches
the first `top` frames, its page tables are among them, and there is one at the front of the free
list for each entry that is still empty, with three to spare. -/
structure KernelSpace (top : ℕ) (m : Mem) (d : Ppn) (l : List Ppn) : Prop
    extends Growing offWindow m d l where
  unused : ∀ pp ∈ l, m.ref pp = 0
  unlinked : ∀ q, q ∉ l → (m.pages q).ppLink = none
  lower : ∀ k : Idx, k.val < PDX_UTOP → m.load (d, k) = 0
  reach : ∀ k ∈ offWindow, m.load (d, k) ≠ 0 → (pgnum (m.load (d, k))).toNat < top
  stock : ∃ low high, l = low ++ high ∧ (∀ t ∈ low, t.toNat < top) ∧
    (emptyEntries m d).card + 3 ≤ low.length

theorem pdx_ge (h : UTOP ≤ va) : PDX_UTOP ≤ (pdx va).val := by
  have htop : UTOP.toNat = 0xeec00000 := rfl
  have hle : UTOP.toNat ≤ va.toNat := h
  rw [toNat_pdx]
  show 955 ≤ _
  omega

namespace KernelSpace

/-! ### New page tables -/

/-- There is a frame at the front of the free list, and the kernel reaches it. -/
theorem exists_head (h : KernelSpace top m d l) :
    ∃ t rest, l = t :: rest ∧ t.toNat < top ∧ ∃ low high,
      rest = low ++ high ∧ (∀ t ∈ low, t.toNat < top) ∧
      (emptyEntries m d).card + 3 ≤ low.length + 1 := by
  obtain ⟨low, high, rfl, hlow, hcard⟩ := h.stock
  cases low with
  | nil =>
      rw [List.length_nil] at hcard
      omega
  | cons t low =>
      rw [List.length_cons] at hcard
      exact ⟨t, low ++ high, rfl, hlow t List.mem_cons_self, low, high, rfl,
        fun q hq => hlow q (List.mem_cons_of_mem _ hq), hcard⟩

theorem card_withTable (h : KernelSpace top m d l) (ht : t ∈ l) (hva : UTOP ≤ va)
    (hwin : pdx va ∈ offWindow) (hpde : m.load (d, pdx va) = 0) :
    (emptyEntries (withTable m d t va) d).card < (emptyEntries m d).card := by
  have hmem : pdx va ∈ emptyEntries m d :=
    Finset.mem_filter.mpr ⟨Finset.mem_univ _, pdx_ge hva, hwin, hpde⟩
  refine lt_of_le_of_lt (Finset.card_le_card fun k hk => ?_) (Finset.card_erase_lt_of_mem hmem)
  obtain ⟨-, hge, hkwin, hzero⟩ := Finset.mem_filter.mp hk
  have hkva : k ≠ pdx va := fun heq => by
    rw [heq, load_withTable_pde] at hzero
    exact ne_zero_of_and (tableEntry_present t) hzero
  rw [h.load_withTable_dir ht hkva] at hzero
  exact Finset.mem_erase.mpr ⟨hkva, Finset.mem_filter.mpr ⟨Finset.mem_univ _, hge, hkwin, hzero⟩⟩

/-- The frame at the front of the free list becomes a page table. -/
theorem newTable (h : KernelSpace top m d l) (hva : UTOP ≤ va) (hwin : pdx va ∈ offWindow)
    (hpde : m.load (d, pdx va) = 0) :
    ∃ t rest, l = t :: rest ∧ KernelSpace top (withTable m d t va) d rest := by
  obtain ⟨t, rest, rfl, htop, low, high, rfl, hlow, hcard⟩ := h.exists_head
  have ht : t ∈ t :: (low ++ high) := List.mem_cons_self
  obtain ⟨htrest, -⟩ := List.nodup_cons.mp h.nodup
  have hother : ∀ k, k ≠ pdx va → (withTable m d t va).load (d, k) = m.load (d, k) :=
    fun k hk => h.load_withTable_dir ht hk
  refine ⟨t, low ++ high, rfl, h.addTable, fun pp hpp => ?_, fun q hq => ?_, fun k hk => ?_,
    fun k hk hne => ?_, low, high, rfl, hlow, ?_⟩
  · exact (ref_withTable_ne (ne_of_mem_of_not_mem hpp htrest)).trans
      (h.unused pp (List.mem_cons_of_mem _ hpp))
  · rw [sameList_withTable.link]
    by_cases hqt : q = t
    · rw [hqt]
      simp [takePage, Mem.setLink]
    · rw [takePage_link hqt]
      exact h.unlinked q fun hin => hq ((List.mem_cons.mp hin).resolve_left hqt)
  · rw [hother k fun heq => absurd (pdx_ge hva) (not_le.mpr (heq ▸ hk))]
    exact h.lower k hk
  · by_cases hkva : k = pdx va
    · rwa [hkva, load_withTable_pde, pgnum_tableEntry]
    · rw [hother k hkva] at hne ⊢
      exact h.reach k hk hne
  · have hlt := h.card_withTable ht hva hwin hpde
    omega

/-! ### The functions of `kern/pmap.c` -/

/-- `pgdir_walk` finds a page table, or makes one. -/
theorem pgdirWalk_create (h : KernelSpace top m d l) (hva : UTOP ≤ va) (hwin : pdx va ∈ offWindow) :
    ∃ m₁ l₁, pgdirWalk m d va true = .ok (some (cell m₁ d va), m₁) ∧ KernelSpace top m₁ d l₁ ∧
      SameLeaves offWindow m m₁ d ∧ m₁.load (d, pdx va) ≠ 0 := by
  by_cases hpde : m.load (d, pdx va) = 0
  · obtain ⟨t, rest, rfl, h₁⟩ := h.newTable hva hwin hpde
    refine ⟨_, rest, h.pgdirWalk_new hwin hpde, h₁,
      h.sameLeaves_withTable List.mem_cons_self hpde, ?_⟩
    rw [load_withTable_pde]
    exact ne_zero_of_and (tableEntry_present t)
  · exact ⟨m, l, h.pgdirWalk_old hwin hpde, h, .refl, hpde⟩

/-- Writing the entry of a page. -/
theorem store (h : KernelSpace top m d l) (hwin : pdx va ∈ offWindow)
    (hpde : m.load (d, pdx va) ≠ 0) : KernelSpace top (m.store (cell m d va) w) d l := by
  have hload : ∀ k, (m.store (cell m d va) w).load (d, k) = m.load (d, k) := fun k =>
    h.load_store_dir hwin hpde
  have hempty : emptyEntries (m.store (cell m d va) w) d = emptyEntries m d := by
    unfold emptyEntries
    simp only [hload]
  refine ⟨h.toGrowing.store hwin hpde, h.unused, h.unlinked, fun k hk => ?_, fun k hk hne => ?_, ?_⟩
  · rw [hload]
    exact h.lower k hk
  · rw [hload] at hne ⊢
    exact h.reach k hk hne
  · rw [hempty]
    exact h.stock

/-- One page is mapped where there was none. -/
theorem bootMapPage (h : KernelSpace top m d l) (hva : UTOP ≤ va) (hwin : pdx va ∈ offWindow)
    (hleaf : leaf m d va = 0) (pa perm : Word) :
    ∃ m' l', bootMapPage top m d va pa perm = some m' ∧ KernelSpace top m' d l' ∧
      Extends m m' d ∧ ∀ va', pdx va' ∈ offWindow →
        leaf m' d va' = if va.toNat / 4096 = va'.toNat / 4096 then pa ||| perm ||| PTE_P
          else leaf m d va' := by
  obtain ⟨m₁, l₁, hwalk, h₁, hsame, hpde⟩ := h.pgdirWalk_create hva hwin
  have hleaf₁ : leaf m₁ d va = 0 := (hsame.leaf va hwin).trans hleaf
  refine ⟨m₁.store (cell m₁ d va) (pa ||| perm ||| PTE_P), l₁, ?_, h₁.store hwin hpde,
    hsame.toExtends.trans ⟨rfl, rfl, fun _ _ => h₁.load_store_dir hwin hpde⟩, fun va' hwin' => ?_⟩
  · unfold JosSched.bootMapPage
    rw [hwalk]
    dsimp only [Except.toOption, bind, Option.bind]
    rw [h₁.pageRemove_empty hwin hpde hleaf₁]
    exact if_neg (not_le.mpr (h₁.reach _ hwin hpde))
  · rw [h₁.leaf_store hwin hpde hwin', hsame.leaf va' hwin']

/-- Emptying the entry of a page. -/
theorem clearEntry (h : KernelSpace top m d l) (hkern : m.kernPgdir = d) (hwin : pdx va ∈ offWindow)
    (hleaf : leaf m d va ≠ 0) :
    ∃ m', clearEntry m va = some m' ∧ KernelSpace top m' d l ∧ Extends m m' d ∧
      ∀ va', pdx va' ∈ offWindow →
        leaf m' d va' = if va.toNat / 4096 = va'.toNat / 4096 then 0 else leaf m d va' := by
  have hpde := pde_ne_zero_of_leaf hleaf
  refine ⟨m.store (cell m d va) 0, ?_, h.store hwin hpde,
    ⟨rfl, rfl, fun _ _ => h.load_store_dir hwin hpde⟩, fun va' => h.leaf_store hwin hpde⟩
  unfold JosSched.clearEntry
  rw [hkern, h.pgdirWalk_find hwin, if_neg hpde]
  rfl

/-! ### The tests of the page allocator -/

/-- The tests keep the address space, and enough page tables at the front of the free list. -/
theorem testsPassed (h : KernelSpace top m d l) (htests : TestsPassed m m') :
    ∃ l', KernelSpace top m' d l' ∧ SameLeaves offWindow m m' d := by
  obtain ⟨taken, taken', rest, hlist, hlen, hperm, hlist', hkept⟩ := htests.taken
  obtain rfl : l = taken ++ rest := Chain.unique h.freeList hlist
  have hperm' : (taken' ++ rest).Perm (taken ++ rest) := hperm.append_right rest
  have hmem : ∀ q, q ∉ taken' ++ rest → q ∉ taken ++ rest := fun q hq hin =>
    hq (hperm'.mem_iff.mpr hin)
  have hload : ∀ k, m'.load (d, k) = m.load (d, k) := (hkept d h.dir).2
  have hempty : emptyEntries m' d = emptyEntries m d := by
    unfold emptyEntries
    simp only [hload]
  refine ⟨taken' ++ rest, ?_, ⟨htests.npages, htests.kernPgdir, fun k _ => hload k⟩,
    fun va hwin => leaf_congr (hload _) fun hpde => (hkept _ (h.table hwin hpde).2.1).2 _⟩
  exact {
    freeList := hlist'
    nodup := hperm'.nodup_iff.mpr h.nodup
    dir := fun hin => h.dir (hperm'.mem_iff.mp hin)
    free := fun pp hpp => htests.npages ▸ h.free pp (hperm'.mem_iff.mp hpp)
    tables := fun k hk hne => by
      rw [hload] at hne ⊢
      obtain ⟨t, heq, hdir, hnot, hlt⟩ := h.tables k hk hne
      rw [htests.npages]
      exact ⟨t, heq, hdir, fun hin => hnot (hperm'.mem_iff.mp hin), hlt⟩
    apart := fun k hk k' hk' hne heq => by
      rw [hload] at hne heq
      rw [hload] at heq
      exact h.apart k hk k' hk' hne heq
    unused := fun pp hpp => (htests.ref pp).trans (h.unused pp (hperm'.mem_iff.mp hpp))
    unlinked := fun q hq => (hkept q (hmem q hq)).1.trans (h.unlinked q (hmem q hq))
    lower := fun k hk => (hload k).trans (h.lower k hk)
    reach := fun k hk hne => by
      rw [hload] at hne ⊢
      exact h.reach k hk hne
    stock := by
      obtain ⟨low, high, heq, hlow, hcard⟩ := h.stock
      rw [hempty]
      rcases List.append_eq_append_iff.mp heq with ⟨low', rfl, rfl⟩ | ⟨high', rfl, rfl⟩
      · refine ⟨taken' ++ low', high, (List.append_assoc _ _ _).symm, fun t ht => ?_, ?_⟩
        · rw [List.mem_append, hperm.mem_iff, ← List.mem_append] at ht
          exact hlow t ht
        · rw [List.length_append, hperm.length_eq, ← List.length_append]
          exact hcard
      · -- nothing but the three pages is known to be low
        have hnil : high' = [] := by
          rw [List.length_append] at hlen
          exact List.length_eq_zero_iff.mp (by omega)
        rw [hnil, List.append_nil] at hperm
        refine ⟨taken', rest, rfl, fun t ht => hlow t (hperm.mem_iff.mp ht), ?_⟩
        rw [hperm.length_eq]
        exact hcard }

end KernelSpace

end JosSched
