import JosSched.Vm.KernelSpace

/-!
# Regions of the kernel

The kernel maps ranges of consecutive pages to consecutive physical pages (`Region`).  The loop of
`boot_map_region` maps one of them, page by page (`KernelSpace.bootMapFrom`).  `Booting` collects
what has been mapped: inside a region the MMU adds the distance from its start to the physical
address, with the permissions of the region, and outside of all of them there is no translation.
-/

open Except

namespace JosSched

variable {top n : ℕ} {m m' m₁ : Mem} {d : Ppn} {l : List Ppn} {va va' pa w : Word}

theorem or_present (w : Word) : (w ||| PTE_P) &&& PTE_P ≠ 0 := by
  intro h
  have hbit := congrArg (fun w => w.getLsbD 0) h
  simp [PTE_P] at hbit

/-- Consecutive pages, mapped to consecutive physical pages. -/
structure Region where
  va : Word
  pages : ℕ
  pa : Word
  perm : Word

namespace Region

variable {r r' : Region}

/-- Where the region ends. -/
def limit (r : Region) : ℕ := r.va.toNat + r.pages * 4096

def size (r : Region) : Word := BitVec.ofNat 32 (r.pages * 4096)

/-- The address is one of the region. -/
def Holds (r : Region) (va : Word) : Prop := r.va.toNat ≤ va.toNat ∧ va.toNat < r.limit

instance (r : Region) (va : Word) : Decidable (r.Holds va) := inferInstanceAs (Decidable (_ ∧ _))

/-- The entry of the page of `va`. -/
def entry (r : Region) (va : Word) : Word := r.pa + (rounddown va - r.va) ||| r.perm ||| PTE_P

/-- What the entries grant, where the page directory grants everything. -/
def flags (r : Region) : Word := (r.perm ||| PTE_P) &&& (PTE_P ||| PTE_W ||| PTE_U)

/-- The region is one of the kernel: whole pages above `UTOP`, none of them in the window at
`UVPT`. -/
structure Fits (r : Region) : Prop where
  aligned : pgoff r.va = 0
  above : UTOP ≤ r.va
  below : r.limit ≤ 2 ^ 32
  window : r.limit ≤ UVPT.toNat ∨ UVPT.toNat + 4194304 ≤ r.va.toNat

/-- The regions have no address in common. -/
def Apart (r r' : Region) : Prop := r.limit ≤ r'.va.toNat ∨ r'.limit ≤ r.va.toNat

/-- Physical pages, and permissions that are flags. -/
structure Mappable (r : Region) : Prop where
  aligned : pgoff r.pa = 0
  flags : pgnum r.perm = 0

theorem entry_present (r : Region) (va : Word) : r.entry va &&& PTE_P ≠ 0 := or_present _

theorem Apart.not_holds (h : r.Apart r') (hva : r.Holds va) : ¬ r'.Holds va := fun hva' => by
  obtain ⟨hle, hlt⟩ := hva
  obtain ⟨hle', hlt'⟩ := hva'
  rcases h with h | h <;> omega

namespace Fits

theorem holds (h : r.Fits) (hva : r.Holds va) : UTOP ≤ va ∧ pdx va ≠ pdxUvpt := by
  obtain ⟨hle, hlt⟩ := hva
  have habove : UTOP.toNat ≤ r.va.toNat := h.above
  have hwindow := h.window
  have hbase : UVPT.toNat = 957 * 4194304 := rfl
  have hself : (pdxUvpt : ℕ) = 957 := rfl
  refine ⟨habove.trans hle, fun heq => ?_⟩
  rw [Fin.ext_iff, toNat_pdx, hself] at heq
  omega

theorem pages_lt (h : r.Fits) : r.pages * 4096 < 2 ^ 32 := by
  have habove : UTOP.toNat ≤ r.va.toNat := h.above
  have hbelow := h.below
  have htop : UTOP.toNat = 0xeec00000 := rfl
  unfold limit at hbelow
  omega

theorem toNat_size (h : r.Fits) : r.size.toNat = r.pages * 4096 := by
  rw [size, BitVec.toNat_ofNat, Nat.mod_eq_of_lt h.pages_lt]

/-- The address of page `j`. -/
theorem toNat_page (h : r.Fits) {j : ℕ} (hj : j < r.pages) :
    (r.va + BitVec.ofNat 32 (j * 4096)).toNat = r.va.toNat + j * 4096 := by
  have hbelow := h.below
  have hpages := h.pages_lt
  unfold limit at hbelow
  rw [BitVec.toNat_add, BitVec.toNat_ofNat]
  omega

/-- The entry of page `j`. -/
theorem entry_page (h : r.Fits) {j : ℕ} (hj : j < r.pages)
    (hpage : (r.va.toNat + j * 4096) / 4096 = va.toNat / 4096) :
    r.entry va = r.pa + BitVec.ofNat 32 (j * 4096) ||| r.perm ||| PTE_P := by
  have haligned := pgoff_eq_zero_iff.mp h.aligned
  have hround : rounddown va - r.va = BitVec.ofNat 32 (j * 4096) := by
    have hva : rounddown va = r.va + BitVec.ofNat 32 (j * 4096) := by
      apply BitVec.eq_of_toNat_eq
      rw [toNat_rounddown, h.toNat_page hj]
      omega
    rw [hva, BitVec.add_comm, BitVec.add_sub_cancel]
  rw [entry, hround]

end Fits

end Region

/-! ## The loop -/

/-- What is behind the start of page `j`, and not on it, is behind its end. -/
theorem next_page {c base j x : ℕ} (hc : 0 < c) (hbase : base % c = 0) (hle : base + j * c ≤ x)
    (hne : (base + j * c) / c ≠ x / c) : base + (j + 1) * c ≤ x := by
  obtain ⟨b, rfl⟩ := Nat.dvd_of_mod_eq_zero hbase
  have hsum : ∀ i, c * b + i * c = (b + i) * c := fun i => by rw [Nat.mul_comm c, Nat.add_mul]
  rw [hsum, Nat.mul_div_cancel _ hc] at hne
  rw [hsum] at hle ⊢
  have hlt : b + j < x / c := lt_of_le_of_ne ((Nat.le_div_iff_mul_le hc).mpr hle) hne
  exact (Nat.le_div_iff_mul_le hc).mp hlt

namespace KernelSpace

variable {r : Region}

/-- The loop from page `j` on, `n` pages before the end. -/
theorem bootMapFrom (hr : r.Fits) {n : ℕ} : ∀ (j fuel : ℕ) {m : Mem} {l : List Ppn},
    KernelSpace top m d l → j + n = r.pages → n ≤ fuel →
    (∀ va, r.Holds va → r.va.toNat + j * 4096 ≤ va.toNat → leaf m d va = 0) →
    ∃ m' l',
      bootMapFrom top d r.va r.size r.pa r.perm fuel (BitVec.ofNat 32 (j * 4096)) m = some m' ∧
      KernelSpace top m' d l' ∧ Extends m m' d ∧ ∀ va, pdx va ≠ pdxUvpt → leaf m' d va =
        if r.Holds va ∧ r.va.toNat + j * 4096 ≤ va.toNat then r.entry va else leaf m d va := by
  have hsize := hr.toNat_size
  have hlt := hr.pages_lt
  have hlimit : r.limit = r.va.toNat + r.pages * 4096 := rfl
  have haligned := pgoff_eq_zero_iff.mp hr.aligned
  induction n with
  | zero =>
      intro j fuel m l h hj _ _
      refine ⟨m, l, ?_, h, .refl, fun va _ => ?_⟩
      · cases fuel with
        | zero => rfl
        | succ fuel =>
            refine if_neg fun hcont => ?_
            rw [BitVec.lt_def, hsize, BitVec.toNat_ofNat] at hcont
            omega
      · rw [if_neg]
        rintro ⟨⟨-, hend⟩, hstart⟩
        omega
  -- page `j` is mapped, and by induction those behind it
  | succ n ih =>
      intro j fuel m l h hj hfuel hempty
      obtain ⟨fuel, rfl⟩ : ∃ k, fuel = k + 1 := ⟨fuel - 1, by omega⟩
      have hpage := hr.toNat_page (j := j) (by omega)
      have hholds : r.Holds (r.va + BitVec.ofNat 32 (j * 4096)) := by
        refine ⟨?_, ?_⟩ <;> omega
      obtain ⟨habove, hwin⟩ := hr.holds hholds
      obtain ⟨m₁, l₁, hmap, h₁, hext, hleaf⟩ := h.bootMapPage habove hwin
        (hempty _ hholds hpage.ge) (r.pa + BitVec.ofNat 32 (j * 4096)) r.perm
      obtain ⟨m', l', hloop, h', hext', hleaf'⟩ := ih (j + 1) fuel h₁
        (by omega) (by omega) fun va hva hstart => by
          rw [hleaf va (hr.holds hva).2, if_neg (by omega)]
          refine hempty va hva (le_trans ?_ hstart)
          exact Nat.add_le_add_left (Nat.mul_le_mul_right _ (Nat.le_succ j)) _
      refine ⟨m', l', ?_, h', hext.trans hext', fun va hva => ?_⟩
      · have hnext : BitVec.ofNat 32 (j * 4096) + PGSIZE = BitVec.ofNat 32 ((j + 1) * 4096) := by
          rw [Nat.add_mul, BitVec.ofNat_add]
          rfl
        unfold JosSched.bootMapFrom
        rw [if_pos (by rw [BitVec.lt_def, hsize, BitVec.toNat_ofNat]; omega), hmap, hnext]
        exact hloop
      · rw [hleaf' va hva, hleaf va hva]
        -- the address is behind page `j`, on it, or before it
        by_cases hbehind : r.Holds va ∧ r.va.toNat + (j + 1) * 4096 ≤ va.toNat
        · rw [if_pos hbehind, if_pos ⟨hbehind.1, by omega⟩]
        · rw [if_neg hbehind]
          have hends : ¬ (r.Holds va ∧ r.va.toNat + (j + 1) * 4096 ≤ va.toNat) := hbehind
          by_cases hon : (r.va + BitVec.ofNat 32 (j * 4096)).toNat / 4096 = va.toNat / 4096
          · have hva' : r.Holds va ∧ r.va.toNat + j * 4096 ≤ va.toNat := by
              refine ⟨⟨?_, ?_⟩, ?_⟩ <;> omega
            rw [if_pos hon, if_pos hva']
            exact (hr.entry_page (by omega) (hpage ▸ hon)).symm
          · rw [if_neg hon, if_neg]
            rintro ⟨hva', hstart⟩
            exact hends ⟨hva', next_page (by decide) haligned hstart (hpage ▸ hon)⟩

end KernelSpace

/-! ## What has been mapped -/

/-- The mappings above `UTOP` are those of the regions. -/
def Charted (m : Mem) (d : Ppn) (rs : List Region) : Prop :=
  ∀ va, UTOP ≤ va → pdx va ≠ pdxUvpt → (∀ r ∈ rs, r.Holds va → leaf m d va = r.entry va) ∧
    ((∀ r ∈ rs, ¬ r.Holds va) → leaf m d va = 0)

/-- The kernel boots on a machine with `n` pages, and has mapped some regions so far. -/
structure Booting (top : ℕ) (m : Mem) (n : ℕ) (d : Ppn) (rs : List Region) : Prop where
  npages : m.npages = n
  kernPgdir : m.kernPgdir = d
  space : ∃ l, KernelSpace top m d l
  charted : Charted m d rs

namespace Booting

variable {rs rs' : List Region} {r : Region}

/-- `boot_map_region`, for a region apart from those that have been mapped. -/
theorem bootMapRegion (h : Booting top m n d rs) (hr : r.Fits) (hapart : ∀ r' ∈ rs, r.Apart r') :
    ∃ m', bootMapRegion top m d r.va r.size r.pa r.perm = some m' ∧
      Booting top m' n d (r :: rs) ∧ Extends m m' d := by
  obtain ⟨l, hspace⟩ := h.space
  have hpages := hr.pages_lt
  obtain ⟨m', l', hloop, hspace', hext, hleaf⟩ := KernelSpace.bootMapFrom hr 0
    (2 ^ 20) hspace (Nat.zero_add _) (by omega) fun va hva _ =>
      (h.charted va (hr.holds hva).1 (hr.holds hva).2).2 fun r' hr' =>
        (hapart r' hr').not_holds hva
  refine ⟨m', hloop, ⟨hext.npages.trans h.npages, hext.kernPgdir.trans h.kernPgdir, ⟨l', hspace'⟩,
    fun va hva hwin => ⟨fun r' hr' hin => ?_, fun hout => ?_⟩⟩, hext⟩
  · rw [hleaf va hwin]
    rcases List.mem_cons.mp hr' with rfl | hr'
    · rw [if_pos ⟨hin, by have := hin.1; omega⟩]
    · rw [if_neg fun hand => (hapart r' hr').not_holds hand.1 hin]
      exact (h.charted va hva hwin).1 r' hr' hin
  · rw [hleaf va hwin, if_neg fun hand => hout r List.mem_cons_self hand.1]
    exact (h.charted va hva hwin).2 fun r' hr' => hout r' (List.mem_cons_of_mem _ hr')

/-- The order of the regions does not matter. -/
theorem perm (h : Booting top m n d rs) (hmem : ∀ r, r ∈ rs' ↔ r ∈ rs) : Booting top m n d rs' := by
  refine ⟨h.npages, h.kernPgdir, h.space, fun va hva hwin => ?_⟩
  simp only [hmem]
  exact h.charted va hva hwin

/-- Later the kernel reaches more of memory. -/
theorem raise {top' : ℕ} (h : Booting top m n d rs) (htop : top ≤ top') :
    Booting top' m n d rs := by
  obtain ⟨l, hspace⟩ := h.space
  refine ⟨h.npages, h.kernPgdir, ⟨l, { hspace with reach := ?_, stock := ?_ }⟩, h.charted⟩
  · exact fun k hk hne => (hspace.reach k hk hne).trans_le htop
  · obtain ⟨low, high, heq, hlow, hcard⟩ := hspace.stock
    exact ⟨low, high, heq, fun t ht => (hlow t ht).trans_le htop, hcard⟩

theorem testsPassed (h : Booting top m n d rs) (htests : TestsPassed m m') :
    Booting top m' n d rs ∧ Extends m m' d := by
  obtain ⟨l, hspace⟩ := h.space
  obtain ⟨l', hspace', hsame⟩ := hspace.testsPassed htests
  refine ⟨⟨htests.npages.trans h.npages, htests.kernPgdir.trans h.kernPgdir, ⟨l', hspace'⟩,
    fun va hva hwin => ?_⟩, hsame.toExtends⟩
  rw [hsame.leaf va hwin]
  exact h.charted va hva hwin

/-! ### Translations -/

/-- The frame in the entry of a page. -/
theorem pgnum_entry (hmap : r.Mappable) (hfit : r.Fits) (hva : r.Holds va) :
    pgnum (r.entry va) = pgnum (r.pa + (va - r.va)) := by
  have hle : r.va.toNat ≤ va.toNat := hva.1
  have haligned := pgoff_eq_zero_iff.mp hfit.aligned
  have hpa := pgoff_eq_zero_iff.mp hmap.aligned
  have hround : r.va.toNat ≤ (rounddown va).toNat := by
    rw [toNat_rounddown]
    omega
  have hsub : (rounddown va - r.va).toNat = va.toNat - va.toNat % 4096 - r.va.toNat := by
    rw [BitVec.toNat_sub_of_le hround, toNat_rounddown]
  have hsub' : (va - r.va).toNat = va.toNat - r.va.toNat := BitVec.toNat_sub_of_le hle
  rw [Region.entry, pgnum_or _ _ (by decide), pgnum_or _ _ hmap.flags]
  apply BitVec.eq_of_toNat_eq
  rw [toNat_pgnum, toNat_pgnum, BitVec.toNat_add, BitVec.toNat_add, hsub, hsub']
  omega

theorem entry_flags (hmap : r.Mappable) (hfit : r.Fits) (hva : r.Holds va) :
    r.entry va &&& (PTE_P ||| PTE_W ||| PTE_U) = r.flags := by
  have hle : r.va.toNat ≤ va.toNat := hva.1
  have haligned := pgoff_eq_zero_iff.mp hfit.aligned
  have hpa := pgoff_eq_zero_iff.mp hmap.aligned
  have hround : r.va.toNat ≤ (rounddown va).toNat := by
    rw [toNat_rounddown]
    omega
  have hzero : r.pa + (rounddown va - r.va) &&& (PTE_P ||| PTE_W ||| PTE_U) = 0 := by
    refine and_mask_of_aligned ?_ (by decide)
    rw [pgoff_eq_zero_iff, BitVec.toNat_add, BitVec.toNat_sub_of_le hround, toNat_rounddown]
    omega
  rw [Region.entry, Region.flags, BitVec.or_assoc, BitVec.and_or_distrib_right, hzero]
  exact BitVec.zero_or

/-- Inside a region, the MMU adds the distance from its start. -/
theorem mmu_of_holds (h : Booting top m n d rs) (hr : r ∈ rs) (hfit : r.Fits) (hmap : r.Mappable)
    (hva : r.Holds va) : ∃ flags, mmu m d va = some (pgnum (r.pa + (va - r.va)), flags) ∧
      flags &&& (PTE_P ||| PTE_W ||| PTE_U) = r.flags := by
  obtain ⟨l, hspace⟩ := h.space
  obtain ⟨habove, hwin⟩ := hfit.holds hva
  have hleaf : leaf m d va = r.entry va := (h.charted va habove hwin).1 r hr hva
  have hpresent : r.entry va &&& PTE_P ≠ 0 := r.entry_present va
  have hpde : m.load (d, pdx va) ≠ 0 := pde_ne_zero_of_leaf (hleaf ▸ ne_zero_of_and hpresent)
  obtain ⟨t, ht, -⟩ := hspace.tables _ hwin hpde
  have hpte : m.load (pgnum (m.load (d, pdx va)), ptx va) = r.entry va :=
    (leaf_of_pde hpde).symm.trans hleaf
  refine ⟨tableEntry t &&& r.entry va, ?_, ?_⟩
  · unfold mmu
    dsimp only
    rw [hpte, ht, if_neg (tableEntry_present t), if_neg hpresent, pgnum_entry hmap hfit hva]
  · rw [BitVec.and_assoc, entry_flags hmap hfit hva, Region.flags, BitVec.and_comm (_ ||| _),
      ← BitVec.and_assoc, tableEntry_flags]

/-- Outside of all regions there is no translation. -/
theorem mmu_of_not_holds (h : Booting top m n d rs) (hva : UTOP ≤ va) (hwin : pdx va ≠ pdxUvpt)
    (hout : ∀ r ∈ rs, ¬ r.Holds va) : mmu m d va = none := by
  have hleaf : leaf m d va = 0 := (h.charted va hva hwin).2 hout
  unfold mmu
  dsimp only
  split
  · rfl
  · next hpresent =>
      have hpde : m.load (d, pdx va) ≠ 0 := ne_zero_of_and hpresent
      have hpte : m.load (pgnum (m.load (d, pdx va)), ptx va) = 0 :=
        (leaf_of_pde hpde).symm.trans hleaf
      rw [hpte]
      exact if_pos BitVec.zero_and

end Booting

end JosSched
