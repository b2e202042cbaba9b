import JosSched.Vm.KernelMap

/-!
# The kernel finds its mappings in order

`mem_init` goes on to check the page directory that it has made.  What it reads there is what has
been mapped (`checkVa2pa_of_holds`), so the check passes (`checkKernPgdir_eq`), and the second half
of `mem_init` reaches its end (`bootMappings_booting`).  So do the calls of `lapic_init`
(`lapicInit_booting`).
-/

namespace JosSched

variable {npages n i pages top ncpu : ℕ} {image : LinkedKernel} {m m' : Mem} {d : Ppn}
  {va pa lapicaddr : Word} {rs : List Region} {r : Region} {a : BootArrays}

/-! ## `check_kern_pgdir` -/

theorem fits_kernelRegions (h : npages ≤ 2 ^ 16) (hr : r ∈ kernelRegions npages image) :
    r.Fits := by
  rcases mem_kernelRegions.mp hr with ⟨i, hi, rfl⟩ | rfl | rfl | rfl
  · exact fits_kstack hi
  · exact fits_memory
  · exact fits_envs
  · exact fits_pages h

theorem mappable_kernelRegions (h : pgoff image.percpuKstacks = 0)
    (hr : r ∈ kernelRegions npages image) : r.Mappable := by
  rcases mem_kernelRegions.mp hr with ⟨i, -, rfl⟩ | rfl | rfl | rfl
  · exact mappable_kstack h
  · exact mappable_memory
  · exact mappable_envs
  · exact mappable_pages

theorem page2pa_pgnum {w : Word} (h : pgoff w = 0) : page2pa (pgnum w) = w := by
  rw [pgoff_eq_zero_iff] at h
  apply BitVec.eq_of_toNat_eq
  rw [page2pa, BitVec.toNat_append, toNat_pgnum, Nat.shiftLeft_eq]
  show w.toNat / 4096 * 4096 ||| 0 = w.toNat
  rw [Nat.or_zero]
  omega

theorem tableEntry_size (t : Ppn) : tableEntry t &&& PTE_PS = 0 := by
  have hpage : page2pa t &&& PTE_PS = 0 := by
    refine and_mask_of_aligned ?_ (by decide)
    rw [pgoff_eq_zero_iff, page2pa, BitVec.toNat_append, Nat.shiftLeft_eq]
    show (t.toNat * 4096 ||| 0) % 4096 = 0
    rw [Nat.or_zero]
    omega
  have hsplit : tableEntry t = page2pa t ||| (PTE_P ||| PTE_W ||| PTE_U) := by
    rw [tableEntry, BitVec.or_assoc, BitVec.or_assoc, BitVec.or_assoc]
  rw [hsplit, BitVec.and_or_distrib_right, hpage]
  decide

namespace Booting

/-- The kernel walks its page tables to the last entry. -/
theorem checkVa2pa_leaf (h : Booting top m n d rs) (hwin : pdx va ≠ pdxUvpt) :
    checkVa2pa m d va =
      some (if leaf m d va &&& PTE_P = 0 then ~~~0 else page2pa (pgnum (leaf m d va))) := by
  obtain ⟨l, hspace⟩ := h.space
  have hzero : (0 : Word) &&& PTE_P = 0 := BitVec.zero_and
  unfold checkVa2pa
  by_cases hpde : m.load (d, pdx va) = 0
  · have hleaf : leaf m d va = 0 := if_pos hpde
    dsimp only
    rw [hpde, hleaf, if_pos hzero, if_pos hzero]
  · obtain ⟨t, ht, -, -, hlt⟩ := hspace.tables _ hwin hpde
    have hpte : m.load (t, ptx va) = leaf m d va := by
      rw [leaf_of_pde hpde, cell, ht, pgnum_tableEntry]
    have hkaddr : kaddr m t = .ok () := kaddr_ok hlt
    dsimp only
    rw [ht, if_neg (tableEntry_present t), if_neg (not_not.mpr (tableEntry_size t)),
      pgnum_tableEntry, hkaddr, hpte]
    dsimp only [Except.toOption, bind, Option.bind]
    split_ifs <;> rfl

theorem checkVa2pa_of_holds (h : Booting top m n d rs) (hr : r ∈ rs) (hfit : r.Fits)
    (hmap : r.Mappable) (hva : r.Holds va) :
    checkVa2pa m d va = some (page2pa (pgnum (r.pa + (va - r.va)))) := by
  obtain ⟨habove, hwin⟩ := hfit.holds hva
  rw [h.checkVa2pa_leaf hwin, (h.charted va habove hwin).1 r hr hva,
    if_neg (r.entry_present va), pgnum_entry hmap hfit hva]

theorem checkVa2pa_of_not_holds (h : Booting top m n d rs) (hva : UTOP ≤ va)
    (hwin : pdx va ≠ pdxUvpt) (hout : ∀ r ∈ rs, ¬ r.Holds va) :
    checkVa2pa m d va = some (~~~0) := by
  have hzero : (0 : Word) &&& PTE_P = 0 := BitVec.zero_and
  rw [h.checkVa2pa_leaf hwin, (h.charted va hva hwin).2 hout, if_pos hzero]

end Booting

theorem forM_eq_some {α : Type*} {l : List α} {f : α → Option Unit} (h : ∀ x ∈ l, f x = some ()) :
    l.forM f = some () := by
  induction l with
  | nil => rfl
  | cons x l ih =>
      have hx := h x List.mem_cons_self
      show (f x).bind (fun _ => l.forM f) = some ()
      rw [hx]
      exact ih fun y hy => h y (List.mem_cons_of_mem _ hy)

theorem checkPages_of {va : Word} {pa : Word → Word}
    (h : ∀ i < n, checkVa2pa m m.kernPgdir (va + BitVec.ofNat 32 (i * 4096)) =
      some (pa (BitVec.ofNat 32 (i * 4096)))) : checkPages m va n pa = some () := by
  refine forM_eq_some fun i hi => ?_
  simp only [h i (List.mem_range.mp hi), Option.bind_eq_bind, Option.bind_some, kernAssert, if_true]

/-- One of the loops, over the first pages of a region. -/
theorem Booting.checkPages_region (h : Booting top m npages d rs) (hr : r ∈ rs) (hfit : r.Fits)
    (hmap : r.Mappable) (hn : n ≤ r.pages) : checkPages m r.va n (r.pa + ·) = some () := by
  refine checkPages_of fun j hj => ?_
  have hpage := hfit.toNat_page (j := j) (by omega)
  have hlimit : r.limit = r.va.toNat + r.pages * 4096 := rfl
  have hpa := pgoff_eq_zero_iff.mp hmap.aligned
  have hva : r.Holds (r.va + BitVec.ofNat 32 (j * 4096)) := by
    refine ⟨?_, ?_⟩ <;> omega
  have hsub : r.va + BitVec.ofNat 32 (j * 4096) - r.va = BitVec.ofNat 32 (j * 4096) := by
    rw [BitVec.add_comm, BitVec.add_sub_cancel]
  rw [h.kernPgdir, h.checkVa2pa_of_holds hr hfit hmap hva, hsub, page2pa_pgnum]
  rw [pgoff_eq_zero_iff, BitVec.toNat_add, BitVec.toNat_ofNat]
  omega

/-- The gap below the stack of a CPU is not mapped. -/
theorem checkPages_gap (hfit : FitsMemory npages image)
    (h : Booting top m npages d (kernelRegions npages image)) (hi : i < NCPU) :
    checkPages m (KSTACKTOP - (KSTKSIZE + KSTKGAP) * BitVec.ofNat 32 (i + 1)) 8
      (fun _ => ~~~0) = some () := by
  have hcpus : NCPU = 8 := rfl
  have htop : KSTACKTOP.toNat = 0xf0000000 := rfl
  have hboth : (KSTKSIZE + KSTKGAP).toNat = 0x10000 := rfl
  have hutop : UTOP.toNat = 0xeec00000 := rfl
  have hself : (pdxUvpt : ℕ) = 957 := rfl
  refine checkPages_of fun j hj => ?_
  have hva : (KSTACKTOP - (KSTKSIZE + KSTKGAP) * BitVec.ofNat 32 (i + 1) +
      BitVec.ofNat 32 (j * 4096)).toNat = 0xf0000000 - (i + 1) * 0x10000 + j * 4096 := by
    rw [BitVec.toNat_add, BitVec.toNat_sub, BitVec.toNat_mul, BitVec.toNat_ofNat,
      BitVec.toNat_ofNat, htop, hboth]
    omega
  rw [h.kernPgdir]
  refine h.checkVa2pa_of_not_holds ?_ ?_ fun r hr hin => ?_
  · rw [BitVec.le_def, hva, hutop]
    omega
  · intro heq
    rw [Fin.ext_iff, toNat_pdx, hva, hself] at heq
    omega
  · obtain ⟨hlo, hhi⟩ := hin
    rw [hva] at hlo hhi
    rcases mem_kernelRegions.mp hr with ⟨k, hk, rfl⟩ | rfl | rfl | rfl
    · have hstack := toNat_kstack image hk
      have hend : (kstackRegion image k).limit = (kstackRegion image k).va.toNat + 8 * 4096 := rfl
      omega
    · have hat : memoryRegion.va.toNat = 0xf0000000 := rfl
      omega
    · have hend : (envsRegion npages image).limit = 0xeec00000 + 34 * 4096 := rfl
      omega
    · have hpages := pagesFrames_le hfit.memory
      have hend : (pagesRegion npages image).limit = 0xef000000 + pagesFrames npages * 4096 := rfl
      omega

/-- Where something is mapped there is a page table. -/
theorem Booting.pde_of_holds (h : Booting top m n d rs) (hr : r ∈ rs) (hfit : r.Fits)
    (hva : r.Holds va) : ∃ t, m.load (d, pdx va) = tableEntry t := by
  obtain ⟨l, hspace⟩ := h.space
  obtain ⟨habove, hwin⟩ := hfit.holds hva
  have hleaf := (h.charted va habove hwin).1 r hr hva
  obtain ⟨t, ht, -⟩ := hspace.tables _ hwin
    (pde_ne_zero_of_leaf (hleaf ▸ ne_zero_of_and (r.entry_present va)))
  exact ⟨t, ht⟩

theorem tableEntry_write (t : Ppn) : tableEntry t &&& PTE_W ≠ 0 := by
  have hsub : (PTE_P ||| PTE_W ||| PTE_U) &&& PTE_W = PTE_W := by decide
  rw [← hsub, ← BitVec.and_assoc, tableEntry_flags]
  decide

/-- The entries of the page directory are those that the check wants. -/
theorem checkPde_eq (hfit : FitsMemory npages image)
    (h : Booting top m npages d (kernelRegions npages image))
    (hself : m.load (d, pdxUvpt) &&& PTE_P ≠ 0) (hmmio : m.load (d, pdx MMIOBASE) ≠ 0) (k : Idx) :
    checkPde m k = some () := by
  have hroom := hfit.room
  have hframes : 0 < pagesFrames npages := by
    unfold pagesFrames
    omega
  have hmem : ∀ r, r ∈ kernelRegions npages image ↔ _ := fun r => mem_kernelRegions
  have hpresent : ∀ r ∈ kernelRegions npages image, ∀ va, r.Holds va →
      m.load (d, pdx va) &&& PTE_P ≠ 0 ∧ m.load (d, pdx va) &&& PTE_W ≠ 0 := fun r hr va hva => by
    obtain ⟨t, ht⟩ := h.pde_of_holds hr (fits_kernelRegions hfit.memory hr) hva
    rw [ht]
    exact ⟨tableEntry_present t, tableEntry_write t⟩
  unfold checkPde
  dsimp only
  rw [h.kernPgdir]
  split
  · next hspecial =>
      have hmapped : m.load (d, k) &&& PTE_P ≠ 0 := by
        -- the five entries that the check names: the window and one in each region above `UTOP`
        rcases hspecial with rfl | rfl | rfl | rfl | rfl
        · exact hself
        · refine (hpresent (kstackRegion image 0) ((hmem _).mpr (.inl ⟨0, by decide, rfl⟩))
            (KSTACKTOP - 1) ?_).1
          have hva := toNat_kstack image (i := 0) (by decide)
          have hlast : (KSTACKTOP - 1).toNat = 0xefffffff := rfl
          have hend : (kstackRegion image 0).limit =
            (kstackRegion image 0).va.toNat + 8 * 4096 := rfl
          refine ⟨?_, ?_⟩ <;> omega
        · refine (hpresent (pagesRegion npages image) ((hmem _).mpr (by simp)) UPAGES
            ⟨le_rfl, ?_⟩).1
          show _ < UPAGES.toNat + pagesFrames npages * 4096
          omega
        · refine (hpresent (envsRegion npages image) ((hmem _).mpr (by simp)) UENVS
            ⟨le_rfl, ?_⟩).1
          show _ < UENVS.toNat + 34 * 4096
          omega
        · obtain ⟨l, hspace⟩ := h.space
          obtain ⟨t, ht, -⟩ := hspace.tables _ (by decide : pdx MMIOBASE ≠ pdxUvpt) hmmio
          rw [ht]
          exact tableEntry_present t
      exact if_pos hmapped
  · next hother =>
      split
      · next hkern =>
          have hk := k.isLt
          have hbase : ((pdx KERNBASE : Idx) : ℕ) = 960 := by decide
          have hle : 960 ≤ (k : ℕ) := hbase ▸ Fin.le_def.mp hkern
          have hva : (pgaddr k 0).toNat = k * 4194304 := by
            have hzero : ((0 : Idx) : ℕ) = 0 := rfl
            rw [toNat_pgaddr]
            omega
          have hin : memoryRegion.Holds (pgaddr k 0) := by
            have hat : memoryRegion.va.toNat = 0xf0000000 := rfl
            have hend : memoryRegion.limit = 0x100000000 := rfl
            refine ⟨?_, ?_⟩ <;> omega
          have hboth := hpresent memoryRegion ((hmem _).mpr (by simp)) (pgaddr k 0) hin
          rw [pdx_pgaddr] at hboth
          simp only [kernAssert, hboth.1, hboth.2, Option.bind_eq_bind, Option.bind_some, ne_eq,
            not_false_eq_true, if_true]
      · next hbelow =>
          obtain ⟨l, hspace⟩ := h.space
          -- the entries that are left are those below `UTOP`
          have hlower : m.load (d, k) = 0 := hspace.lower k (by
            have hutop : PDX_UTOP = 955 := rfl
            have h0 : ((pdxUvpt : Idx) : ℕ) = 957 := rfl
            have h1 : ((pdx (KSTACKTOP - 1) : Idx) : ℕ) = 959 := by decide
            have h2 : ((pdx UPAGES : Idx) : ℕ) = 956 := by decide
            have h3 : ((pdx UENVS : Idx) : ℕ) = 955 := by decide
            have h4 : ((pdx MMIOBASE : Idx) : ℕ) = 958 := by decide
            have h5 : ((pdx KERNBASE : Idx) : ℕ) = 960 := by decide
            rw [Fin.ext_iff, Fin.ext_iff, Fin.ext_iff, Fin.ext_iff, Fin.ext_iff] at hother
            rw [Fin.le_def] at hbelow
            omega)
          exact if_pos hlower

/-- The stack of a CPU is above its gap. -/
theorem kstack_va (hi : i < NCPU) : KSTACKTOP - (KSTKSIZE + KSTKGAP) * BitVec.ofNat 32 (i + 1) +
    KSTKGAP = (kstackRegion image i).va := by
  have hcpus : NCPU = 8 := rfl
  have htop : KSTACKTOP.toNat = 0xf0000000 := rfl
  have hboth : (KSTKSIZE + KSTKGAP).toNat = 0x10000 := rfl
  have hgap : KSTKGAP.toNat = 0x8000 := rfl
  apply BitVec.eq_of_toNat_eq
  rw [toNat_kstack _ hi, BitVec.toNat_add, BitVec.toNat_sub, BitVec.toNat_mul, BitVec.toNat_ofNat,
    htop, hboth, hgap]
  omega

theorem checkKstack_of
    (hpa : paddr (image.percpuKstacks + BitVec.ofNat 32 i * KSTKSIZE) = some pa)
    (h₁ : checkPages m (KSTACKTOP - (KSTKSIZE + KSTKGAP) * BitVec.ofNat 32 (i + 1) + KSTKGAP) 8
      (pa + ·) = some ())
    (h₂ : checkPages m (KSTACKTOP - (KSTKSIZE + KSTKGAP) * BitVec.ofNat 32 (i + 1)) 8
      (fun _ => ~~~0) = some ()) : checkKstack image m i = some () :=
  (bind_of_some hpa).trans <| (bind_of_some h₁).trans h₂

/-- The loops of the check, one after the other. -/
theorem checkKernPgdir_of {pagesPa envsPa : Word} (hpages : paddr a.pages = some pagesPa)
    (henvs : paddr a.envs = some envsPa)
    (h₁ : checkPages m UPAGES ((roundup (pagesSize m.npages)).toNat / 4096) (pagesPa + ·) = some ())
    (h₂ : checkPages m UENVS ((roundup envsSize).toNat / 4096) (envsPa + ·) = some ())
    (h₃ : checkPages m KERNBASE m.npages id = some ())
    (h₄ : (List.range NCPU).forM (checkKstack image m) = some ())
    (h₅ : checkPdes m = some ()) :
    checkKernPgdir a image m = some () :=
  (bind_of_some hpages).trans <| (bind_of_some h₁).trans <| (bind_of_some henvs).trans <|
    (bind_of_some h₂).trans <| (bind_of_some h₃).trans <| (bind_of_some h₄).trans h₅

/-- The page directory passes its check. -/
theorem checkKernPgdir_eq (hfit : FitsMemory npages image)
    (h : Booting top m npages d (kernelRegions npages image))
    (hself : m.load (d, pdxUvpt) &&& PTE_P ≠ 0) (hmmio : m.load (d, pdx MMIOBASE) ≠ 0) :
    checkKernPgdir (arraysAt npages image) image m = some () := by
  have hmem : ∀ r, r ∈ kernelRegions npages image ↔ _ := fun r => mem_kernelRegions
  have hmap : ∀ r ∈ kernelRegions npages image, r.Mappable := fun r =>
    mappable_kernelRegions hfit.aligned
  have hpages : (roundup (pagesSize npages)).toNat / 4096 ≤ (pagesRegion npages image).pages := by
    rw [size_pages hfit, (fits_pages hfit.memory).toNat_size]
    omega
  have hloop₁ := h.checkPages_region ((hmem (pagesRegion npages image)).mpr (by simp))
    (fits_pages hfit.memory) mappable_pages hpages
  have henvs : (roundup envsSize).toNat / 4096 ≤ (envsRegion npages image).pages :=
    (by decide : (roundup envsSize).toNat / 4096 ≤ 34)
  have hloop₂ := h.checkPages_region ((hmem (envsRegion npages image)).mpr (by simp)) fits_envs
    mappable_envs henvs
  have hloop₃ := h.checkPages_region ((hmem memoryRegion).mpr (by simp)) fits_memory
    mappable_memory hfit.memory
  have hzero : (fun i : Word => memoryRegion.pa + i) = id := funext fun i => BitVec.zero_add i
  rw [hzero] at hloop₃
  have hloop₄ : ∀ i ∈ List.range NCPU, checkKstack image m i = some () := fun i hi => by
    rw [List.mem_range] at hi
    have hstack := h.checkPages_region (n := 8)
      ((hmem (kstackRegion image i)).mpr (.inl ⟨i, hi, rfl⟩)) (fits_kstack hi)
      (mappable_kstack hfit.aligned) (le_refl 8)
    rw [← kstack_va hi] at hstack
    exact checkKstack_of (paddr_kstack hfit hi) hstack (checkPages_gap hfit h hi)
  refine checkKernPgdir_of (paddr_pages hfit) (paddr_envs hfit) ?_ hloop₂ ?_ (forM_eq_some hloop₄)
    (forM_eq_some fun k _ => checkPde_eq hfit h hself hmmio k)
  · rw [h.npages]
    exact hloop₁
  · rw [h.npages]
    exact hloop₃

/-! ## The whole of `mem_init`, and the local APICs -/

/-- The second half of `mem_init` maps the regions of the kernel, and passes its check. -/
theorem bootMappings_booting (hfit : FitsMemory npages image)
    (h : Booting entryFrames m npages d []) (hself : m.load (d, pdxUvpt) &&& PTE_P ≠ 0) :
    ∃ m', bootMappings (arraysAt npages image) image m = some (m', mmioBase 3) ∧
      Booting entryFrames m' npages d (kernelRegions npages image) := by
  obtain ⟨m₁, hmmio, h₁, hext, hdevice⟩ := checkMmio_booting h
  obtain ⟨m₂, hmap, h₂, hext'⟩ := mapKernel_booting hfit h₁
  have hself' : m₂.load (d, pdxUvpt) &&& PTE_P ≠ 0 := by
    rwa [(hext.trans hext').kept _ (ne_zero_of_and hself)]
  have hdevice' : m₂.load (d, pdx MMIOBASE) ≠ 0 := by rwa [hext'.kept _ hdevice]
  have hcheck := checkKernPgdir_eq hfit h₂ hself' hdevice'
  refine ⟨m₂, ?_, h₂⟩
  exact (bind_of_some hmmio).trans ((bind_of_some hmap).trans (bind_of_some hcheck))

theorem apart_mmio (hfit : npages ≤ 2 ^ 16) (hroom : i + pages ≤ 1024)
    (hr : r ∈ kernelRegions npages image) : (mmioRegion i pages pa).Apart r := by
  have hva := toNat_mmioBase (i := i) (by omega)
  have hat : (mmioRegion i pages pa).va.toNat = (mmioBase i).toNat := rfl
  have hend : (mmioRegion i pages pa).limit = (mmioBase i).toNat + pages * 4096 := rfl
  rcases mem_kernelRegions.mp hr with ⟨k, hk, rfl⟩ | rfl | rfl | rfl
  · have hcpus : NCPU = 8 := rfl
    have hstack := toNat_kstack image hk
    exact .inl (by omega)
  · have hmem : memoryRegion.va.toNat = 0xf0000000 := rfl
    exact .inl (by omega)
  · have henvs : (envsRegion npages image).limit = 0xeec00000 + 34 * 4096 := rfl
    exact .inr (by omega)
  · have hle := pagesFrames_le hfit
    have hpages : (pagesRegion npages image).limit = 0xef000000 + pagesFrames npages * 4096 := rfl
    exact .inr (by omega)

/-- Each CPU finds room for one more page. -/
theorem lapicInit_booting (lapicaddr : Word) (hfit : npages ≤ 2 ^ 16)
    (h : Booting kernFrames m npages d (kernelRegions npages image)) (hn : ncpu ≤ NCPU) :
    ∃ st : Mem × Word,
      (List.range ncpu).foldlM (fun st _ => lapicInit lapicaddr st) (m, mmioBase 3) =
        some st ∧ (lapicaddr ≠ 0 → st.2 = mmioBase (3 + ncpu)) ∧
      Booting kernFrames st.1 npages d
        (lapicRegions lapicaddr ncpu ++ kernelRegions npages image) := by
  have hcpus : NCPU = 8 := rfl
  induction ncpu with
  | zero =>
      have hnone : lapicRegions lapicaddr 0 = [] := by
        rw [lapicRegions]
        split <;> rfl
      exact ⟨(m, mmioBase 3), rfl, fun _ => rfl, by rwa [hnone]⟩
  | succ n ih =>
      obtain ⟨⟨m₁, base⟩, hloop, hbase, h₁⟩ := ih (Nat.le_of_succ_le hn)
      by_cases haddr : lapicaddr = 0
      · refine ⟨(m₁, base), ?_, fun hne => absurd haddr hne, h₁.perm fun r => ?_⟩
        · rw [List.range_succ, List.foldlM_append, hloop]
          have hcall : lapicInit lapicaddr (m₁, base) = some (m₁, base) := if_pos haddr
          exact (bind_of_some rfl).trans (bind_of_some hcall)
        · rw [lapicRegions, lapicRegions, if_pos haddr, if_pos haddr]
      · obtain rfl := hbase haddr
        -- the next page of the window is apart from those given away and from all kernel regions
        have hapart : ∀ r ∈ lapicRegions lapicaddr n ++ kernelRegions npages image,
            (mmioRegion (3 + n) 1 (rounddown lapicaddr)).Apart r := fun r hr => by
          rcases List.mem_append.mp hr with hr | hr
          · rw [lapicRegions, if_neg haddr] at hr
            obtain ⟨j, hj, rfl⟩ := List.mem_map.mp hr
            rw [List.mem_range] at hj
            have hva := toNat_mmioBase (i := 3 + n) (by omega)
            have hva' := toNat_mmioBase (i := 3 + j) (by omega)
            refine .inr ?_
            show (mmioBase (3 + j)).toNat + 1 * 4096 ≤ (mmioBase (3 + n)).toNat
            omega
          · exact apart_mmio hfit (by omega) hr
        obtain ⟨m₂, hmap, h₂, -⟩ :=
          mmioMapRegion_eq 1 lapicaddr 4096 h₁ (by omega) (by decide) hapart
        refine ⟨(m₂, mmioBase (3 + n + 1)), ?_, fun _ => rfl, h₂.perm fun r => ?_⟩
        · have hcall : lapicInit lapicaddr (m₁, mmioBase (3 + n)) =
              some (m₂, mmioBase (3 + n + 1)) := by
            rw [lapicInit, if_neg haddr, hmap]
            rfl
          rw [List.range_succ, List.foldlM_append, hloop]
          exact (bind_of_some rfl).trans (bind_of_some hcall)
        · simp only [lapicRegions, if_neg haddr, List.range_succ, List.map_append, List.map_cons,
            List.map_nil, List.mem_append, List.mem_cons, List.not_mem_nil, or_false]
          exact or_assoc.trans or_left_comm

end JosSched
