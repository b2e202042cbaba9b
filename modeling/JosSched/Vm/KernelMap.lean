import JosSched.Vm.BootMemory

/-!
# The mappings of the kernel

The second half of `mem_init` maps the arrays `pages` and `envs` for users to read, all of memory
for the kernel, and a stack for each CPU; `lapic_init` adds a page for each CPU
(`kernelRegions`, `lapicRegions`).  The regions are apart from each other, so every call of
`boot_map_region` finds its pages empty (`mapKernel_booting`).
-/

namespace JosSched

variable {npages n i j pages top ncpu : ℕ} {image : LinkedKernel} {m m' : Mem} {d : Ppn}
  {va pa sz lapicaddr : Word} {rs : List Region} {r : Region} {a : BootArrays}

/-! ## The regions -/

/-- The physical address of a frame. -/
def framePa (f : ℕ) : Word := BitVec.ofNat 32 (f * 4096)

/-- `pages`, for users to read. -/
def pagesRegion (npages : ℕ) (image : LinkedKernel) : Region where
  va := UPAGES
  pages := pagesFrames npages
  pa := framePa (endFrame image + 1)
  perm := PTE_U ||| PTE_P

/-- `envs`, for users to read. -/
def envsRegion (npages : ℕ) (image : LinkedKernel) : Region where
  va := UENVS
  pages := envsFrames
  pa := framePa (endFrame image + 1 + pagesFrames npages)
  perm := PTE_U ||| PTE_P

/-- All of memory. -/
def memoryRegion : Region where
  va := KERNBASE
  pages := kernFrames
  pa := 0
  perm := PTE_W ||| PTE_P

/-- The stack of CPU `i`. -/
def kstackRegion (image : LinkedKernel) (i : ℕ) : Region where
  va := KSTACKTOP - BitVec.ofNat 32 i * (KSTKSIZE + KSTKGAP) - KSTKSIZE
  pages := 8
  pa := image.percpuKstacks + BitVec.ofNat 32 i * KSTKSIZE - KERNBASE
  perm := PTE_W ||| PTE_P

/-- Page `i` of the window for memory-mapped devices. -/
def mmioBase (i : ℕ) : Word := MMIOBASE + BitVec.ofNat 32 (i * 4096)

/-- Registers of a device, from page `i` of the window on. -/
def mmioRegion (i pages : ℕ) (pa : Word) : Region where
  va := mmioBase i
  pages := pages
  pa := pa
  perm := PTE_W ||| PTE_P ||| PTE_PCD ||| PTE_PWT

def kstackRegions (image : LinkedKernel) (n : ℕ) : List Region :=
  (List.range n).map (kstackRegion image)

/-- What `mem_init` maps. -/
def kernelRegions (npages : ℕ) (image : LinkedKernel) : List Region :=
  kstackRegions image NCPU ++ [memoryRegion, envsRegion npages image, pagesRegion npages image]

/-- What the CPUs map to reach their local APIC; the first three pages of the window have been used
up by `check_page`. -/
def lapicRegions (lapicaddr : Word) (ncpu : ℕ) : List Region :=
  if lapicaddr = 0 then []
  else (List.range ncpu).map fun i => mmioRegion (3 + i) 1 (rounddown lapicaddr)

theorem pgoff_framePa (f : ℕ) : pgoff (framePa f) = 0 := by
  rw [pgoff_eq_zero_iff, framePa, BitVec.toNat_ofNat]
  omega

theorem mappable_pages : (pagesRegion npages image).Mappable :=
  ⟨pgoff_framePa _, (by decide : pgnum (PTE_U ||| PTE_P) = 0)⟩

theorem mappable_envs : (envsRegion npages image).Mappable :=
  ⟨pgoff_framePa _, (by decide : pgnum (PTE_U ||| PTE_P) = 0)⟩

theorem mappable_memory : memoryRegion.Mappable := ⟨rfl, by decide⟩

theorem mappable_mmio : (mmioRegion i pages (rounddown pa)).Mappable :=
  ⟨pgoff_rounddown _, (by decide : pgnum (PTE_W ||| PTE_P ||| PTE_PCD ||| PTE_PWT) = 0)⟩

theorem mappable_kstack (h : pgoff image.percpuKstacks = 0) : (kstackRegion image i).Mappable := by
  have hbase : KERNBASE.toNat = 0xf0000000 := rfl
  have hsize : KSTKSIZE.toNat = 0x8000 := rfl
  rw [pgoff_eq_zero_iff] at h
  refine ⟨?_, (by decide : pgnum (PTE_W ||| PTE_P) = 0)⟩
  rw [pgoff_eq_zero_iff, kstackRegion, BitVec.toNat_sub, BitVec.toNat_add, BitVec.toNat_mul, hbase,
    hsize]
  omega

/-! ## Where they are -/

theorem toNat_kstack (image : LinkedKernel) (hi : i < NCPU) :
    (kstackRegion image i).va.toNat = 0xf0000000 - i * 0x10000 - 0x8000 := by
  have hcpus : NCPU = 8 := rfl
  have htop : KSTACKTOP.toNat = 0xf0000000 := rfl
  have hboth : (KSTKSIZE + KSTKGAP).toNat = 0x10000 := rfl
  have hsize : KSTKSIZE.toNat = 0x8000 := rfl
  have hgaps : (BitVec.ofNat 32 i * (KSTKSIZE + KSTKGAP)).toNat = i * 0x10000 := by
    rw [BitVec.toNat_mul, BitVec.toNat_ofNat, hboth]
    omega
  rw [kstackRegion, BitVec.toNat_sub, BitVec.toNat_sub, htop, hgaps, hsize]
  omega

theorem toNat_mmioBase (hi : i ≤ 1024) : (mmioBase i).toNat = 0xef800000 + i * 4096 := by
  have hbase : MMIOBASE.toNat = 0xef800000 := rfl
  rw [mmioBase, BitVec.toNat_add, BitVec.toNat_ofNat, hbase]
  omega

theorem pagesFrames_le (h : npages ≤ 2 ^ 16) : pagesFrames npages ≤ 128 := by
  unfold pagesFrames
  omega

theorem Region.Fits.of_toNat {c : ℕ} (hva : r.va.toNat = c) (haligned : c % 4096 = 0)
    (habove : 0xeec00000 ≤ c) (hbelow : c + r.pages * 4096 ≤ 2 ^ 32)
    (hwindow : c + r.pages * 4096 ≤ 0xef400000 ∨ 0xef800000 ≤ c) : r.Fits := by
  have htop : UTOP.toNat = 0xeec00000 := rfl
  have hself : UVPT.toNat = 0xef400000 := rfl
  have hlimit : r.limit = c + r.pages * 4096 := by rw [Region.limit, hva]
  refine ⟨pgoff_eq_zero_iff.mpr (hva ▸ haligned), ?_, hlimit ▸ hbelow, ?_⟩
  · rw [BitVec.le_def, htop, hva]
    exact habove
  · rw [hlimit, hva, hself]
    omega

theorem fits_pages (h : npages ≤ 2 ^ 16) : (pagesRegion npages image).Fits := by
  have hframes : (pagesRegion npages image).pages = pagesFrames npages := rfl
  have hle := pagesFrames_le h
  exact .of_toNat (c := 0xef000000) rfl rfl (by omega) (by omega) (by omega)

theorem fits_envs : (envsRegion npages image).Fits := by
  have hframes : (envsRegion npages image).pages = 34 := rfl
  exact .of_toNat (c := 0xeec00000) rfl rfl (by omega) (by omega) (by omega)

theorem fits_memory : memoryRegion.Fits := by
  have hframes : memoryRegion.pages = 65536 := rfl
  exact .of_toNat (c := 0xf0000000) rfl rfl (by omega) (by omega) (by omega)

theorem fits_kstack (hi : i < NCPU) : (kstackRegion image i).Fits := by
  have hcpus : NCPU = 8 := rfl
  have hframes : (kstackRegion image i).pages = 8 := rfl
  exact .of_toNat (toNat_kstack image hi) (by omega) (by omega) (by omega) (by omega)

theorem fits_mmio (hi : i + pages ≤ 1024) : (mmioRegion i pages pa).Fits := by
  have hframes : (mmioRegion i pages pa).pages = pages := rfl
  exact .of_toNat (toNat_mmioBase (by omega)) (by omega) (by omega) (by omega) (by omega)

theorem holds_mmio (hle : i ≤ j) (hlt : j < i + pages) (hroom : i + pages ≤ 1024) :
    (mmioRegion i pages pa).Holds (mmioBase j) := by
  have hva := toNat_mmioBase (i := i) (by omega)
  have hva' := toNat_mmioBase (i := j) (by omega)
  have hlimit : (mmioRegion i pages pa).limit = (mmioBase i).toNat + pages * 4096 := rfl
  refine ⟨?_, ?_⟩
  · show (mmioBase i).toNat ≤ _
    omega
  · omega

/-- A region of `mem_init` is one of the three tables, or a stack. -/
theorem mem_kernelRegions : r ∈ kernelRegions npages image ↔
    (∃ i < NCPU, r = kstackRegion image i) ∨ r = memoryRegion ∨ r = envsRegion npages image ∨
      r = pagesRegion npages image := by
  simp only [kernelRegions, kstackRegions, List.mem_append, List.mem_map, List.mem_range,
    List.mem_cons, List.not_mem_nil, or_false]
  refine or_congr_left ⟨?_, ?_⟩ <;> rintro ⟨i, hi, rfl⟩ <;> exact ⟨i, hi, rfl⟩

/-- A call that succeeds, in front of the rest. -/
theorem bind_of_some {α β : Type*} {x : Option α} {y : α} {f : α → Option β} (h : x = some y) :
    x.bind f = f y := by
  rw [h, Option.bind_some]

/-! ## Memory-mapped devices -/

theorem mmioBase_add : mmioBase i + BitVec.ofNat 32 (pages * 4096) = mmioBase (i + pages) := by
  rw [mmioBase, mmioBase, BitVec.add_assoc, ← BitVec.ofNat_add, ← Nat.add_mul]

theorem mmioMapRegion_eq (pages : ℕ) (pa sz : Word) (h : Booting top m n d rs)
    (hlt : i + pages < 1024)
    (hsize : roundup sz = BitVec.ofNat 32 (pages * 4096))
    (hapart : ∀ r ∈ rs, (mmioRegion i pages (rounddown pa)).Apart r) :
    ∃ m', mmioMapRegion top (m, mmioBase i) pa sz =
        some (mmioBase i, (m', mmioBase (i + pages))) ∧
      Booting top m' n d (mmioRegion i pages (rounddown pa) :: rs) ∧ Extends m m' d := by
  have hlim : MMIOLIM.toNat = 0xefc00000 := rfl
  obtain ⟨m', hmap, h', hext⟩ := h.bootMapRegion (fits_mmio hlt.le) hapart
  refine ⟨m', ?_, h', hext⟩
  have hroom : ¬ MMIOLIM ≤ mmioBase i + BitVec.ofNat 32 (pages * 4096) := by
    rw [mmioBase_add, BitVec.le_def, hlim, toNat_mmioBase hlt.le]
    omega
  have hback : mmioBase (i + pages) - BitVec.ofNat 32 (pages * 4096) = mmioBase i := by
    rw [← mmioBase_add, BitVec.add_sub_cancel]
  have hcall : bootMapRegion top m m.kernPgdir (mmioBase i) (BitVec.ofNat 32 (pages * 4096))
      (rounddown pa) (PTE_W ||| PTE_P ||| PTE_PCD ||| PTE_PWT) = some m' := by
    rw [h.kernPgdir]
    exact hmap
  unfold mmioMapRegion
  dsimp only
  rw [hsize, if_neg hroom, hcall, mmioBase_add]
  dsimp only [bind, Option.bind]
  rw [hback]
  rfl

/-- The end of `check_page` leaves the window empty, but for its page table. -/
theorem checkMmio_booting (h : Booting entryFrames m n d []) :
    ∃ m', checkMmio m = some (m', mmioBase 3) ∧ Booting entryFrames m' n d [] ∧ Extends m m' d ∧
      m'.load (d, pdx MMIOBASE) ≠ 0 := by
  have h0 := toNat_mmioBase (i := 0) (by decide)
  have h1 := toNat_mmioBase (i := 1) (by decide)
  have h2 := toNat_mmioBase (i := 2) (by decide)
  obtain ⟨m₁, hfirst, h₁, hext₁⟩ := mmioMapRegion_eq (i := 0) 2 0 4097 h
    (by decide) (by decide) (by simp)
  obtain ⟨m₂, hsecond, h₂, hext₂⟩ := mmioMapRegion_eq (i := 2) 1 0 4096 h₁
    (by decide) (by decide) (by
      intro r hr
      rw [List.mem_singleton.mp hr]
      refine .inr ?_
      show (mmioBase 0).toNat + 2 * 4096 ≤ (mmioBase 2).toNat
      omega)
  obtain ⟨l, hspace⟩ := h₂.space
  -- three pages have been mapped in two calls; then their entries are cleared, one by one
  have hmapped : ∀ j < 3, pdx (mmioBase j) ≠ pdxUvpt ∧ leaf m₂ d (mmioBase j) ≠ 0 := fun j hj => by
    obtain ⟨r, hr, hfit, hva⟩ : ∃ r ∈ [mmioRegion 2 1 (rounddown 0), mmioRegion 0 2 (rounddown 0)],
        r.Fits ∧ r.Holds (mmioBase j) := by
      by_cases hlast : j < 2
      · exact ⟨mmioRegion 0 2 (rounddown 0), by simp, fits_mmio (by decide),
          holds_mmio (Nat.zero_le j) (by omega) (by decide)⟩
      · exact ⟨mmioRegion 2 1 (rounddown 0), by simp, fits_mmio (by decide),
          holds_mmio (by omega) hj (by decide)⟩
    obtain ⟨habove, hwin⟩ := hfit.holds hva
    rw [(h₂.charted _ habove hwin).1 r hr hva]
    exact ⟨hwin, ne_zero_of_and (r.entry_present _)⟩
  obtain ⟨hwin0, hleaf0⟩ := hmapped 0 (by decide)
  obtain ⟨hwin1, hleaf1⟩ := hmapped 1 (by decide)
  obtain ⟨hwin2, hleaf2⟩ := hmapped 2 (by decide)
  obtain ⟨m₃, hclear, hspace₃, hext₃, hleaf₃⟩ := hspace.clearEntry h₂.kernPgdir hwin0 hleaf0
  have hpde := pde_ne_zero_of_leaf hleaf2
  have hleaf1' : leaf m₃ d (mmioBase 1) ≠ 0 := by
    rwa [hleaf₃ _ hwin1, if_neg (by omega)]
  obtain ⟨m₄, hclear', hspace₄, hext₄, hleaf₄⟩ := hspace₃.clearEntry
    (hext₃.kernPgdir.trans h₂.kernPgdir) hwin1 hleaf1'
  have hleaf2' : leaf m₄ d (mmioBase 2) ≠ 0 := by
    rwa [hleaf₄ _ hwin2, if_neg (by omega), hleaf₃ _ hwin2, if_neg (by omega)]
  have hext := hext₃.trans hext₄
  obtain ⟨m₅, hclear'', hspace₅, hext₅, hleaf₅⟩ := hspace₄.clearEntry
    (hext.kernPgdir.trans h₂.kernPgdir) hwin2 hleaf2'
  have hall := (hext₁.trans hext₂).trans (hext.trans hext₅)
  refine ⟨m₅, ?_, ⟨hall.npages.trans h.npages, hall.kernPgdir.trans h.kernPgdir, ⟨_, hspace₅⟩,
    fun va hva hkern => ⟨fun r hr => by simp at hr, fun _ => ?_⟩⟩, hall, ?_⟩
  · have hbase : mmioBase 0 = MMIOBASE := by decide
    have hnext : mmioBase 0 + PGSIZE = mmioBase 1 := by decide
    rw [hbase] at hfirst hclear
    rw [hbase] at hnext
    simp only [checkMmio, hfirst, hsecond, hclear, hnext, hclear', hclear'', Option.bind_eq_bind,
      Option.bind_some]
    rfl
  · -- what has been mapped was on one of the three pages
    rw [hleaf₅ va hkern, hleaf₄ va hkern, hleaf₃ va hkern]
    split_ifs with hon2 hon1 hon0
    · rfl
    · rfl
    · rfl
    · refine (h₂.charted va hva hkern).2 fun r hr hin => ?_
      simp only [List.mem_cons, List.not_mem_nil, or_false] at hr
      rcases hr with rfl | rfl
      · have hlo : (mmioBase 2).toNat ≤ va.toNat := hin.1
        have hhi : va.toNat < (mmioBase 2).toNat + 1 * 4096 := hin.2
        omega
      · have hlo : (mmioBase 0).toNat ≤ va.toNat := hin.1
        have hhi : va.toNat < (mmioBase 0).toNat + 2 * 4096 := hin.2
        omega
  · have hidx : pdx (mmioBase 2) = pdx MMIOBASE := by decide
    have hkept := (hext.trans hext₅).kept _ hpde
    rw [hidx] at hpde hkept
    rwa [hkept]

/-! ## `mem_init` -/

theorem paddr_kstack (h : FitsMemory npages image) (hi : i < NCPU) :
    paddr (image.percpuKstacks + BitVec.ofNat 32 i * KSTKSIZE) =
      some (kstackRegion image i).pa := by
  have hcpus : NCPU = 8 := rfl
  have hle : KERNBASE.toNat ≤ image.percpuKstacks.toNat := h.kstacks
  have hend := h.inKernel
  have hlt := image.kernelEnd.isLt
  have hsize : KSTKSIZE.toNat = 0x8000 := rfl
  have hva : (image.percpuKstacks + BitVec.ofNat 32 i * KSTKSIZE).toNat =
      image.percpuKstacks.toNat + i * 0x8000 := by
    rw [BitVec.toNat_add, BitVec.toNat_mul, BitVec.toNat_ofNat, hsize]
    omega
  unfold paddr
  rw [if_neg (BitVec.not_lt.mpr (by rw [BitVec.le_def, hva]; omega))]
  rfl

/-- The loop of `mem_init_mp`. -/
theorem memInitMp_loop (hfit : FitsMemory npages image) (h : Booting entryFrames m npages d rs)
    (hapart : ∀ i < NCPU, ∀ r ∈ rs, (kstackRegion image i).Apart r) (hn : n ≤ NCPU) :
    ∃ m', (List.range n).foldlM (mapKstack image) m = some m' ∧
      Booting entryFrames m' npages d (kstackRegions image n ++ rs) ∧ Extends m m' d := by
  induction n with
  | zero => exact ⟨m, rfl, h, .refl⟩
  | succ n ih =>
      obtain ⟨m₁, hloop, h₁, hext⟩ := ih (Nat.le_of_succ_le hn)
      have hbelow : ∀ r ∈ kstackRegions image n ++ rs, (kstackRegion image n).Apart r := by
        intro r hr
        rcases List.mem_append.mp hr with hr | hr
        · obtain ⟨j, hj, rfl⟩ := List.mem_map.mp hr
          rw [List.mem_range] at hj
          have hcpus : NCPU = 8 := rfl
          have hva := toNat_kstack image (i := n) hn
          have hva' := toNat_kstack image (i := j) (by omega)
          have hlimit : (kstackRegion image n).limit = (kstackRegion image n).va.toNat + 8 * 4096 :=
            rfl
          exact .inl (by omega)
        · exact hapart n hn r hr
      obtain ⟨m', hmap, h', hext'⟩ := h₁.bootMapRegion (fits_kstack hn) hbelow
      refine ⟨m', ?_, h'.perm fun r => ?_, hext.trans hext'⟩
      · rw [← h₁.kernPgdir] at hmap
        have hcall : mapKstack image m₁ n = some m' :=
          (bind_of_some (paddr_kstack hfit hn)).trans hmap
        rw [List.range_succ, List.foldlM_append, hloop]
        exact (bind_of_some rfl).trans (bind_of_some hcall)
      · simp only [kstackRegions, List.range_succ, List.map_append, List.map_cons, List.map_nil,
          List.mem_append, List.mem_cons, List.not_mem_nil, or_false]
        exact or_assoc.trans or_left_comm

/-- What `boot_alloc` has given `mem_init`. -/
def arraysAt (npages : ℕ) (image : LinkedKernel) : BootArrays where
  kernPgdir := kva (endFrame image)
  pages := kva (endFrame image + 1)
  envs := kva (endFrame image + 1 + pagesFrames npages)
  nextfree := kva (arraysEnd npages image)

theorem paddr_pages (h : FitsMemory npages image) :
    paddr (arraysAt npages image).pages = some (pagesRegion npages image).pa := by
  have hlow := h.low
  unfold arraysEnd at hlow
  exact paddr_kva (by omega)

theorem paddr_envs (h : FitsMemory npages image) :
    paddr (arraysAt npages image).envs = some (envsRegion npages image).pa := by
  have hlow := h.low
  unfold arraysEnd at hlow
  exact paddr_kva (by omega)

theorem size_pages (h : FitsMemory npages image) :
    roundup (pagesSize npages) = (pagesRegion npages image).size := by
  have hmemory := h.memory
  have hbytes := h.toNat_pagesSize
  have hframes : (pagesRegion npages image).pages = (npages * 8 + 4095) / 4096 := rfl
  apply BitVec.eq_of_toNat_eq
  rw [toNat_roundup_of_lt (by omega), hbytes, (fits_pages hmemory).toNat_size, hframes]

/-- The calls of `mem_init`, one after the other. -/
theorem mapKernel_of {pagesPa envsPa : Word} {m₁ m₂ m₃ : Mem}
    (hpages : paddr a.pages = some pagesPa) (henvs : paddr a.envs = some envsPa)
    (h₁ : bootMapRegion entryFrames m m.kernPgdir UPAGES (roundup (pagesSize m.npages)) pagesPa
      (PTE_U ||| PTE_P) = some m₁)
    (h₂ : bootMapRegion entryFrames m₁ m₁.kernPgdir UENVS (roundup envsSize) envsPa
      (PTE_U ||| PTE_P) = some m₂)
    (h₃ : bootMapRegion entryFrames m₂ m₂.kernPgdir KERNBASE ((1 : Word) <<< 28) 0
      (PTE_W ||| PTE_P) = some m₃)
    (h₄ : memInitMp image m₃ = some m') : mapKernel a image m = some m' :=
  (bind_of_some hpages).trans <| (bind_of_some henvs).trans <| (bind_of_some h₁).trans <|
    (bind_of_some h₂).trans <| (bind_of_some h₃).trans h₄

theorem mapKernel_booting (hfit : FitsMemory npages image)
    (h : Booting entryFrames m npages d []) :
    ∃ m', mapKernel (arraysAt npages image) image m = some m' ∧
      Booting entryFrames m' npages d (kernelRegions npages image) ∧ Extends m m' d := by
  have hpages := pagesFrames_le hfit.memory
  have hpagesAt : (pagesRegion npages image).va.toNat = 0xef000000 := rfl
  have hpagesEnd : (pagesRegion npages image).limit = 0xef000000 + pagesFrames npages * 4096 := rfl
  have henvsAt : (envsRegion npages image).va.toNat = 0xeec00000 := rfl
  have henvsEnd : (envsRegion npages image).limit = 0xeec00000 + 34 * 4096 := rfl
  have hmemAt : memoryRegion.va.toNat = 0xf0000000 := rfl
  -- each region lies apart from the ones that are mapped already
  obtain ⟨m₁, hmap₁, h₁, hext₁⟩ := h.bootMapRegion (r := pagesRegion npages image)
    (fits_pages hfit.memory) (by simp)
  obtain ⟨m₂, hmap₂, h₂, hext₂⟩ := h₁.bootMapRegion (r := envsRegion npages image) fits_envs (by
    intro r hr
    rw [List.mem_singleton.mp hr]
    exact .inl (by omega))
  obtain ⟨m₃, hmap₃, h₃, hext₃⟩ := h₂.bootMapRegion (r := memoryRegion) fits_memory (by
    intro r hr
    simp only [List.mem_cons, List.not_mem_nil, or_false] at hr
    rcases hr with rfl | rfl
    · exact .inr (by omega)
    · exact .inr (by omega))
  obtain ⟨m₄, hmap₄, h₄, hext₄⟩ := memInitMp_loop (n := NCPU) hfit h₃ (fun i hi r hr => by
    have hcpus : NCPU = 8 := rfl
    have hva := toNat_kstack image hi
    have hend : (kstackRegion image i).limit = (kstackRegion image i).va.toNat + 8 * 4096 := rfl
    simp only [List.mem_cons, List.not_mem_nil, or_false] at hr
    rcases hr with rfl | rfl | rfl
    · exact .inl (by omega)
    · exact .inr (by omega)
    · exact .inr (by omega)) le_rfl
  refine ⟨m₄, ?_, h₄, ((hext₁.trans hext₂).trans hext₃).trans hext₄⟩
  -- the sizes as the source writes them
  have hsize₂ : roundup envsSize = (envsRegion npages image).size :=
    (by decide : roundup envsSize = BitVec.ofNat 32 (34 * 4096))
  have hsize₃ : (1 : Word) <<< 28 = memoryRegion.size := by decide
  rw [← h.kernPgdir, ← size_pages hfit, ← h.npages] at hmap₁
  rw [← h₁.kernPgdir, ← hsize₂] at hmap₂
  rw [← h₂.kernPgdir, ← hsize₃] at hmap₃
  exact mapKernel_of (paddr_pages hfit) (paddr_envs hfit) hmap₁ hmap₂ hmap₃ hmap₄

end JosSched
