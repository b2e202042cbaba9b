import JosSched.Smp.Counted
import JosSched.Vm.KernelCheck

/-!
# The machine has booted

From power-on to the first `ENV_CREATE` the kernel does not panic: `mem_init` finds room for its
arrays and page tables and passes its own checks, and every CPU finds room for its registers
(`boot_ready`).  What it leaves is what later arguments start from (`Booted`, `KernelTables`,
`KernelMemory`), and above `UTOP` its page directory translates as laid out (`LaidOut`).
-/

namespace JosSched

variable {npages n ncpu top : ℕ} {image : LinkedKernel} {m m' : Mem} {d : Ppn} {l : List Ppn}
  {lapicaddr : Word} {rs : List Region} {r : Nvram} {policy : Policy} {phys : Ppn → Idx → Word}
  {s : Kernel}

/-! ## The layout above `UTOP` -/

/-- Above `UTOP`, but for the window at `UVPT`, page directory `d` translates the addresses of the
regions, and no others. -/
structure LaidOut (m : Mem) (d : Ppn) (rs : List Region) : Prop where
  inside : ∀ r ∈ rs, ∀ va, r.Holds va → ∃ flags,
    mmu m d va = some (pgnum (r.pa + (va - r.va)), flags) ∧
      flags &&& (PTE_P ||| PTE_W ||| PTE_U) = r.flags
  outside : ∀ va, UTOP ≤ va → pdx va ≠ pdxUvpt → (∀ r ∈ rs, ¬ r.Holds va) → mmu m d va = none

theorem Booting.laidOut (h : Booting top m n d rs) (hfits : ∀ r ∈ rs, r.Fits)
    (hmap : ∀ r ∈ rs, r.Mappable) : LaidOut m d rs :=
  ⟨fun r hr _ hva => h.mmu_of_holds hr (hfits r hr) (hmap r hr) hva,
    fun _ hva hwin hout => h.mmu_of_not_holds hva hwin hout⟩

theorem fits_lapicRegions {region : Region} (hn : ncpu ≤ NCPU)
    (hr : region ∈ lapicRegions lapicaddr ncpu) : region.Fits ∧ region.Mappable := by
  have hcpus : NCPU = 8 := rfl
  rw [lapicRegions] at hr
  split at hr
  · cases hr
  · obtain ⟨i, hi, rfl⟩ := List.mem_map.mp hr
    rw [List.mem_range] at hi
    exact ⟨fits_mmio (by omega), mappable_mmio⟩

/-- All that the kernel maps. -/
def bootRegions (npages : ℕ) (image : LinkedKernel) (lapicaddr : Word) (ncpu : ℕ) : List Region :=
  lapicRegions lapicaddr ncpu ++ kernelRegions npages image

theorem fits_bootRegions (h : npages ≤ 2 ^ 16) (hn : ncpu ≤ NCPU) :
    ∀ r ∈ bootRegions npages image lapicaddr ncpu, r.Fits := fun r hr => by
  rcases List.mem_append.mp hr with hr | hr
  · exact (fits_lapicRegions hn hr).1
  · exact fits_kernelRegions h hr

theorem laidOut_bootRegions (hfit : FitsMemory npages image) (hn : ncpu ≤ NCPU)
    (h : Booting top m npages d (bootRegions npages image lapicaddr ncpu)) :
    LaidOut m d (bootRegions npages image lapicaddr ncpu) := by
  refine h.laidOut (fits_bootRegions hfit.memory hn) fun r hr => ?_
  rcases List.mem_append.mp hr with hr | hr
  · exact (fits_lapicRegions hn hr).2
  · exact mappable_kernelRegions hfit.aligned hr

/-! ## What later arguments start from -/

namespace KernelSpace

theorem kernelTables (h : KernelSpace top m m.kernPgdir l) : KernelTables m := by
  intro k _ hk
  by_cases hzero : m.load (m.kernPgdir, k) = 0
  · exact .inl hzero
  · obtain ⟨t, heq, -, -, hlt⟩ := h.tables k hk hzero
    exact .inr ⟨t, hlt, heq⟩

theorem kernelMemory (h : KernelSpace top m m.kernPgdir l) : KernelMemory m where
  tables k _ hk := by
    by_cases hzero : m.load (m.kernPgdir, k) = 0
    · exact .inl hzero
    · obtain ⟨t, heq, -, hnot, -⟩ := h.tables k hk hzero
      refine .inr ⟨t, ?_, heq⟩
      rintro ⟨l', hchain, hin⟩
      exact hnot (Chain.unique hchain h.freeList ▸ hin)
  unlinked q hq := h.unlinked q fun hin => hq (Chain.linked_of_mem h.freeList hin)

end KernelSpace

/-- The state in which `i386_init` creates the first environment. -/
def readyKernel (policy : Policy) (m : Mem) : Kernel where
  policy := policy
  mem := m
  envs := envInit fun _ => {}
  envFreeList := some 0
  cpus := fun _ => { cpuCr3 := m.kernPgdir }

theorem booted_readyKernel (h : KernelSpace top m m.kernPgdir l) (hmemory : m.npages ≤ 2 ^ 16) :
    Booted (readyKernel policy m) where
  envs _ := rfl
  envFreeList := rfl
  cpus _ := ⟨rfl, rfl⟩
  ticks := rfl
  stats := rfl
  freePages := ⟨l, h.freeList, h.nodup, h.dir, fun pp hpp => ⟨h.free pp hpp, h.unused pp hpp⟩⟩
  memory := hmemory
  kernPgdir := h.lower

theorem bootKernel_of {st st' : Mem × Word}
    (h : (List.range ncpu).foldlM (fun st _ => lapicInit lapicaddr st) st = some st') :
    bootKernel policy lapicaddr ncpu st = some (readyKernel policy st'.1) :=
  bind_of_some h

/-! ## Booting -/

/-- Booting ends in state `s`: with some outcome of the tests of the page allocator, the functions
of the kernel return one after the other. -/
def Boots (policy : Policy) (r : Nvram) (image : LinkedKernel) (phys : Ppn → Idx → Word)
    (lapicaddr : Word) (ncpu : ℕ) (s : Kernel) : Prop :=
  ∃ a m m₁ st m₃, bootMemory r image phys = some (a, m) ∧ TestsPassed m m₁ ∧
    bootMappings a image m₁ = some st ∧ TestsPassed st.1 m₃ ∧
    bootKernel policy lapicaddr ncpu (m₃, st.2) = some s

/-- What booting leaves behind, in a machine with `n` pages. -/
structure MachineReady (n : ℕ) (rs : List Region) (s : Kernel) : Prop where
  booted : Booted s
  tables : KernelTables s.mem
  memory : KernelMemory s.mem
  npages : s.mem.npages = n
  spare : ∃ l, FreeList s.mem l ∧ 3 ≤ l.length
  layout : LaidOut s.mem s.mem.kernPgdir rs

/-- The tests may also leave everything as it was. -/
theorem TestsPassed.refl (h : KernelSpace top m d l) : TestsPassed m m := by
  obtain ⟨low, high, rfl, -, hcard⟩ := h.stock
  have hlist : FreeList m (low.take 3 ++ (low.drop 3 ++ high)) := by
    rw [← List.append_assoc, List.take_append_drop]
    exact h.freeList
  refine ⟨rfl, rfl, fun _ => rfl, low.take 3, low.take 3, low.drop 3 ++ high, hlist, ?_,
    List.Perm.refl _, hlist, fun q _ => ⟨rfl, fun _ => rfl⟩⟩
  rw [List.length_take]
  omega

theorem ready_readyKernel (hfit : FitsMemory npages image) (hn : ncpu ≤ NCPU)
    (h : Booting top m npages d (bootRegions npages image lapicaddr ncpu)) :
    MachineReady npages (bootRegions npages image lapicaddr ncpu) (readyKernel policy m) := by
  have hlaid := laidOut_bootRegions hfit hn h
  obtain ⟨hnpages, rfl, ⟨l, hspace⟩, -⟩ := h
  have hmemory := hfit.memory
  have hspare : 3 ≤ l.length := by
    obtain ⟨low, high, rfl, -, hcard⟩ := hspace.stock
    rw [List.length_append]
    omega
  exact ⟨booted_readyKernel hspace (hnpages ▸ hmemory), hspace.kernelTables, hspace.kernelMemory,
    hnpages, ⟨l, hspace.freeList, hspare⟩, hlaid⟩

/-- The first half of booting, with its tests. -/
theorem boot_start (phys : Ppn → Idx → Word) (hnpages : (i386DetectMemory r).npages = npages)
    (hfit : FitsMemory npages image) :
    ∃ m d, bootMemory r image phys = some (arraysAt npages image, m) ∧ TestsPassed m m ∧
      ∀ m₁, TestsPassed m m₁ → Booting entryFrames m₁ npages d [] ∧
        m₁.load (d, pdxUvpt) &&& PTE_P ≠ 0 := by
  obtain ⟨m, l, hmem, hsize, hkern, hspace, hself, hempty⟩ :=
    kernelSpace_bootMemory phys hnpages hfit
  have h : Booting entryFrames m npages (BitVec.ofNat 20 (endFrame image)) [] :=
    ⟨hsize, hkern, ⟨l, hspace⟩, fun va _ hwin =>
      ⟨fun r hr => absurd hr List.not_mem_nil, fun _ => if_pos (hempty _ hwin)⟩⟩
  refine ⟨m, BitVec.ofNat 20 (endFrame image), hmem, .refl hspace, fun m₁ htests => ?_⟩
  obtain ⟨h₁, hext⟩ := h.testsPassed htests
  exact ⟨h₁, by rwa [hext.kept _ (ne_zero_of_and hself)]⟩

/-- The second half of booting. -/
theorem boot_rest (hfit : FitsMemory npages image) (hn : ncpu ≤ NCPU)
    (h : Booting entryFrames m npages d []) (hself : m.load (d, pdxUvpt) &&& PTE_P ≠ 0) :
    ∃ st, bootMappings (arraysAt npages image) image m = some st ∧ TestsPassed st.1 st.1 ∧
      ∀ m₃, TestsPassed st.1 m₃ → ∃ s, bootKernel policy lapicaddr ncpu (m₃, st.2) = some s ∧
        MachineReady npages (bootRegions npages image lapicaddr ncpu) s := by
  obtain ⟨m₂, hmap, h₂⟩ := bootMappings_booting hfit h hself
  obtain ⟨l, hspace⟩ := h₂.space
  refine ⟨(m₂, mmioBase 3), hmap, .refl hspace, fun m₃ htests => ?_⟩
  obtain ⟨h₃, -⟩ := h₂.testsPassed htests
  obtain ⟨st, hloop, -, h₄⟩ :=
    lapicInit_booting lapicaddr hfit.memory (h₃.raise (by decide)) hn
  exact ⟨_, bootKernel_of hloop, ready_readyKernel hfit hn h₄⟩

/-- The kernel boots, whatever the tests of the page allocator leave behind. -/
theorem boot_ready (hfit : FitsMemory (i386DetectMemory r).npages image) (hn : ncpu ≤ NCPU) :
    ∃ a m, bootMemory r image phys = some (a, m) ∧ TestsPassed m m ∧ ∀ m₁, TestsPassed m m₁ →
      ∃ st, bootMappings a image m₁ = some st ∧ TestsPassed st.1 st.1 ∧ ∀ m₃,
        TestsPassed st.1 m₃ → ∃ s, bootKernel policy lapicaddr ncpu (m₃, st.2) = some s ∧
          MachineReady (i386DetectMemory r).npages
            (bootRegions (i386DetectMemory r).npages image lapicaddr ncpu) s := by
  generalize hnpages : (i386DetectMemory r).npages = npages at hfit ⊢
  obtain ⟨m, d, hmem, hrefl, hstart⟩ := boot_start phys hnpages hfit
  refine ⟨arraysAt npages image, m, hmem, hrefl, fun m₁ htests => ?_⟩
  obtain ⟨h₁, hself⟩ := hstart m₁ htests
  exact boot_rest hfit hn h₁ hself

/-- A machine with 128MB and four CPUs boots. -/
theorem boot_ready_four : ∃ a m,
    bootMemory ⟨640, 64512, 1792⟩ ⟨0xf0180000, 0xf0130000⟩ (fun _ _ => 0) = some (a, m) ∧
      TestsPassed m m ∧ ∀ m₁, TestsPassed m m₁ →
        ∃ st, bootMappings a ⟨0xf0180000, 0xf0130000⟩ m₁ = some st ∧ TestsPassed st.1 st.1 ∧
          ∀ m₃, TestsPassed st.1 m₃ → ∃ s,
            bootKernel .roundRobin 0xfee00000 4 (m₃, st.2) = some s ∧
              MachineReady 32768 (bootRegions 32768 ⟨0xf0180000, 0xf0130000⟩ 0xfee00000 4) s :=
  boot_ready (r := ⟨640, 64512, 1792⟩)
    ⟨by decide, by decide, by decide, by decide, by decide, by decide, by decide⟩ (by decide)

/-- Every way in which the kernel can boot leaves the machine in order. -/
theorem ready_of_boots (hnpages : (i386DetectMemory r).npages = npages)
    (hfit : FitsMemory npages image) (hn : ncpu ≤ NCPU)
    (h : Boots policy r image phys lapicaddr ncpu s) :
    MachineReady npages (bootRegions npages image lapicaddr ncpu) s := by
  obtain ⟨a, m, m₁, st, m₃, hmem, htests, hmap, htests', hkern⟩ := h
  obtain ⟨m', d, hmem', -, hstart⟩ := boot_start phys hnpages hfit
  obtain ⟨rfl, rfl⟩ := Prod.mk.inj (Option.some.inj (hmem.symm.trans hmem'))
  obtain ⟨h₁, hself⟩ := hstart m₁ htests
  obtain ⟨st', hmap', -, hrest⟩ := boot_rest hfit hn h₁ hself
  obtain rfl := Option.some.inj (hmap.symm.trans hmap')
  obtain ⟨s', hkern', hready⟩ := hrest m₃ htests'
  obtain rfl := Option.some.inj (hkern.symm.trans hkern')
  exact hready

end JosSched
