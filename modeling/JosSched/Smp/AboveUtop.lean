import JosSched.Smp.Boot
import JosSched.Smp.KernelFrames
import JosSched.Smp.Loader

/-!
# Above `UTOP`

The page directory and the page tables of the kernel stay as they are (`TablesKept`).  Every
environment sees above `UTOP` what the kernel has mapped at boot, and its own page tables in the
window at `UVPT`.  It can read the arrays `pages` and `envs` and the window, and it can write none
of it: this is why user stores are below `UTOP` in the model (`above_utop`).
-/

namespace JosSched

variable {npages ncpu : ℕ} {image : LinkedKernel} {m m' : Mem} {d d' : Ppn}
  {va lapicaddr flags : Word} {rs : List Region} {region : Region} {r : Nvram} {policy : Policy}
  {phys : Ppn → Idx → Word}
  {s s₀ : Kernel} {evs : List Event} {e : Slot}

/-! ## Translations above `UTOP` -/

/-- The page directory of the kernel and its page tables above `UTOP` are as they were in `m₀`. -/
structure TablesKept (m₀ m : Mem) : Prop where
  kernPgdir : m.kernPgdir = m₀.kernPgdir
  pde : ∀ k, m.load (m₀.kernPgdir, k) = m₀.load (m₀.kernPgdir, k)
  pte : ∀ k j, PDX_UTOP ≤ k.val → k ≠ pdxUvpt → m₀.load (m₀.kernPgdir, k) &&& PTE_P ≠ 0 →
    m.load (pgnum (m₀.load (m₀.kernPgdir, k)), j) =
      m₀.load (pgnum (m₀.load (m₀.kernPgdir, k)), j)

theorem Windowed.tablesKept (h : Windowed s₀.mem s) (hmem : KernelMemory s₀.mem)
    (hsame : SameKernel (freeFrames s₀.mem) s₀.mem s.mem) : TablesKept s₀.mem s.mem := by
  refine ⟨h.kernPgdir, h.template, fun k j hk hwin hpresent => ?_⟩
  rcases hmem.tables k hk hwin with hzero | ⟨t, ht, heq⟩
  · rw [hzero] at hpresent
    exact absurd BitVec.zero_and hpresent
  · rw [heq, pgnum_tableEntry]
    exact hsame (t, j) ht

/-- The layout of a page directory with the same translations. -/
theorem LaidOut.congr (h : LaidOut m d rs) (hfits : ∀ r ∈ rs, r.Fits)
    (hmmu : ∀ va, UTOP ≤ va → pdx va ≠ pdxUvpt → mmu m' d' va = mmu m d va) : LaidOut m' d' rs where
  inside r hr va hva := by
    obtain ⟨habove, hwin⟩ := (hfits r hr).holds hva
    rw [hmmu va habove hwin]
    exact h.inside r hr va hva
  outside va hva hwin hout := (hmmu va hva hwin).trans (h.outside va hva hwin hout)

/-- An environment translates as the kernel did at boot. -/
theorem Windowed.mmu_kernel (h : Windowed s₀.mem s) (hmem : KernelMemory s₀.mem)
    (hsame : SameKernel (freeFrames s₀.mem) s₀.mem s.mem) (hd : s.dirs e = some d)
    (hva : UTOP ≤ va) (hwin : pdx va ≠ pdxUvpt) :
    mmu s.mem d va = mmu s₀.mem s₀.mem.kernPgdir va := by
  have hpde : s.mem.load (d, pdx va) = s₀.mem.load (s₀.mem.kernPgdir, pdx va) :=
    (h.upper e d _ hd (pdx_ge hva)).trans (if_neg hwin)
  unfold mmu
  dsimp only
  rw [hpde]
  rcases hmem.tables _ (pdx_ge hva) hwin with hzero | ⟨t, ht, heq⟩
  · have hnone : (0 : Word) &&& PTE_P = 0 := BitVec.zero_and
    rw [hzero, if_pos hnone, if_pos hnone]
  · have hpte : s.mem.load (t, ptx va) = s₀.mem.load (t, ptx va) := hsame _ ht
    rw [heq, pgnum_tableEntry, hpte]

/-! ## What may be read and written -/

theorem flags_bootRegions (hr : region ∈ bootRegions npages image lapicaddr ncpu) :
    region.flags = PTE_P ||| PTE_W ∨ region.flags = PTE_P ||| PTE_U ∧
      (region = pagesRegion npages image ∨ region = envsRegion npages image) := by
  rcases List.mem_append.mp hr with hr | hr
  · rw [lapicRegions] at hr
    split at hr
    · cases hr
    · obtain ⟨i, -, rfl⟩ := List.mem_map.mp hr
      exact .inl (by decide : (PTE_W ||| PTE_P ||| PTE_PCD ||| PTE_PWT ||| PTE_P) &&&
        (PTE_P ||| PTE_W ||| PTE_U) = PTE_P ||| PTE_W)
  · have hkern : (PTE_W ||| PTE_P ||| PTE_P) &&& (PTE_P ||| PTE_W ||| PTE_U) = PTE_P ||| PTE_W := by
      decide
    have huser : (PTE_U ||| PTE_P ||| PTE_P) &&& (PTE_P ||| PTE_W ||| PTE_U) = PTE_P ||| PTE_U := by
      decide
    rcases mem_kernelRegions.mp hr with ⟨i, -, rfl⟩ | rfl | rfl | rfl
    · exact .inl hkern
    · exact .inl hkern
    · exact .inr ⟨huser, .inr rfl⟩
    · exact .inr ⟨huser, .inl rfl⟩

/-- What a program can do with the addresses above `UTOP` of its page directory. -/
structure ReadOnlyAbove (m : Mem) (d : Ppn) (readable : Word → Prop) : Prop where
  read : ∀ va pp flags, UTOP ≤ va → mmu m d va = some (pp, flags) → flags &&& PTE_U ≠ 0 →
    readable va
  write : ∀ va b, UTOP ≤ va → storeByte m d (PTE_U ||| PTE_W) va b = none

/-- The user reads `pages`, `envs` and the window. -/
def UserReads (npages : ℕ) (image : LinkedKernel) (va : Word) : Prop :=
  pdx va = pdxUvpt ∨ (pagesRegion npages image).Holds va ∨ (envsRegion npages image).Holds va

theorem storeByte_eq_none {perm : Word} {b : BitVec 8}
    (h : ∀ pp flags, mmu m d va = some (pp, flags) → flags &&& perm ≠ perm) :
    storeByte m d perm va b = none := by
  unfold storeByte
  split
  · next pp flags hmmu => exact if_neg (h pp flags hmmu)
  · rfl

/-- Off the window, an address with a translation is in one of the regions. -/
theorem LaidOut.exists_region {pp : Ppn} (h : LaidOut m d rs) (hva : UTOP ≤ va)
    (hwin : pdx va ≠ pdxUvpt) (hmmu : mmu m d va = some (pp, flags)) :
    ∃ region ∈ rs, region.Holds va ∧
      flags &&& (PTE_P ||| PTE_W ||| PTE_U) = region.flags := by
  by_contra hnone
  have hout : mmu m d va = none := h.outside va hva hwin fun region hr hin => by
    obtain ⟨flags', heq, hflags⟩ := h.inside region hr va hin
    rw [hmmu] at heq
    rw [← (Prod.mk.inj (Option.some.inj heq)).2] at hflags
    exact hnone ⟨region, hr, hin, hflags⟩
  rw [hout] at hmmu
  cases hmmu

theorem LaidOut.readOnlyAbove (h : LaidOut m d (bootRegions npages image lapicaddr ncpu))
    (hwindow : ∀ va pp flags, pdx va = pdxUvpt → mmu m d va = some (pp, flags) →
      flags &&& PTE_W = 0) : ReadOnlyAbove m d (UserReads npages image) := by
  have hsub : ∀ flags mask : Word, (PTE_P ||| PTE_W ||| PTE_U) &&& mask = mask →
      flags &&& mask = flags &&& (PTE_P ||| PTE_W ||| PTE_U) &&& mask := fun flags mask hmask => by
    rw [BitVec.and_assoc, hmask]
  refine ⟨fun va pp flags hva hmmu huser => ?_, fun va b hva => storeByte_eq_none ?_⟩
  · by_cases hwin : pdx va = pdxUvpt
    · exact .inl hwin
    · obtain ⟨region, hr, hin, hflags⟩ := h.exists_region hva hwin hmmu
      rw [hsub flags PTE_U (by decide), hflags] at huser
      rcases flags_bootRegions hr with heq | ⟨-, rfl | rfl⟩
      · rw [heq] at huser
        exact absurd (by decide) huser
      · exact .inr (.inl hin)
      · exact .inr (.inr hin)
  · intro pp flags hmmu hboth
    by_cases hwin : pdx va = pdxUvpt
    · have hzero := hwindow va pp flags hwin hmmu
      have hpart : flags &&& PTE_W = flags &&& (PTE_U ||| PTE_W) &&& PTE_W := by
        rw [BitVec.and_assoc]
        rfl
      rw [hboth, hzero] at hpart
      exact absurd hpart (by decide)
    · obtain ⟨region, hr, -, hflags⟩ := h.exists_region hva hwin hmmu
      rw [hsub flags (PTE_U ||| PTE_W) (by decide), hflags] at hboth
      rcases flags_bootRegions hr with heq | ⟨heq, -⟩
      · rw [heq] at hboth
        exact absurd hboth (by decide)
      · rw [heq] at hboth
        exact absurd hboth (by decide)

/-- Whatever runs on a machine that has booted, the page tables of the kernel stay as they are, and
every environment sees above `UTOP` what was mapped at boot, which it can partly read and never
write. -/
theorem above_utop (hfit : FitsMemory (i386DetectMemory r).npages image) (hn : ncpu ≤ NCPU)
    (hboots : Boots policy r image phys lapicaddr ncpu s₀) (hrun : Trace OrderlyStep s₀ evs s) :
    TablesKept s₀.mem s.mem ∧ ∀ e d, s.dirs e = some d →
      LaidOut s.mem d (bootRegions (i386DetectMemory r).npages image lapicaddr ncpu) ∧
        ReadOnlyAbove s.mem d (UserReads (i386DetectMemory r).npages image) := by
  have hready := ready_of_boots rfl hfit hn hboots
  obtain ⟨hwindowed, hs⟩ := windowed_of_run hready.booted hrun
  obtain ⟨use, hm⟩ := hs.mapped
  have hsame := sameKernel_of_run hready.booted hrun
  refine ⟨hwindowed.tablesKept hready.memory hsame, fun e d hd => ?_⟩
  have hlaid := hready.layout.congr (fits_bootRegions hfit.memory hn) fun va hva hwin =>
    hwindowed.mmu_kernel hready.memory hsame hd hva hwin
  exact ⟨hlaid, hlaid.readOnlyAbove
    (hwindowed.mapsItself hm hready.tables hd).windowAgrees.readOnly⟩

/-- The first environment of a machine with 128MB and four CPUs. -/
theorem above_utop_first : ∃ s₀ s,
    Boots .roundRobin ⟨640, 64512, 1792⟩ ⟨0xf0180000, 0xf0130000⟩ (fun _ _ => 0) 0xfee00000 4 s₀ ∧
      Trace OrderlyStep s₀ [.boot ⟨[], 0x800020⟩] s ∧
      TablesKept s₀.mem s.mem ∧ ∃ d, s.dirs 0 = some d ∧
        LaidOut s.mem d (bootRegions 32768 ⟨0xf0180000, 0xf0130000⟩ 0xfee00000 4) ∧
        ReadOnlyAbove s.mem d (UserReads 32768 ⟨0xf0180000, 0xf0130000⟩) := by
  have hfit : FitsMemory 32768 ⟨0xf0180000, 0xf0130000⟩ :=
    ⟨by decide, by decide, by decide, by decide, by decide, by decide, by decide⟩
  have hcpus : 4 ≤ NCPU := by decide
  obtain ⟨m, d, hmem, htests, hstart⟩ :=
    boot_start (r := ⟨640, 64512, 1792⟩) (fun _ _ => 0) rfl hfit
  obtain ⟨hbooting, hself⟩ := hstart m htests
  obtain ⟨st, hmap, htests', hrest⟩ := boot_rest hfit hcpus hbooting hself
  obtain ⟨s₀, hkern, hready⟩ := hrest st.1 htests'
  have hboots : Boots .roundRobin ⟨640, 64512, 1792⟩ ⟨0xf0180000, 0xf0130000⟩ (fun _ _ => 0)
      0xfee00000 4 s₀ := ⟨_, m, m, st, st.1, hmem, htests, hmap, htests', hkern⟩
  -- three free pages are enough for an environment with a stack
  have hs := resting_of_run hready.booted .nil
  obtain ⟨use, hm⟩ := hs.mapped
  obtain ⟨l, hlist, hlen⟩ := hready.spare
  have hcreate : ∃ s d, envCreate s₀ ⟨[], 0x800020⟩ = .ok s ∧ Launched s 0 d ⟨[], 0x800020⟩ :=
    hm.envCreate_launched hs.exclusive.freeSlots hready.booted.envFreeList hlist hlen
      (List.pairwise_singleton _ _)
  obtain ⟨s, d', hcreate, hlaunched⟩ := hcreate
  have hexec : (Event.boot ⟨[], 0x800020⟩).exec s₀ = .leave s := congrArg (finish · .leave) hcreate
  have hrun : Trace OrderlyStep s₀ [.boot ⟨[], 0x800020⟩] s :=
    .snoc .nil ⟨⟨fun c => (hready.booted.cpus c).1, hexec⟩, trivial, trivial⟩
  obtain ⟨hkept, habove⟩ := above_utop (r := ⟨640, 64512, 1792⟩) hfit hcpus hboots hrun
  exact ⟨s₀, s, hboots, hrun, hkept, d', hlaunched.pgdir, habove 0 d' hlaunched.pgdir⟩

end JosSched
