import JosSched.Vm.Regions
import Mathlib.Order.Interval.Finset.Fin

/-!
# Memory after the first half of `mem_init`

Where the arrays of the kernel come to lie (`bootArrays_eq`), and what is on the free list after
`page_init` and `check_page_free_list`: with at least 128 free frames of base memory in front of
the others there are more than enough page tables for the kernel (`kernelSpace_bootMemory`).
-/

open Except

namespace JosSched

variable {npages f i n : ℕ} {image : LinkedKernel} {r : Nvram} {phys : Ppn → Idx → Word}
  {nextfree : Word} {m m' : Mem} {d t q : Ppn} {l : List Ppn} {top : ℕ}

/-! ## The arrays -/

/-- The kernel address of a frame. -/
def kva (f : ℕ) : Word := BitVec.ofNat 32 (KERNBASE.toNat + f * 4096)

/-- The frame behind the kernel. -/
def endFrame (image : LinkedKernel) : ℕ :=
  (image.kernelEnd.toNat - KERNBASE.toNat + 4095) / 4096

/-- How many frames the array `pages` takes. -/
def pagesFrames (npages : ℕ) : ℕ := (npages * 8 + 4095) / 4096

/-- How many frames the array `envs` takes. -/
def envsFrames : ℕ := 34

/-- The frame behind the arrays. -/
def arraysEnd (npages : ℕ) (image : LinkedKernel) : ℕ :=
  endFrame image + 1 + pagesFrames npages + envsFrames

/-- The kernel, loaded at `EXTPHYSMEM`, and its arrays are in the first 4MB, and there is memory
behind them, 256MB at most in all.  The stacks are whole pages of the kernel. -/
structure FitsMemory (npages : ℕ) (image : LinkedKernel) : Prop where
  behind : KERNBASE + EXTPHYSMEM ≤ image.kernelEnd
  low : arraysEnd npages image ≤ entryFrames
  room : arraysEnd npages image < npages
  memory : npages ≤ 2 ^ 16
  aligned : pgoff image.percpuKstacks = 0
  kstacks : KERNBASE ≤ image.percpuKstacks
  inKernel : image.percpuKstacks.toNat + 0x40000 ≤ image.kernelEnd.toNat

theorem toNat_kva (h : f ≤ entryFrames) : (kva f).toNat = KERNBASE.toNat + f * 4096 := by
  have hkern : KERNBASE.toNat = 0xf0000000 := rfl
  have hframes : entryFrames = 1024 := rfl
  rw [kva, BitVec.toNat_ofNat, hkern]
  omega

theorem paddr_of_le {a : Word} {x : ℕ} (h : a.toNat = KERNBASE.toNat + x) :
    paddr a = some (BitVec.ofNat 32 x) := by
  have hlt := a.isLt
  have hle : KERNBASE.toNat ≤ a.toNat := h ▸ Nat.le_add_right _ _
  have hsub : a - KERNBASE = BitVec.ofNat 32 x := by
    apply BitVec.eq_of_toNat_eq
    rw [BitVec.toNat_sub_of_le hle, h, BitVec.toNat_ofNat, Nat.add_sub_cancel_left,
      Nat.mod_eq_of_lt (by omega)]
  unfold paddr
  rw [if_neg (BitVec.not_lt.mpr hle), hsub]

theorem paddr_kva (h : f ≤ entryFrames) : paddr (kva f) = some (BitVec.ofNat 32 (f * 4096)) :=
  paddr_of_le (toNat_kva h)

theorem toNat_roundup_of_lt {a : Word} (h : a.toNat + 4095 < 2 ^ 32) :
    (roundup a).toNat = (a.toNat + 4095) / 4096 * 4096 := by
  have hsize : PGSIZE.toNat = 4096 := rfl
  have hone : (1 : Word).toNat = 1 := rfl
  have hsum : (a + PGSIZE - 1).toNat = a.toNat + 4095 := by
    rw [BitVec.toNat_sub, BitVec.toNat_add, hsize, hone]
    omega
  rw [roundup, toNat_rounddown, hsum]
  omega

/-- `boot_alloc` of some bytes, in low memory. -/
theorem bootAlloc_kva (bytes : Word) (hpages : npages ≤ 2 ^ 16)
    (hlow : f + (bytes.toNat + 4095) / 4096 ≤ entryFrames)
    (hroom : f + (bytes.toNat + 4095) / 4096 < npages) :
    bootAlloc npages (kva f) bytes = some (kva f, kva (f + (bytes.toNat + 4095) / 4096)) := by
  have hkern : KERNBASE.toNat = 0xf0000000 := rfl
  have hframes : entryFrames = 1024 := rfl
  have hf := toNat_kva (f := f) (by omega)
  have hsum : (kva f + bytes).toNat = KERNBASE.toNat + (f * 4096 + bytes.toNat) := by
    rw [BitVec.toNat_add, hf]
    omega
  have hlast : (BitVec.ofNat 32 (f * 4096 + bytes.toNat)).toNat = f * 4096 + bytes.toNat := by
    rw [BitVec.toNat_ofNat]
    omega
  have hback : BitVec.ofNat 32 (f * 4096 + bytes.toNat) + KERNBASE = kva f + bytes := by
    apply BitVec.eq_of_toNat_eq
    rw [BitVec.toNat_add, hlast, hsum, hkern]
    omega
  have htotal : (PGSIZE * BitVec.ofNat 32 npages).toNat = npages * 4096 := by
    have hsize : PGSIZE.toNat = 4096 := rfl
    rw [BitVec.toNat_mul, hsize, BitVec.toNat_ofNat]
    omega
  have hround : roundup (kva f + bytes) = kva (f + (bytes.toNat + 4095) / 4096) := by
    apply BitVec.eq_of_toNat_eq
    rw [toNat_roundup_of_lt (by omega), toNat_kva hlow, hsum, hkern]
    omega
  unfold bootAlloc
  rw [paddr_of_le hsum]
  dsimp only [bind, Option.bind]
  rw [if_neg, if_neg, hback, hround]
  · rfl
  · rw [toNat_pgnum, hlast]
    omega
  · rw [BitVec.le_def, hlast, htotal]
    omega

theorem pgnum_frame : pgnum (BitVec.ofNat 32 (f * 4096)) = BitVec.ofNat 20 f := by
  apply BitVec.eq_of_toNat_eq
  rw [toNat_pgnum, BitVec.toNat_ofNat, BitVec.toNat_ofNat]
  omega

theorem entryMemset_kva (hf : f ≤ entryFrames) : entryMemset (kva f) = some () := by
  have hkern : KERNBASE.toNat = 0xf0000000 := rfl
  have hframes : entryFrames = 1024 := rfl
  have hsum : (KERNBASE + PTSIZE).toNat = 0xf0400000 := rfl
  unfold entryMemset
  rw [if_neg]
  rw [BitVec.lt_def, toNat_kva hf, hsum]
  omega

theorem bootArrays_of {dir pages envs a b c : Word}
    (hdir : bootAlloc npages (roundup image.kernelEnd) PGSIZE = some (dir, a))
    (ha : entryMemset a = some ())
    (hpages : bootAlloc npages a (pagesSize npages) = some (pages, b))
    (hb : entryMemset b = some ()) (henvs : bootAlloc npages b envsSize = some (envs, c))
    (hc : entryMemset c = some ()) :
    bootArrays npages image = some ⟨dir, pages, envs, c⟩ := by
  simp only [bootArrays, hdir, ha, hpages, hb, henvs, hc, Option.bind_eq_bind, Option.bind_some]
  rfl

namespace FitsMemory

variable (h : FitsMemory npages image)
include h

theorem kernelEnd_eq : roundup image.kernelEnd = kva (endFrame image) := by
  have hkern : KERNBASE.toNat = 0xf0000000 := rfl
  have hframes : entryFrames = 1024 := rfl
  have hend : endFrame image = (image.kernelEnd.toNat - KERNBASE.toNat + 4095) / 4096 := rfl
  have hbehind : (KERNBASE + EXTPHYSMEM).toNat ≤ image.kernelEnd.toNat := h.behind
  have hext : (KERNBASE + EXTPHYSMEM).toNat = 0xf0100000 := rfl
  have hlow := h.low
  unfold arraysEnd at hlow
  apply BitVec.eq_of_toNat_eq
  rw [toNat_roundup_of_lt (by omega), toNat_kva (by omega)]
  omega

theorem endFrame_ge : 256 ≤ endFrame image := by
  have hkern : KERNBASE.toNat = 0xf0000000 := rfl
  have hbehind : (KERNBASE + EXTPHYSMEM).toNat ≤ image.kernelEnd.toNat := h.behind
  have hext : (KERNBASE + EXTPHYSMEM).toNat = 0xf0100000 := rfl
  unfold endFrame
  omega

theorem toNat_pagesSize : (pagesSize npages).toNat = npages * 8 := by
  have hmemory := h.memory
  have height : (8 : Word).toNat = 8 := rfl
  rw [pagesSize, BitVec.toNat_mul, BitVec.toNat_ofNat, height]
  omega

/-- The page directory of the kernel and the two arrays follow the kernel. -/
theorem bootArrays_eq : bootArrays npages image = some {
    kernPgdir := kva (endFrame image)
    pages := kva (endFrame image + 1)
    envs := kva (endFrame image + 1 + pagesFrames npages)
    nextfree := kva (arraysEnd npages image) } := by
  have hlow : endFrame image + 1 + pagesFrames npages + envsFrames ≤ entryFrames := h.low
  have hroom : endFrame image + 1 + pagesFrames npages + envsFrames < npages := h.room
  have hpages : pagesFrames npages = ((pagesSize npages).toNat + 4095) / 4096 := by
    rw [h.toNat_pagesSize]
    rfl
  have hone : (PGSIZE.toNat + 4095) / 4096 = 1 := by decide
  have henvs : (envsSize.toNat + 4095) / 4096 = envsFrames := by decide
  have hdir := bootAlloc_kva (f := endFrame image) PGSIZE h.memory
    (by rw [hone]; omega) (by rw [hone]; omega)
  have harray := bootAlloc_kva (f := endFrame image + 1) (pagesSize npages) h.memory
    (by rw [← hpages]; omega) (by rw [← hpages]; omega)
  have htable := bootAlloc_kva (f := endFrame image + 1 + pagesFrames npages) envsSize h.memory
    (by rw [henvs]; omega) (by rw [henvs]; omega)
  rw [hone] at hdir
  rw [← hpages] at harray
  have hend : endFrame image + 1 + pagesFrames npages + envsFrames = arraysEnd npages image := rfl
  rw [henvs, hend] at htable
  rw [← h.kernelEnd_eq] at hdir
  have hset : ∀ f ≤ entryFrames, entryMemset (kva f) = some () := fun f hf => entryMemset_kva hf
  have harrays := bootArrays_of hdir (hset _ (by omega)) harray (hset _ (by omega)) htable
    (hset _ h.low)
  rw [harrays, h.kernelEnd_eq]

/-- `page_init` finds the mark where the arrays end. -/
theorem highWaterMark : HighWaterMark npages (kva (arraysEnd npages image)) ∧
    bootEnd (kva (arraysEnd npages image)) = arraysEnd npages image := by
  have hkern : KERNBASE.toNat = 0xf0000000 := rfl
  have hext : (KERNBASE + EXTPHYSMEM).toNat = 0xf0100000 := rfl
  have hframes : entryFrames = 1024 := rfl
  have hlow := h.low
  have hto := toNat_kva hlow
  have hend : endFrame image ≤ arraysEnd npages image := by
    unfold arraysEnd
    omega
  have hge := h.endFrame_ge
  have hzero : ((0 : Word).toNat + 4095) / 4096 = 0 := rfl
  refine ⟨⟨?_, ?_, ?_⟩, ?_⟩
  · rw [BitVec.le_def, hto, hext]
    omega
  · rw [pgoff_eq_zero_iff, hto, hkern]
    omega
  · rw [bootAlloc_kva 0 h.memory (by rw [hzero]; exact hlow) (by rw [hzero]; exact h.room)]
    rfl
  · have hle : KERNBASE.toNat ≤ (kva (arraysEnd npages image)).toNat := by
      rw [hto]
      exact Nat.le_add_right _ _
    rw [bootEnd, toNat_pgnum, BitVec.toNat_sub_of_le hle, hto]
    omega

end FitsMemory

/-! ## The free list -/

/-- What the loop of `page_init` leaves in the fields of `struct PageInfo`. -/
theorem pageInit_fields (h : HighWaterMark npages nextfree) (n : ℕ) :
    ∃ st, (List.range n).foldlM (pageInitStep npages)
        ⟨fun _ => none, fun _ => 0, none, nextfree⟩ = some st ∧ st.nextfree = nextfree ∧
      (∀ i, st.ppRef i = 0) ∧ ∀ i, i ∉ loopList (bootEnd nextfree) n → st.ppLink i = none := by
  induction n with
  | zero => exact ⟨_, rfl, rfl, fun _ => rfl, fun _ _ => rfl⟩
  | succ n ih =>
      obtain ⟨st, hloop, hst, href, hlink⟩ := ih
      have hin : ∀ i, i ∈ loopList (bootEnd nextfree) (n + 1) ↔
          i ∈ loopList (bootEnd nextfree) n ∨ i = n ∧ LoopFree (bootEnd nextfree) n := by
        intro i
        rw [mem_loopList, mem_loopList, Nat.lt_succ_iff_lt_or_eq, or_and_right]
        refine or_congr_right ⟨fun hand => ⟨hand.1, hand.1 ▸ hand.2⟩, fun hand => ?_⟩
        exact ⟨hand.1, hand.1.symm ▸ hand.2⟩
      rw [List.range_succ, List.foldlM_append, hloop]
      refine ⟨_, by simp [pageInitStep_eq h hst n]; rfl, ?_, fun i => ?_, fun i hi => ?_⟩
      · split <;> exact hst
      · split
        · by_cases hi : i = n
          · simp [BootPages.push, hi]
          · simp [BootPages.push, BootPages.setLink, hi, href]
        · exact href i
      · rw [hin, not_or, not_and] at hi
        split
        · next hfree =>
            have hne : i ≠ n := fun heq => hi.2 heq hfree
            simp [BootPages.push, BootPages.setLink, hne, hlink i hi.1]
        · by_cases heq : i = n
          · simp [BootPages.setLink, heq]
          · simp [BootPages.setLink, heq, hlink i hi.1]

/-- The free frames, in the order of `page_init`. -/
def freeAtBoot (npages b : ℕ) : List Ppn := (loopList b npages).map (BitVec.ofNat 20)

theorem mem_freeAtBoot (hpages : npages ≤ 2 ^ 16) {b : ℕ} :
    q ∈ freeAtBoot npages b ↔ q.toNat < npages ∧ LoopFree b q.toNat := by
  rw [freeAtBoot, List.mem_map]
  constructor
  · rintro ⟨i, hi, rfl⟩
    obtain ⟨hlt, hfree⟩ := mem_loopList.mp hi
    rw [BitVec.toNat_ofNat, Nat.mod_eq_of_lt (by omega)]
    exact ⟨hlt, hfree⟩
  · rintro hand
    exact ⟨q.toNat, mem_loopList.mpr hand, BitVec.ofNat_toNat _ _⟩

theorem nodup_freeAtBoot (hpages : npages ≤ 2 ^ 16) {b : ℕ} : (freeAtBoot npages b).Nodup := by
  refine List.Nodup.map_on (fun i hi j hj heq => ?_) ?_
  · have hi' := (mem_loopList.mp hi).1
    have hj' := (mem_loopList.mp hj).1
    have hto := congrArg BitVec.toNat heq
    rw [BitVec.toNat_ofNat, BitVec.toNat_ofNat] at hto
    omega
  · exact List.nodup_reverse.mpr (List.nodup_range.filter _)

theorem length_freeAtBoot {b : ℕ} : (freeAtBoot npages b).length ≤ npages := by
  rw [freeAtBoot, List.length_map, loopList, List.length_reverse]
  exact (List.length_filter_le _ _).trans (List.length_range).le

/-- The array `pages` after `page_init`, as part of a memory. -/
theorem pageInit_mem (h : HighWaterMark npages nextfree) (hpages : npages ≤ 2 ^ 16) :
    ∃ st, pageInit npages nextfree = some st ∧ ∀ phys d,
      FreeList (st.mem npages phys d) (freeAtBoot npages (bootEnd nextfree)) ∧
      (∀ pp, (st.mem npages phys d).ref pp = 0) ∧
      ∀ q, q ∉ freeAtBoot npages (bootEnd nextfree) →
        ((st.mem npages phys d).pages q).ppLink = none := by
  obtain ⟨st, hloop, -, href, hlink⟩ := pageInit_fields h npages
  obtain ⟨st', hloop', -, hchain⟩ := pageInit_loop h
    ⟨fun _ => none, fun _ => 0, none, nextfree⟩ rfl rfl npages
  obtain rfl : st = st' := Option.some.inj (hloop.symm.trans hloop')
  refine ⟨st, hloop, fun phys d => ⟨?_, fun pp => href _, fun q hq => ?_⟩⟩
  · refine Chain.map hchain fun i hi => ?_
    have hlt := (mem_loopList.mp hi).1
    have hto : (BitVec.ofNat 20 i).toNat = i := by
      rw [BitVec.toNat_ofNat]
      omega
    simp only [BootPages.mem, hto]
  · have hnot : q.toNat ∉ loopList (bootEnd nextfree) npages := fun hin =>
      hq (List.mem_map.mpr ⟨_, hin, BitVec.ofNat_toNat _ _⟩)
    simp [BootPages.mem, hlink _ hnot]

/-- Only the order of the list changes. -/
theorem lowFirst_eq (m : Mem) : ∃ pages head, lowFirst m =
    { m with pages := pages, pageFreeList := head } ∧ ∀ pp, (pages pp).ppRef = m.ref pp := by
  unfold lowFirst
  generalize splitChain isLow (2 ^ 20) m.pageFreeList (fun pp => (m.pages pp).ppLink) = halves
  obtain ⟨head, next⟩ := halves
  exact ⟨_, _, rfl, fun _ => rfl⟩

theorem lowFirst_npages : (lowFirst m).npages = m.npages := by
  obtain ⟨pages, head, heq, -⟩ := lowFirst_eq m
  rw [heq]

theorem lowFirst_kernPgdir : (lowFirst m).kernPgdir = m.kernPgdir := by
  obtain ⟨pages, head, heq, -⟩ := lowFirst_eq m
  rw [heq]

theorem lowFirst_load {x : Ppn × Idx} : (lowFirst m).load x = m.load x := by
  obtain ⟨pages, head, heq, -⟩ := lowFirst_eq m
  rw [heq]
  rfl

theorem lowFirst_ref {pp : Ppn} : (lowFirst m).ref pp = m.ref pp := by
  obtain ⟨pages, head, heq, href⟩ := lowFirst_eq m
  rw [heq]
  exact href pp

theorem lowFirst_freeList (h : FreeList m l) (hnodup : l.Nodup) (hlen : l.length ≤ 2 ^ 20) :
    FreeList (lowFirst m) (l.filter isLow ++ l.filter fun pp => !isLow pp) ∧
      ∀ q, q ∉ l → ((lowFirst m).pages q).ppLink = (m.pages q).ppLink :=
  Chain.split (p := isLow) h hnodup hlen

theorem isLow_iff : isLow t = true ↔ t.toNat < entryFrames := by
  have hframes : entryFrames = 1024 := rfl
  have hpa : (page2pa t).toNat = t.toNat * 4096 := by
    rw [page2pa, BitVec.toNat_append, Nat.shiftLeft_eq]
    exact Nat.or_zero _
  rw [isLow, decide_eq_true_iff, toNat_pdx, hpa]
  omega

/-- There are 128 frames for page tables in base memory. -/
theorem length_low (h : FitsMemory npages image) :
    128 ≤ ((freeAtBoot npages (arraysEnd npages image)).filter isLow).length := by
  have hend := h.endFrame_ge
  have hroom := h.room
  have hframes : entryFrames = 1024 := rfl
  unfold arraysEnd at hroom
  have hnodup : ((List.range' 8 128).map (BitVec.ofNat 20)).Nodup := by
    refine List.Nodup.map_on (fun i hi j hj heq => ?_) List.nodup_range'
    rw [List.mem_range'_1] at hi hj
    have hto := congrArg BitVec.toNat heq
    rw [BitVec.toNat_ofNat, BitVec.toNat_ofNat] at hto
    omega
  have hsub : (List.range' 8 128).map (BitVec.ofNat 20) ⊆
      (freeAtBoot npages (arraysEnd npages image)).filter isLow := by
    intro q hq
    obtain ⟨i, hi, rfl⟩ := List.mem_map.mp hq
    rw [List.mem_range'_1] at hi
    have hto : (BitVec.ofNat 20 i).toNat = i := by
      rw [BitVec.toNat_ofNat]
      omega
    refine List.mem_filter.mpr ⟨(mem_freeAtBoot h.memory).mpr ?_, isLow_iff.mpr ?_⟩
    · rw [hto]
      refine ⟨by omega, by omega, by omega, .inl (by omega)⟩
    · rw [hto]
      omega
  have hle := (hnodup.subperm hsub).length_le
  rwa [List.length_map, List.length_range'] at hle

/-! ## The page directory of the kernel -/

theorem card_emptyEntries : (emptyEntries m d).card ≤ 69 := by
  have hsub : emptyEntries m d ⊆ Finset.Ici (⟨PDX_UTOP, by decide⟩ : Idx) := by
    intro k hk
    exact Finset.mem_Ici.mpr (Finset.mem_filter.mp hk).2.1
  refine (Finset.card_le_card hsub).trans ?_
  rw [Fin.card_Ici]
  decide

/-- With the low pages first, the free list supplies the page tables of an empty directory. -/
theorem kernelSpace_lowFirst (hlist : FreeList m l) (hnodup : l.Nodup) (hlen : l.length ≤ 2 ^ 20)
    (hdir : d ∉ l) (hfree : ∀ pp ∈ l, pp.toNat < m.npages ∧ m.ref pp = 0)
    (hunlinked : ∀ q, q ∉ l → (m.pages q).ppLink = none)
    (hempty : ∀ k, k ≠ pdxUvpt → m.load (d, k) = 0) (hlow : 72 ≤ (l.filter isLow).length) :
    KernelSpace entryFrames (lowFirst m) d (l.filter isLow ++ l.filter fun pp => !isLow pp) := by
  obtain ⟨hlist', hlink⟩ := lowFirst_freeList hlist hnodup hlen
  have hperm := List.filter_append_perm isLow l
  have hmem : ∀ q, q ∈ (l.filter isLow ++ l.filter fun pp => !isLow pp) ↔ q ∈ l :=
    fun q => hperm.mem_iff
  have hself : (pdxUvpt : ℕ) = 957 := rfl
  have hutop : PDX_UTOP = 955 := rfl
  exact {
    freeList := hlist'
    nodup := hperm.nodup_iff.mpr hnodup
    dir := fun hin => hdir ((hmem d).mp hin)
    free := fun pp hpp => by
      rw [lowFirst_npages]
      exact (hfree pp ((hmem pp).mp hpp)).1
    unused := fun pp hpp => lowFirst_ref.trans (hfree pp ((hmem pp).mp hpp)).2
    unlinked := fun q hq => by
      have hnot : q ∉ l := fun hin => hq ((hmem q).mpr hin)
      exact (hlink q hnot).trans (hunlinked q hnot)
    lower := fun k hk => by
      refine lowFirst_load.trans (hempty k fun heq => ?_)
      rw [heq] at hk
      omega
    tables := fun k hk hne => absurd (lowFirst_load.trans (hempty k hk)) hne
    apart := fun k hk _ _ hne => absurd (lowFirst_load.trans (hempty k hk)) hne
    reach := fun k hk hne => absurd (lowFirst_load.trans (hempty k hk)) hne
    stock := ⟨_, _, rfl, fun t ht => isLow_iff.mp (List.mem_filter.mp ht).2,
      (Nat.add_le_add_right card_emptyEntries 3).trans hlow⟩ }

/-- The frame of the page directory is behind the kernel, where nothing is free. -/
theorem endFrame_not_free (h : FitsMemory npages image) :
    BitVec.ofNat 20 (endFrame image) ∉ freeAtBoot npages (arraysEnd npages image) := by
  have hge := h.endFrame_ge
  have hlow := h.low
  have hframes : entryFrames = 1024 := rfl
  unfold arraysEnd at hlow
  have hto : (BitVec.ofNat 20 (endFrame image)).toNat = endFrame image := by
    rw [BitVec.toNat_ofNat]
    omega
  rw [mem_freeAtBoot h.memory, hto, arraysEnd]
  rintro ⟨-, -, -, hlt | hge⟩ <;> omega

/-- The memory of `page_init`, with the page directory of the kernel in frame `d`. -/
def BootPages.withDir (st : BootPages) (npages : ℕ) (phys : Ppn → Idx → Word) (d : Ppn)
    (self : Word) : Mem :=
  ((st.mem npages phys d).fill d fun _ => 0).store (d, pdxUvpt) self

section WithDir

variable {st : BootPages} {self : Word}

theorem withDir_npages : (lowFirst (st.withDir npages phys d self)).npages = npages :=
  lowFirst_npages

theorem withDir_kernPgdir : (lowFirst (st.withDir npages phys d self)).kernPgdir = d :=
  lowFirst_kernPgdir

theorem withDir_self : (lowFirst (st.withDir npages phys d self)).load (d, pdxUvpt) = self :=
  lowFirst_load.trans Mem.load_store_self

theorem withDir_load (h : ∀ k, k ≠ pdxUvpt → (st.withDir npages phys d self).load (d, k) = 0) :
    ∀ k, k ≠ pdxUvpt → (lowFirst (st.withDir npages phys d self)).load (d, k) = 0 :=
  fun k hk => lowFirst_load.trans (h k hk)

end WithDir

theorem bootMemory_of {a : BootArrays} {pa : Word} {st : BootPages} (phys : Ppn → Idx → Word)
    (hnpages : (i386DetectMemory r).npages = npages) (ha : bootArrays npages image = some a)
    (hpa : paddr a.kernPgdir = some pa) (hst : pageInit npages a.nextfree = some st) :
    bootMemory r image phys =
      some (a, lowFirst (st.withDir npages phys (pgnum pa) (pa ||| PTE_U ||| PTE_P))) := by
  unfold bootMemory
  dsimp only
  rw [hnpages, ha]
  dsimp only [bind, Option.bind]
  rw [hpa]
  dsimp only
  rw [hst]
  rfl

theorem kernelSpace_pageInit (h : FitsMemory npages image) (phys : Ppn → Idx → Word) (self : Word) :
    ∃ st l, pageInit npages (kva (arraysEnd npages image)) = some st ∧
      KernelSpace entryFrames
        (lowFirst (st.withDir npages phys (BitVec.ofNat 20 (endFrame image)) self))
        (BitVec.ofNat 20 (endFrame image)) l ∧
      ∀ k, k ≠ pdxUvpt → (st.withDir npages phys (BitVec.ofNat 20 (endFrame image)) self).load
        (BitVec.ofNat 20 (endFrame image), k) = 0 := by
  obtain ⟨hmark, hboot⟩ := h.highWaterMark
  obtain ⟨st, hinit, hmem⟩ := pageInit_mem hmark h.memory
  rw [hboot] at hmem
  obtain ⟨hlist, href, hlink⟩ := hmem phys (BitVec.ofNat 20 (endFrame image))
  have hclear : ∀ k, k ≠ pdxUvpt →
      (st.withDir npages phys (BitVec.ofNat 20 (endFrame image)) self).load
        (BitVec.ofNat 20 (endFrame image), k) = 0 := fun k hk => by
    rw [BootPages.withDir, Mem.load_store_ne fun heq => hk (Prod.mk.inj heq).2, load_fill_self]
  have hfill : SameList (st.mem npages phys (BitVec.ofNat 20 (endFrame image)))
      ((st.mem npages phys (BitVec.ofNat 20 (endFrame image))).fill
        (BitVec.ofNat 20 (endFrame image)) fun _ => 0) := ⟨rfl, rfl, rfl, fun _ => rfl⟩
  refine ⟨st, _, hinit, kernelSpace_lowFirst (hlist.congr (hfill.trans .store))
    (nodup_freeAtBoot h.memory) (length_freeAtBoot.trans (h.memory.trans (by decide)))
    (endFrame_not_free h) (fun pp hpp => ⟨((mem_freeAtBoot h.memory).mp hpp).1, href pp⟩) hlink
    hclear ((by decide : 72 ≤ 128).trans (length_low h)), hclear⟩

/-- The first half of `mem_init` leaves a page directory that is empty but for the window onto
itself, and page tables for the kernel at the front of the free list. -/
theorem kernelSpace_bootMemory (phys : Ppn → Idx → Word)
    (hnpages : (i386DetectMemory r).npages = npages) (h : FitsMemory npages image) :
    ∃ m l, bootMemory r image phys = some (⟨kva (endFrame image), kva (endFrame image + 1),
        kva (endFrame image + 1 + pagesFrames npages), kva (arraysEnd npages image)⟩, m) ∧
      m.npages = npages ∧ m.kernPgdir = BitVec.ofNat 20 (endFrame image) ∧
      KernelSpace entryFrames m (BitVec.ofNat 20 (endFrame image)) l ∧
      m.load (BitVec.ofNat 20 (endFrame image), pdxUvpt) &&& PTE_P ≠ 0 ∧
      ∀ k, k ≠ pdxUvpt → m.load (BitVec.ofNat 20 (endFrame image), k) = 0 := by
  have hlow := h.low
  have hend : endFrame image ≤ entryFrames := by
    unfold arraysEnd at hlow
    omega
  obtain ⟨st, l, hinit, hspace, hclear⟩ := kernelSpace_pageInit h phys
    (BitVec.ofNat 32 (endFrame image * 4096) ||| PTE_U ||| PTE_P)
  have hboot := bootMemory_of phys hnpages h.bootArrays_eq (paddr_kva hend) hinit
  rw [pgnum_frame] at hboot
  refine ⟨_, l, hboot, withDir_npages, withDir_kernPgdir, hspace, ?_, withDir_load hclear⟩
  rw [withDir_self]
  exact or_present _

end JosSched
