import JosSched.Inc.Mmu
import JosSched.Lib.Chain

/-!
# The first list of free pages

`mem_init` asks the CMOS for the size of the memory, takes what the kernel needs with `boot_alloc`,
and leaves the rest to `page_init`.  The comment there says what is free: base memory up to
`npages_basemem` but for page 0 and the page of the entry code, nothing of the IO hole, and extended
memory from where `boot_alloc` has come to.

The loop takes the end of base memory from a constant, `IOPHYSMEM`, and not from what was detected.
And it puts every page up to `npages` on the list, although the kernel can only address the first
256MB: `KADDR` compares the frame number with `npages` alone, and the sum with `KERNBASE` wraps.
-/

namespace JosSched

variable {npages b i n : ℕ} {nextfree : Word}

def KERNBASE : Word := 0xf0000000
def IOPHYSMEM : Word := 0x0a0000
def EXTPHYSMEM : Word := 0x100000
def MPENTRY_PADDR : Word := 0x7000

/-! ## Detection -/

/-- What the CMOS reports: base memory and extended memory in KB, and extended memory above 16MB in
units of 64KB. -/
structure Nvram where
  base : BitVec 16
  ext : BitVec 16
  ext16 : BitVec 16

/-- `npages` and `npages_basemem`. -/
structure MemorySize where
  npages : ℕ
  npagesBasemem : ℕ

def i386DetectMemory (r : Nvram) : MemorySize :=
  let basemem := r.base.toNat
  let extmem := r.ext.toNat
  let ext16mem := r.ext16.toNat * 64
  let totalmem :=
    if ext16mem ≠ 0 then 16 * 1024 + ext16mem
    else if extmem ≠ 0 then 1 * 1024 + extmem
    else basemem
  { npages := totalmem / 4, npagesBasemem := basemem / 4 }

/-! ## The boot allocator -/

/-- `PADDR(kva)`, which panics below `KERNBASE`. -/
def paddr (kva : Word) : Option Word := if kva < KERNBASE then none else some (kva - KERNBASE)

/-- `boot_alloc(n)`: the address, and where the next one will start. -/
def bootAlloc (npages : ℕ) (nextfree n : Word) : Option (Word × Word) := do
  let last ← paddr (nextfree + n)
  if PGSIZE * BitVec.ofNat 32 npages ≤ last then none
  else if npages ≤ (pgnum last).toNat then none
  else return (nextfree, roundup (last + KERNBASE))

/-! ## The list -/

/-- The array `pages` as `page_init` fills it, the head of the list, and `nextfree`. -/
structure BootPages where
  ppLink : ℕ → Option ℕ
  ppRef : ℕ → BitVec 16
  pageFreeList : Option ℕ
  nextfree : Word

def BootPages.setLink (st : BootPages) (i : ℕ) (link : Option ℕ) : BootPages :=
  { st with ppLink := Function.update st.ppLink i link }

/-- The end of the loop body: the page joins the list. -/
def BootPages.push (st : BootPages) (i : ℕ) : BootPages :=
  { st with
    ppLink := Function.update st.ppLink i st.pageFreeList
    ppRef := Function.update st.ppRef i 0
    pageFreeList := some i }

/-- One iteration of the loop of `page_init`. -/
def pageInitStep (npages : ℕ) (st : BootPages) (i : ℕ) : Option BootPages :=
  let st := st.setLink i none
  if i = 0 then some st
  else if (pgnum MPENTRY_PADDR).toNat = i then some st
  else if (pgnum IOPHYSMEM).toNat ≤ i ∧ i < (pgnum EXTPHYSMEM).toNat then some st
  else if (pgnum EXTPHYSMEM).toNat ≤ i then do
    let (kva, nextfree) ← bootAlloc npages st.nextfree 0
    let pa ← paddr kva
    let st := { st with nextfree := nextfree }
    if i < (pgnum pa).toNat then some st else some (st.push i)
  else some (st.push i)

/-- `page_init`, on the array that `mem_init` has cleared. -/
def pageInit (npages : ℕ) (nextfree : Word) : Option BootPages :=
  (List.range npages).foldlM (pageInitStep npages)
    { ppLink := fun _ => none, ppRef := fun _ => 0, pageFreeList := none, nextfree := nextfree }

/-! ## What the comment says -/

/-- A place that `boot_alloc` may have come to: behind the kernel, which is loaded at `EXTPHYSMEM`,
at the start of a page, with another call still going through. -/
structure HighWaterMark (npages : ℕ) (nextfree : Word) : Prop where
  behind : KERNBASE + EXTPHYSMEM ≤ nextfree
  aligned : pgoff nextfree = 0
  room : (bootAlloc npages nextfree 0).isSome = true

/-- The first frame that `boot_alloc` has not given out. -/
def bootEnd (nextfree : Word) : ℕ := (pgnum (nextfree - KERNBASE)).toNat

/-- The frames that are free according to the comment. -/
def DocumentedFree (size : MemorySize) (nextfree : Word) (i : ℕ) : Prop :=
  (1 ≤ i ∧ i < size.npagesBasemem ∧ i ≠ (pgnum MPENTRY_PADDR).toNat) ∨
    (bootEnd nextfree ≤ i ∧ i < size.npages)

/-- The kernel has an address for the frame: `KERNBASE + pa` does not wrap around. -/
def Addressable (i : ℕ) : Prop := KERNBASE.toNat + (BitVec.ofNat 32 i <<< 12).toNat < 2 ^ 32

/-- The list is the documented one, and all of its frames can be written to. -/
structure WellInitialised (size : MemorySize) (nextfree : Word) (st : BootPages) : Prop where
  list : ∃ l, Chain st.ppLink st.pageFreeList l ∧ l.Nodup ∧
    (∀ i, i ∈ l ↔ DocumentedFree size nextfree i) ∧ ∀ i ∈ l, Addressable i

/-! ## What the loop does -/

theorem toNat_pgnum (pa : Word) : (pgnum pa).toNat = pa.toNat / 4096 := by
  have hlt := pa.isLt
  rw [pgnum, BitVec.extractLsb'_toNat, Nat.shiftRight_eq_div_pow]
  omega

theorem roundup_of_aligned {a : Word} (h : pgoff a = 0) : roundup a = a := by
  have hmod := pgoff_eq_zero_iff.mp h
  have hlt := a.isLt
  have hsize : PGSIZE.toNat = 4096 := rfl
  have hone : (1 : Word).toNat = 1 := rfl
  have hsum : (a + PGSIZE - 1).toNat = a.toNat + 4095 := by
    rw [BitVec.toNat_sub, BitVec.toNat_add, hsize, hone]
    omega
  apply BitVec.eq_of_toNat_eq
  rw [roundup, toNat_rounddown, hsum]
  omega

/-- At a mark another call goes through and leaves it where it is. -/
theorem bootAlloc_mark (h : HighWaterMark npages nextfree) :
    bootAlloc npages nextfree 0 = some (nextfree, nextfree) ∧
      paddr nextfree = some (nextfree - KERNBASE) ∧ 256 ≤ bootEnd nextfree ∧
      bootEnd nextfree < npages % 2 ^ 20 := by
  have hkern : KERNBASE.toNat = 0xf0000000 := rfl
  have hext : (KERNBASE + EXTPHYSMEM).toNat = 0xf0100000 := rfl
  have hbehind : (KERNBASE + EXTPHYSMEM).toNat ≤ nextfree.toNat := h.behind
  have hlt := nextfree.isLt
  have haligned := pgoff_eq_zero_iff.mp h.aligned
  have hlow : ¬ nextfree < KERNBASE := by
    rw [BitVec.lt_def]
    omega
  have hpaddr : paddr nextfree = some (nextfree - KERNBASE) := if_neg hlow
  have hpa : (nextfree - KERNBASE).toNat = nextfree.toNat - 0xf0000000 :=
    BitVec.toNat_sub_of_le (BitVec.not_lt.mp hlow)
  have hback : roundup (nextfree - KERNBASE + KERNBASE) = nextfree := by
    rw [BitVec.sub_add_cancel, roundup_of_aligned h.aligned]
  have hroom := h.room
  have hzero : nextfree + 0 = nextfree := BitVec.add_zero _
  unfold bootAlloc at hroom ⊢
  rw [hzero, hpaddr] at hroom ⊢
  rw [Option.bind_eq_bind, Option.bind_some] at hroom ⊢
  -- the mark has passed the two checks of `boot_alloc` before
  have htotal : ¬ PGSIZE * BitVec.ofNat 32 npages ≤ nextfree - KERNBASE := fun hle => by
    rw [if_pos hle] at hroom
    cases hroom
  rw [if_neg htotal] at hroom ⊢
  have hnum : ¬ npages ≤ (pgnum (nextfree - KERNBASE)).toNat := fun hle => by
    rw [if_pos hle] at hroom
    cases hroom
  rw [if_neg hnum, hback]
  have hpages : (PGSIZE * BitVec.ofNat 32 npages).toNat = npages % 2 ^ 20 * 4096 := by
    have hsize : PGSIZE.toNat = 4096 := rfl
    rw [BitVec.toNat_mul, hsize, BitVec.toNat_ofNat]
    omega
  rw [BitVec.le_def, hpages, hpa] at htotal
  refine ⟨rfl, rfl, ?_, ?_⟩
  · rw [bootEnd, toNat_pgnum, hpa]
    omega
  · rw [bootEnd, toNat_pgnum, hpa]
    omega

/-- The frames that the loop puts on the list, where `b` is the end of what is in use. -/
def LoopFree (b i : ℕ) : Prop := 1 ≤ i ∧ i ≠ 7 ∧ (i < 160 ∨ b ≤ i)

instance (b i : ℕ) : Decidable (LoopFree b i) := inferInstanceAs (Decidable (_ ∧ _))

/-- One iteration puts a frame on the list, or only clears its link. -/
theorem pageInitStep_eq (h : HighWaterMark npages nextfree) {st : BootPages}
    (hst : st.nextfree = nextfree) (i : ℕ) : pageInitStep npages st i =
      some (if LoopFree (bootEnd nextfree) i then (st.setLink i none).push i
        else st.setLink i none) := by
  obtain ⟨halloc, hpaddr, hend, -⟩ := bootAlloc_mark h
  have hentry : (pgnum MPENTRY_PADDR).toNat = 7 := rfl
  have hhole : (pgnum IOPHYSMEM).toNat = 160 := rfl
  have hextended : (pgnum EXTPHYSMEM).toNat = 256 := rfl
  have hfree : LoopFree (bootEnd nextfree) i ↔ 1 ≤ i ∧ i ≠ 7 ∧ (i < 160 ∨ bootEnd nextfree ≤ i) :=
    Iff.rfl
  unfold pageInitStep
  dsimp only
  rw [hentry, hhole, hextended]
  by_cases hzero : i = 0
  · rw [if_pos hzero, if_neg fun hin => by have := hfree.mp hin; omega]
  rw [if_neg hzero]
  by_cases hseven : 7 = i
  · rw [if_pos hseven, if_neg fun hin => by have := hfree.mp hin; omega]
  rw [if_neg hseven]
  by_cases hio : 160 ≤ i ∧ i < 256
  · rw [if_pos hio, if_neg fun hin => by have := hfree.mp hin; omega]
  rw [if_neg hio]
  by_cases hext : 256 ≤ i
  · have hsame : (st.setLink i none).nextfree = nextfree := hst
    rw [if_pos hext, hsame, halloc, Option.bind_eq_bind, Option.bind_some, hpaddr,
      Option.bind_eq_bind, Option.bind_some]
    have hkeep : { st.setLink i none with nextfree := nextfree } = st.setLink i none := by
      rw [← hsame]
    rw [hkeep]
    by_cases hused : i < bootEnd nextfree
    · have hnot : ¬ LoopFree (bootEnd nextfree) i := fun hin => by
        have hin' := hfree.mp hin
        omega
      rw [if_neg hnot]
      exact if_pos hused
    · rw [if_pos (hfree.mpr (by omega))]
      exact if_neg hused
  · rw [if_neg hext, if_pos (hfree.mpr (by omega))]

/-- The list of free frames, as the loop has built it from the frames below `n`. -/
def loopList (b n : ℕ) : List ℕ := ((List.range n).filter fun i => LoopFree b i).reverse

theorem mem_loopList : i ∈ loopList b n ↔ i < n ∧ LoopFree b i := by
  rw [loopList, List.mem_reverse, List.mem_filter, List.mem_range, decide_eq_true_iff]

theorem pageInit_loop (h : HighWaterMark npages nextfree) (st : BootPages)
    (hst : st.nextfree = nextfree) (hnone : st.pageFreeList = none) (n : ℕ) :
    ∃ st', (List.range n).foldlM (pageInitStep npages) st = some st' ∧ st'.nextfree = nextfree ∧
      Chain st'.ppLink st'.pageFreeList (loopList (bootEnd nextfree) n) := by
  induction n with
  | zero => exact ⟨st, rfl, hst, hnone ▸ .nil⟩
  | succ n ih =>
      obtain ⟨st₁, hloop, hst₁, hchain⟩ := ih
      have hnew : n ∉ loopList (bootEnd nextfree) n := fun hn => (mem_loopList.mp hn).1.ne rfl
      have hclear : Chain (st₁.setLink n none).ppLink st₁.pageFreeList
          (loopList (bootEnd nextfree) n) := hchain.update hnew none
      have hlist : loopList (bootEnd nextfree) (n + 1) =
          if LoopFree (bootEnd nextfree) n then n :: loopList (bootEnd nextfree) n
          else loopList (bootEnd nextfree) n := by
        unfold loopList
        rw [List.range_succ, List.filter_append, List.reverse_append]
        by_cases hfree : LoopFree (bootEnd nextfree) n <;> simp [hfree]
      have hstep := pageInitStep_eq h hst₁ n
      rw [List.range_succ, List.foldlM_append, hloop, hlist]
      by_cases hfree : LoopFree (bootEnd nextfree) n
      · rw [if_pos hfree] at hstep ⊢
        refine ⟨(st₁.setLink n none).push n, ?_, hst₁, hclear.push hnew⟩
        simp [hstep]
      · rw [if_neg hfree] at hstep ⊢
        refine ⟨st₁.setLink n none, ?_, hst₁, hclear⟩
        simp [hstep]

/-! ## When the list is the documented one -/

theorem addressable_iff (hi : i < 2 ^ 20) : Addressable i ↔ i < 2 ^ 16 := by
  have hkern : KERNBASE.toNat = 0xf0000000 := rfl
  have hpa : (BitVec.ofNat 32 i <<< 12).toNat = i * 4096 := by
    rw [BitVec.toNat_shiftLeft, BitVec.toNat_ofNat, Nat.shiftLeft_eq]
    omega
  unfold Addressable
  rw [hpa, hkern]
  omega

/-- The loop and the comment agree exactly when base memory ends where the IO hole begins. -/
theorem loopFree_eq_documented_iff {size : MemorySize} (h : HighWaterMark size.npages nextfree) :
    (∀ i, (i < size.npages ∧ LoopFree (bootEnd nextfree) i) ↔ DocumentedFree size nextfree i) ↔
      size.npagesBasemem = 160 := by
  obtain ⟨-, -, hend, hlt⟩ := bootAlloc_mark h
  have hpages : bootEnd nextfree < size.npages := hlt.trans_le (Nat.mod_le _ _)
  have hentry : (pgnum MPENTRY_PADDR).toNat = 7 := rfl
  unfold LoopFree DocumentedFree
  rw [hentry]
  constructor
  · intro hall
    have hlast := (hall 159).mp (by omega)
    have hhole := (hall 160).mpr
    omega
  · intro hbase i
    omega

theorem wellInitialised_iff {size : MemorySize} (h : HighWaterMark size.npages nextfree)
    {st : BootPages}
    (hchain : Chain st.ppLink st.pageFreeList (loopList (bootEnd nextfree) size.npages)) :
    WellInitialised size nextfree st ↔ size.npagesBasemem = 160 ∧ size.npages ≤ 2 ^ 16 := by
  obtain ⟨-, -, hend, hlt⟩ := bootAlloc_mark h
  have hpages : bootEnd nextfree < size.npages := hlt.trans_le (Nat.mod_le _ _)
  have hdoc := loopFree_eq_documented_iff h
  constructor
  · rintro ⟨l, hl, -, hall, haddr⟩
    obtain rfl := hl.unique hchain
    refine ⟨hdoc.mp fun i => mem_loopList.symm.trans (hall i), ?_⟩
    by_contra hbig
    -- the last frame, or the last that a physical address can name
    have hmem : min size.npages (2 ^ 20) - 1 ∈ loopList (bootEnd nextfree) size.npages := by
      rw [mem_loopList]
      refine ⟨by omega, ?_, ?_, .inr ?_⟩ <;> omega
    have hsmall := (addressable_iff (by omega)).mp (haddr _ hmem)
    omega
  · rintro ⟨hbase, hsmall⟩
    refine ⟨_, hchain, ?_, fun i => mem_loopList.trans (hdoc.mpr hbase i), fun i hi => ?_⟩
    · exact List.nodup_reverse.mpr (List.nodup_range.filter _)
    · have hlt := (mem_loopList.mp hi).1
      exact (addressable_iff (by omega)).mpr (by omega)

/-- For every memory size and every place that `boot_alloc` may have come to: `page_init` builds the
documented list of frames that can be addressed, exactly when base memory ends where the IO hole
begins and there are no more than 256MB. -/
theorem page_init_documented_iff {size : MemorySize} (h : HighWaterMark size.npages nextfree) :
    ∃ st, pageInit size.npages nextfree = some st ∧
      (WellInitialised size nextfree st ↔ size.npagesBasemem = 160 ∧ size.npages ≤ 2 ^ 16) := by
  obtain ⟨st, hloop, -, hchain⟩ := pageInit_loop h
    ⟨fun _ => none, fun _ => 0, none, nextfree⟩ rfl rfl size.npages
  exact ⟨st, hloop, wellInitialised_iff h hchain⟩

/-- A machine with 128MB, with this much base memory (in KB). -/
def cmos128 (base : BitVec 16) : Nvram := { base := base, ext := 15360, ext16 := 1792 }

theorem highWaterMark_cmos128 (base : BitVec 16) :
    HighWaterMark (i386DetectMemory (cmos128 base)).npages 0xf0300000 := by
  have hpages : (i386DetectMemory (cmos128 base)).npages = 32768 := by
    simp [i386DetectMemory, cmos128]
  rw [hpages]
  exact ⟨by decide, by decide, by decide⟩

theorem page_init_documented_640K :
    ∃ st, pageInit (i386DetectMemory (cmos128 640)).npages 0xf0300000 = some st ∧
      WellInitialised (i386DetectMemory (cmos128 640)) 0xf0300000 st := by
  obtain ⟨st, hinit, hiff⟩ := page_init_documented_iff (highWaterMark_cmos128 640)
  exact ⟨st, hinit, hiff.mpr ⟨by decide, by decide⟩⟩

/-- With 639K of base memory, the page that holds the last 3K is on the list, though it is not
all there. -/
theorem last_base_page_listed : ∃ (r : Nvram) (nextfree : Word) (st : BootPages),
    HighWaterMark (i386DetectMemory r).npages nextfree ∧
      pageInit (i386DetectMemory r).npages nextfree = some st ∧
      (∃ l, Chain st.ppLink st.pageFreeList l ∧ 159 ∈ l) ∧
      ¬ DocumentedFree (i386DetectMemory r) nextfree 159 ∧
      ¬ WellInitialised (i386DetectMemory r) nextfree st := by
  have hmark := highWaterMark_cmos128 639
  obtain ⟨st, hloop, -, hchain⟩ := pageInit_loop hmark
    ⟨fun _ => none, fun _ => 0, none, 0xf0300000⟩ rfl rfl
    (i386DetectMemory (cmos128 639)).npages
  refine ⟨cmos128 639, 0xf0300000, st, hmark, hloop, ⟨_, hchain, ?_⟩, ?_, fun hwell => ?_⟩
  · exact mem_loopList.mpr ⟨by decide, by decide⟩
  · have hbase : (i386DetectMemory (cmos128 639)).npagesBasemem = 159 := rfl
    have hend : bootEnd 0xf0300000 = 768 := rfl
    unfold DocumentedFree
    rw [hbase, hend]
    omega
  · exact absurd ((wellInitialised_iff hmark hchain).mp hwell).1 (by decide)

end JosSched
