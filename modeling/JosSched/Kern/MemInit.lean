import JosSched.Kern.PageInit
import JosSched.Kern.Pmap
import JosSched.Lib.Split

/-!
# Setting up memory

`mem_init` of `kern/pmap.c`: the arrays that `boot_alloc` provides, the page directory of the
kernel with the mappings above `UTOP`, and then, from `i386_init`, the table of environments and a
window for the registers of the local APIC of each CPU.  A panic or a fault before there are
handlers is `none`.

Until `mem_init` loads the new page directory the kernel runs on `entry_pgdir`, which maps the
first 4MB only.  That is why `check_page_free_list` first moves the low pages to the front of the
free list: the page tables come from there.
-/

namespace JosSched

/-! ## The layout above `UTOP` (`inc/memlayout.h`) -/

/-- `PTSIZE`: the bytes that one page directory entry maps. -/
def PTSIZE : Word := 0x400000

def KSTACKTOP : Word := KERNBASE
def KSTKSIZE : Word := 8 * PGSIZE
def KSTKGAP : Word := 8 * PGSIZE
def MMIOLIM : Word := KSTACKTOP - PTSIZE
def MMIOBASE : Word := MMIOLIM - PTSIZE
def UPAGES : Word := UVPT - PTSIZE
def UENVS : Word := UPAGES - PTSIZE

example : UENVS = UTOP := by decide

/-- `npages * sizeof(struct PageInfo)`. -/
def pagesSize (npages : ℕ) : Word := BitVec.ofNat 32 npages * 8

/-- `NENV * sizeof(struct Env)`. -/
def envsSize : Word := 1024 * 136

/-! ## The arrays -/

/-- Addresses that the linker has chosen: the end of the kernel, and the stacks of the CPUs. -/
structure LinkedKernel where
  kernelEnd : Word
  percpuKstacks : Word

/-- What `boot_alloc` has given `mem_init`, and where it has come to. -/
structure BootArrays where
  kernPgdir : Word
  pages : Word
  envs : Word
  nextfree : Word

/-- The frames that `entry_pgdir` maps at `KERNBASE`. -/
def entryFrames : ℕ := 1024

/-- The frames that `kern_pgdir` maps at `KERNBASE`. -/
def kernFrames : ℕ := 2 ^ 16

/-- `memset` of an array that ends at `last`, while `entry_pgdir` is loaded. -/
def entryMemset (last : Word) : Option Unit :=
  if KERNBASE + PTSIZE < last then none else some ()

def bootArrays (npages : ℕ) (image : LinkedKernel) : Option BootArrays := do
  let (kernPgdir, nextfree) ← bootAlloc npages (roundup image.kernelEnd) PGSIZE
  entryMemset nextfree
  let (pages, nextfree) ← bootAlloc npages nextfree (pagesSize npages)
  entryMemset nextfree
  let (envs, nextfree) ← bootAlloc npages nextfree envsSize
  entryMemset nextfree
  return { kernPgdir, pages, envs, nextfree }

/-! ## The free list -/

/-- The pages of `page_init` as part of a memory with these contents. -/
def BootPages.mem (st : BootPages) (npages : ℕ) (phys : Ppn → Idx → Word) (kernPgdir : Ppn) :
    Mem where
  npages := npages
  pages pp :=
    { ppLink := (st.ppLink pp.toNat).map (BitVec.ofNat 20), ppRef := st.ppRef pp.toNat }
  pageFreeList := st.pageFreeList.map (BitVec.ofNat 20)
  phys := phys
  kernPgdir := kernPgdir

/-- `PDX(page2pa(pp)) < pdx_limit`, where only low memory is wanted. -/
def isLow (pp : Ppn) : Bool := decide ((pdx (page2pa pp)).val < 1)

/-- The start of `check_page_free_list(1)`: "Move pages with lower addresses first in the free
list, since entry_pgdir does not map all pages." -/
def lowFirst (m : Mem) : Mem :=
  let (head, next) := splitChain isLow (2 ^ 20) m.pageFreeList fun pp => (m.pages pp).ppLink
  { m with pages := fun pp => { m.pages pp with ppLink := next pp }, pageFreeList := head }

/-- What the tests of the page allocator leave behind when they pass (`check_page_free_list`,
`check_page_alloc`, `check_page` up to `mmio_map_region`, `check_page_installed_pgdir`): they have
written to free pages, taken the first three, and given them back in some order. -/
structure TestsPassed (m m' : Mem) : Prop where
  npages : m'.npages = m.npages
  kernPgdir : m'.kernPgdir = m.kernPgdir
  ref : ∀ pp, m'.ref pp = m.ref pp
  taken : ∃ taken taken' rest,
    Chain (fun pp => (m.pages pp).ppLink) m.pageFreeList (taken ++ rest) ∧
    taken.length = 3 ∧ taken'.Perm taken ∧
    Chain (fun pp => (m'.pages pp).ppLink) m'.pageFreeList (taken' ++ rest) ∧
    ∀ q, q ∉ taken ++ rest →
      (m'.pages q).ppLink = (m.pages q).ppLink ∧ ∀ k, m'.load (q, k) = m.load (q, k)

/-- The first half of `mem_init`, in a machine with these contents of memory, up to
`check_page_alloc`: the arrays, an empty page directory that maps itself at `UVPT`, and the list of
free pages. -/
def bootMemory (r : Nvram) (image : LinkedKernel) (phys : Ppn → Idx → Word) :
    Option (BootArrays × Mem) := do
  let npages := (i386DetectMemory r).npages
  let a ← bootArrays npages image
  let pa ← paddr a.kernPgdir
  let st ← pageInit npages a.nextfree
  let m := (st.mem npages phys (pgnum pa)).fill (pgnum pa) fun _ => 0
  return (a, lowFirst (m.store (m.kernPgdir, pdxUvpt) (pa ||| PTE_U ||| PTE_P)))

/-! ## Mappings of the kernel -/

/-- One page of the loop of `boot_map_region`, where the kernel can reach the first `top` frames of
memory.  Without a page table the entry would be written through a null pointer. -/
def bootMapPage (top : ℕ) (m : Mem) (pgdir : Ppn) (va pa perm : Word) : Option Mem := do
  let (pte, m) ← (pgdirWalk m pgdir va true).toOption
  let m ← (pageRemove m pgdir va).toOption
  let pte ← pte
  if top ≤ pte.1.toNat then none else some (m.store pte (pa ||| perm ||| PTE_P))

/-- The loop of `boot_map_region` from offset `i` on; `fuel` counts the pages of the address
space. -/
def bootMapFrom (top : ℕ) (pgdir : Ppn) (va size pa perm : Word) : ℕ → Word → Mem → Option Mem
  | 0, _, m => some m
  | fuel + 1, i, m =>
      if i < size then do
        let m ← bootMapPage top m pgdir (va + i) (pa + i) perm
        bootMapFrom top pgdir va size pa perm fuel (i + PGSIZE) m
      else some m

/-- `boot_map_region`, without `TP1_PSE`. -/
def bootMapRegion (top : ℕ) (m : Mem) (pgdir : Ppn) (va size pa perm : Word) : Option Mem :=
  bootMapFrom top pgdir va size pa perm (2 ^ 20) 0 m

/-- The stack of CPU `i`. -/
def mapKstack (image : LinkedKernel) (m : Mem) (i : ℕ) : Option Mem := do
  let stackStart := KSTACKTOP - BitVec.ofNat 32 i * (KSTKSIZE + KSTKGAP) - KSTKSIZE
  let pa ← paddr (image.percpuKstacks + BitVec.ofNat 32 i * KSTKSIZE)
  bootMapRegion entryFrames m m.kernPgdir stackStart KSTKSIZE pa (PTE_W ||| PTE_P)

/-- `mem_init_mp`: the stack of each CPU, with a gap below it. -/
def memInitMp (image : LinkedKernel) (m : Mem) : Option Mem :=
  (List.range NCPU).foldlM (mapKstack image) m

/-- The mappings of `mem_init`. -/
def mapKernel (a : BootArrays) (image : LinkedKernel) (m : Mem) : Option Mem := do
  let pagesPa ← paddr a.pages
  let envsPa ← paddr a.envs
  let m ← bootMapRegion entryFrames m m.kernPgdir UPAGES (roundup (pagesSize m.npages)) pagesPa
    (PTE_U ||| PTE_P)
  let m ← bootMapRegion entryFrames m m.kernPgdir UENVS (roundup envsSize) envsPa (PTE_U ||| PTE_P)
  let m ← bootMapRegion entryFrames m m.kernPgdir KERNBASE ((1 : Word) <<< 28) 0 (PTE_W ||| PTE_P)
  memInitMp image m

/-- `mmio_map_region`, with its static `base` as part of the state: the address of the region. -/
def mmioMapRegion (top : ℕ) (st : Mem × Word) (pa size : Word) : Option (Word × (Mem × Word)) := do
  let (m, base) := st
  let pa := rounddown pa
  let size := roundup size
  if MMIOLIM ≤ base + size then none
  else
    let m ← bootMapRegion top m m.kernPgdir base size pa (PTE_W ||| PTE_P ||| PTE_PCD ||| PTE_PWT)
    let base := base + size
    return (base - size, (m, base))

/-- `*pgdir_walk(pgdir, va, 0) = 0`. -/
def clearEntry (m : Mem) (va : Word) : Option Mem := do
  let (pte, m) ← (pgdirWalk m m.kernPgdir va false).toOption
  return m.store (← pte) 0

/-- What `check_page` leaves behind: two regions have been reserved, and their entries are empty
again. -/
def checkMmio (m : Mem) : Option (Mem × Word) := do
  let (mm1, st) ← mmioMapRegion entryFrames (m, MMIOBASE) 0 4097
  let (mm2, (m, base)) ← mmioMapRegion entryFrames st 0 4096
  let m ← clearEntry m mm1
  let m ← clearEntry m (mm1 + PGSIZE)
  let m ← clearEntry m mm2
  return (m, base)

/-! ## `check_kern_pgdir` -/

/-- `assert`. -/
def kernAssert (p : Prop) [Decidable p] : Option Unit := if p then some () else none

def PTE_PS : Word := 0x080

/-- `check_va2pa`: the page of `va`, or `~0`. -/
def checkVa2pa (m : Mem) (pgdir : Ppn) (va : Word) : Option Word :=
  let pde := m.load (pgdir, pdx va)
  if pde &&& PTE_P = 0 then some (~~~0)
  else if pde &&& PTE_PS ≠ 0 then some (pgaddr (pdx pde) (ptx va) ||| pgoff va)
  else do
    (kaddr m (pgnum pde)).toOption
    let pte := m.load (pgnum pde, ptx va)
    if pte &&& PTE_P = 0 then some (~~~0) else some (page2pa (pgnum pte))

/-- One of the loops over `n` pages from `va` on, where `pa i` is what to expect at offset `i`. -/
def checkPages (m : Mem) (va : Word) (n : ℕ) (pa : Word → Word) : Option Unit :=
  (List.range n).forM fun i => do
    let i := BitVec.ofNat 32 (i * 4096)
    let pa' ← checkVa2pa m m.kernPgdir (va + i)
    kernAssert (pa' = pa i)

/-- The stack of CPU `n`, and the gap below it. -/
def checkKstack (image : LinkedKernel) (m : Mem) (n : ℕ) : Option Unit := do
  let base := KSTACKTOP - (KSTKSIZE + KSTKGAP) * BitVec.ofNat 32 (n + 1)
  let pa ← paddr (image.percpuKstacks + BitVec.ofNat 32 n * KSTKSIZE)
  checkPages m (base + KSTKGAP) 8 (pa + ·)
  checkPages m base 8 fun _ => ~~~0

/-- The permissions that an entry of the page directory must have. -/
def checkPde (m : Mem) (i : Idx) : Option Unit :=
  let pde := m.load (m.kernPgdir, i)
  if i = pdxUvpt ∨ i = pdx (KSTACKTOP - 1) ∨ i = pdx UPAGES ∨ i = pdx UENVS ∨ i = pdx MMIOBASE then
    kernAssert (pde &&& PTE_P ≠ 0)
  else if pdx KERNBASE ≤ i then do
    kernAssert (pde &&& PTE_P ≠ 0)
    kernAssert (pde &&& PTE_W ≠ 0)
  else kernAssert (pde = 0)

def checkPdes (m : Mem) : Option Unit := (List.finRange 1024).forM (checkPde m)

def checkKernPgdir (a : BootArrays) (image : LinkedKernel) (m : Mem) : Option Unit := do
  let pagesPa ← paddr a.pages
  checkPages m UPAGES ((roundup (pagesSize m.npages)).toNat / 4096) (pagesPa + ·)
  let envsPa ← paddr a.envs
  checkPages m UENVS ((roundup envsSize).toNat / 4096) (envsPa + ·)
  checkPages m KERNBASE m.npages id
  (List.range NCPU).forM (checkKstack image m)
  checkPdes m

/-- The second half of `mem_init`, with the end of `check_page`: the memory, and where the next
region of `mmio_map_region` starts. -/
def bootMappings (a : BootArrays) (image : LinkedKernel) (m : Mem) : Option (Mem × Word) := do
  let (m, base) ← checkMmio m
  let m ← mapKernel a image m
  checkKernPgdir a image m
  return (m, base)

/-! ## The rest of `i386_init` -/

/-- What `env_init` makes of the cleared array. -/
def envInit (envs : Slot → Env) : Slot → Env := fun i => { envs i with
  envId := 0
  envStatus := .free
  envLink := if h : i.val + 1 < NENV then some ⟨i.val + 1, h⟩ else none }

/-- The mapping that `lapic_init` makes on each CPU, for the address in the MP tables. -/
def lapicInit (lapicaddr : Word) (st : Mem × Word) : Option (Mem × Word) :=
  if lapicaddr = 0 then some st
  else (mmioMapRegion kernFrames st lapicaddr 4096).map Prod.snd

/-- `i386_init` after `mem_init`, and `mp_main` of the other processors, up to the first
`ENV_CREATE`, on a machine with `ncpu` CPUs. -/
def bootKernel (policy : Policy) (lapicaddr : Word) (ncpu : ℕ) (st : Mem × Word) :
    Option Kernel := do
  let (m, _) ← (List.range ncpu).foldlM (fun st _ => lapicInit lapicaddr st) st
  return {
    policy
    mem := m
    envs := envInit fun _ => {}
    envFreeList := some 0
    cpus := fun _ => { cpuCr3 := m.kernPgdir } }

end JosSched
