import JosSched.Kern.State

/-!
# Physical pages and page tables

The page allocator and the two-level page tables of `kern/pmap.c`.  A page directory is named
by its frame; `KADDR` and `pa2page` panic on a frame the machine does not have.
-/

namespace JosSched

/-- `KADDR(pa)`, for the frame of `pa`. -/
def kaddr (m : Mem) (pp : Ppn) : Except Panic Unit :=
  if m.npages ≤ pp.toNat then .error .kaddr else .ok ()

def pa2page (m : Mem) (pa : Word) : Except Panic Ppn :=
  if m.npages ≤ (pgnum pa).toNat then .error .pa2page else .ok (pgnum pa)

/-- `page_alloc`: `none` is the `NULL` it returns when memory is exhausted. -/
def pageAlloc (m : Mem) (zero : Bool) : Except Panic (Option Ppn × Mem) :=
  match m.pageFreeList with
  | none => .ok (none, m)
  | some freePage => do
      let m := { m with pageFreeList := (m.pages freePage).ppLink }
      let m := m.setLink freePage none
      if zero then
        kaddr m freePage
        return (some freePage, m.fill freePage fun _ => 0)
      else return (some freePage, m)

def pageFree (m : Mem) (pp : Ppn) : Except Panic Mem :=
  if m.ref pp ≠ 0 then .error .pageFreeRef
  else if ((m.pages pp).ppLink).isSome then .error .pageFreeLink
  else
    let m := m.setLink pp m.pageFreeList
    .ok { m with pageFreeList := some pp }

def pageDecref (m : Mem) (pp : Ppn) : Except Panic Mem :=
  let m := m.setRef pp (m.ref pp - 1)
  if m.ref pp = 0 then pageFree m pp else .ok m

/-- The part of `pgdir_walk` that creates a missing page table. -/
def pgdirCreate (m : Mem) (pgdir : Ppn) (va : Word) : Except Panic Mem := do
  let (page, m) ← pageAlloc m true
  match page with
  | none => return m
  | some page =>
      let m := m.setRef page (m.ref page + 1)
      return m.store (pgdir, pdx va) (page2pa page ||| PTE_P ||| PTE_W ||| PTE_U)

/-- The part of `pgdir_walk` that follows the page directory entry. -/
def pgdirEntry (m : Mem) (pgdir : Ppn) (va : Word) : Except Panic (Option PteRef) :=
  let pde := m.load (pgdir, pdx va)
  if pde ≠ 0 then (kaddr m (pgnum pde)).map fun _ => some (pgnum pde, ptx va)
  else .ok none

def pgdirWalk (m : Mem) (pgdir : Ppn) (va : Word) (create : Bool) :
    Except Panic (Option PteRef × Mem) := do
  let m ← (if m.load (pgdir, pdx va) = 0 ∧ create then pgdirCreate m pgdir va else .ok m)
  let pte ← pgdirEntry m pgdir va
  return (pte, m)

/-- `page_lookup`: the page and the address of its entry.  When it finds nothing it stores
nothing through `pte_store`. -/
def pageLookup (m : Mem) (pgdir : Ppn) (va : Word) : Except Panic (Option (Ppn × PteRef)) := do
  let (pte, m) ← pgdirWalk m pgdir va false
  match pte with
  | none => return none
  | some pte =>
      -- the source tests `*pte && PTE_P`, which holds of every nonzero entry
      if m.load pte = 0 then return none
      else
        let page ← pa2page m (m.load pte)
        return some (page, pte)

def pageRemove (m : Mem) (pgdir : Ppn) (va : Word) : Except Panic Mem := do
  match ← pageLookup m pgdir va with
  | none => return m
  | some (pageRmv, pte) =>
      let m ← pageDecref m pageRmv
      return m.store pte 0

/-- `page_insert`: `0`, or `-E_NO_MEM` when no page table could be allocated. -/
def pageInsert (m : Mem) (pgdir : Ppn) (pp : Ppn) (va : Word) (perm : Word) :
    Except Panic (ℤ × Mem) := do
  let (pageTable, m) ← pgdirWalk m pgdir va true
  match pageTable with
  | none => return (-E_NO_MEM, m)
  | some pageTable =>
      let m := m.setRef pp (m.ref pp + 1)
      let m ← pageRemove m pgdir va
      return (0, m.store pageTable (page2pa pp ||| perm ||| PTE_P))

/-! ## Checking user memory -/

/-- The pages of `[va_lo, va_hi)` still to be tested by `user_mem_check`, starting at
`va_act`; `fuel` counts the pages of the address space. -/
def userMemCheckFrom (m : Mem) (pgdir : Ppn) (perm vaHi : Word) : ℕ → Word → Except Panic ℤ
  | 0, _ => .ok 0
  | fuel + 1, vaAct =>
      if vaAct < vaHi then do
        let (pte, m) ← pgdirWalk m pgdir vaAct false
        match pte with
        | none => return -E_FAULT
        | some pte =>
            if m.load pte &&& (perm ||| PTE_P) ≠ perm ||| PTE_P then return -E_FAULT
            else userMemCheckFrom m pgdir perm vaHi fuel (vaAct + PGSIZE)
      else .ok 0

def userMemCheck (m : Mem) (pgdir : Ppn) (va len perm : Word) : Except Panic ℤ :=
  let vaHi := roundup (va + len)
  if UTOP < vaHi then .ok (-E_FAULT)
  else userMemCheckFrom m pgdir perm vaHi (2 ^ 20) (rounddown va)

/-! ## Accesses through a page directory -/

/-- The MMU's two-level translation of `va`: the frame and the flags both levels grant. -/
def mmu (m : Mem) (pgdir : Ppn) (va : Word) : Option (Ppn × Word) :=
  let pde := m.load (pgdir, pdx va)
  if pde &&& PTE_P = 0 then none
  else
    let pte := m.load (pgnum pde, ptx va)
    if pte &&& PTE_P = 0 then none else some (pgnum pte, pde &&& pte)

/-- Replaces byte `va % 4` of a word. -/
def setByte (w : Word) (va : Word) (b : BitVec 8) : Word :=
  let shift := 8 * (va % 4).toNat
  (w &&& ~~~((0xff : Word) <<< shift)) ||| (b.zeroExtend 32 <<< shift)

/-- Index of the word of a frame that holds the byte at `va`. -/
def wordIdx (va : Word) : Idx := (va.extractLsb' 2 10).toFin

/-- Stores a byte at `va`, if the translation grants `perm` (a user store needs `PTE_U` and
`PTE_W`; the kernel, which runs with `CR0_WP`, needs `PTE_W`). -/
def storeByte (m : Mem) (pgdir : Ppn) (perm va : Word) (b : BitVec 8) : Option Mem :=
  match mmu m pgdir va with
  | some (pp, flags) =>
      if flags &&& perm = perm then
        some (m.store (pp, wordIdx va) (setByte (m.load (pp, wordIdx va)) va b))
      else none
  | none => none

/-- Kernel stores of consecutive bytes; a page fault in the kernel is a panic. -/
def kernStore (m : Mem) (pgdir : Ppn) (va : Word) : List (BitVec 8) → Except Panic Mem
  | [] => .ok m
  | b :: rest =>
      match storeByte m pgdir PTE_W va b with
      | none => .error .kernelPageFault
      | some m => kernStore m pgdir (va + 1) rest

end JosSched
