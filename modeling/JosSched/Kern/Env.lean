import JosSched.Kern.Sched

/-!
# Creating and destroying environments

`kern/env.c` without `env_run`, and `user_mem_assert` of `kern/pmap.c`, which destroys.
-/

namespace JosSched

/-- `envid2env`: the slot, or `-E_BAD_ENV`.  `env_store` receives `curenv` for id `0`.  The system
calls have a `curenv`; without one, what the source would read through a null pointer is an error
here. -/
def envid2env (c : Cpu) (s : Kernel) (envid : Word) (checkperm : Bool) : Except ℤ Slot :=
  if envid = 0 then
    match s.curenv c with
    | some cur => .ok cur
    | none => .error (-E_BAD_ENV)
  else
    let e := envx envid
    if (s.envs e).envStatus = .free ∨ (s.envs e).envId ≠ envid then .error (-E_BAD_ENV)
    else
      match s.curenv c with
      | some cur =>
          if checkperm ∧ e ≠ cur ∧ (s.envs e).envParentId ≠ (s.envs cur).envId then
            .error (-E_BAD_ENV)
          else .ok e
      | none => if checkperm then .error (-E_BAD_ENV) else .ok e

/-- The page directory of an environment that must have one. -/
def envPgdirOf (s : Kernel) (e : Slot) : Except Exit Ppn :=
  match (s.envs e).envPgdir with
  | some pgdir => .ok pgdir
  | none => .error (.stuck .paddr s)

/-! ## Allocation -/

/-- `env_setup_vm`: a page directory that copies the kernel's and maps itself at `UVPT`. -/
def envSetupVm (s : Kernel) (e : Slot) : Except Exit (ℤ × Kernel) := do
  let (page, s) ← s.withMem (pageAlloc s.mem true)
  match page with
  | none => return (-E_NO_MEM, s)
  | some p =>
      let m := s.mem
      let m := m.fill p (m.phys m.kernPgdir)
      let m := m.setRef p (m.ref p + 1)
      let m := m.store (p, pdxUvpt) (page2pa p ||| PTE_P ||| PTE_U)
      return (0, (s.modEnv e fun env => { env with envPgdir := some p }).setMem m)

/-- The id `env_alloc` issues for slot `e`, whose previous id was `old`. -/
def nextEnvId (e : Slot) (old : Word) : Word :=
  let generation : Word := (old + (1 : Word) <<< 12) &&& ~~~(1023 : Word)
  let generation := if generation.toInt ≤ 0 then (1 : Word) <<< 12 else generation
  generation ||| BitVec.ofNat 32 e

/-- The fields `env_alloc` initialises; `env_ipc_dstva` and the rest of the IPC fields are
not among them. -/
def initEnv (e : Slot) (parentId : Word) (env : Env) : Env :=
  { env with
    envId := nextEnvId e env.envId
    envParentId := parentId
    envType := .user
    envStatus := .runnable
    envRuns := 0
    envTf := { tfDs := GD_UD ||| 3, tfEs := GD_UD ||| 3, tfSs := GD_UD ||| 3, tfEsp := USTACKTOP,
               tfCs := GD_UT ||| 3, tfEflags := FL_IF }
    envPgfaultUpcall := 0
    envIpcRecving := false
    envSleepUntil := 0
    envPriority := ENV_PRIORITY_DEFAULT
    envWaitTicks := 0 }

def envAlloc (s : Kernel) (parentId : Word) : Except Exit (Except ℤ Slot × Kernel) := do
  match s.envFreeList with
  | none => return (.error (-E_NO_FREE_ENV), s)
  | some e =>
      let (r, s) ← envSetupVm s e
      if r < 0 then return (.error r, s)
      else
        let s := s.modEnv e (initEnv e parentId)
        return (.ok e, s.setFreeList (s.envs e).envLink)

/-! ## Destruction -/

/-- Returns a slot to the free list. -/
def pushFree (s : Kernel) (e : Slot) : Kernel :=
  let s := s.modEnv e fun env => { env with envStatus := .free, envLink := s.envFreeList }
  s.setFreeList (some e)

/-- Drops the reference `e` holds on its page directory. -/
def dropPgdir (s : Kernel) (e : Slot) (pgdir : Ppn) : Except Exit Kernel := do
  let s := s.modEnv e fun env => { env with envPgdir := none }
  let (_, s) ← s.withMem ((pageDecref s.mem pgdir).map fun m => ((), m))
  return s

/-- `env_free` on a thread. -/
def envFreeThread (c : Cpu) (s : Kernel) (e : Slot) : Except Exit Kernel := do
  let s := if s.curenv c = some e then s.lcr3 c s.mem.kernPgdir else s
  let pgdir ← envPgdirOf s e
  let s ← dropPgdir s e pgdir
  return pushFree s e

/-- `t` is a thread that `env_free(e)` must take down. -/
def isThreadOf (s : Kernel) (e t : Slot) : Bool :=
  t ≠ e ∧ (s.envs t).envType = .thread ∧ (s.envs t).envStatus ≠ .free ∧
    (s.envs t).envParentId = (s.envs e).envId

/-- `env_destroy` on a thread: `env_free` does not recurse any further. -/
def envDestroyThread (c : Cpu) (s : Kernel) (t : Slot) : Except Exit Kernel :=
  if (s.envs t).envStatus = .running ∧ s.curenv c ≠ some t then
    .ok (s.modEnv t fun env => { env with envStatus := .dying })
  else do
    let s ← envFreeThread c s t
    if s.curenv c = some t then .error (schedYield c (s.setCurenv c none))
    else return s

/-- The sweep of the table at the start of `env_free`. -/
def envFreeThreads (c : Cpu) (s : Kernel) (e : Slot) : Except Exit Kernel :=
  (List.finRange NENV).foldlM
    (fun s t => if isThreadOf s e t then envDestroyThread c s t else .ok s) s

/-- Unmaps the pages of one page table: the inner loop of `env_free`. -/
def unmapTable (m : Mem) (pgdir : Ppn) (pdeno : Idx) (pt : Ppn) : Except Panic Mem :=
  (List.finRange NPTENTRIES).foldlM
    (fun m pteno =>
      if m.load (pt, pteno) &&& PTE_P ≠ 0 then pageRemove m pgdir (pgaddr pdeno pteno)
      else .ok m) m

/-- One iteration of the outer loop of `env_free`. -/
def unmapPde (pgdir : Ppn) (m : Mem) (pdeno : Idx) : Except Panic Mem := do
  let pde := m.load (pgdir, pdeno)
  if pde &&& PTE_P = 0 then return m
  else
    kaddr m (pgnum pde)
    let m ← unmapTable m pgdir pdeno (pgnum pde)
    let m := m.store (pgdir, pdeno) 0
    let pp ← pa2page m pde
    pageDecref m pp

/-- Flushes the user part of an address space. -/
def unmapUser (m : Mem) (pgdir : Ppn) : Except Panic Mem :=
  ((List.finRange NPTENTRIES).filter fun k => k.val < PDX_UTOP).foldlM (unmapPde pgdir) m

/-- `env_free` on a process, once its threads are gone. -/
def envFreeProcess (c : Cpu) (s : Kernel) (e : Slot) : Except Exit Kernel := do
  let s := if s.curenv c = some e then s.lcr3 c s.mem.kernPgdir else s
  let pgdir ← envPgdirOf s e
  let (_, s) ← s.withMem ((unmapUser s.mem pgdir).map fun m => ((), m))
  let s ← dropPgdir s e pgdir
  return pushFree s e

def envFree (c : Cpu) (s : Kernel) (e : Slot) : Except Exit Kernel :=
  if (s.envs e).envType = .thread then envFreeThread c s e
  else do
    let s ← envFreeThreads c s e
    envFreeProcess c s e

def envDestroy (c : Cpu) (s : Kernel) (e : Slot) : Except Exit Kernel :=
  if (s.envs e).envStatus = .running ∧ s.curenv c ≠ some e then
    .ok (s.modEnv e fun env => { env with envStatus := .dying })
  else do
    let s ← envFree c s e
    if s.curenv c = some e then .error (schedYield c (s.setCurenv c none))
    else return s

/-- `user_mem_assert(env, va, len, perm)`. -/
def userMemAssert (c : Cpu) (s : Kernel) (e : Slot) (va len perm : Word) :
    Except Exit Kernel := do
  let pgdir ← envPgdirOf s e
  match userMemCheck s.mem pgdir va len (perm ||| PTE_U) with
  | .error why => .error (.stuck why s)
  | .ok r => if r < 0 then envDestroy c s e else return s

/-! ## The first environments -/

/-- A loadable segment, linked below `UTOP` and with `ph->p_filesz <= ph->p_memsz`. -/
structure Segment where
  va : Word
  memsz : Word
  bytes : List (BitVec 8)
  fits : bytes.length ≤ memsz.toNat
  below : va.toNat + memsz.toNat ≤ UTOP.toNat

/-- What `load_icode` reads from an ELF binary. -/
structure Image where
  segments : List Segment
  entry : Word

/-- The pages of `region_alloc` from `va` on, `n` of them. -/
def regionAllocFrom (m : Mem) (pgdir : Ppn) : ℕ → Word → Except Panic Mem
  | 0, _ => .ok m
  | n + 1, va => do
      let (page, m) ← pageAlloc m false
      match page with
      | none => .error .regionAlloc
      | some p =>
          let (r, m) ← pageInsert m pgdir p va (PTE_U ||| PTE_W)
          if r ≠ 0 then .error .regionAlloc
          else regionAllocFrom m pgdir n (va + PGSIZE)

def regionAlloc (m : Mem) (pgdir : Ppn) (va len : Word) : Except Panic Mem :=
  let vaLo := rounddown va
  let vaHi := roundup (va + len)
  if UTOP < vaHi then .error .regionAlloc
  else regionAllocFrom m pgdir ((vaHi.toNat - vaLo.toNat) / 4096) vaLo

def loadSegment (pgdir : Ppn) (m : Mem) (ph : Segment) : Except Panic Mem := do
  let m ← regionAlloc m pgdir ph.va ph.memsz
  let m ← kernStore m pgdir ph.va (List.replicate ph.memsz.toNat 0)
  kernStore m pgdir ph.va ph.bytes

def loadIcode (m : Mem) (pgdir : Ppn) (binary : Image) : Except Panic Mem := do
  let m ← binary.segments.foldlM (loadSegment pgdir) m
  regionAlloc m pgdir (USTACKTOP - PGSIZE) PGSIZE

/-- `env_create(binary, ENV_TYPE_USER)`, called only while the kernel boots. -/
def envCreate (s : Kernel) (binary : Image) : Except Exit Kernel := do
  let (r, s) ← envAlloc s 0
  match r with
  | .error _ => .error (.stuck .envCreate s)
  | .ok e =>
      let pgdir ← envPgdirOf s e
      let (_, s) ← s.withMem ((loadIcode s.mem pgdir binary).map fun m => ((), m))
      return s.modEnv e fun env => { env with
        envTf := { env.envTf with tfEip := binary.entry }, envType := .user }

end JosSched
