import JosSched.Kern.Env

/-!
# System calls

`kern/syscall.c`.  A call returns an `int` with the new state, or never returns (`.error`).
The caller is `curenv`; the functions take its slot `cur` along with the CPU.
-/

namespace JosSched

/-- What an entry into the kernel reads from outside its own state: the fault address the CPU
reports, the character `cons_getc` returns, and the word an uninitialised pointer happens to
point to (`none` when reading it faults). -/
structure Input where
  cr2 : Word := 0
  getc : Word := 0
  undef : Option Word := none

/-- `check_perm(perm, NULL)`. -/
def checkPerm (perm : Word) : ℤ :=
  if perm &&& ~~~PTE_SYSCALL ≠ 0 then -E_INVAL
  else if perm &&& PTE_P = 0 ∨ perm &&& PTE_U = 0 then -E_INVAL
  else 0

def envPageAlloc (s : Kernel) (env : Slot) (va perm : Word) : Except Exit (ℤ × Kernel) := do
  let err := checkPerm perm
  if err < 0 then return (err, s)
  let (p, s) ← s.withMem (pageAlloc s.mem true)
  match p with
  | none => return (-E_NO_MEM, s)
  | some p =>
      let pgdir ← envPgdirOf s env
      s.withMem (pageInsert s.mem pgdir p va perm)

def envPageMap (s : Kernel) (srcenv : Slot) (srcva : Word) (dstenv : Slot) (dstva perm : Word) :
    Except Exit (ℤ × Kernel) := do
  let srcdir ← envPgdirOf s srcenv
  let (found, s) ← s.withMem ((pageLookup s.mem srcdir srcva).map fun r => (r, s.mem))
  match found with
  | none => return (-E_INVAL, s)
  | some (page, srcpte) =>
      if perm &&& PTE_W &&& ~~~(PTE_W &&& s.mem.load srcpte) ≠ 0 then return (-E_INVAL, s)
      let dstdir ← envPgdirOf s dstenv
      s.withMem (pageInsert s.mem dstdir page dstva perm)

/-! ## The calls -/

def sysCputs (c : Cpu) (s : Kernel) (cur : Slot) (str len : Word) : Except Exit Kernel :=
  userMemAssert c s cur str len (PTE_P ||| PTE_W ||| PTE_U)

def sysGetenvid (s : Kernel) (cur : Slot) : ℤ := (s.envs cur).envId.toInt

def sysEnvDestroy (c : Cpu) (s : Kernel) (envid : Word) : Except Exit (ℤ × Kernel) := do
  match envid2env c s envid true with
  | .error r => return (r, s)
  | .ok e =>
      let s ← envDestroy c s e
      return (0, s)

def sysExofork (s : Kernel) (cur : Slot) : Except Exit (ℤ × Kernel) := do
  let (r, s) ← envAlloc s (s.envs cur).envId
  match r with
  | .error r => return (r, s)
  | .ok newenv =>
      let parent := s.envs cur
      let s := s.modEnv newenv fun env => { env with
        envStatus := .notRunnable
        envTf := parent.envTf.setEax 0
        envPriority := parent.envPriority }
      return ((s.envs newenv).envId.toInt, s)

/-- The values of `status` that `sys_env_set_status` accepts. -/
def settableStatus (status : Word) : Option EnvStatus :=
  if status = 2 then some .runnable else if status = 4 then some .notRunnable else none

def sysEnvSetStatus (c : Cpu) (s : Kernel) (envid status : Word) : ℤ × Kernel :=
  match settableStatus status with
  | none => (-E_INVAL, s)
  | some status =>
      match envid2env c s envid true with
      | .error r => (r, s)
      | .ok env => (0, s.modEnv env fun e => { e with envStatus := status })

def sysEnvSetPgfaultUpcall (c : Cpu) (s : Kernel) (envid func : Word) :
    Except Exit (ℤ × Kernel) := do
  match envid2env c s envid true with
  | .error r => return (r, s)
  | .ok env =>
      let s ← userMemAssert c s env func PGSIZE (PTE_P ||| PTE_U)
      return (0, s.modEnv env fun e => { e with envPgfaultUpcall := func })

def sysPageAlloc (c : Cpu) (s : Kernel) (envid va perm : Word) : Except Exit (ℤ × Kernel) :=
  if UTOP ≤ va ∨ pgoff va ≠ 0 then .ok (-E_INVAL, s)
  else
    match envid2env c s envid true with
    | .error r => .ok (r, s)
    | .ok env => envPageAlloc s env va (perm ||| PTE_U ||| PTE_P)

def sysPageMap (c : Cpu) (s : Kernel) (srcenvid srcva dstenvid dstva perm : Word) :
    Except Exit (ℤ × Kernel) :=
  if UTOP ≤ srcva ∨ pgoff srcva ≠ 0 then .ok (-E_INVAL, s)
  else if UTOP ≤ dstva ∨ pgoff dstva ≠ 0 then .ok (-E_INVAL, s)
  else
    match envid2env c s srcenvid true with
    | .error r => .ok (r, s)
    | .ok srcenv =>
        match envid2env c s dstenvid true with
        | .error r => .ok (r, s)
        | .ok dstenv => envPageMap s srcenv srcva dstenv dstva (PTE_P ||| PTE_U ||| perm)

def sysPageUnmap (c : Cpu) (s : Kernel) (envid va : Word) : Except Exit (ℤ × Kernel) :=
  if UTOP ≤ va ∨ pgoff va ≠ 0 then .ok (-E_INVAL, s)
  else
    match envid2env c s envid true with
    | .error r => .ok (r, s)
    | .ok env => do
        let pgdir ← envPgdirOf s env
        s.withMem ((pageRemove s.mem pgdir va).map fun m => (0, m))

/-- The end of a successful `sys_ipc_try_send` (label `bail`). -/
def ipcDeliver (s : Kernel) (cur dstenv : Slot) (value : Word) : Kernel :=
  s.modEnv dstenv fun dst => { dst with
    envIpcFrom := (s.envs cur).envId
    envIpcRecving := false
    envIpcValue := value
    envTf := dst.envTf.setEax 0
    envStatus := .runnable }

def setIpcPerm (s : Kernel) (dstenv : Slot) (perm : Word) : Kernel :=
  s.modEnv dstenv fun dst => { dst with envIpcPerm := perm }

/-- `*srcpte` after the `page_lookup` of `sys_ipc_try_send`: the entry of `srcva`, or
whatever the uninitialised `srcpte` points to when nothing is mapped there. -/
def readSrcpte (s : Kernel) (inp : Input) (cur : Slot) (srcva : Word) : Except Exit Word := do
  let srcdir ← envPgdirOf s cur
  match pageLookup s.mem srcdir srcva with
  | .error why => .error (.stuck why s)
  | .ok (some (_, srcpte)) => return s.mem.load srcpte
  | .ok none =>
      match inp.undef with
      | some w => return w
      | none => .error (.stuck .kernelPageFault s)

/-- The page transfer of `sys_ipc_try_send`; a negative result is returned at once. -/
def ipcSendPage (s : Kernel) (inp : Input) (cur dstenv : Slot) (srcva perm : Word) :
    Except Exit (ℤ × Kernel) := do
  if pgoff srcva ≠ 0 then return (-E_INVAL, s)
  let srcpte ← readSrcpte s inp cur srcva
  if srcpte ≠ 0 ∧ srcpte &&& PTE_P = 0 then return (-E_INVAL, s)
  if perm &&& PTE_W ≠ 0 ∧ srcpte &&& PTE_W = 0 then return (-E_INVAL, s)
  let perm := perm ||| PTE_U ||| PTE_P
  let dstva := (s.envs dstenv).envIpcDstva
  if dstva = 0 then return (0, s)
  let (r, s) ← envPageAlloc s dstenv dstva perm
  if r < 0 then return (r, s)
  let (r, s) ← envPageMap s cur srcva dstenv dstva perm
  if r < 0 then return (r, s)
  return (0, setIpcPerm s dstenv perm)

def sysIpcTrySend (c : Cpu) (s : Kernel) (inp : Input) (cur : Slot)
    (envid value srcva perm : Word) : Except Exit (ℤ × Kernel) := do
  match envid2env c s envid false with
  | .error r => return (r, s)
  | .ok dstenv =>
      if (s.envs dstenv).envIpcRecving = false then return (-E_IPC_NOT_RECV, s)
      if UTOP ≤ srcva then
        return (0, ipcDeliver (setIpcPerm s dstenv 0) cur dstenv value)
      let (r, s) ← ipcSendPage s inp cur dstenv srcva perm
      if r < 0 then return (r, s)
      return (0, ipcDeliver s cur dstenv value)

def sysIpcRecv (c : Cpu) (s : Kernel) (cur : Slot) (dstva : Word) : Except Exit (ℤ × Kernel) :=
  let s := s.modEnv cur fun env => { env with envIpcRecving := true }
  if UTOP ≤ dstva ∨ pgoff dstva ≠ 0 then .ok (-E_INVAL, s)
  else
    let s := s.modEnv cur fun env => { env with envIpcDstva := dstva, envStatus := .notRunnable }
    .error (schedYield c s)

def sysSleep (c : Cpu) (s : Kernel) (cur : Slot) (n : Word) : Except Exit (ℤ × Kernel) :=
  if n = 0 then .ok (-E_INVAL, s)
  else
    let s := s.modEnv cur fun env => { env with
      envSleepUntil := s.ticks + n
      envStatus := .notRunnable
      envTf := env.envTf.setEax 0 }
    .error (schedYield c s)

def sysGetpriority (c : Cpu) (s : Kernel) (envid : Word) : ℤ :=
  match envid2env c s envid true with
  | .error r => r
  | .ok e => (s.envs e).envPriority.toInt

def sysSetpriority (c : Cpu) (s : Kernel) (envid priority : Word) : ℤ × Kernel :=
  if ENV_PRIORITY_MAX < priority then (-E_INVAL, s)
  else
    match envid2env c s envid true with
    | .error r => (r, s)
    | .ok e =>
        if s.curenv c = some e ∧ (s.envs e).envPriority < priority then (-E_INVAL, s)
        else (0, s.modEnv e fun env => { env with envPriority := priority })

def sysThreadCreate (s : Kernel) (cur : Slot) (entry ustackTop : Word) :
    Except Exit (ℤ × Kernel) := do
  if UTOP ≤ entry ∨ UTOP < ustackTop ∨ ustackTop = 0 then return (-E_INVAL, s)
  let owner :=
    if (s.envs cur).envType = .thread then (s.envs cur).envParentId else (s.envs cur).envId
  let (r, s) ← envAlloc s owner
  match r with
  | .error r => return (r, s)
  | .ok t =>
      -- the page directory env_alloc set up is given back, the creator's shared instead
      let own ← envPgdirOf s t
      let s ← dropPgdir s t own
      let shared ← envPgdirOf s cur
      let s := s.setMem (s.mem.setRef shared (s.mem.ref shared + 1))
      let creator := s.envs cur
      let s := s.modEnv t fun env => { env with
        envPgdir := some shared
        envType := .thread
        envPriority := creator.envPriority
        envTf := { env.envTf with tfEip := entry, tfEsp := ustackTop } }
      return ((s.envs t).envId.toInt, s)

/-! ## Dispatch -/

/-- System call numbers (`inc/syscall.h`). -/
inductive Sysno where
  | cputs
  | cgetc
  | getenvid
  | envDestroy
  | pageAlloc
  | pageMap
  | pageUnmap
  | exofork
  | envSetStatus
  | envSetPgfaultUpcall
  | yield
  | ipcTrySend
  | ipcRecv
  | sleep
  | getpriority
  | setpriority
  | threadCreate
  deriving DecidableEq, Repr

/-- The numbers in the order of the enumeration, from `SYS_cputs = 0`. -/
def Sysno.all : List Sysno :=
  [.cputs, .cgetc, .getenvid, .envDestroy, .pageAlloc, .pageMap, .pageUnmap, .exofork,
    .envSetStatus, .envSetPgfaultUpcall, .yield, .ipcTrySend, .ipcRecv, .sleep, .getpriority,
    .setpriority, .threadCreate]

def Sysno.decode (syscallno : Word) : Option Sysno := Sysno.all[syscallno.toNat]?

/-- `syscall`: dispatches to the function of the call. -/
def syscall (c : Cpu) (s : Kernel) (inp : Input) (cur : Slot) (no : Option Sysno)
    (a1 a2 a3 a4 a5 : Word) : Except Exit (ℤ × Kernel) :=
  match no with
  | some .cputs => (sysCputs c s cur a1 a2).map fun s => (0, s)
  | some .getenvid => .ok (sysGetenvid s cur, s)
  | some .envDestroy => sysEnvDestroy c s a1
  | some .cgetc => .ok (inp.getc.toInt, s)
  | some .exofork => sysExofork s cur
  | some .envSetStatus => .ok (sysEnvSetStatus c s a1 a2)
  | some .pageAlloc => sysPageAlloc c s a1 a2 a3
  | some .pageMap => sysPageMap c s a1 a2 a3 a4 a5
  | some .pageUnmap => sysPageUnmap c s a1 a2
  | some .ipcRecv => sysIpcRecv c s cur a1
  | some .ipcTrySend => sysIpcTrySend c s inp cur a1 a2 a3 a4
  | some .envSetPgfaultUpcall => sysEnvSetPgfaultUpcall c s a1 a2
  | some .yield => .error (schedYield c s)
  | some .sleep => sysSleep c s cur a1
  | some .getpriority => .ok (sysGetpriority c s a1, s)
  | some .setpriority => .ok (sysSetpriority c s a1 a2)
  | some .threadCreate => sysThreadCreate s cur a1 a2
  | none => .ok (-E_INVAL, s)

end JosSched
