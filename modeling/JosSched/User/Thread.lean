import JosSched.User.Pgfault
import JosSched.User.View
import JosSched.Vm.PageInsert
import JosSched.Kern.Links

/-!
# The stacks of threads

`thread_create` of `lib/thread.c` gives every thread a page for its stack, at an address that
depends on the number of threads created before it, `nthreads`, and on nothing else.  That number
only grows, so the stacks of different calls lie apart, with a page that is never mapped between
one and the next (`Counted`).  What the function does not ask is whether the page is free: once
`nthreads` is large enough, it is a page of the program itself (`OffImage`).

A process calls `thread_create` any number of times, with anything that the machine does in
between (`ThreadStep`).  The call itself is executed without interruption, and its system calls
are traps of the machine.
-/

open Bytes Except

namespace JosSched

/-! ## The library -/

def THREAD_STACK_SIZE : Word := PGSIZE
def THREAD_STACK_PAGES : ℕ := (THREAD_STACK_SIZE / PGSIZE).toNat
def THREAD_STACK_STRIDE : Word := THREAD_STACK_SIZE + PGSIZE

def threadStackTop (n : Word) : Word := USTACKTOP - 2 * PGSIZE - n * THREAD_STACK_STRIDE
def threadStackBase (n : Word) : Word := threadStackTop n - THREAD_STACK_SIZE

/-- A call `thread_create(func, arg)` of environment `cur`, on CPU `c`; `exit` is the address of
the function of that name. -/
structure ThreadCall where
  c : Cpu
  cur : Slot
  func : Word
  arg : Word
  exit : Word

/-- The machine, and what the library knows of the process: `nthreads`, and the stacks of the
calls that have succeeded, the latest first.  The source does not keep these. -/
structure ThreadLib where
  kernel : Kernel
  nthreads : Word := 0
  given : List Word := []

/-- The CPU runs the caller. -/
structure ThreadCall.Running (call : ThreadCall) (s : Kernel) : Prop where
  started : (s.cpus call.c).cpuStatus = .started
  curenv : s.curenv call.c = some call.cur
  status : (s.envs call.cur).envStatus = .running

namespace ThreadCall

variable (call : ThreadCall)

/-- A system call that comes back to its caller: what it returns. -/
def sys (s : Kernel) (no : Sysno) (a1 a2 a3 : Word) : Option (Word × Kernel) := do
  let s ← (sysTrap call.c no a1 a2 a3 0 0).next s
  if s.curenv call.c = some call.cur then some ((s.envs call.cur).envTf.tfRegs.regEax, s) else none

/-- `*(--sp) = w`, for the stack pointer `sp` that this leaves. -/
def push (s : Kernel) (sp w : Word) : Option Kernel :=
  (storeWord s.mem (s.cpus call.c).cpuCr3 sp w).map s.setMem

/-- `sys_page_unmap` for the given pages of a stack, in order. -/
def unmapStack (base : Word) (pages : List ℕ) (s : Kernel) : Option Kernel :=
  pages.foldlM (fun s i => (call.sys s .pageUnmap 0 (base + BitVec.ofNat 32 i * PGSIZE) 0).map
    Prod.snd) s

/-- Allocates `n` pages of a stack from page `i` on, or none of its pages. -/
def allocStack (base : Word) : ℕ → ℕ → Kernel → Option (Word × Kernel)
  | _, 0, s => some (0, s)
  | i, n + 1, s => do
      let (r, s) ← call.sys s .pageAlloc 0 (base + BitVec.ofNat 32 i * PGSIZE)
        (PTE_P ||| PTE_U ||| PTE_W)
      if r.slt 0 then
        let s ← call.unmapStack base (List.range i).reverse s
        some (r, s)
      else allocStack base (i + 1) n s

end ThreadCall

def threadCreate (call : ThreadCall) (L : ThreadLib) : Option (Word × ThreadLib) := do
  let base := threadStackBase L.nthreads
  let top := threadStackTop L.nthreads
  let (r, s) ← call.allocStack base 0 THREAD_STACK_PAGES L.kernel
  if r.slt 0 then some (r, { L with kernel := s })
  else
    let sp := top - 4
    let s ← call.push s sp call.arg
    let sp := sp - 4
    let s ← call.push s sp call.exit
    let (tid, s) ← call.sys s .threadCreate call.func sp 0
    if tid.slt 0 then
      let s ← call.unmapStack base (List.range THREAD_STACK_PAGES) s
      some (tid, { L with kernel := s })
    else
      some (tid, { kernel := s, nthreads := L.nthreads + 1, given := base :: L.given })

inductive ThreadEvent where
  /-- The machine takes a step. -/
  | machine (ev : Event)
  /-- The process calls `thread_create`. -/
  | create (call : ThreadCall)

inductive ThreadStep : ThreadLib → ThreadEvent → ThreadLib → Prop
  | machine {L : ThreadLib} {ev : Event} {s' : Kernel} : OrderlyStep L.kernel ev s' →
      ThreadStep L (.machine ev) { L with kernel := s' }
  | create {L L' : ThreadLib} {call : ThreadCall} {tid : Word} : call.Running L.kernel →
      threadCreate call L = some (tid, L') → ThreadStep L (.create call) L'

/-! ## What it is for -/

/-- The page at `base` has no byte in `[lo, hi)`. -/
def PageOff (base lo hi : ℕ) : Prop := hi ≤ base ∨ base + 4096 ≤ lo

instance (base lo hi : ℕ) : Decidable (PageOff base lo hi) := inferInstanceAs (Decidable (_ ∨ _))

/-- The word at `va`, as the program reads it. -/
def readUser (m : Mem) (d : Ppn) (va : Word) : Option Word := (userWord m d va).map m.load

/-- A successful call has given the new thread, `tid`, a stack of its own, in the address space of
page directory `d`. -/
structure StackGiven (binary : Image) (call : ThreadCall) (d : Ppn) (L L' : ThreadLib)
    (tid : Word) : Prop where
  mainStack : PageOff (threadStackBase L.nthreads).toNat (USTACKTOP - PGSIZE).toNat USTACKTOP.toNat
  others : ∀ b ∈ L.given, PageOff (threadStackBase L.nthreads).toNat b.toNat (b.toNat + 4096)
  image : ∀ ph ∈ binary.segments,
    PageOff (threadStackBase L.nthreads).toNat ph.va.toNat (ph.va.toNat + ph.memsz.toNat)
  /-- The pages below and above are no stack. -/
  guards : ∀ b ∈ L'.given, b ≠ threadStackBase L.nthreads - PGSIZE ∧ b ≠ threadStackTop L.nthreads
  /-- The call maps the stack, at a page that was free, and nothing else. -/
  mapped : ∃ p, leaf L'.kernel.mem d (threadStackBase L.nthreads) =
      userEntry p (PTE_P ||| PTE_U ||| PTE_W) ∧
    ∀ e d' va, L.kernel.dirs e = some d' → va < UTOP → leaf L.kernel.mem d' va ≠ 0 →
      pgnum (leaf L.kernel.mem d' va) ≠ p
  only : ∀ e d' va, L.kernel.dirs e = some d' → va < UTOP →
    ¬ (d' = d ∧ SamePage (threadStackBase L.nthreads) va) →
    leaf L'.kernel.mem d' va = leaf L.kernel.mem d' va
  /-- The thread starts in `func`, with its stack pointer in the stack. -/
  thread : ∃ t, (L'.kernel.envs t).envId = tid ∧ (L'.kernel.envs t).envType = .thread ∧
    L'.kernel.dirs t = some d ∧ (L'.kernel.envs t).envTf.tfEip = call.func ∧
    (L'.kernel.envs t).envTf.tfEsp = threadStackTop L.nthreads - 8
  sp : threadStackBase L.nthreads ≤ threadStackTop L.nthreads - 8 ∧
    threadStackTop L.nthreads - 8 < threadStackTop L.nthreads
  exitWord : readUser L'.kernel.mem d (threadStackTop L.nthreads - 8) = some call.exit
  argWord : readUser L'.kernel.mem d (threadStackTop L.nthreads - 4) = some call.arg

/-- A call that fails has left `nthreads` alone and no page mapped. -/
structure StackRefused (call : ThreadCall) (L L' : ThreadLib) : Prop where
  nthreads : L'.nthreads = L.nthreads
  given : L'.given = L.given
  unmapped : ∀ e d va, L.kernel.dirs e = some d → va < UTOP →
    leaf L'.kernel.mem d va = leaf L.kernel.mem d va ∨ L.kernel.dirs call.cur = some d ∧
      SamePage (threadStackBase L.nthreads) va ∧ leaf L'.kernel.mem d va = 0

/-- `thread_create` does what it is for, in a process with the program `binary`. -/
def CreatesThread (binary : Image) (call : ThreadCall) (L : ThreadLib) : Prop :=
  ∀ tid L', threadCreate call L = some (tid, L') →
    (tid.slt 0 = true → StackRefused call L L') ∧
    (tid.slt 0 = false → ∀ d, L.kernel.dirs call.cur = some d →
      StackGiven binary call d L L' tid)

/-- The next stack lies above or below every segment of the program. -/
def OffImage (binary : Image) (nthreads : Word) : Prop :=
  ∀ ph ∈ binary.segments,
    ph.va.toNat + ph.memsz.toNat + nthreads.toNat * 8192 ≤ 0xeebfb000 ∨
      0xeebfc000 ≤ ph.va.toNat + nthreads.toNat * 8192

/-! ## Addresses -/

variable {n k : Word}

theorem toNat_threadStackTop (hn : n.toNat ≤ 0x775fd) :
    (threadStackTop n).toNat = 0xeebfc000 - n.toNat * 8192 := by
  have hmul : (n * THREAD_STACK_STRIDE).toNat = n.toNat * 8192 := by
    have hstride : THREAD_STACK_STRIDE.toNat = 8192 := rfl
    rw [BitVec.toNat_mul, hstride]
    omega
  have htop : USTACKTOP - 2 * PGSIZE = 0xeebfc000 := by decide
  have htop' : (0xeebfc000 : Word).toNat = 0xeebfc000 := rfl
  unfold threadStackTop
  rw [htop, BitVec.toNat_sub_of_le (by rw [BitVec.le_def, hmul, htop']; omega), hmul, htop']

theorem toNat_threadStackBase (hn : n.toNat ≤ 0x775fd) :
    (threadStackBase n).toNat = 0xeebfb000 - n.toNat * 8192 := by
  have htop := toNat_threadStackTop hn
  have hsize : THREAD_STACK_SIZE.toNat = 4096 := rfl
  unfold threadStackBase
  rw [BitVec.toNat_sub_of_le (by rw [BitVec.le_def, htop, hsize]; omega), htop, hsize]
  omega

theorem offImage_iff {binary : Image} (hn : n.toNat ≤ 0x775fd) : OffImage binary n ↔
    ∀ ph ∈ binary.segments,
      PageOff (threadStackBase n).toNat ph.va.toNat (ph.va.toNat + ph.memsz.toNat) := by
  have hbase := toNat_threadStackBase hn
  refine forall₂_congr fun ph _ => ?_
  unfold PageOff
  omega

/-- The counter has been used up: the address is not one of the user. -/
theorem threadStackBase_exhausted (hn : n.toNat = 0x775fe) : UTOP ≤ threadStackBase n := by
  obtain rfl : n = 0x775fe := BitVec.eq_of_toNat_eq hn
  decide

/-- The stacks given so far have lower numbers than the next one. -/
structure Counted (L : ThreadLib) : Prop where
  bounded : L.nthreads.toNat ≤ 0x775fe
  numbered : ∀ b ∈ L.given, ∃ k : Word, k.toNat < L.nthreads.toNat ∧ b = threadStackBase k

/-- The stacks of two calls lie apart, with more than a page between them. -/
theorem Counted.apart {L : ThreadLib} {b : Word} (h : Counted L) (hn : L.nthreads.toNat ≤ 0x775fd)
    (hb : b ∈ L.given) : (threadStackBase L.nthreads).toNat + 8192 ≤ b.toNat := by
  obtain ⟨k, hk, rfl⟩ := h.numbered b hb
  rw [toNat_threadStackBase hn, toNat_threadStackBase (by omega)]
  omega

/-! ## System calls -/

variable {s s' s₁ s₀ : Kernel} {call : ThreadCall} {pool : Set Ppn} {lost : Set (Ppn × Use)}
  {use : Ppn → Use} {d : Ppn} {va w a1 a2 a3 : Word} {no : Sysno}

/-- The frame of a system call of the library. -/
abbrev callFrame (no : Sysno) (a1 a2 a3 : Word) : Trapframe := sysFrame {} no a1 a2 a3 0 0

theorem calls_callFrame {no' : Sysno} (h : Calls (callFrame no a1 a2 a3) no') : no = no' :=
  Option.some.inj (no.decode_encode.symm.trans h.2)

/-- The state in which the kernel serves a system call of the library. -/
abbrev ThreadCall.entered (call : ThreadCall) (s : Kernel) (no : Sysno) (a1 a2 a3 : Word) :
    Kernel :=
  saved call.c s call.cur (callFrame no a1 a2 a3)

/-- A system call has left `s₁` behind, and the caller goes on in `s'`. -/
structure Answered (call : ThreadCall) (s₁ s' : Kernel) : Prop where
  running : call.Running s'
  mem : s'.mem = s₁.mem
  dirs : s'.dirs = s₁.dirs
  others : ∀ t, t ≠ call.cur → (s'.envs t).envId = (s₁.envs t).envId ∧
    (s'.envs t).envType = (s₁.envs t).envType ∧ (s'.envs t).envTf = (s₁.envs t).envTf

namespace ThreadCall

theorem sys_eq_some (h : call.sys s no a1 a2 a3 = some (w, s')) :
    Step s (sysTrap call.c no a1 a2 a3 0 0) s' ∧ s'.curenv call.c = some call.cur ∧
      w = (s'.envs call.cur).envTf.tfRegs.regEax := by
  obtain ⟨s₂, hnext, h⟩ := Option.bind_eq_some_iff.mp h
  split at h
  · next hcur =>
      obtain ⟨rfl, rfl⟩ := Prod.mk.inj (Option.some.inj h)
      exact ⟨step_of_next hnext, hcur, rfl⟩
  · cases h

/-- A call that comes back, if it cannot leave the kernel on its own. -/
theorem sys_answered (hrun : call.Running s)
    (hcall : (syscall call.c (call.entered s no a1 a2 a3) {} call.cur (some no)
      a1 a2 a3 0 0).Ensures (fun out => call.Running out.2) Exit.Stays)
    (h : call.sys s no a1 a2 a3 = some (w, s')) :
    ∃ r s₁, syscall call.c (call.entered s no a1 a2 a3) {} call.cur (some no) a1 a2 a3 0 0 =
        .ok (r, s₁) ∧ w = BitVec.ofInt 32 r ∧ Answered call s₁ s' := by
  obtain ⟨⟨-, hexec⟩, -, rfl⟩ := sys_eq_some h
  have hdying : (s.envs call.cur).envStatus ≠ .dying := by
    rw [hrun.status]
    decide
  have htrap : trap call.c s {} (callFrame no a1 a2 a3) = .leave s' := hexec
  rcases trap_syscall hrun.curenv hdying calls_sysFrame htrap with ⟨r, s₁, hret, hleave⟩ | herr
  · have hback : call.Running s₁ := hcall.of_ok _ hret
    have hcur : (returned s₁ call.cur r).curenv call.c = some call.cur := hback.curenv
    have hstatus : ((returned s₁ call.cur r).envs call.cur).envStatus = .running := by
      rw [returned, Kernel.modEnv_self]
      exact hback.status
    rw [trapReturn, hcur] at hleave
    dsimp only at hleave
    rw [if_pos hstatus] at hleave
    have hran := envRun_eq_leave hleave
    refine ⟨r, s₁, hret, ?_, ⟨hran.cpuStatus.trans hback.started, hran.curenv, ?_⟩, hran.mem, ?_,
      fun t ht => ?_⟩
    · rw [hran.envs, returned, Kernel.modEnv_self]
      rfl
    · rw [hran.envs]
      exact if_pos rfl
    · funext t
      rw [Kernel.dirs, hran.envs t]
      exact modEnv_proj Env.envPgdir fun _ => rfl
    · rw [hran.envs t, returned, Kernel.modEnv_ne _ _ ht]
      exact ⟨rfl, rfl, rfl⟩
  · exact absurd rfl (hcall.of_error _ herr s')

/-- The calls of the library ask nothing of other environments. -/
theorem sys_orderly (hrun : call.Running s)
    (hno : no = .pageAlloc ∨ no = .pageUnmap ∨ no = .threadCreate)
    (hzero : no = .pageAlloc → a1 = 0) (h : call.sys s no a1 a2 a3 = some (w, s')) :
    OrderlyStep s (sysTrap call.c no a1 a2 a3 0 0) s' := by
  obtain ⟨hstep, -, -⟩ := sys_eq_some h
  have hnot : ∀ {no'}, Calls (callFrame no a1 a2 a3) no' →
      no' = .pageAlloc ∨ no' = .pageUnmap ∨ no' = .threadCreate := fun hcall => by
    rw [← calls_callFrame hcall]
    exact hno
  refine ⟨hstep, ⟨fun _ hcall => ?_, fun _ hcall => ?_, fun e hroot => ?_⟩, fun t ht => ?_,
    fun hcall => ?_, fun hcall => ?_⟩
  · exact absurd (hnot hcall) (by decide)
  · exact absurd (hnot hcall) (by decide)
  · obtain ⟨no', hno', hcall⟩ := hroot.calls hrun.curenv (by rw [hrun.status]; decide) rfl
    rcases hnot hcall with rfl | rfl | rfl <;> exact absurd hno' (by decide)
  · refine ⟨fun hcall => ?_, fun hcall => absurd (hnot hcall) (by decide)⟩
    have henv : envid2env call.c s a1 true = .ok t := ht
    rw [hzero (calls_callFrame hcall), envid2env_zero hrun.curenv] at henv
    obtain rfl := Except.ok.inj henv
    rintro ⟨⟨-, hdying⟩, -⟩
    rw [hrun.status] at hdying
    cases hdying
  · exact absurd (hnot hcall) (by decide)
  · exact absurd (hnot hcall) (by decide)

end ThreadCall

/-! ## Stores -/

variable {m m' : Mem} {dirs : Slot → Option Ppn} {pp : Ppn} {x : PteRef} {flags : Word} {i : ℕ}
  {b : BitVec 8}

theorem Layout.mmu_store (h : Layout pool lost m dirs none use) (hd : use d = .pgdir)
    (hva : va < UTOP) (hx : use x.1 = .data) : mmu (m.store x w) d va = mmu m d va := by
  have hload : ∀ y : PteRef, use y.1 ≠ .data → (m.store x w).load y = m.load y := fun y hy =>
    Mem.load_store_ne fun heq => hy (heq ▸ hx)
  refine mmu_congr (hload _ (by rw [hd]; decide)) fun hpde => hload _ ?_
  rw [(h.table_of_pde hd hva (ne_zero_of_and hpde)).1]
  decide

theorem storeWord_eq_some : storeWord m d va w = some m' ↔
    ∃ pp flags, mmu m d va = some (pp, flags) ∧
      flags &&& (PTE_U ||| PTE_W) = PTE_U ||| PTE_W ∧ m.store (pp, wordIdx va) w = m' := by
  unfold storeWord
  cases hmmu : mmu m d va with
  | none => simp
  | some out =>
      obtain ⟨pp, flags⟩ := out
      simp

/-- What has been stored is read back. -/
theorem readUser_store (hmmu : mmu m d va = some (pp, flags)) (hu : flags &&& PTE_U ≠ 0) :
    readUser m d va = some (m.load (pp, wordIdx va)) := by
  unfold readUser userWord
  rw [hmmu]
  dsimp only
  rw [if_neg hu]
  rfl

end JosSched
