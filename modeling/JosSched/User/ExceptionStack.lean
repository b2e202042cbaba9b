import JosSched.Kern.Replay
import JosSched.Kern.TrapSpec
import JosSched.Vm.Insert
import JosSched.Vm.UserMem

/-!
# The exception stack

`page_fault_handler` pushes a frame on the exception stack of the environment, below the stack
pointer of the trap, which is a value of the program.  For a first fault, with the stack pointer
elsewhere, the frame goes to the top of the page.  For a recursive fault it goes below the stack
pointer, and nothing makes sure that the page has room for it: the bounds are tested after the
stores, and the answer is a panic.
-/

open Except

namespace JosSched

variable {c : Cpu} {s s' : Kernel} {inp : Input} {tf : Trapframe} {e : Slot} {m m' : Mem}
  {d pp : Ppn} {va : Word} {b : BitVec 8} {bytes : List (BitVec 8)}

/-- The flags of a page that the program may write. -/
def PTE_UW : Word := PTE_U ||| PTE_W ||| PTE_P

/-- The exception stack is mapped, to frame `pp`, for the program to write. -/
structure ExstkWritable (m : Mem) (d pp : Ppn) : Prop where
  pde : m.load (d, pdx exstk) &&& PTE_UW = PTE_UW
  table : (pgnum (m.load (d, pdx exstk))).toNat < m.npages
  pte : m.load (cell m d exstk) &&& PTE_UW = PTE_UW
  frame : pgnum (m.load (cell m d exstk)) = pp

/-- Frame `pp` is neither the page directory nor the page table through which the exception stack
is mapped. -/
structure Steady (m : Mem) (d pp : Ppn) : Prop where
  notDir : pp ≠ d
  notTable : pgnum (m.load (d, pdx exstk)) ≠ pp

/-- Memory has changed in frame `pp` only. -/
def OnlyIn (pp : Ppn) (m m' : Mem) : Prop := ∃ contents, m' = m.fill pp contents

/-- The page has room for the frame of a fault at this stack pointer: for a recursive fault, with
the scratch word, `4 + 52` bytes below it. -/
def FrameFits (esp : Word) : Prop := esp < exstk ∨ exstkTop < esp ∨ exstk + 56 ≤ esp

instance (esp : Word) : Decidable (FrameFits esp) := by unfold FrameFits; infer_instance

/-! ## Stores to the page -/

namespace OnlyIn

theorem refl (pp : Ppn) (m : Mem) : OnlyIn pp m m :=
  ⟨m.phys pp, by simp [Mem.fill]⟩

theorem trans {m₁ m₂ : Mem} (h : OnlyIn pp m m₁) (h' : OnlyIn pp m₁ m₂) : OnlyIn pp m m₂ := by
  obtain ⟨f, rfl⟩ := h
  obtain ⟨g, rfl⟩ := h'
  exact ⟨g, by simp [Mem.fill]⟩

theorem store (m : Mem) (pp : Ppn) (k : Idx) (w : Word) : OnlyIn pp m (m.store (pp, k) w) :=
  ⟨Function.update (m.phys pp) k w, rfl⟩

theorem load_ne (h : OnlyIn pp m m') {x : PteRef} (hx : x.1 ≠ pp) : m'.load x = m.load x := by
  obtain ⟨f, rfl⟩ := h
  exact load_fill_ne hx

/-- The exception stack stays where it is. -/
theorem exstk (h : OnlyIn pp m m') (hm : ExstkWritable m d pp) (hs : Steady m d pp) :
    ExstkWritable m' d pp ∧ Steady m' d pp := by
  have hpde : m'.load (d, pdx JosSched.exstk) = m.load (d, pdx JosSched.exstk) :=
    h.load_ne hs.notDir.symm
  have hcell : cell m' d JosSched.exstk = cell m d JosSched.exstk := by
    rw [cell, cell, hpde]
  have hpte : m'.load (cell m' d JosSched.exstk) = m.load (cell m d JosSched.exstk) := by
    rw [hcell]
    exact h.load_ne hs.notTable
  have hnpages : m'.npages = m.npages := by
    obtain ⟨f, rfl⟩ := h
    rfl
  constructor
  · constructor
    · rw [hpde]
      exact hm.pde
    · rw [hpde, hnpages]
      exact hm.table
    · rw [hpte]
      exact hm.pte
    · rw [hpte]
      exact hm.frame
  · constructor
    · exact hs.notDir
    · rw [hpde]
      exact hs.notTable

end OnlyIn

/-- Flags that include others. -/
theorem has_of_has {w a b : Word} (h : w &&& a = a) (hb : a &&& b = b) : w &&& b = b := by
  rw [← hb, ← BitVec.and_assoc, h]

theorem present_of_has {w : Word} (h : w &&& PTE_UW = PTE_UW) : w &&& PTE_P ≠ 0 := by
  rw [has_of_has h (by decide)]
  decide

/-- Every address of the page translates to its frame, and the kernel may write there. -/
theorem ExstkWritable.mmu_eq (h : ExstkWritable m d pp) (hlo : exstk ≤ va) (hhi : va ≤ exstkTop) :
    ∃ flags, mmu m d va = some (pp, flags) ∧ flags &&& PTE_W = PTE_W := by
  have hlo : 0xeebff000 ≤ va.toNat := hlo
  have hhi : va.toNat ≤ 0xeebfffff := hhi
  have hpage : va.toNat / 4096 = exstk.toNat / 4096 := by
    rw [show exstk.toNat = 0xeebff000 from rfl]
    omega
  refine ⟨m.load (d, pdx exstk) &&& m.load (cell m d exstk), ?_, ?_⟩
  · unfold mmu
    dsimp only
    rw [pdx_eq hpage, ptx_eq hpage, if_neg (present_of_has h.pde)]
    have hpte : m.load (pgnum (m.load (d, pdx exstk)), ptx exstk) &&& PTE_P ≠ 0 :=
      present_of_has h.pte
    rw [if_neg hpte]
    exact congrArg (fun q => some (q, _)) h.frame
  · rw [BitVec.and_assoc, has_of_has h.pte (by decide), has_of_has h.pde (by decide)]

theorem storeByte_exstk (h : ExstkWritable m d pp) (hlo : exstk ≤ va) (hhi : va ≤ exstkTop) :
    ∃ m', storeByte m d PTE_W va b = some m' ∧ OnlyIn pp m m' := by
  obtain ⟨flags, hmmu, hflags⟩ := h.mmu_eq hlo hhi
  unfold storeByte
  rw [hmmu]
  dsimp only
  rw [if_pos hflags]
  exact ⟨_, rfl, .store _ _ _ _⟩

/-- Stores inside the page do not fault, and change its frame only. -/
theorem kernStore_exstk (h : ExstkWritable m d pp) (hs : Steady m d pp) (hlo : exstk ≤ va)
    (hhi : va.toNat + bytes.length ≤ UXSTACKTOP.toNat) :
    ∃ m', kernStore m d va bytes = .ok m' ∧ OnlyIn pp m m' := by
  have htop : UXSTACKTOP.toNat = 0xeec00000 := rfl
  induction bytes generalizing m va with
  | nil => exact ⟨m, rfl, .refl pp m⟩
  | cons b rest ih =>
      have hlo' : 0xeebff000 ≤ va.toNat := hlo
      rw [List.length_cons, htop] at hhi
      obtain ⟨m₁, hstore, honly₁⟩ := storeByte_exstk (b := b) h hlo
        (show va.toNat ≤ 0xeebfffff by omega)
      obtain ⟨h₁, hs₁⟩ := honly₁.exstk h hs
      have hnext : (va + 1).toNat = va.toNat + 1 := by
        rw [BitVec.toNat_add, show (1 : Word).toNat = 1 from rfl]
        omega
      have hlo₁ : exstk ≤ va + 1 := show 0xeebff000 ≤ (va + 1).toNat by omega
      obtain ⟨m', hrest, honly⟩ := ih h₁ hs₁ hlo₁ (by omega)
      refine ⟨m', ?_, honly₁.trans honly⟩
      rw [kernStore, hstore]
      exact hrest

/-! ## The frame -/

theorem toNat_utfSize : UTF_SIZE.toNat = 52 := rfl

/-- A frame that fits is pushed, and nothing else is written than the page. -/
theorem pushUtrapframe_of_fits (h : ExstkWritable m d pp) (hs : Steady m d pp) (faultVa : Word)
    (hfit : FrameFits tf.tfEsp) : ∃ tmp m', pushUtrapframe m d faultVa tf = .ok (tmp, m') ∧
      exstk ≤ tmp ∧ tmp ≤ exstkTop ∧ OnlyIn pp m m' := by
  have hframe : ∀ {m₁ tmp}, ExstkWritable m₁ d pp → Steady m₁ d pp → exstk ≤ tmp →
      tmp.toNat + 52 ≤ UXSTACKTOP.toNat → ∃ m',
        kernStore m₁ d tmp ((utrapframe faultVa tf).flatMap wordBytes) = .ok m' ∧
          OnlyIn pp m₁ m' := fun h₁ hs₁ hlo hhi =>
    kernStore_exstk h₁ hs₁ hlo (by rw [length_utrapframe]; exact hhi)
  have htop : UXSTACKTOP.toNat = 0xeec00000 := rfl
  unfold pushUtrapframe frameBase
  by_cases hoff : tf.tfEsp < exstk ∨ exstkTop < tf.tfEsp
  · -- a first fault
    have htmp : (exstkTop - UTF_SIZE).toNat = 0xeebfffcb := rfl
    have hlo : exstk ≤ exstkTop - UTF_SIZE := by decide
    have hhi : exstkTop - UTF_SIZE ≤ exstkTop := by decide
    obtain ⟨m', hstore, honly⟩ := hframe h hs hlo (by rw [htmp, htop]; decide)
    refine ⟨exstkTop - UTF_SIZE, m', ?_, hlo, hhi, honly⟩
    rw [if_pos hoff]
    dsimp only [bind, Except.bind]
    rw [hstore]
    rfl
  · -- a recursive fault, with its scratch word
    have hesp : exstk + 56 ≤ tf.tfEsp := by
      rcases hfit with hlt | hlt | hle
      · exact absurd (.inl hlt) hoff
      · exact absurd (.inr hlt) hoff
      · exact hle
    rw [not_or, BitVec.not_lt, BitVec.not_lt] at hoff
    have hmin : 0xeebff038 ≤ tf.tfEsp.toNat := hesp
    have hmax : tf.tfEsp.toNat ≤ 0xeebfffff := hoff.2
    have hscratch : (tf.tfEsp - 4).toNat = tf.tfEsp.toNat - 4 :=
      BitVec.toNat_sub_of_le (show 4 ≤ tf.tfEsp.toNat by omega)
    have htmp : (tf.tfEsp - 4 - UTF_SIZE).toNat = tf.tfEsp.toNat - 56 := by
      rw [BitVec.toNat_sub_of_le (show UTF_SIZE.toNat ≤ (tf.tfEsp - 4).toNat by
        rw [toNat_utfSize, hscratch]; omega), hscratch, toNat_utfSize]
      omega
    have hlo₁ : exstk ≤ tf.tfEsp - 4 := show 0xeebff000 ≤ (tf.tfEsp - 4).toNat by omega
    obtain ⟨m₁, hzero, honly₁⟩ : ∃ m₁, kernStore m d (tf.tfEsp - 4) (wordBytes 0) = .ok m₁ ∧
        OnlyIn pp m m₁ := kernStore_exstk h hs hlo₁ (by
      rw [show (wordBytes 0).length = 4 from rfl]
      omega)
    obtain ⟨h₁, hs₁⟩ := honly₁.exstk h hs
    have hlo : exstk ≤ tf.tfEsp - 4 - UTF_SIZE :=
      show 0xeebff000 ≤ (tf.tfEsp - 4 - UTF_SIZE).toNat by omega
    have hhi : tf.tfEsp - 4 - UTF_SIZE ≤ exstkTop :=
      show (tf.tfEsp - 4 - UTF_SIZE).toNat ≤ 0xeebfffff by omega
    obtain ⟨m', hstore, honly⟩ := hframe h₁ hs₁ hlo (by omega)
    refine ⟨tf.tfEsp - 4 - UTF_SIZE, m', ?_, hlo, hhi, honly₁.trans honly⟩
    have hin : ¬ (tf.tfEsp < exstk ∨ exstkTop < tf.tfEsp) := by
      rw [not_or, BitVec.not_lt, BitVec.not_lt]
      exact hoff
    rw [if_neg hin, hzero]
    dsimp only [bind, Except.bind, Except.map]
    rw [hstore]
    have hin' : ¬ (tf.tfEsp - 4 - UTF_SIZE < exstk ∨ exstkTop < tf.tfEsp - 4 - UTF_SIZE) := by
      rw [not_or, BitVec.not_lt, BitVec.not_lt]
      exact ⟨hlo, hhi⟩
    exact if_neg hin'

/-- A frame that does not fit ends in a panic, whatever is mapped. -/
theorem pushUtrapframe_of_not_fits (faultVa : Word) (hno : ¬ FrameFits tf.tfEsp) :
    ∃ why, pushUtrapframe m d faultVa tf = .error why ∧ why ≠ .noRunnable := by
  cases hpush : pushUtrapframe m d faultVa tf with
  | error why => exact ⟨why, rfl, onlyPanics_pushUtrapframe why hpush⟩
  | ok r =>
      rw [FrameFits, not_or, not_or, BitVec.not_lt, BitVec.not_lt, BitVec.not_le] at hno
      obtain ⟨hlo, hhi, hesp⟩ := hno
      have hmin : 0xeebff000 ≤ tf.tfEsp.toNat := hlo
      have hmax : tf.tfEsp.toNat < 0xeebff038 := hesp
      unfold pushUtrapframe frameBase at hpush
      have hin : ¬ (tf.tfEsp < exstk ∨ exstkTop < tf.tfEsp) := by
        rw [not_or, BitVec.not_lt, BitVec.not_lt]
        exact ⟨hlo, hhi⟩
      rw [if_neg hin] at hpush
      obtain ⟨⟨tmp, m₁⟩, hbase, hrest⟩ := bind_eq_ok.mp hpush
      obtain ⟨m₂, -, heq⟩ := map_eq_ok.mp hbase
      obtain ⟨rfl, rfl⟩ := Prod.mk.inj heq
      obtain ⟨m₃, -, hbounds⟩ := bind_eq_ok.mp hrest
      have htmp : (tf.tfEsp - 4 - UTF_SIZE).toNat = tf.tfEsp.toNat - 56 := by
        have hscratch : (tf.tfEsp - 4).toNat = tf.tfEsp.toNat - 4 :=
          BitVec.toNat_sub_of_le (show 4 ≤ tf.tfEsp.toNat by omega)
        rw [BitVec.toNat_sub_of_le (show UTF_SIZE.toNat ≤ (tf.tfEsp - 4).toNat by
          rw [toNat_utfSize, hscratch]; omega), hscratch, toNat_utfSize]
        omega
      have hbelow : tf.tfEsp - 4 - UTF_SIZE < exstk :=
        show (tf.tfEsp - 4 - UTF_SIZE).toNat < 0xeebff000 by omega
      rw [if_pos (.inl hbelow)] at hbounds
      cases hbounds

/-! ## The handler -/

/-- The handler's check of the exception stack succeeds. -/
theorem userMemCheck_exstk (h : ExstkWritable m d pp) :
    userMemCheck m d exstk PGSIZE (PTE_U ||| PTE_W ||| PTE_U) = .ok 0 := by
  have hflags : PTE_U ||| PTE_W ||| PTE_U ||| PTE_P = PTE_UW := by decide
  have hpde : m.load (d, pdx exstk) ≠ 0 := fun hzero => by
    have hpresent := present_of_has h.pde
    rw [hzero] at hpresent
    exact hpresent (by decide)
  have hloop : ∀ n, userMemCheckFrom m d (PTE_U ||| PTE_W ||| PTE_U) UTOP (n + 2) exstk =
      .ok 0 := by
    intro n
    unfold userMemCheckFrom
    rw [if_pos (by decide), pgdirWalk_of_pde hpde h.table]
    dsimp only [bind, Except.bind]
    rw [hflags, if_neg (not_not.mpr h.pte)]
    unfold userMemCheckFrom
    exact if_neg (by decide)
  have hhi : roundup (exstk + PGSIZE) = UTOP := by decide
  have hlo : rounddown exstk = exstk := by decide
  obtain ⟨n, hn⟩ : ∃ n, 2 ^ 20 = n + 2 := ⟨2 ^ 20 - 2, (Nat.sub_add_cancel (by decide)).symm⟩
  unfold userMemCheck
  dsimp only
  rw [hhi, if_neg (by decide), hlo, hn]
  exact hloop n

/-- The handler of an environment with an upcall and an exception stack pushes the frame. -/
theorem pageFaultHandler_eq (inp : Input) (hupcall : (s.envs e).envPgfaultUpcall ≠ 0)
    (hpgdir : (s.envs e).envPgdir = some d) (h : ExstkWritable s.mem d pp) :
    pageFaultHandler c s inp e = match pushUtrapframe s.mem d inp.cr2 (s.envs e).envTf with
      | .ok (tmp, m) => .error (envRun c ((s.setMem m).modEnv e fun env => { env with
          envTf := { env.envTf with tfEsp := tmp, tfEip := env.envPgfaultUpcall } }) e)
      | .error why => .error (.stuck why s) := by
  have hdir : envPgdirOf s e = .ok d := by
    unfold envPgdirOf
    rw [hpgdir]
  have hassert : userMemAssert c s e exstk PGSIZE (PTE_U ||| PTE_W) = .ok s := by
    unfold userMemAssert
    rw [hdir]
    dsimp only [bind, Except.bind]
    rw [userMemCheck_exstk h]
    exact if_neg (by decide)
  unfold pageFaultHandler
  dsimp only
  rw [if_neg hupcall, hassert]
  dsimp only [bind, Except.bind]
  rw [hdir]
  dsimp only
  cases pushUtrapframe s.mem d inp.cr2 (s.envs e).envTf with
  | error why => rfl
  | ok r => rfl

/-- The environment resumes at its upcall, on its exception stack, and no other memory has been
written. -/
structure ResumesAtUpcall (c : Cpu) (s : Kernel) (tf : Trapframe) (e : Slot) (d pp : Ppn)
    (s' : Kernel) :
    Prop where
  current : s'.curenv c = some e
  cr3 : (s'.cpus c).cpuCr3 = d
  frame : ∃ esp, exstk ≤ esp ∧ esp ≤ exstkTop ∧
    (s'.envs e).envTf = { tf with tfEsp := esp, tfEip := (s.envs e).envPgfaultUpcall }
  writes : OnlyIn pp s.mem s'.mem

/-- A page fault resumes the environment at its upcall, or destroys it if the frame does not fit.
It never panics. -/
inductive FaultSafe (c : Cpu) (s : Kernel) (inp : Input) (tf : Trapframe) (e : Slot) (d pp : Ppn) :
    Prop
  | resumed {s' : Kernel} : trap c s inp tf = .leave s' → ResumesAtUpcall c s tf e d pp s' →
      FaultSafe c s inp tf e d pp
  | destroyed : ¬ FrameFits tf.tfEsp →
      trap c s inp tf = finish (envDestroy c (saved c s e tf) e) (trapReturn c) →
      (∀ why s', trap c s inp tf = .stuck why s' → why = .noRunnable) → FaultSafe c s inp tf e d pp

section

variable (hcur : s.curenv c = some e) (hdying : (s.envs e).envStatus ≠ .dying)
  (htrap : tf.tfTrapno = T_PGFLT) (hupcall : (s.envs e).envPgfaultUpcall ≠ 0)
  (hpgdir : (s.envs e).envPgdir = some d) (hexstk : ExstkWritable s.mem d pp)

include hcur hdying htrap hupcall hpgdir hexstk

theorem trap_pageFault (inp : Input) :
    trap c s inp tf = match pushUtrapframe s.mem d inp.cr2 tf with
      | .ok (tmp, m) => envRun c (((saved c s e tf).setMem m).modEnv e fun env => { env with
          envTf := { env.envTf with tfEsp := tmp, tfEip := env.envPgfaultUpcall } }) e
      | .error why => .stuck why (saved c s e tf) := by
  have hself : (saved c s e tf).envs e = { s.envs e with envTf := tf } := by
    unfold saved
    rw [Kernel.modEnv_self, started_envs]
  have hhandler := pageFaultHandler_eq (c := c) (s := saved c s e tf) inp
    (by rw [hself]; exact hupcall) (by rw [hself]; exact hpgdir) hexstk
  rw [hself] at hhandler
  have hdispatch : trapDispatch c (saved c s e tf) inp e tf =
      pageFaultHandler c (saved c s e tf) inp e := by
    unfold trapDispatch
    dsimp only
    rw [htrap, if_neg (by decide), if_pos rfl]
  rw [trap_eq hcur hdying, hdispatch, hhandler]
  have hmem : (saved c s e tf).mem = s.mem := rfl
  rw [hmem]
  dsimp only
  cases pushUtrapframe s.mem d inp.cr2 tf with
  | error why => rfl
  | ok r => rfl

/-- A frame that fits resumes the environment. -/
theorem resumes_of_fits (inp : Input) (hs : Steady s.mem d pp) (hfit : FrameFits tf.tfEsp) :
    ∃ s', trap c s inp tf = .leave s' ∧ ResumesAtUpcall c s tf e d pp s' := by
  obtain ⟨tmp, m', hpush, hlo, hhi, honly⟩ := pushUtrapframe_of_fits hexstk hs inp.cr2 hfit
  have heq := trap_pageFault hcur hdying htrap hupcall hpgdir hexstk inp
  rw [hpush] at heq
  dsimp only at heq
  have hself : ((((saved c s e tf).setMem m').modEnv e fun env => { env with
      envTf := { env.envTf with tfEsp := tmp, tfEip := env.envPgfaultUpcall } }).envs e) =
      { s.envs e with
        envTf := { tf with tfEsp := tmp, tfEip := (s.envs e).envPgfaultUpcall } } := by
    simp [saved]
  obtain ⟨s', hrun⟩ := exists_envRun (c := c) (s := ((saved c s e tf).setMem m').modEnv e fun env =>
    { env with envTf := { env.envTf with tfEsp := tmp, tfEip := env.envPgfaultUpcall } }) (e := e)
    (by rw [hself]; exact hpgdir)
  have hran := envRun_eq_leave hrun
  refine ⟨s', heq.trans hrun, hran.curenv, ?_, ⟨tmp, hlo, hhi, ?_⟩, ?_⟩
  · have hcr3 := hran.cr3
    rw [hself] at hcr3
    exact (Option.some.inj (hcr3.symm.trans hpgdir))
  · rw [hran.envs e, hself]
  · rw [hran.mem]
    exact honly

/-- A frame that does not fit is no reason to destroy anybody: the kernel panics. -/
theorem fits_of_faultSafe (hsafe : FaultSafe c s inp tf e d pp) : FrameFits tf.tfEsp := by
  by_contra hno
  obtain ⟨why, hpush, hwhy⟩ := pushUtrapframe_of_not_fits (m := s.mem) (d := d) inp.cr2 hno
  have heq := trap_pageFault hcur hdying htrap hupcall hpgdir hexstk inp
  rw [hpush] at heq
  cases hsafe with
  | resumed hleave => exact Exit.noConfusion (heq.symm.trans hleave)
  | destroyed _ _ hstuck => exact hwhy (hstuck _ _ heq)

/-- For every page fault of an environment with an upcall and a writable exception stack: unless
the frame fits, the kernel panics; and if it fits, and the page is none of the tables it is mapped
through, the environment resumes at its upcall, with nothing written but its exception stack. -/
theorem page_fault_safe_iff : (FaultSafe c s inp tf e d pp → FrameFits tf.tfEsp) ∧
    (Steady s.mem d pp → FrameFits tf.tfEsp → FaultSafe c s inp tf e d pp) := by
  constructor
  · exact fits_of_faultSafe hcur hdying htrap hupcall hpgdir hexstk
  · intro hs hfit
    obtain ⟨s', hleave, hresumes⟩ := resumes_of_fits hcur hdying htrap hupcall hpgdir
      hexstk inp hs hfit
    exact .resumed hleave hresumes

end

/-! ## A first fault, and one too many -/

instance (m : Mem) (d pp : Ppn) : Decidable (ExstkWritable m d pp) :=
  decidable_of_iff (m.load (d, pdx exstk) &&& PTE_UW = PTE_UW ∧
      (pgnum (m.load (d, pdx exstk))).toNat < m.npages ∧
      m.load (cell m d exstk) &&& PTE_UW = PTE_UW ∧ pgnum (m.load (cell m d exstk)) = pp)
    ⟨fun ⟨h₁, h₂, h₃, h₄⟩ => ⟨h₁, h₂, h₃, h₄⟩, fun h => ⟨h.pde, h.table, h.pte, h.frame⟩⟩

instance (m : Mem) (d pp : Ppn) : Decidable (Steady m d pp) :=
  decidable_of_iff (pp ≠ d ∧ pgnum (m.load (d, pdx exstk)) ≠ pp)
    ⟨fun h => ⟨h.1, h.2⟩, fun h => ⟨h.notDir, h.notTable⟩⟩

/-- A process gives itself an exception stack and an upcall, on a page of its own. -/
def exceptionStack : List Event :=
  [.boot emptyImage, .start 0, sysTrap 0 .pageAlloc 0 exstk PTE_UW 0 0,
    sysTrap 0 .pageAlloc 0 0x800000 PTE_UW 0 0, sysTrap 0 .envSetPgfaultUpcall 0 0x800000 0 0 0]

/-- A page fault of a program whose stack pointer is `esp`. -/
def faultFrame (esp : Word) : Trapframe :=
  { tfTrapno := T_PGFLT, tfCs := GD_UT ||| 3, tfEsp := esp }

/-- The process is in user mode and has what a page fault needs. -/
structure ReadyForFault (s : Kernel) (d pp : Ppn) : Prop where
  inUser : s.inUser 0
  current : s.curenv 0 = some 0
  status : (s.envs 0).envStatus ≠ .dying
  upcall : (s.envs 0).envPgfaultUpcall ≠ 0
  pgdir : (s.envs 0).envPgdir = some d
  stack : ExstkWritable s.mem d pp
  steady : Steady s.mem d pp

instance (s : Kernel) (c : Cpu) : Decidable (s.inUser c) :=
  inferInstanceAs (Decidable (_ ∧ _))

instance (s : Kernel) (d pp : Ppn) : Decidable (ReadyForFault s d pp) :=
  decidable_of_iff (s.inUser 0 ∧ s.curenv 0 = some 0 ∧ (s.envs 0).envStatus ≠ .dying ∧
      (s.envs 0).envPgfaultUpcall ≠ 0 ∧ (s.envs 0).envPgdir = some d ∧ ExstkWritable s.mem d pp ∧
      Steady s.mem d pp)
    ⟨fun ⟨h₁, h₂, h₃, h₄, h₅, h₆, h₇⟩ => ⟨h₁, h₂, h₃, h₄, h₅, h₆, h₇⟩,
      fun h => ⟨h.inUser, h.current, h.status, h.upcall, h.pgdir, h.stack, h.steady⟩⟩

theorem exists_readyForFault :
    ∃ s d pp, Trace Step (bootedMachine .roundRobin 64) exceptionStack s ∧
    ReadyForFault s d pp := by
  obtain ⟨s, hrun, hs⟩ := exists_trace (fun _ _ => True) (bootedMachine .roundRobin 64)
    exceptionStack (fun s => ((s.envs 0).envPgdir).any fun d =>
      decide (ReadyForFault s d (pgnum (s.mem.load (cell s.mem d exstk))))) (by decide +kernel)
  cases hpgdir : (s.envs 0).envPgdir with
  | none =>
      rw [hpgdir] at hs
      cases hs
  | some d =>
      rw [hpgdir] at hs
      exact ⟨s, d, _, hrun.mono fun _ _ _ h => h.1, decide_eq_true_iff.mp hs⟩

theorem page_fault_safe_iff_firstFault : ∃ s d pp,
    Trace Step (bootedMachine .roundRobin 64) exceptionStack s ∧
      FaultSafe 0 s {} (faultFrame USTACKTOP) 0 d pp := by
  obtain ⟨s, d, pp, hrun, h⟩ := exists_readyForFault
  refine ⟨s, d, pp, hrun, ?_⟩
  exact (page_fault_safe_iff h.current h.status rfl h.upcall h.pgdir h.stack).2 h.steady (by decide)

/-- A recursive fault with two words left on the exception stack. -/
theorem recursive_fault_panics : ¬ ∀ (s₀ s : Kernel) (evs : List Event) (c : Cpu) (inp : Input)
    (tf : Trapframe) (e : Slot) (d pp : Ppn), Booted s₀ → Trace Step s₀ evs s →
    (Event.trap c inp tf).Enabled s → s.curenv c = some e → (s.envs e).envStatus ≠ .dying →
    tf.tfTrapno = T_PGFLT → (s.envs e).envPgfaultUpcall ≠ 0 → (s.envs e).envPgdir = some d →
    ExstkWritable s.mem d pp → Steady s.mem d pp → FaultSafe c s inp tf e d pp := by
  intro hclaim
  obtain ⟨s, d, pp, hrun, h⟩ := exists_readyForFault
  have hboot := booted_bootedMachine .roundRobin (n := 64) (by decide) (by decide)
  have hsafe := hclaim _ s _ 0 {} (faultFrame (exstk + 8)) 0 d pp hboot hrun ⟨h.inUser, by decide⟩
    h.current h.status rfl h.upcall h.pgdir h.stack h.steady
  exact absurd (fits_of_faultSafe h.current h.status rfl h.upcall h.pgdir h.stack hsafe) (by decide)

end JosSched
