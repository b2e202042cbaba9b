import JosSched.Kern.Paths

/-!
# What each system call and each trap may do

`Allowed c s tf` lists the actions CPU `c` may perform when it traps with frame `tf` in state
`s`, with the arguments they take from the frame, and `trap_path` proves it of `trap`.  The
other entries into the kernel are at the end.
-/

open Except

namespace JosSched

/-- The trap is this system call. -/
def Calls (tf : Trapframe) (no : Sysno) : Prop :=
  tf.tfTrapno = T_SYSCALL ∧ Sysno.decode tf.tfRegs.regEax = some no

instance (tf : Trapframe) (no : Sysno) : Decidable (Calls tf no) :=
  inferInstanceAs (Decidable (_ ∧ _))

theorem Calls.unique {tf : Trapframe} {no no' : Sysno} (h : Calls tf no) (h' : Calls tf no') :
    no = no' :=
  Option.some.inj (h.2.symm.trans h'.2)

/-- `user_mem_check` finds the range inaccessible to the environment. -/
def FailsCheck (s : Kernel) (e : Slot) (va len perm : Word) : Prop :=
  ∃ d r, (s.envs e).envPgdir = some d ∧
    userMemCheck s.mem d va len (perm ||| PTE_U) = .ok r ∧ r < 0

instance (s : Kernel) (e : Slot) (va len perm : Word) : Decidable (FailsCheck s e va len perm) := by
  refine decidable_of_iff (((s.envs e).envPgdir.bind fun d =>
    (userMemCheck s.mem d va len (perm ||| PTE_U)).toOption).any (· < 0) = true) ?_
  unfold FailsCheck
  cases (s.envs e).envPgdir with
  | none => simp
  | some d => cases hcheck : userMemCheck s.mem d va len (perm ||| PTE_U) <;>
      simp [Except.toOption, hcheck]

/-- `trap_dispatch` has a case for the trap. -/
def Trapframe.Handled (tf : Trapframe) : Prop :=
  tf.tfTrapno ∈ [T_BRKPT, T_PGFLT, T_SYSCALL, IRQ_OFFSET + IRQ_SPURIOUS, IRQ_OFFSET + IRQ_TIMER]

instance (tf : Trapframe) : Decidable tf.Handled := inferInstanceAs (Decidable (_ ∈ _))

/-- `trap_dispatch` destroys the environment that trapped: the string of `sys_cputs` is not
accessible, a page fault finds no upcall or no exception stack, or there is no case for the trap. -/
def Condemns (s : Kernel) (tf : Trapframe) (cur : Slot) : Prop :=
  Calls tf .cputs ∧
    FailsCheck s cur tf.tfRegs.regEdx tf.tfRegs.regEcx (PTE_P ||| PTE_W ||| PTE_U) ∨
  tf.tfTrapno = T_PGFLT ∧ ((s.envs cur).envPgfaultUpcall = 0 ∨
    FailsCheck s cur exstk PGSIZE (PTE_U ||| PTE_W)) ∨
  ¬ tf.Handled

instance (s : Kernel) (tf : Trapframe) (cur : Slot) : Decidable (Condemns s tf cur) :=
  inferInstanceAs (Decidable (_ ∨ _ ∨ _))

/-- The system call destroys its target, which must not be accessible to it if the call is
`sys_env_set_pgfault_upcall`. -/
def CondemnsTarget (s : Kernel) (tf : Trapframe) (e : Slot) : Prop :=
  Calls tf .envDestroy ∨
  Calls tf .envSetPgfaultUpcall ∧ FailsCheck s e tf.tfRegs.regEcx PGSIZE (PTE_P ||| PTE_U)

instance (s : Kernel) (tf : Trapframe) (e : Slot) : Decidable (CondemnsTarget s tf e) :=
  inferInstanceAs (Decidable (_ ∨ _))

/-- The environments that the trap hands to `env_destroy`, or to `env_free` if a zombie traps. -/
inductive Root (c : Cpu) (s : Kernel) (tf : Trapframe) : Slot → Prop
  | zombie {cur} : s.curenv c = some cur → (s.envs cur).envStatus = .dying → Root c s tf cur
  | self {cur} : s.curenv c = some cur → (s.envs cur).envStatus ≠ .dying → Condemns s tf cur →
      Root c s tf cur
  | call {cur e} : s.curenv c = some cur → (s.envs cur).envStatus ≠ .dying →
      CondemnsTarget s tf e → envid2env c s tf.tfRegs.regEdx true = .ok e → Root c s tf e

/-- The same environments, as a list. -/
def roots (c : Cpu) (s : Kernel) (tf : Trapframe) : List Slot :=
  (s.curenv c).toList.flatMap fun cur =>
    if (s.envs cur).envStatus = .dying then [cur]
    else [cur].filter (fun cur => Condemns s tf cur) ++
      (envid2env c s tf.tfRegs.regEdx true).toOption.toList.filter fun e => CondemnsTarget s tf e

theorem mem_roots {c : Cpu} {s : Kernel} {tf : Trapframe} {e : Slot} :
    e ∈ roots c s tf ↔ Root c s tf e := by
  have hok : (envid2env c s tf.tfRegs.regEdx true).toOption = some e ↔
      envid2env c s tf.tfRegs.regEdx true = .ok e := by
    cases envid2env c s tf.tfRegs.regEdx true <;> simp [Except.toOption]
  simp only [roots, List.mem_flatMap, Option.mem_toList]
  constructor
  · rintro ⟨cur, hcur, he⟩
    split at he
    · next hdying =>
        obtain rfl := List.mem_singleton.mp he
        exact .zombie hcur hdying
    · next hlive =>
        simp only [List.mem_append, List.mem_filter, List.mem_singleton, Option.mem_toList,
          decide_eq_true_iff, hok] at he
        rcases he with ⟨rfl, h⟩ | ⟨henv, h⟩
        · exact .self hcur hlive h
        · exact .call hcur hlive h henv
  · intro h
    cases h with
    | zombie hcur hdying => exact ⟨e, hcur, by simp [hdying]⟩
    | self hcur hlive h => exact ⟨e, hcur, by simp [hlive, h]⟩
    | call hcur hlive h henv =>
        refine ⟨_, hcur, ?_⟩
        rw [if_neg hlive, List.mem_append]
        exact .inr (by simp [henv, h, Except.toOption])

/-- The system calls that destroy somebody. -/
theorem Root.calls {c : Cpu} {s : Kernel} {tf : Trapframe} {cur e : Slot} (h : Root c s tf e)
    (hcur : s.curenv c = some cur) (hlive : (s.envs cur).envStatus ≠ .dying)
    (htrap : tf.tfTrapno = T_SYSCALL) :
    ∃ no ∈ [Sysno.cputs, .envDestroy, .envSetPgfaultUpcall], Calls tf no := by
  cases h with
  | zombie hcur' hdying =>
      obtain rfl := Option.some.inj (hcur.symm.trans hcur')
      exact absurd hdying hlive
  | self _ _ h =>
      rcases h with ⟨hcall, -⟩ | ⟨hfault, -⟩ | hother
      · exact ⟨_, by decide, hcall⟩
      · rw [htrap] at hfault
        exact absurd hfault (by decide)
      · refine absurd ?_ hother
        rw [Trapframe.Handled, htrap]
        decide
  | call _ _ h _ =>
      rcases h with hcall | ⟨hcall, -⟩ <;> exact ⟨_, by decide, hcall⟩

/-- The actions of a trap with frame `tf` in state `s`. -/
inductive Allowed (c : Cpu) (s : Kernel) (tf : Trapframe) : Act → Prop
  | start : Allowed c s tf .start
  | save {cur} : s.curenv c = some cur → Allowed c s tf (.save cur tf)
  | ret {cur r} : s.curenv c = some cur → tf.tfTrapno = T_SYSCALL → Allowed c s tf (.ret cur r)
  | redirect {cur} : s.curenv c = some cur → tf.tfTrapno = T_PGFLT →
      Allowed c s tf (.redirect cur)
  | kstore {cur} : s.curenv c = some cur → tf.tfTrapno = T_PGFLT → Allowed c s tf (.kstore cur)
  | tick : tf.tfTrapno = IRQ_OFFSET + IRQ_TIMER → Allowed c s tf .tick
  | preempt : tf.tfTrapno = IRQ_OFFSET + IRQ_TIMER ∨ Calls tf .yield → Allowed c s tf .preempt
  | destroy {e a} : Root c s tf e → a.OfDestroy c s e → Allowed c s tf a
  | status {cur t st} : Calls tf .envSetStatus → s.curenv c = some cur →
      envid2env c s tf.tfRegs.regEdx true = .ok t →
      settableStatus tf.tfRegs.regEcx = some st → (s.envs cur).envStatus ≠ .dying →
      Allowed c s tf (.status cur t st)
  | deliver {cur t} : Calls tf .ipcTrySend → s.curenv c = some cur →
      envid2env c s tf.tfRegs.regEdx false = .ok t → (s.envs t).envIpcRecving = true →
      (s.envs cur).envStatus ≠ .dying → Allowed c s tf (.deliver cur t tf.tfRegs.regEcx)
  | ipcPerm {t perm} : Calls tf .ipcTrySend → envid2env c s tf.tfRegs.regEdx false = .ok t →
      Allowed c s tf (.ipcPerm t perm)
  | recving {cur} : Calls tf .ipcRecv → s.curenv c = some cur → Allowed c s tf (.recving cur)
  | block {cur} : Calls tf .ipcRecv → s.curenv c = some cur →
      Allowed c s tf (.block cur tf.tfRegs.regEdx)
  | sleep {cur} : Calls tf .sleep → s.curenv c = some cur →
      Allowed c s tf (.sleep cur tf.tfRegs.regEdx)
  | priority {cur t} : Calls tf .setpriority → s.curenv c = some cur →
      envid2env c s tf.tfRegs.regEdx true = .ok t →
      Allowed c s tf (.priority cur t tf.tfRegs.regEcx)
  | upcall {t} : Calls tf .envSetPgfaultUpcall → envid2env c s tf.tfRegs.regEdx true = .ok t →
      Allowed c s tf (.upcall t tf.tfRegs.regEcx)
  | exofork {cur e} : Calls tf .exofork → s.curenv c = some cur → s.envFreeList = some e →
      Allowed c s tf (.exofork cur e)
  | thread {cur t} : Calls tf .threadCreate → s.curenv c = some cur → s.envFreeList = some t →
      Allowed c s tf (.thread cur t)
  | pageAlloc {t} : Calls tf .pageAlloc → envid2env c s tf.tfRegs.regEdx true = .ok t →
      Allowed c s tf (.pageNew t tf.tfRegs.regEcx (tf.tfRegs.regEbx ||| PTE_U ||| PTE_P))
  | pageMap {src dst} : Calls tf .pageMap → envid2env c s tf.tfRegs.regEdx true = .ok src →
      envid2env c s tf.tfRegs.regEbx true = .ok dst →
      Allowed c s tf (.pageShare src tf.tfRegs.regEcx dst tf.tfRegs.regEdi
        (PTE_P ||| PTE_U ||| tf.tfRegs.regEsi))
  | pageUnmap {t} : Calls tf .pageUnmap → envid2env c s tf.tfRegs.regEdx true = .ok t →
      Allowed c s tf (.pageDrop t tf.tfRegs.regEcx)
  | ipcPage {t va} : Calls tf .ipcTrySend → envid2env c s tf.tfRegs.regEdx false = .ok t →
      Allowed c s tf (.pageNew t va (tf.tfRegs.regEdi ||| PTE_U ||| PTE_P))
  | ipcShare {cur t va} : Calls tf .ipcTrySend → s.curenv c = some cur →
      envid2env c s tf.tfRegs.regEdx false = .ok t →
      (tf.tfRegs.regEdi ||| PTE_U ||| PTE_P) &&& ~~~PTE_SYSCALL = 0 →
      Allowed c s tf (.pageShare cur tf.tfRegs.regEbx t va (tf.tfRegs.regEdi ||| PTE_U ||| PTE_P))

variable {c : Cpu} {L : Act → Prop}

theorem target_of_envid2env {s : Kernel} {envid : Word} {checkperm : Bool} {e : Slot}
    (h : envid2env c s envid checkperm = .ok e) : Target c s e := by
  unfold envid2env at h
  split at h
  · split at h
    · next cur hcur => exact .inl (Except.ok.inj h ▸ hcur)
    · cases h
  · dsimp only at h
    split at h
    · cases h
    · next hfree =>
        refine .inr ?_
        rw [not_or] at hfree
        split at h <;> split at h
        · cases h
        · exact Except.ok.inj h ▸ hfree.1
        · cases h
        · exact Except.ok.inj h ▸ hfree.1

theorem envid2env_error {s : Kernel} {envid : Word} {checkperm : Bool} {r : ℤ}
    (h : envid2env c s envid checkperm = .error r) : r = -E_BAD_ENV := by
  unfold envid2env at h
  split at h
  · split at h <;> cases h
    rfl
  · dsimp only at h
    split at h
    · cases h
      rfl
    · split at h <;> split at h <;> cases h <;> rfl

/-- Someone the caller may control: itself, or a child. -/
theorem self_or_child_of_envid2env {s : Kernel} {envid : Word} {e : Slot}
    (h : envid2env c s envid true = .ok e) : ∃ cur, s.curenv c = some cur ∧
      (e = cur ∨ (s.envs e).envParentId = (s.envs cur).envId) := by
  unfold envid2env at h
  split at h
  · split at h
    · next cur hcur => exact ⟨cur, hcur, .inl (Except.ok.inj h).symm⟩
    · cases h
  · dsimp only at h
    split at h
    · cases h
    · split at h
      · next cur hcur =>
          split at h
          · cases h
          · next hperm =>
              obtain rfl := Except.ok.inj h
              refine ⟨cur, hcur, ?_⟩
              by_contra hne
              rw [not_or] at hne
              exact hperm ⟨rfl, hne⟩
      · rw [if_pos rfl] at h
        cases h

/-! ## Memory -/

theorem userMemAssert_path {s : Kernel} {e : Slot} {va len perm : Word} (he : Target c s e)
    (hL : FailsCheck s e va len perm → ∀ a, a.OfDestroy c s e → L a) :
    (userMemAssert c s e va len perm).Ensures (Returns c L s) (Exit.Path c L s) := by
  unfold userMemAssert
  refine (ensures_envPgdirOf fun pgdir hpgdir => hpgdir).bind fun pgdir hpgdir => ?_
  split
  · next why hwhy => exact ensures_error.mpr (.panic (onlyPanics_userMemCheck why hwhy))
  · next r hr =>
      split
      · next hneg => exact envDestroy_path he (hL ⟨pgdir, r, hpgdir, hr, hneg⟩)
      · exact ensures_pure.mpr .refl

theorem envDestroy_self_ne_ok {s s' : Kernel} {cur : Slot} (hcur : s.curenv c = some cur) :
    envDestroy c s cur ≠ .ok s' := by
  intro h
  unfold envDestroy at h
  rw [if_neg fun h => h.2 hcur] at h
  cases hfree : envFree c s cur with
  | error x => simp [hfree, bind, Except.bind] at h
  | ok s₁ =>
      have hspec := (envFree_path (L := fun _ => True) (.inl hcur) (fun _ => hcur)
        fun _ _ => trivial).of_ok s₁ hfree
      simp [hfree, bind, Except.bind, hspec.1, hcur] at h

/-- Passing the check, the current environment survives it and nothing has changed. -/
theorem userMemAssert_self {s s' : Kernel} {cur : Slot} {va len perm : Word}
    (hcur : s.curenv c = some cur) (h : userMemAssert c s cur va len perm = .ok s') : s' = s := by
  unfold userMemAssert at h
  cases hpg : envPgdirOf s cur with
  | error x => simp [hpg, bind, Except.bind] at h
  | ok pgdir =>
      simp only [hpg, bind, Except.bind] at h
      split at h
      · cases h
      · split at h
        · exact absurd h (envDestroy_self_ne_ok hcur)
        · exact (Except.ok.inj h).symm

theorem le_of_checkPerm {perm : Word} (h : ¬ checkPerm perm < 0) :
    perm &&& ~~~PTE_SYSCALL = 0 := by
  unfold checkPerm at h
  by_contra hperm
  rw [if_pos hperm] at h
  exact h (by decide)

theorem envPageAlloc_path {s : Kernel} {env : Slot} {va perm : Word} (henv : Target c s env)
    (hva : UserPage va ∨ va = (s.envs env).envIpcDstva) (hL : L (.pageNew env va perm)) :
    (envPageAlloc s env va perm).Ensures
      (fun r => Path c L s r.2 ∧ (∃ m, r.2 = s.setMem m) ∧
        (¬ r.1 < 0 → perm &&& ~~~PTE_SYSCALL = 0))
      (Exit.Path c L s) := by
  unfold envPageAlloc
  dsimp only
  split
  · next herr => exact ensures_pure.mpr ⟨.refl, ⟨s.mem, rfl⟩, fun h => absurd herr h⟩
  · next herr =>
      have hperm := le_of_checkPerm herr
      refine Ensures.bind (Q := fun r => pageAlloc s.mem true = .ok (r.1, r.2.mem) ∧
        r.2 = s.setMem r.2.mem) ?_ ?_
      · rw [Kernel.ensures_withMem]
        exact ⟨fun r hr => ⟨hr, rfl⟩, fun why hwhy => .panic (onlyPanics_pageAlloc why hwhy)⟩
      · rintro ⟨p, s₁⟩ ⟨halloc, hs₁⟩
        dsimp only at halloc hs₁ ⊢
        cases p with
        | none =>
            rcases pageAlloc_eq_ok halloc with ⟨-, -, hm⟩ | ⟨pp, hpp, -⟩
            · rw [hm, setMem_self] at hs₁
              subst hs₁
              exact ensures_pure.mpr ⟨.refl, ⟨_, rfl⟩, fun _ => hperm⟩
            · cases hpp
        | some p =>
            refine (ensures_envPgdirOf fun pgdir hpgdir => hpgdir).bind fun pgdir hpgdir => ?_
            rw [Kernel.ensures_withMem]
            refine ⟨fun r hr => ⟨?_, ?_, fun _ => hperm⟩,
              fun why hwhy => .panic (onlyPanics_pageInsert why hwhy)⟩
            · rw [hs₁] at hpgdir ⊢
              exact .single hL (.pageNew henv hva hperm hpgdir halloc hr)
            · exact ⟨r.2, by rw [hs₁]; rfl⟩

theorem writable_of_perm {perm pte : Word} (h : ¬ perm &&& PTE_W &&& ~~~(PTE_W &&& pte) ≠ 0)
    (hperm : perm &&& PTE_W ≠ 0) : pte &&& PTE_W ≠ 0 := by
  rw [not_not] at h
  intro hpte
  have hnot : ~~~(0 : Word) = BitVec.allOnes 32 := by decide
  rw [BitVec.and_comm PTE_W pte, hpte, hnot, BitVec.and_allOnes] at h
  exact hperm h

theorem envPageMap_path {s : Kernel} {src dst : Slot} {srcva dstva perm : Word}
    (hsrc : Target c s src) (hdst : Target c s dst) (hsrcva : UserPage srcva)
    (hdstva : UserPage dstva ∨ dstva = (s.envs dst).envIpcDstva)
    (hL : L (.pageShare src srcva dst dstva perm)) :
    (envPageMap s src srcva dst dstva perm).Ensures
      (fun r => Path c L s r.2 ∧ ∃ m, r.2 = s.setMem m) (Exit.Path c L s) := by
  unfold envPageMap
  refine (ensures_envPgdirOf fun srcdir h => h).bind fun srcdir hsrcdir => ?_
  refine Ensures.bind (Q := fun r => pageLookup s.mem srcdir srcva = .ok r.1 ∧ r.2 = s) ?_ ?_
  · rw [Kernel.ensures_withMem, ensures_map]
    exact ⟨fun r hr => ⟨hr, rfl⟩, fun why hwhy => .panic (onlyPanics_pageLookup why hwhy)⟩
  · rintro ⟨found, s₁⟩ ⟨hlookup, rfl⟩
    dsimp only at hlookup ⊢
    rcases found with _ | ⟨page, srcpte⟩
    · exact ensures_pure.mpr ⟨.refl, s₁.mem, rfl⟩
    · dsimp only
      split
      · exact ensures_pure.mpr ⟨.refl, s₁.mem, rfl⟩
      · next hw =>
          refine (ensures_envPgdirOf fun dstdir h => h).bind fun dstdir hdstdir => ?_
          rw [Kernel.ensures_withMem]
          refine ⟨fun r hr => ⟨.single hL ?_, r.2, rfl⟩,
            fun why hwhy => .panic (onlyPanics_pageInsert why hwhy)⟩
          exact .pageShare hsrc hdst hsrcva hdstva hsrcdir hdstdir hlookup (writable_of_perm hw) hr

/-! ## System calls -/

/-- A call that creates one environment, or changes nothing. -/
inductive Creates (c : Cpu) (act : Slot → Act) (s : Kernel) : Kernel → Prop
  | nothing : Creates c act s s
  | created {e s'} : s.envFreeList = some e → s'.curenv c = s.curenv c → Micro c (act e) s s' →
      Creates c act s s'

theorem Creates.returns {act : Slot → Act} {s s' : Kernel} (h : Creates c act s s')
    (hL : ∀ e, s.envFreeList = some e → L (act e)) : Returns c L s s' := by
  cases h with
  | nothing => exact .refl
  | created hfree hcurenv hmicro => exact ⟨.single (hL _ hfree) hmicro, hcurenv⟩

theorem sysExofork_creates {s : Kernel} {cur : Slot} (hcur : s.curenv c = some cur) :
    (sysExofork s cur).Ensures (fun r => Creates c (.exofork cur) s r.2) Exit.IsPanic := by
  unfold sysExofork
  refine (ensures_envAlloc (fun r h => h) fun _ _ => Exit.isPanic_stuck).bind
    fun ⟨r, s₁⟩ halloc => ?_
  dsimp only
  split
  · obtain rfl := envAlloc_error halloc
    exact ensures_pure.mpr .nothing
  · next e =>
      have hcurenv := envAlloc_curenv c halloc
      obtain ⟨p, m, hfree, -, -⟩ := envAlloc_eq_ok halloc
      exact ensures_pure.mpr (.created hfree hcurenv (.exofork hcur halloc))

theorem sysThreadCreate_creates {s : Kernel} {cur : Slot} {entry ustackTop : Word}
    (hcur : s.curenv c = some cur) :
    (sysThreadCreate s cur entry ustackTop).Ensures (fun r => Creates c (.thread cur) s r.2)
      Exit.IsPanic := by
  unfold sysThreadCreate
  split
  · exact ensures_pure.mpr .nothing
  · next hargs =>
      simp only [not_or, BitVec.not_le] at hargs
      refine (ensures_envAlloc (fun r h => h) fun _ _ => Exit.isPanic_stuck).bind
        fun ⟨r, s₁⟩ halloc => ?_
      dsimp only
      split
      · obtain rfl := envAlloc_error halloc
        exact ensures_pure.mpr .nothing
      · next t =>
          refine (ensures_envPgdirOf (fun own h => h) fun _ =>
            Exit.isPanic_stuck Panic.noConfusion).bind
            fun own hown => ?_
          refine (ensures_dropPgdir (fun s₂ h => h) fun _ _ => Exit.isPanic_stuck).bind
            fun s₂ hdrop => ?_
          refine (ensures_envPgdirOf (fun shared h => h)
            fun _ => Exit.isPanic_stuck Panic.noConfusion).bind fun shared hshared => ?_
          obtain ⟨p, m₁, hfree, -, -⟩ := envAlloc_eq_ok halloc
          refine ensures_pure.mpr (.created hfree ?_
            (.thread hcur hargs.1 hargs.2.1 halloc hown hdrop hshared))
          obtain ⟨m, -, rfl⟩ := dropPgdir_eq_ok hdrop
          have hcurenv := envAlloc_curenv c halloc
          exact hcurenv

theorem sysExofork_path {s : Kernel} {cur : Slot} (hcur : s.curenv c = some cur)
    (hL : ∀ e, s.envFreeList = some e → L (.exofork cur e)) :
    (sysExofork s cur).Ensures (fun r => Returns c L s r.2) (Exit.Path c L s) :=
  (sysExofork_creates hcur).mono (fun _ h => h.returns hL) fun _ hx => hx.path

theorem sysThreadCreate_path {s : Kernel} {cur : Slot} {entry ustackTop : Word}
    (hcur : s.curenv c = some cur) (hL : ∀ t, s.envFreeList = some t → L (.thread cur t)) :
    (sysThreadCreate s cur entry ustackTop).Ensures (fun r => Returns c L s r.2)
      (Exit.Path c L s) :=
  (sysThreadCreate_creates hcur).mono (fun _ h => h.returns hL) fun _ hx => hx.path

theorem einval_neg : -E_INVAL < 0 := by decide

theorem ipcSendPage_path {s : Kernel} {inp : Input} {cur dst : Slot} {srcva perm : Word}
    (hcur : s.curenv c = some cur) (hdst : Target c s dst) (hsrcva : srcva < UTOP)
    (hrecv : (s.envs dst).envIpcRecving = true)
    (hnew : ∀ va, L (.pageNew dst va (perm ||| PTE_U ||| PTE_P)))
    (hshare : ∀ va, (perm ||| PTE_U ||| PTE_P) &&& ~~~PTE_SYSCALL = 0 →
      L (.pageShare cur srcva dst va (perm ||| PTE_U ||| PTE_P)))
    (hL : ∀ perm, L (.ipcPerm dst perm)) :
    (ipcSendPage s inp cur dst srcva perm).Ensures
      (fun r => Returns c L s r.2 ∧ (¬ r.1 < 0 → Target c r.2 dst ∧
        (r.2.envs dst).envIpcRecving = true))
      (Exit.Path c L s) := by
  unfold ipcSendPage
  split
  · exact ensures_pure.mpr ⟨.refl, fun h => absurd einval_neg h⟩
  · next hoff =>
      rw [not_not] at hoff
      refine Ensures.bind (Q := fun _ => True) ?_ fun srcpte _ => ?_
      -- reading the entry of the sender changes nothing, and panics at worst
      · unfold readSrcpte
        refine (ensures_envPgdirOf fun srcdir _ => trivial).bind fun srcdir _ => ?_
        split
        · next why hwhy => exact ensures_error.mpr (.panic (onlyPanics_pageLookup why hwhy))
        · exact ensures_pure.mpr trivial
        · split
          · exact ensures_pure.mpr trivial
          · exact ensures_error.mpr (.panic Panic.noConfusion)
      · split
        · exact ensures_pure.mpr ⟨.refl, fun h => absurd einval_neg h⟩
        · split
          · exact ensures_pure.mpr ⟨.refl, fun h => absurd einval_neg h⟩
          · dsimp only
            split
            · exact ensures_pure.mpr ⟨.refl, fun _ => ⟨hdst, hrecv⟩⟩
            -- two actions that touch memory, the second in the state that the first has left
            · refine (envPageAlloc_path hdst (.inr rfl) (hnew _)).bind ?_
              rintro ⟨r, s₁⟩ ⟨hpath, ⟨m₁, hs₁⟩, hperm⟩
              dsimp only at hpath hs₁ hperm ⊢
              subst hs₁
              split
              · next hneg => exact ensures_pure.mpr ⟨⟨hpath, rfl⟩, fun h => absurd hneg h⟩
              · next hneg =>
                  have hmap := envPageMap_path (c := c) (s := s.setMem m₁) (.inl hcur) hdst
                    ⟨hsrcva, hoff⟩ (.inr rfl) (hshare _ (hperm hneg))
                  refine (hmap.mono (fun _ h => h) fun _ hx => hx.after hpath).bind ?_
                  rintro ⟨r', s₂⟩ ⟨hpath', m₂, hs₂⟩
                  dsimp only at hpath' hs₂ ⊢
                  subst hs₂
                  have hpath := hpath.trans hpath'
                  split
                  · next hneg => exact ensures_pure.mpr ⟨⟨hpath, rfl⟩, fun h => absurd hneg h⟩
                  · refine ensures_pure.mpr ⟨⟨hpath.step (hL _) (.ipcPerm hdst hrecv), rfl⟩, ?_⟩
                    refine fun _ => ⟨hdst.imp id fun h => ?_, ?_⟩
                    · simpa [setIpcPerm] using h
                    · simpa [setIpcPerm] using hrecv

theorem sysIpcTrySend_path {s : Kernel} {inp : Input} {cur : Slot} {envid value srcva perm : Word}
    (hcur : s.curenv c = some cur)
    (hL : ∀ dst, envid2env c s envid false = .ok dst → (s.envs dst).envIpcRecving = true →
      L (.deliver cur dst value) ∧ (∀ perm, L (.ipcPerm dst perm)) ∧
      (∀ va, L (.pageNew dst va (perm ||| PTE_U ||| PTE_P))) ∧
      ∀ va, (perm ||| PTE_U ||| PTE_P) &&& ~~~PTE_SYSCALL = 0 →
        L (.pageShare cur srcva dst va (perm ||| PTE_U ||| PTE_P))) :
    (sysIpcTrySend c s inp cur envid value srcva perm).Ensures (fun r => Returns c L s r.2)
      (Exit.Path c L s) := by
  unfold sysIpcTrySend
  split
  · exact ensures_pure.mpr .refl
  · next dst hdst =>
      have htarget := target_of_envid2env hdst
      dsimp only
      split
      · exact ensures_pure.mpr .refl
      · next hrecv =>
          rw [Bool.not_eq_false] at hrecv
          obtain ⟨hdeliver, hipcPerm, hnew, hshare⟩ := hL dst hdst hrecv
          split
          · have hperm : Path c L s (setIpcPerm s dst 0) :=
              .single (hipcPerm 0) (.ipcPerm htarget hrecv)
            refine ensures_pure.mpr ⟨hperm.step hdeliver (.deliver hcur ?_ ?_), rfl⟩
            · exact htarget.imp id fun h => by simpa [setIpcPerm] using h
            · simpa [setIpcPerm] using hrecv
          · next hva =>
              refine (ipcSendPage_path hcur htarget (BitVec.not_le.mp hva) hrecv hnew hshare
                hipcPerm).bind ?_
              rintro ⟨r, s₁⟩ ⟨hpath, hok⟩
              dsimp only at hpath hok ⊢
              split
              · exact ensures_pure.mpr hpath
              · next hneg =>
                  obtain ⟨htarget₁, hrecv₁⟩ := hok hneg
                  exact ensures_pure.mpr ⟨hpath.path.step hdeliver
                    (.deliver (hpath.curenv.trans hcur) htarget₁ hrecv₁), hpath.curenv⟩

theorem sysIpcRecv_path {s : Kernel} {cur : Slot} {dstva : Word} (hcur : s.curenv c = some cur)
    (hrecv : L (.recving cur)) (hblock : L (.block cur dstva)) :
    (sysIpcRecv c s cur dstva).Ensures (fun r => Returns c L s r.2) (Exit.Path c L s) := by
  unfold sysIpcRecv
  have hpath : Path c L s (s.modEnv cur fun env => { env with envIpcRecving := true }) :=
    .single hrecv (.recving hcur)
  dsimp only
  split
  · exact ensures_ok.mpr ⟨hpath, rfl⟩
  · next hva =>
      rw [not_or, BitVec.not_le, not_not] at hva
      refine ensures_error.mpr ((schedYield_idle_path fun cur' hcur' => ?_).after
        (hpath.step hblock (.block hcur hva)))
      obtain rfl : cur = cur' := Option.some.inj (hcur.symm.trans hcur')
      simp

theorem sysSleep_path {s : Kernel} {cur : Slot} {n : Word} (hcur : s.curenv c = some cur)
    (hL : L (.sleep cur n)) :
    (sysSleep c s cur n).Ensures (fun r => Returns c L s r.2) (Exit.Path c L s) := by
  unfold sysSleep
  split
  · exact ensures_ok.mpr .refl
  · next hn =>
      refine ensures_error.mpr ((schedYield_idle_path fun cur' hcur' => ?_).after
        (.single hL (.sleep hcur hn)))
      obtain rfl : cur = cur' := Option.some.inj (hcur.symm.trans hcur')
      simp

theorem sysSetpriority_path {s : Kernel} {cur : Slot} {envid priority : Word}
    (hcur : s.curenv c = some cur)
    (hL : ∀ t, envid2env c s envid true = .ok t → L (.priority cur t priority)) :
    Returns c L s (sysSetpriority c s envid priority).2 := by
  unfold sysSetpriority
  split
  · exact .refl
  · next hmax =>
      split
      · exact .refl
      · next t ht =>
          split
          · exact .refl
          · next hself =>
              refine ⟨.single (hL t ht) (.priority hcur (target_of_envid2env ht) hmax ?_), rfl⟩
              rintro rfl hlt
              exact hself ⟨hcur, hlt⟩

theorem sysEnvSetStatus_path {s : Kernel} {cur : Slot} {envid status : Word}
    (hcur : s.curenv c = some cur)
    (hL : ∀ t st, envid2env c s envid true = .ok t → settableStatus status = some st →
      L (.status cur t st)) :
    Returns c L s (sysEnvSetStatus c s envid status).2 := by
  unfold sysEnvSetStatus
  split
  · exact .refl
  · next st hst =>
      split
      · exact .refl
      · next t ht =>
          refine ⟨.single (hL t st ht hst) (.status hcur (target_of_envid2env ht) ?_), rfl⟩
          unfold settableStatus at hst
          split at hst
          · exact .inl (Option.some.inj hst).symm
          · split at hst
            · exact .inr (Option.some.inj hst).symm
            · cases hst

theorem syscall_path {s : Kernel} {inp : Input} {cur : Slot} {tf : Trapframe}
    (hcur : s.curenv c = some cur) (hlive : (s.envs cur).envStatus ≠ .dying)
    (htrap : tf.tfTrapno = T_SYSCALL) :
    (syscall c s inp cur (Sysno.decode tf.tfRegs.regEax) tf.tfRegs.regEdx tf.tfRegs.regEcx
      tf.tfRegs.regEbx tf.tfRegs.regEdi tf.tfRegs.regEsi).Ensures
      (fun r => Returns c (Allowed c s tf) s r.2) (Exit.Path c (Allowed c s tf) s) := by
  have hcalls : ∀ no, Sysno.decode tf.tfRegs.regEax = some no → Calls tf no :=
    fun no h => ⟨htrap, h⟩
  generalize Sysno.decode tf.tfRegs.regEax = no at hcalls
  -- a number that is no call's does nothing
  rcases no with _ | no
  · exact ensures_ok.mpr .refl
  have hcall := hcalls no rfl
  cases no with
  | cputs =>
      refine ensures_map.mpr (userMemAssert_path (.inl hcur) fun hfail a ha => ?_)
      exact .destroy (.self hcur hlive (.inl ⟨hcall, hfail⟩)) ha
  | cgetc => exact ensures_ok.mpr .refl
  | getenvid => exact ensures_ok.mpr .refl
  | envDestroy =>
      show (sysEnvDestroy c s _).Ensures _ _
      unfold sysEnvDestroy
      split
      · exact ensures_pure.mpr .refl
      · next e he =>
          refine (envDestroy_path (target_of_envid2env he) fun a ha => ?_).bind
            fun s' hs' => ensures_pure.mpr hs'
          exact .destroy (.call hcur hlive (.inl hcall) he) ha
  | pageAlloc =>
      show (sysPageAlloc c s _ _ _).Ensures _ _
      unfold sysPageAlloc
      split
      · exact ensures_ok.mpr .refl
      · next hva =>
          rw [not_or, BitVec.not_le, not_not] at hva
          split
          · exact ensures_ok.mpr .refl
          · next env henv =>
              refine (envPageAlloc_path (target_of_envid2env henv) (.inl hva)
                (.pageAlloc hcall henv)).imp ?_
              rintro ⟨r, s'⟩ ⟨hpath, ⟨m, rfl⟩, -⟩
              exact ⟨hpath, rfl⟩
  | pageMap =>
      show (sysPageMap c s _ _ _ _ _).Ensures _ _
      unfold sysPageMap
      split
      · exact ensures_ok.mpr .refl
      · next hsrcva =>
          rw [not_or, BitVec.not_le, not_not] at hsrcva
          split
          · exact ensures_ok.mpr .refl
          · next hdstva =>
              rw [not_or, BitVec.not_le, not_not] at hdstva
              split
              · exact ensures_ok.mpr .refl
              · next src hsrc =>
                  split
                  · exact ensures_ok.mpr .refl
                  · next dst hdst =>
                      refine (envPageMap_path (target_of_envid2env hsrc) (target_of_envid2env hdst)
                        hsrcva (.inl hdstva) (.pageMap hcall hsrc hdst)).imp ?_
                      rintro ⟨r, s'⟩ ⟨hpath, m, rfl⟩
                      exact ⟨hpath, rfl⟩
  | pageUnmap =>
      show (sysPageUnmap c s _ _).Ensures _ _
      unfold sysPageUnmap
      split
      · exact ensures_ok.mpr .refl
      · next hva =>
          rw [not_or, BitVec.not_le, not_not] at hva
          split
          · exact ensures_ok.mpr .refl
          · next env henv =>
              refine (ensures_envPgdirOf fun pgdir h => h).bind fun pgdir hpgdir => ?_
              rw [Kernel.ensures_withMem, ensures_map]
              refine ⟨fun m hm => ⟨.single (.pageUnmap hcall henv) ?_, rfl⟩,
                fun why hwhy => .panic (onlyPanics_pageRemove why hwhy)⟩
              exact .pageDrop (target_of_envid2env henv) hva hpgdir hm
  | exofork => exact sysExofork_path hcur fun e he => .exofork hcall hcur he
  | envSetStatus =>
      exact ensures_ok.mpr (sysEnvSetStatus_path hcur fun t st ht hst =>
        .status hcall hcur ht hst hlive)
  | envSetPgfaultUpcall =>
      show (sysEnvSetPgfaultUpcall c s _ _).Ensures _ _
      unfold sysEnvSetPgfaultUpcall
      split
      · exact ensures_pure.mpr .refl
      · next env henv =>
          refine (userMemAssert_path (target_of_envid2env henv) fun hfail a ha => ?_).bind
            fun s' hs' => ensures_pure.mpr ⟨hs'.path.step (.upcall hcall henv) .upcall, hs'.curenv⟩
          exact .destroy (.call hcur hlive (.inr ⟨hcall, hfail⟩) henv) ha
  | yield => exact ensures_error.mpr (schedYield_path s (.preempt (.inr hcall)))
  | ipcTrySend =>
      refine sysIpcTrySend_path hcur fun dst hdst hrecv =>
        ⟨.deliver hcall hcur hdst hrecv hlive, ?_, ?_, ?_⟩
      · exact fun _ => .ipcPerm hcall hdst
      · exact fun _ => .ipcPage hcall hdst
      · exact fun _ hperm => .ipcShare hcall hcur hdst hperm
  | ipcRecv =>
      exact sysIpcRecv_path hcur (.recving hcall hcur) (.block hcall hcur)
  | sleep => exact sysSleep_path hcur (.sleep hcall hcur)
  | getpriority => exact ensures_ok.mpr .refl
  | setpriority =>
      exact ensures_ok.mpr (sysSetpriority_path hcur fun t ht => .priority hcall hcur ht)
  | threadCreate => exact sysThreadCreate_path hcur fun t ht => .thread hcall hcur ht

/-! ## Page faults -/

theorem length_utrapframe (faultVa : Word) (tf : Trapframe) :
    ((utrapframe faultVa tf).flatMap wordBytes).length = 52 := rfl

/-- The kernel's stores for a fault: the scratch word of a recursive fault, and the frame. -/
theorem pushUtrapframe_eq_ok {m m' : Mem} {pgdir : Ppn} {faultVa tmp : Word} {tf : Trapframe}
    (h : pushUtrapframe m pgdir faultVa tf = .ok (tmp, m')) :
    ∃ m₁ bytes, (m₁ = m ∨ ∃ va, va.toNat + (wordBytes 0).length ≤ UTOP.toNat ∧
        kernStore m pgdir va (wordBytes 0) = .ok m₁) ∧
      tmp.toNat + bytes.length ≤ UTOP.toNat ∧ kernStore m₁ pgdir tmp bytes = .ok m' := by
  unfold pushUtrapframe at h
  obtain ⟨⟨tmp', m₁⟩, hbase, hrest⟩ := bind_eq_ok.mp h
  obtain ⟨m₂, hstore, hrest⟩ := bind_eq_ok.mp hrest
  split at hrest
  · cases hrest
  · obtain ⟨rfl, rfl⟩ := Prod.mk.inj (Except.ok.inj hrest)
    -- both addresses lie on the exception stack, below `UTOP`
    refine ⟨m₁, _, ?_, ?_, hstore⟩ <;> unfold frameBase at hbase <;> split at hbase
    · exact .inl (Prod.mk.inj (Except.ok.inj hbase)).2.symm
    · next hesp =>
        obtain ⟨m₃, hscratch, heq⟩ := map_eq_ok.mp hbase
        obtain ⟨-, rfl⟩ := Prod.mk.inj heq
        refine .inr ⟨_, ?_, hscratch⟩
        rw [not_or, BitVec.not_lt, BitVec.not_lt] at hesp
        have hlen : (wordBytes 0).length = 4 := rfl
        simp only [hlen, exstk, exstkTop, UXSTACKTOP, UTOP, PGSIZE] at hesp ⊢
        bv_omega
    · obtain ⟨rfl, -⟩ := Prod.mk.inj (Except.ok.inj hbase)
      rw [length_utrapframe]
      decide
    · next hesp =>
        obtain ⟨m₃, hscratch, heq⟩ := map_eq_ok.mp hbase
        obtain ⟨rfl, -⟩ := Prod.mk.inj heq
        rw [not_or, BitVec.not_lt, BitVec.not_lt] at hesp
        rw [length_utrapframe]
        simp only [exstk, exstkTop, UXSTACKTOP, UTOP, PGSIZE, UTF_SIZE] at hesp ⊢
        bv_omega

theorem onlyPanics_pushUtrapframe {m : Mem} {pgdir : Ppn} {faultVa : Word} {tf : Trapframe} :
    OnlyPanics (pushUtrapframe m pgdir faultVa tf) := by
  have hbase : ∀ esp : Word, OnlyPanics (frameBase m pgdir esp) :=
    fun esp => .ite .ok (.map onlyPanics_kernStore)
  exact (hbase _).bind fun _ => onlyPanics_kernStore.bind fun _ =>
    .ite (.error Panic.noConfusion) .pure

theorem pageFaultHandler_path {s : Kernel} {inp : Input} {cur : Slot} {tf : Trapframe}
    (hcur : s.curenv c = some cur) (hlive : (s.envs cur).envStatus ≠ .dying)
    (htrap : tf.tfTrapno = T_PGFLT) :
    (pageFaultHandler c s inp cur).Ensures (Returns c (Allowed c s tf) s)
      (Exit.Path c (Allowed c s tf) s) := by
  unfold pageFaultHandler
  dsimp only
  split
  · next hnone =>
      exact envDestroy_path (.inl hcur) fun a ha =>
        .destroy (.self hcur hlive (.inr (.inl ⟨htrap, .inl hnone⟩))) ha
  · next hupcall =>
      have hassert : (userMemAssert c s cur exstk PGSIZE (PTE_U ||| PTE_W)).Ensures
          (Returns c (Allowed c s tf) s) (Exit.Path c (Allowed c s tf) s) :=
        userMemAssert_path (.inl hcur) fun hfail a ha =>
          .destroy (.self hcur hlive (.inr (.inl ⟨htrap, .inr hfail⟩))) ha
      -- the assertion passes without any change, or destroys the faulting environment
      refine Ensures.bind (Q := fun s' => s' = s) ?_ ?_
      · exact ⟨fun s' h => userMemAssert_self hcur h, hassert.of_error⟩
      · rintro s' rfl
        refine (ensures_envPgdirOf fun pgdir h => h).bind fun pgdir hpgdir => ?_
        refine Ensures.bind (Q := fun r => ∃ m,
          pushUtrapframe s'.mem pgdir inp.cr2 (s'.envs cur).envTf = .ok (r.1, m) ∧
            r.2 = s'.setMem m) ?_ ?_
        · rw [Kernel.ensures_withMem]
          exact ⟨fun r hr => ⟨r.2, hr, rfl⟩,
            fun why hwhy => .panic (onlyPanics_pushUtrapframe why hwhy)⟩
        · rintro ⟨tmp, s₁⟩ ⟨m, hpush, rfl⟩
          -- a recursive fault stores a scratch word first, then the frame as any other
          obtain ⟨m₁, bytes, hscratch, hlen, hstore⟩ := pushUtrapframe_eq_ok hpush
          have hpath₁ : Path c (Allowed c s' tf) s' (s'.setMem m₁) := by
            rcases hscratch with rfl | ⟨va, hva, hstore₁⟩
            · exact .refl
            · exact .single (.kstore hcur htrap) (.kstore (.inl hcur) hpgdir hva hstore₁)
          have hpath₂ : Path c (Allowed c s' tf) s' (s'.setMem m) := by
            have hframe : Micro c (.kstore cur) (s'.setMem m₁) (s'.setMem m) :=
              .kstore (s := s'.setMem m₁) (.inl hcur) hpgdir hlen hstore
            exact hpath₁.step (.kstore hcur htrap) hframe
          refine ensures_error.mpr ((envRun_path ?_).after (hpath₂.step (.redirect hcur htrap)
            (.redirect hcur hupcall)))
          exact hcur

/-! ## Traps -/

/-- The state in which `trap_dispatch` runs. -/
def saved (c : Cpu) (s : Kernel) (cur : Slot) (tf : Trapframe) : Kernel :=
  (started c s).modEnv cur fun env => { env with envTf := tf }

@[simp] theorem started_curenv {s : Kernel} {d : Cpu} : (started c s).curenv d = s.curenv d :=
  s.modCpu_curenv c d _ fun _ => rfl

@[simp] theorem started_envs {s : Kernel} : (started c s).envs = s.envs := rfl

@[simp] theorem saved_curenv {s : Kernel} {cur : Slot} {tf : Trapframe} {d : Cpu} :
    (saved c s cur tf).curenv d = s.curenv d := started_curenv

/-- Saving the trap frame changes nothing else in the table. -/
theorem saved_envs {s : Kernel} {cur : Slot} {tf : Trapframe} (e : Slot) :
    (saved c s cur tf).envs e =
      { s.envs e with envTf := if e = cur then tf else (s.envs e).envTf } := by
  unfold saved
  rw [Kernel.modEnv_apply]
  split <;> simp [*]

/-- `envid2env` reads only `curenv`, the ids, the parents and which slots are free. -/
theorem envid2env_congr {s s' : Kernel} (hcur : s'.curenv c = s.curenv c)
    (hid : ∀ e, (s'.envs e).envId = (s.envs e).envId)
    (hparent : ∀ e, (s'.envs e).envParentId = (s.envs e).envParentId)
    (hstatus : ∀ e, (s'.envs e).envStatus = .free ↔ (s.envs e).envStatus = .free)
    (envid : Word) (checkperm : Bool) :
    envid2env c s' envid checkperm = envid2env c s envid checkperm := by
  simp only [envid2env, hcur, hid, hparent, hstatus]

@[simp] theorem envid2env_saved {s : Kernel} {cur : Slot} {tf : Trapframe} {envid : Word}
    {checkperm : Bool} :
    envid2env c (saved c s cur tf) envid checkperm = envid2env c s envid checkperm :=
  envid2env_congr saved_curenv (fun e => by rw [saved_envs]) (fun e => by rw [saved_envs])
    (fun e => by rw [saved_envs]) envid checkperm

@[simp] theorem isThreadOf_saved {s : Kernel} {cur : Slot} {tf : Trapframe} {e t : Slot} :
    isThreadOf (saved c s cur tf) e t = isThreadOf s e t := by
  simp only [isThreadOf, saved_envs]

theorem ofDestroy_saved {s : Kernel} {cur : Slot} {tf : Trapframe} {e : Slot} {a : Act}
    (h : a.OfDestroy c (saved c s cur tf) e) : a.OfDestroy c s e := by
  cases a with
  | dying t | freeThread t st | freeProcess t st =>
      simpa [Act.OfDestroy, FreesNow, saved_envs] using h
  | _ => exact absurd h id

theorem ofDestroy_started {s : Kernel} {e : Slot} {a : Act}
    (h : a.OfDestroy c (started c s) e) : a.OfDestroy c s e := by
  cases a with
  | dying t => exact h
  | freeThread t st | freeProcess t st =>
      exact ⟨fun hrun => started_curenv.symm.trans (h.1 hrun), h.2⟩
  | _ => exact absurd h id

theorem failsCheck_saved {s : Kernel} {cur e : Slot} {tf : Trapframe} {va len perm : Word} :
    FailsCheck (saved c s cur tf) e va len perm ↔ FailsCheck s e va len perm := by
  unfold FailsCheck
  rw [saved_envs]
  rfl

/-- Saving the trap frame condemns nobody else. -/
theorem Root.of_saved {s : Kernel} {cur e : Slot} {tf : Trapframe}
    (h : Root c (saved c s cur tf) tf e) : Root c s tf e := by
  cases h with
  | zombie hcur hdying => exact .zombie (saved_curenv ▸ hcur) (by rwa [saved_envs] at hdying)
  | self hcur hlive h =>
      refine .self (saved_curenv ▸ hcur) (by rwa [saved_envs] at hlive) ?_
      simpa only [Condemns, failsCheck_saved, saved_envs] using h
  | call hcur hlive h henv =>
      refine .call (saved_curenv ▸ hcur) (by rwa [saved_envs] at hlive) ?_ (envid2env_saved ▸ henv)
      simpa only [CondemnsTarget, failsCheck_saved] using h

theorem Allowed.of_saved {s : Kernel} {cur : Slot} {tf : Trapframe} {a : Act}
    (h : Allowed c (saved c s cur tf) tf a) : Allowed c s tf a := by
  cases h with
  | start => exact .start
  | save h => exact .save (saved_curenv ▸ h)
  | ret h h' => exact .ret (saved_curenv ▸ h) h'
  | redirect h h' => exact .redirect (saved_curenv ▸ h) h'
  | kstore h h' => exact .kstore (saved_curenv ▸ h) h'
  | tick h => exact .tick h
  | preempt h => exact .preempt h
  | destroy hroot ha => exact .destroy hroot.of_saved (ofDestroy_saved ha)
  | status h h' h'' hst hlive =>
      exact .status h (saved_curenv ▸ h') (envid2env_saved ▸ h'') hst
        (by rwa [saved_envs] at hlive)
  | deliver h h' h'' hrecv hlive =>
      exact .deliver h (saved_curenv ▸ h') (envid2env_saved ▸ h'')
        (by rwa [saved_envs] at hrecv) (by rwa [saved_envs] at hlive)
  | ipcPerm h h' => exact .ipcPerm h (envid2env_saved ▸ h')
  | recving h h' => exact .recving h (saved_curenv ▸ h')
  | block h h' => exact .block h (saved_curenv ▸ h')
  | sleep h h' => exact .sleep h (saved_curenv ▸ h')
  | priority h h' h'' => exact .priority h (saved_curenv ▸ h') (envid2env_saved ▸ h'')
  | upcall h h' => exact .upcall h (envid2env_saved ▸ h')
  | exofork h h' h'' => exact .exofork h (saved_curenv ▸ h') h''
  | thread h h' h'' => exact .thread h (saved_curenv ▸ h') h''
  | pageAlloc h h' => exact .pageAlloc h (envid2env_saved ▸ h')
  | pageMap h h' h'' => exact .pageMap h (envid2env_saved ▸ h') (envid2env_saved ▸ h'')
  | pageUnmap h h' => exact .pageUnmap h (envid2env_saved ▸ h')
  | ipcPage h h' => exact .ipcPage h (envid2env_saved ▸ h')
  | ipcShare h h' h'' hperm =>
      exact .ipcShare h (saved_curenv ▸ h') (envid2env_saved ▸ h'') hperm

theorem trapDispatch_path {s : Kernel} {inp : Input} {cur : Slot} {tf : Trapframe}
    (hcur : s.curenv c = some cur) (hlive : (s.envs cur).envStatus ≠ .dying) :
    (trapDispatch c s inp cur tf).Ensures (Returns c (Allowed c s tf) s)
      (Exit.Path c (Allowed c s tf) s) := by
  have hclock : ∀ trapno : Word, trapno - IRQ_OFFSET = IRQ_TIMER →
      trapno = IRQ_OFFSET + IRQ_TIMER := fun trapno h => by
    rw [← h]
    bv_omega
  unfold trapDispatch
  dsimp only
  split
  · exact ensures_ok.mpr .refl
  next hbrkpt =>
  split
  · next htrap => exact pageFaultHandler_path hcur hlive htrap
  next hfault =>
  split
  · next htrap =>
      refine (syscall_path hcur hlive htrap).bind ?_
      rintro ⟨r, s'⟩ ⟨hpath, hcur'⟩
      exact ensures_pure.mpr ⟨hpath.step (.ret hcur htrap) (.ret (hcur'.trans hcur)), hcur'⟩
  next hsyscall =>
  split
  · exact ensures_ok.mpr .refl
  next hspurious =>
  split
  · next htimer =>
      have htick := hclock _ htimer
      refine ensures_error.mpr ((schedYield_path _ (.preempt (.inl htick))).after ?_)
      exact .single (.tick htick) .tick
  · next htimer =>
      have hother : ¬ tf.Handled := by
        have hne : tf.tfTrapno ≠ IRQ_OFFSET + IRQ_TIMER := fun h => htimer (by rw [h]; decide)
        simp [Trapframe.Handled, hbrkpt, hfault, hsyscall, hspurious, hne]
      exact envDestroy_path (.inl hcur) fun a ha =>
        .destroy (.self hcur hlive (.inr (.inr hother))) ha

theorem trapReturn_path (s : Kernel) : (trapReturn c s).Path c L s := by
  unfold trapReturn
  split
  · next cur hcur =>
      split
      · exact envRun_path hcur
      · next hrun =>
          refine schedYield_idle_path fun cur' hcur' => ?_
          obtain rfl : cur = cur' := Option.some.inj (hcur.symm.trans hcur')
          exact hrun
  · next hnone =>
      refine schedYield_idle_path fun cur hcur => ?_
      rw [hnone] at hcur
      cases hcur

theorem finish_path {s : Kernel} {x : Except Exit Kernel} {k : Kernel → Exit}
    (h : x.Ensures (fun s' => (k s').Path c L s) (Exit.Path c L s)) : (finish x k).Path c L s := by
  cases x with
  | ok s' => exact h.of_ok s' rfl
  | error exit => exact h.of_error exit rfl

/-- A zombie that traps is freed. -/
theorem trap_zombie_path {s : Kernel} {inp : Input} {tf : Trapframe} {cur : Slot}
    (hcur : s.curenv c = some cur) (hdying : (s.envs cur).envStatus = .dying) (hstart : L .start)
    (hL : ∀ a, a.OfDestroy c s cur → L a) : (trap c s inp tf).Path c L s := by
  have hstarted : Path c L s (started c s) := .single hstart .start
  have hcur' : (started c s).curenv c = some cur := started_curenv.trans hcur
  unfold trap
  simp only [hcur']
  rw [started_envs, if_pos hdying]
  refine finish_path ?_
  have hfree := envFree_path (L := L) (s := started c s) (e := cur) (.inl hcur') (fun _ => hcur')
    fun a ha => hL a (ofDestroy_started ha)
  refine hfree.mono ?_ fun x hx => hx.after hstarted
  rintro s' ⟨hcurenv, hpath⟩
  rw [forget, if_pos (hcurenv.trans hcur')] at hpath
  exact schedYield_none_path.after (hstarted.trans hpath)

/-- A trap performs allowed actions only. -/
theorem trap_path (s : Kernel) (inp : Input) (tf : Trapframe) :
    (trap c s inp tf).Path c (Allowed c s tf) s := by
  cases hcur : s.curenv c with
  | none =>
      have hcur' : (started c s).curenv c = none := started_curenv.trans hcur
      unfold trap
      simp only [hcur']
      exact .panic Panic.noConfusion
  | some cur =>
      by_cases hdying : (s.envs cur).envStatus = .dying
      · exact trap_zombie_path hcur hdying .start fun a ha => .destroy (.zombie hcur hdying) ha
      · have hcur' : (started c s).curenv c = some cur := started_curenv.trans hcur
        have hsaved : Path c (Allowed c s tf) s (saved c s cur tf) :=
          Path.step (.single .start .start) (.save hcur) (.save hcur')
        unfold trap
        simp only [hcur']
        rw [started_envs, if_neg hdying]
        refine finish_path ?_
        have hlive : ((saved c s cur tf).envs cur).envStatus ≠ .dying := by rwa [saved_envs]
        refine (trapDispatch_path (saved_curenv.trans hcur) hlive).mono ?_
          fun x hx => (hx.mono fun a ha => ha.of_saved).after hsaved
        rintro s' ⟨hpath, hcurenv⟩
        exact (trapReturn_path s').after (hsaved.trans (hpath.mono fun a ha => ha.of_saved))

/-- What happens outside a trap. -/
def Act.IsIdle : Act → Prop
  | .start | .tick | .preempt => True
  | _ => False

theorem trapHalted_path (s : Kernel) : (trapHalted c s).Path c Act.IsIdle s := by
  have hstart : Path c Act.IsIdle s (started c s) := .single (a := .start) trivial .start
  unfold trapHalted timerInterrupt
  exact (schedYield_path _ trivial).after (hstart.step (a := .tick) trivial .tick)

theorem mpMain_path (s : Kernel) : (mpMain c s).Path c Act.IsIdle s :=
  (schedYield_path _ trivial).after (.single (a := .start) trivial .start)

end JosSched
