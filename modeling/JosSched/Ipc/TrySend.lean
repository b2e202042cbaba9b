import JosSched.Kern.TrapPaths
import JosSched.Kern.TrapSpec
import JosSched.Sched.Decision

/-!
# What the system calls of a rendezvous leave behind

The state in which the scheduler decides, for each of the calls `sys_ipc_recv`,
`sys_ipc_try_send`, `sys_sleep` and `sys_yield` and for the clock.
-/

open Except

namespace JosSched

variable {c : Cpu} {s s' : Kernel} {cur : Slot} {tf : Trapframe} {inp : Input}

/-! ## `sys_ipc_try_send` -/

theorem setIpcPerm_self {e : Slot} : setIpcPerm s e (s.envs e).envIpcPerm = s := by
  unfold setIpcPerm Kernel.modEnv
  rw [Function.update_eq_self]

theorem envPageAlloc_setMem {env : Slot} {va perm : Word} {r : ℤ}
    (h : envPageAlloc s env va perm = .ok (r, s')) : ∃ m, s' = s.setMem m := by
  unfold envPageAlloc at h
  dsimp only at h
  split at h
  · exact ⟨s.mem, (Prod.mk.inj (Except.ok.inj h)).2.symm⟩
  · obtain ⟨⟨p, s₁⟩, halloc, h⟩ := bind_eq_ok.mp h
    obtain ⟨m, -, rfl⟩ := withMem_eq_ok halloc
    dsimp only at h
    split at h
    · exact ⟨m, (Prod.mk.inj (Except.ok.inj h)).2.symm⟩
    · obtain ⟨pgdir, -, h⟩ := bind_eq_ok.mp h
      obtain ⟨m', -, rfl⟩ := withMem_eq_ok h
      exact ⟨m', rfl⟩

theorem envPageMap_setMem {src dst : Slot} {srcva dstva perm : Word} {r : ℤ}
    (h : envPageMap s src srcva dst dstva perm = .ok (r, s')) : ∃ m, s' = s.setMem m := by
  unfold envPageMap at h
  obtain ⟨srcdir, -, h⟩ := bind_eq_ok.mp h
  obtain ⟨⟨found, s₁⟩, hlookup, h⟩ := bind_eq_ok.mp h
  obtain ⟨m, -, rfl⟩ := withMem_eq_ok hlookup
  dsimp only at h
  split at h
  · exact ⟨m, (Prod.mk.inj (Except.ok.inj h)).2.symm⟩
  · split at h
    · exact ⟨m, (Prod.mk.inj (Except.ok.inj h)).2.symm⟩
    · obtain ⟨dstdir, -, h⟩ := bind_eq_ok.mp h
      obtain ⟨m', -, rfl⟩ := withMem_eq_ok h
      exact ⟨m', rfl⟩

/-- `env_ipc_perm` of the receiver after a send: it is not written when the sender has a page and
the receiver does not want one. -/
def ipcPermAfter (dst : Env) (srcva perm : Word) : Word :=
  if UTOP ≤ srcva then 0
  else if dst.envIpcDstva = 0 then dst.envIpcPerm
  else perm ||| PTE_U ||| PTE_P

/-- The page transfer fails and only memory has changed, or it succeeds and `env_ipc_perm` of
the receiver may have changed too. -/
theorem ipcSendPage_eq_ok {dst : Slot} {srcva perm : Word} {r : ℤ} (hva : ¬ UTOP ≤ srcva)
    (h : ipcSendPage s inp cur dst srcva perm = .ok (r, s')) :
    (r < 0 ∧ ∃ m, s' = s.setMem m) ∨
      (r = 0 ∧ ∃ m, s' = setIpcPerm (s.setMem m) dst (ipcPermAfter (s.envs dst) srcva perm)) := by
  -- the two checks that refuse before anything is written
  have hinval : ∀ {x : ℤ × Kernel}, (pure (-E_INVAL, s) : Except Exit _) = .ok x →
      x = (r, s') → r < 0 ∧ ∃ m, s' = s.setMem m := by
    rintro _ hx rfl
    obtain ⟨rfl, rfl⟩ := Prod.mk.inj (Except.ok.inj hx)
    exact ⟨by decide, s.mem, rfl⟩
  unfold ipcSendPage at h
  split at h
  · exact .inl (hinval h rfl)
  · obtain ⟨srcpte, -, h⟩ := bind_eq_ok.mp h
    split at h
    · exact .inl (hinval h rfl)
    · split at h
      · exact .inl (hinval h rfl)
      · dsimp only at h
        split at h
        · next hdstva =>
            obtain ⟨rfl, rfl⟩ := Prod.mk.inj (Except.ok.inj h)
            refine .inr ⟨rfl, s.mem, ?_⟩
            rw [ipcPermAfter, if_neg hva, if_pos hdstva]
            exact setIpcPerm_self.symm
        · next hdstva =>
            obtain ⟨⟨r₁, s₁⟩, halloc, h⟩ := bind_eq_ok.mp h
            obtain ⟨m₁, rfl⟩ := envPageAlloc_setMem halloc
            dsimp only at h
            split at h
            · next hneg =>
                obtain ⟨rfl, rfl⟩ := Prod.mk.inj (Except.ok.inj h)
                exact .inl ⟨hneg, m₁, rfl⟩
            · obtain ⟨⟨r₂, s₂⟩, hmap, h⟩ := bind_eq_ok.mp h
              obtain ⟨m₂, rfl⟩ := envPageMap_setMem hmap
              dsimp only at h
              split at h
              · next hneg =>
                  obtain ⟨rfl, rfl⟩ := Prod.mk.inj (Except.ok.inj h)
                  exact .inl ⟨hneg, m₂, rfl⟩
              · obtain ⟨rfl, rfl⟩ := Prod.mk.inj (Except.ok.inj h)
                refine .inr ⟨rfl, m₂, ?_⟩
                rw [ipcPermAfter, if_neg hva, if_neg hdstva]
                rfl

/-- A send fails and changes memory at most, or it delivers to a receiver that has its flag
set. -/
theorem sysIpcTrySend_eq_ok {envid value srcva perm : Word} {r : ℤ}
    (h : sysIpcTrySend c s inp cur envid value srcva perm = .ok (r, s')) :
    (r < 0 ∧ ∃ m, s' = s.setMem m) ∨
      (r = 0 ∧ ∃ dst m, envid2env c s envid false = .ok dst ∧
        (s.envs dst).envIpcRecving = true ∧ s' = ipcDeliver
          (setIpcPerm (s.setMem m) dst (ipcPermAfter (s.envs dst) srcva perm)) cur dst value) := by
  unfold sysIpcTrySend at h
  split at h
  · next r' henv =>
      obtain ⟨rfl, rfl⟩ := Prod.mk.inj (Except.ok.inj h)
      exact .inl ⟨by rw [envid2env_error henv]; decide, s.mem, rfl⟩
  · next dst hdst =>
      dsimp only at h
      split at h
      · obtain ⟨rfl, rfl⟩ := Prod.mk.inj (Except.ok.inj h)
        exact .inl ⟨by decide, s.mem, rfl⟩
      · next hrecv =>
          rw [Bool.not_eq_false] at hrecv
          split at h
          · next hva =>
              obtain ⟨rfl, rfl⟩ := Prod.mk.inj (Except.ok.inj h)
              refine .inr ⟨rfl, dst, s.mem, hdst, hrecv, ?_⟩
              rw [ipcPermAfter, if_pos hva]
              rfl
          · next hva =>
              obtain ⟨⟨r₁, s₁⟩, hpage, h⟩ := bind_eq_ok.mp h
              dsimp only at h
              rcases ipcSendPage_eq_ok hva hpage with ⟨hneg, m, rfl⟩ | ⟨rfl, m, rfl⟩
              · rw [if_pos hneg] at h
                obtain ⟨rfl, rfl⟩ := Prod.mk.inj (Except.ok.inj h)
                exact .inl ⟨hneg, m, rfl⟩
              · rw [if_neg (by decide)] at h
                obtain ⟨rfl, rfl⟩ := Prod.mk.inj (Except.ok.inj h)
                exact .inr ⟨rfl, dst, m, hdst, hrecv, rfl⟩

/-! ## The results of a send -/

/-- The result fits in the register that it is returned in. -/
def SmallResult {α : Type} (x : Except Exit (ℤ × α)) : Prop :=
  ∀ r a, x = .ok (r, a) → -8 < r ∧ r ≤ 0

namespace SmallResult

variable {α β γ : Type} {x : Except Exit β} {f : β → Except Exit (ℤ × α)}

theorem pure {r : ℤ} {a : α} (h : -8 < r ∧ r ≤ 0) :
    SmallResult (Pure.pure (r, a) : Except Exit (ℤ × α)) := by
  intro r' a' heq
  obtain ⟨rfl, -⟩ := Prod.mk.inj (Except.ok.inj heq)
  exact h

theorem bind (h : ∀ b, SmallResult (f b)) : SmallResult (x >>= f) := by
  intro r a heq
  obtain ⟨b, -, hb⟩ := bind_eq_ok.mp heq
  exact h b r a hb

end SmallResult

theorem pageInsert_small {m m' : Mem} {pgdir pp : Ppn} {va perm : Word} {r : ℤ}
    (h : pageInsert m pgdir pp va perm = .ok (r, m')) : -8 < r ∧ r ≤ 0 := by
  unfold pageInsert at h
  obtain ⟨⟨pte, m₁⟩, -, h⟩ := bind_eq_ok.mp h
  dsimp only at h
  split at h
  · obtain ⟨rfl, -⟩ := Prod.mk.inj (Except.ok.inj h)
    decide
  · obtain ⟨m₂, -, h⟩ := bind_eq_ok.mp h
    obtain ⟨rfl, -⟩ := Prod.mk.inj (Except.ok.inj h)
    decide

theorem withMem_pageInsert_small {m : Mem} {pgdir pp : Ppn} {va perm : Word} :
    SmallResult (s.withMem (pageInsert m pgdir pp va perm)) := by
  intro r s₁ heq
  obtain ⟨m', hinsert, -⟩ := withMem_eq_ok heq
  exact pageInsert_small hinsert

theorem checkPerm_small (perm : Word) : -8 < checkPerm perm ∧ checkPerm perm ≤ 0 := by
  unfold checkPerm
  split
  · decide
  · split <;> decide

theorem envPageAlloc_small {env : Slot} {va perm : Word} :
    SmallResult (envPageAlloc s env va perm) := by
  unfold envPageAlloc
  dsimp only
  split
  · exact .pure (checkPerm_small perm)
  · refine .bind fun ⟨p, _⟩ => ?_
    dsimp only
    split
    · exact .pure (by decide)
    · exact .bind fun _ => withMem_pageInsert_small

theorem envPageMap_small {src dst : Slot} {srcva dstva perm : Word} :
    SmallResult (envPageMap s src srcva dst dstva perm) := by
  unfold envPageMap
  refine .bind fun _ => .bind fun ⟨found, _⟩ => ?_
  dsimp only
  split
  · exact .pure (by decide)
  · split
    · exact .pure (by decide)
    · exact .bind fun _ => withMem_pageInsert_small

theorem ipcSendPage_small {dst : Slot} {srcva perm : Word} :
    SmallResult (ipcSendPage s inp cur dst srcva perm) := by
  unfold ipcSendPage
  split
  · exact .pure (by decide)
  · refine .bind fun _ => ?_
    split
    · exact .pure (by decide)
    · split
      · exact .pure (by decide)
      · dsimp only
        split
        · exact .pure (by decide)
        · intro r s₁ heq
          obtain ⟨⟨r₁, s₂⟩, halloc, heq⟩ := bind_eq_ok.mp heq
          dsimp only at heq
          split at heq
          · obtain ⟨rfl, -⟩ := Prod.mk.inj (Except.ok.inj heq)
            exact envPageAlloc_small _ _ halloc
          · obtain ⟨⟨r₃, s₃⟩, hmap, heq⟩ := bind_eq_ok.mp heq
            dsimp only at heq
            split at heq
            · obtain ⟨rfl, -⟩ := Prod.mk.inj (Except.ok.inj heq)
              exact envPageMap_small _ _ hmap
            · obtain ⟨rfl, -⟩ := Prod.mk.inj (Except.ok.inj heq)
              decide

theorem sysIpcTrySend_small {envid value srcva perm : Word} :
    SmallResult (sysIpcTrySend c s inp cur envid value srcva perm) := by
  unfold sysIpcTrySend
  split
  · next r henv =>
      rw [envid2env_error henv]
      exact .pure (by decide)
  · dsimp only
    split
    · exact .pure (by decide)
    · split
      · exact .pure (by decide)
      · intro r s₁ heq
        obtain ⟨⟨r₁, s₂⟩, hpage, heq⟩ := bind_eq_ok.mp heq
        dsimp only at heq
        split at heq
        · obtain ⟨rfl, -⟩ := Prod.mk.inj (Except.ok.inj heq)
          exact ipcSendPage_small _ _ hpage
        · obtain ⟨rfl, -⟩ := Prod.mk.inj (Except.ok.inj heq)
          decide

/-! ## A send never leaves the kernel by itself -/

/-- The CPU stays in the kernel for good. -/
def Exit.Stays (x : Exit) : Prop := ∀ s', x ≠ .leave s'

theorem Exit.stays_stuck {why : Panic} : (Exit.stuck why s).Stays := fun _ => Exit.noConfusion

theorem Kernel.withMem_stays {α : Type} {x : Except Panic (α × Mem)} :
    (s.withMem x).Ensures (fun _ => True) Exit.Stays :=
  Kernel.ensures_withMem.mpr ⟨fun _ _ => trivial, fun _ _ => Exit.stays_stuck⟩

theorem envPgdirOf_stays {e : Slot} : (envPgdirOf s e).Ensures (fun _ => True) Exit.Stays :=
  ensures_envPgdirOf (fun _ _ => trivial) fun _ => Exit.stays_stuck

theorem envPageAlloc_stays {env : Slot} {va perm : Word} :
    (envPageAlloc s env va perm).Ensures (fun _ => True) Exit.Stays := by
  unfold envPageAlloc
  dsimp only
  split
  · exact ensures_pure.mpr trivial
  · refine Kernel.withMem_stays.bind fun ⟨_, _⟩ _ => ?_
    dsimp only
    split
    · exact ensures_pure.mpr trivial
    · exact envPgdirOf_stays.bind fun _ _ => Kernel.withMem_stays

theorem envPageMap_stays {src dst : Slot} {srcva dstva perm : Word} :
    (envPageMap s src srcva dst dstva perm).Ensures (fun _ => True) Exit.Stays := by
  unfold envPageMap
  refine envPgdirOf_stays.bind fun _ _ => Kernel.withMem_stays.bind fun ⟨_, _⟩ _ => ?_
  dsimp only
  split
  · exact ensures_pure.mpr trivial
  · split
    · exact ensures_pure.mpr trivial
    · exact envPgdirOf_stays.bind fun _ _ => Kernel.withMem_stays

theorem readSrcpte_stays {srcva : Word} :
    (readSrcpte s inp cur srcva).Ensures (fun _ => True) Exit.Stays := by
  unfold readSrcpte
  refine envPgdirOf_stays.bind fun _ _ => ?_
  split
  · exact ensures_error.mpr Exit.stays_stuck
  · exact ensures_pure.mpr trivial
  · split
    · exact ensures_pure.mpr trivial
    · exact ensures_error.mpr Exit.stays_stuck

theorem ipcSendPage_stays {dst : Slot} {srcva perm : Word} :
    (ipcSendPage s inp cur dst srcva perm).Ensures (fun _ => True) Exit.Stays := by
  unfold ipcSendPage
  split
  · exact ensures_pure.mpr trivial
  · refine readSrcpte_stays.bind fun _ _ => ?_
    split
    · exact ensures_pure.mpr trivial
    · split
      · exact ensures_pure.mpr trivial
      · dsimp only
        split
        · exact ensures_pure.mpr trivial
        · refine envPageAlloc_stays.bind fun ⟨_, _⟩ _ => ?_
          dsimp only
          split
          · exact ensures_pure.mpr trivial
          · refine envPageMap_stays.bind fun ⟨_, _⟩ _ => ?_
            dsimp only
            split <;> exact ensures_pure.mpr trivial

theorem sysIpcTrySend_stays {envid value srcva perm : Word} :
    (sysIpcTrySend c s inp cur envid value srcva perm).Ensures (fun _ => True) Exit.Stays := by
  unfold sysIpcTrySend
  split
  · exact ensures_pure.mpr trivial
  · dsimp only
    split
    · exact ensures_pure.mpr trivial
    · split
      · exact ensures_pure.mpr trivial
      · refine ipcSendPage_stays.bind fun ⟨_, _⟩ _ => ?_
        dsimp only
        split <;> exact ensures_pure.mpr trivial

/-- A trap whose handler returned ends in a scheduling decision, if only to resume. -/
theorem trapReturn_decided (h : trapReturn c s = .leave s') : Decided c s s' := by
  unfold trapReturn at h
  split at h
  · next cur hcur =>
      split at h
      · next hrun =>
          exact .ran .refl (.inr ⟨hcur, hrun⟩) (envRun_eq_leave h)
      · exact schedYield_decided h
  · exact schedYield_decided h

/-- A caller that is still running is resumed. -/
theorem trapReturn_running (hcur : s.curenv c = some cur)
    (hrun : (s.envs cur).envStatus = .running) (h : trapReturn c s = .leave s') :
    Ran c s cur s' := by
  unfold trapReturn at h
  simp only [hcur, hrun, if_true] at h
  exact envRun_eq_leave h

end JosSched
