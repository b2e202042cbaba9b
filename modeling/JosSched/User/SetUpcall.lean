import JosSched.Smp.Window

/-!
# Registering a page fault upcall

`sys_env_set_pgfault_upcall` checks a page from the upcall on, and `user_mem_assert` destroys the
environment that the check fails for.  When that is the caller, the call ends there.  A child or
a thread of the caller is destroyed and the call goes on: it stores the upcall in the slot that
has just been freed and returns `0` (`upcall_lost`).
-/

open Except

namespace JosSched

variable {c : Cpu} {pool : Set Ppn} {lost : Set (Ppn × Use)} {s s' s₁ s₀ : Kernel}
  {use : Ppn → Use} {cur t e : Slot} {d : Ppn} {m : Mem} {envid func : Word}

/-- An environment that is in use and that nobody has destroyed. -/
def Env.Live (env : Env) : Prop := env.envStatus ≠ .free ∧ env.envStatus ≠ .dying

/-- An environment without what `env_free` sets. -/
def Env.cleared (env : Env) : Env :=
  { env with envStatus := .free, envPgdir := none, envLink := none }

/-- The program can read the page at which the upcall begins. -/
def EntryAccessible (m : Mem) (d : Ppn) (func : Word) : Prop := (userWord m d func).isSome

/-- `sys_env_set_pgfault_upcall(envid, func)`, called by `cur`, reports the truth. -/
structure UpcallTruthful (c : Cpu) (s : Kernel) (cur : Slot) (envid func : Word) : Prop where
  /-- A call for another environment comes back. -/
  comesBack : ∀ t, envid2env c s envid true = .ok t → t ≠ cur →
    ∃ r s', sysEnvSetPgfaultUpcall c s envid func = .ok (r, s')
  /-- If it returns `0`, the environment is the same, and live, with this upcall. -/
  truth : ∀ s', sysEnvSetPgfaultUpcall c s envid func = .ok (0, s') →
    ∃ t, envid2env c s envid true = .ok t ∧ (s'.envs t).envId = (s.envs t).envId ∧
      (s'.envs t).Live ∧ (s'.envs t).envPgfaultUpcall = func
  /-- An environment that can access the upcall is not destroyed. -/
  justified : ∀ t d, envid2env c s envid true = .ok t → s.dirs t = some d →
    EntryAccessible s.mem d func → ∃ r s', sysEnvSetPgfaultUpcall c s envid func = .ok (r, s') ∧
      (s'.envs t).envStatus = (s.envs t).envStatus
  /-- A free environment is as `env_free` has left it. -/
  kept : ∀ r s', sysEnvSetPgfaultUpcall c s envid func = .ok (r, s') →
    ∀ e, (s'.envs e).envStatus = .free → (s'.envs e).cleared = (s.envs e).cleared

/-- What the call checks: the pages of `[func, func + PGSIZE)`, unless its end wraps around. -/
def UpcallRange (m : Mem) (d : Ppn) (func : Word) : Prop :=
  ¬ UTOP < roundup (func + PGSIZE) ∧ ∀ a : ℕ, (rounddown func).toNat ≤ a →
    a < (roundup (func + PGSIZE)).toNat → Grants m d (PTE_P ||| PTE_U) (BitVec.ofNat 32 a)

/-! ## The call -/

theorem envPgdirOf_eq (hd : s.dirs t = some d) : envPgdirOf s t = .ok d := by
  have hdir : (s.envs t).envPgdir = some d := hd
  rw [envPgdirOf, hdir]

/-- `user_mem_assert` lets the environment pass, or destroys it. -/
theorem userMemAssert_upcall (c : Cpu) (func : Word) (hd : s.dirs t = some d)
    (htables : TablesIn s.mem d) :
    UpcallRange s.mem d func ∧
        userMemAssert c s t func PGSIZE (PTE_P ||| PTE_U) = .ok s ∨
      ¬ UpcallRange s.mem d func ∧
        userMemAssert c s t func PGSIZE (PTE_P ||| PTE_U) = envDestroy c s t := by
  have hperm : PTE_P ||| PTE_U ||| PTE_U = PTE_P ||| PTE_U := by decide
  obtain ⟨r, hcheck, hr⟩ := userMemCheck_spec func PGSIZE (PTE_P ||| PTE_U) htables
  unfold userMemAssert
  rw [envPgdirOf_eq hd, hperm]
  dsimp only [bind, Except.bind]
  rw [hcheck]
  dsimp only
  rcases hr with ⟨hrange, rfl⟩ | ⟨hrange, rfl⟩
  · exact .inl ⟨hrange, if_neg (by decide)⟩
  · exact .inr ⟨hrange, if_pos (by decide)⟩

/-- An environment that has been destroyed is free, or dies on the CPU that executes it. -/
theorem not_live_of_envDestroy (hdestroy : envDestroy c s t = .ok s') :
    ¬ (s'.envs t).Live := by
  unfold envDestroy at hdestroy
  split at hdestroy
  · obtain rfl := Except.ok.inj hdestroy
    rw [Kernel.modEnv_self]
    exact fun hlive => hlive.2 rfl
  · obtain ⟨s₁, hfree, hdestroy⟩ := bind_eq_ok.mp hdestroy
    have hstatus : (s₁.envs t).envStatus = .free := by
      unfold envFree at hfree
      split at hfree
      · obtain ⟨d, m, -, -, rfl⟩ := envFreeThread_eq_ok hfree
        rw [freed_envs_self]
      · obtain ⟨s₂, -, hfree⟩ := bind_eq_ok.mp hfree
        obtain ⟨d, m₁, m, -, -, -, rfl⟩ := envFreeProcess_eq_ok hfree
        rw [freed_envs_self]
    split at hdestroy
    · cases hdestroy
    · obtain rfl := Except.ok.inj hdestroy
      exact fun hlive => hlive.1 hstatus

/-- The call for environment `t`. -/
theorem sysEnvSetPgfaultUpcall_eq (henv : envid2env c s envid true = .ok t) :
    sysEnvSetPgfaultUpcall c s envid func =
      (userMemAssert c s t func PGSIZE (PTE_P ||| PTE_U) >>= fun s => .ok (0,
        s.modEnv t fun env => { env with envPgfaultUpcall := func })) := by
  unfold sysEnvSetPgfaultUpcall
  rw [henv]
  rfl

section

variable (hcur : s.curenv c = some cur) (henv : envid2env c s envid true = .ok t)
  (hd : s.dirs t = some d) (htables : TablesIn s.mem d)
include henv hd htables

/-- The check has been passed. -/
theorem upcall_stored (hrange : UpcallRange s.mem d func) :
    sysEnvSetPgfaultUpcall c s envid func =
      .ok (0, s.modEnv t fun env => { env with envPgfaultUpcall := func }) := by
  rw [sysEnvSetPgfaultUpcall_eq henv]
  rcases userMemAssert_upcall c func hd htables with ⟨-, heq⟩ | ⟨hno, -⟩
  · rw [heq]
    rfl
  · exact absurd hrange hno

/-- The check has failed: what is done then is done to a destroyed environment. -/
theorem upcall_failed (hrange : ¬ UpcallRange s.mem d func) :
    sysEnvSetPgfaultUpcall c s envid func = (envDestroy c s t >>= fun s => .ok (0,
      s.modEnv t fun env => { env with envPgfaultUpcall := func })) := by
  rw [sysEnvSetPgfaultUpcall_eq henv]
  rcases userMemAssert_upcall c func hd htables with ⟨hyes, -⟩ | ⟨-, heq⟩
  · exact absurd hyes hrange
  · rw [heq]

include hcur in
theorem upcallTruthful_iff_of_target : UpcallTruthful c s cur envid func ↔
    UpcallRange s.mem d func ∧ (s.envs t).Live ∨
      ¬ UpcallRange s.mem d func ∧ t = cur ∧ ¬ EntryAccessible s.mem d func := by
  -- a call that destroys its caller does not return to it
  have hself : ∀ s' r, ¬ UpcallRange s.mem d func → t = cur →
      sysEnvSetPgfaultUpcall c s envid func ≠ .ok (r, s') := fun s' r hrange htcur hok => by
    rw [upcall_failed henv hd htables hrange] at hok
    obtain ⟨s₁, hdestroy, -⟩ := bind_eq_ok.mp hok
    rw [htcur] at hdestroy
    exact envDestroy_self_ne_ok hcur hdestroy
  constructor
  · intro h
    by_cases hrange : UpcallRange s.mem d func
    · have hcall := upcall_stored henv hd htables hrange
      obtain ⟨t', henv', -, hlive, -⟩ := h.truth _ hcall
      obtain rfl := Except.ok.inj (henv.symm.trans henv')
      rw [Kernel.modEnv_self] at hlive
      exact .inl ⟨hrange, hlive⟩
    · by_cases htcur : t = cur
      · refine .inr ⟨hrange, htcur, fun haccess => ?_⟩
        obtain ⟨r, s', hok, -⟩ := h.justified t d henv hd haccess
        exact hself s' r hrange htcur hok
      · -- the call comes back, from an environment that is not live any more
        obtain ⟨r, s', hok⟩ := h.comesBack t henv htcur
        have hcall := hok
        rw [upcall_failed henv hd htables hrange] at hcall
        obtain ⟨s₁, hdestroy, hcall⟩ := bind_eq_ok.mp hcall
        obtain ⟨rfl, rfl⟩ := Prod.mk.inj (Except.ok.inj hcall)
        obtain ⟨t', henv', -, hlive, -⟩ := h.truth _ hok
        obtain rfl := Except.ok.inj (henv.symm.trans henv')
        rw [Kernel.modEnv_self] at hlive
        exact absurd hlive (not_live_of_envDestroy hdestroy)
  · rintro (⟨hrange, hlive⟩ | ⟨hrange, htcur, haccess⟩)
    · have hcall := upcall_stored henv hd htables hrange
      refine ⟨fun _ _ _ => ⟨_, _, hcall⟩, fun s' hok => ?_, fun t' _ henv' _ _ => ?_,
        fun r s' hok e he => ?_⟩
      · obtain ⟨-, rfl⟩ := Prod.mk.inj (Except.ok.inj (hcall.symm.trans hok))
        refine ⟨t, henv, ?_⟩
        rw [Kernel.modEnv_self]
        exact ⟨rfl, hlive, rfl⟩
      · obtain rfl := Except.ok.inj (henv.symm.trans henv')
        refine ⟨_, _, hcall, ?_⟩
        rw [Kernel.modEnv_self]
      · obtain ⟨-, rfl⟩ := Prod.mk.inj (Except.ok.inj (hcall.symm.trans hok))
        by_cases het : e = t
        · rw [het, Kernel.modEnv_self] at he
          exact absurd he hlive.1
        · rw [Kernel.modEnv_ne _ _ het]
    · refine ⟨fun t' henv' hne => ?_, fun s' hok => absurd hok (hself s' 0 hrange htcur),
        fun t' d' henv' hd' haccess' => ?_,
        fun r s' hok => absurd hok (hself s' r hrange htcur)⟩
      · obtain rfl := Except.ok.inj (henv.symm.trans henv')
        exact absurd htcur hne
      · obtain rfl := Except.ok.inj (henv.symm.trans henv')
        obtain rfl := Option.some.inj (hd.symm.trans hd')
        exact absurd haccess' haccess

end

/-! ## When the call reports the truth -/

/-- The target of the call passes the check and is live, or it is the caller and cannot access
the upcall. -/
structure UpcallTarget (s : Kernel) (cur : Slot) (func : Word) (t : Slot) : Prop where
  spared : ∀ d, s.dirs t = some d → UpcallRange s.mem d func → (s.envs t).Live
  destroyed : ∀ d, s.dirs t = some d → ¬ UpcallRange s.mem d func →
    t = cur ∧ ¬ EntryAccessible s.mem d func

theorem upcallTruthful_iff (h : Mapped pool lost s use) (hcur : s.curenv c = some cur)
    (hused : (s.envs cur).envStatus ≠ .free) : UpcallTruthful c s cur envid func ↔
      ∀ t, envid2env c s envid true = .ok t → UpcallTarget s cur func t := by
  cases henv : envid2env c s envid true with
  | error r =>
      refine iff_of_true ?_ fun t ht => (by cases ht)
      -- without a target the call fails and changes nothing
      have hcall : sysEnvSetPgfaultUpcall c s envid func = .ok (r, s) := by
        unfold sysEnvSetPgfaultUpcall
        rw [henv]
        rfl
      have hnone : ∀ {t}, envid2env c s envid true ≠ .ok t := fun ht => by
        rw [henv] at ht
        cases ht
      refine ⟨fun t ht => absurd ht hnone, fun s' hok => ?_, fun t _ ht => absurd ht hnone,
        fun r' s' hok e _ => ?_⟩
      · obtain ⟨hr, -⟩ := Prod.mk.inj (Except.ok.inj (hcall.symm.trans hok))
        rw [envid2env_error henv] at hr
        exact absurd hr (by decide)
      · obtain ⟨-, rfl⟩ := Prod.mk.inj (Except.ok.inj (hcall.symm.trans hok))
        rfl
  | ok t =>
      have htarget : (s.envs t).envStatus ≠ .free := by
        rcases target_of_envid2env henv with ht | ht
        · rwa [← Option.some.inj (hcur.symm.trans ht)]
        · exact ht
      obtain ⟨d, hd⟩ := Option.ne_none_iff_exists'.mp (h.inUse t htarget)
      have htables := h.layout.tablesIn (h.layout.holders t d hd)
      rw [upcallTruthful_iff_of_target hcur henv hd htables]
      constructor
      · intro hcond t' ht'
        obtain rfl := Except.ok.inj ht'
        refine ⟨fun d' hd' hrange => ?_, fun d' hd' hrange => ?_⟩
        · obtain rfl := Option.some.inj (hd.symm.trans hd')
          exact (hcond.resolve_right fun hno => hno.1 hrange).2
        · obtain rfl := Option.some.inj (hd.symm.trans hd')
          exact (hcond.resolve_left fun hyes => hrange hyes.1).2
      · intro htarget
        by_cases hrange : UpcallRange s.mem d func
        · exact .inl ⟨hrange, (htarget t rfl).spared d hd hrange⟩
        · exact .inr ⟨hrange, (htarget t rfl).destroyed d hd hrange⟩

/-- In every orderly run, a call reports the truth if and only if its target passes the check and
is live, or is the caller and cannot access the upcall. -/
theorem set_pgfault_upcall_iff {evs : List Event} (hboot : Booted s₀)
    (hrun : Trace OrderlyStep s₀ evs s) (hcur : s.curenv c = some cur) (envid func : Word) :
    UpcallTruthful c s cur envid func ↔
      ∀ t, envid2env c s envid true = .ok t → UpcallTarget s cur func t := by
  have hs := resting_of_run hboot hrun
  obtain ⟨use, h⟩ := hs.mapped
  refine upcallTruthful_iff h hcur ?_
  rcases hs.exclusive.executing c cur hcur with hst | hst <;> rw [hst] <;> decide

/-- One page is checked for an upcall at the start of a page. -/
theorem upcallRange_of_grants {d : Ppn} (hfunc : func.toNat % 4096 = 0)
    (hbelow : func.toNat + 4096 ≤ UTOP.toNat) (hgrants : Grants m d (PTE_P ||| PTE_U) func) :
    UpcallRange m d func := by
  have htop : UTOP.toNat = 0xeec00000 := rfl
  have hsize : PGSIZE.toNat = 4096 := rfl
  have hhi : (roundup (func + PGSIZE)).toNat = func.toNat + 4096 := by
    rw [toNat_roundup, hsize]
    omega
  refine ⟨?_, fun a hlo hlt => (grants_iff_of_page ?_).mpr hgrants⟩
  · rw [BitVec.lt_def, hhi]
    omega
  · rw [toNat_rounddown] at hlo
    rw [hhi] at hlt
    rw [BitVec.toNat_ofNat]
    omega

/-- A process with a child. -/
def oneChild : List Event :=
  [.boot emptyImage, .start 0, sysTrap 0 .exofork 0 0 0 0 0]

/-- The process names an upcall in its stack page. -/
theorem set_pgfault_upcall_iff_stack : ∃ s, Trace OrderlyStep (bootedMachine .roundRobin 64)
    oneChild s ∧ UpcallTruthful 0 s 0 0 0xeebfd000 := by
  obtain ⟨s, hrun, hs⟩ := exists_trace (fun s ev => ev.Hygienic s ∧ ev.Orderly s)
    (bootedMachine .roundRobin 64) oneChild
    (fun s => decide (s.curenv 0 = some 0 ∧ s.dirs 0 = some 8 ∧
      (s.envs 0).envStatus = .running ∧
      leaf s.mem 8 0xeebfd000 &&& (PTE_P ||| PTE_U ||| PTE_P) = PTE_P ||| PTE_U ||| PTE_P))
    (by decide +kernel)
  obtain ⟨hcur, hdir, hstatus, hgrants⟩ := of_decide_eq_true hs
  have hrange : UpcallRange s.mem 8 0xeebfd000 :=
    upcallRange_of_grants (by decide) (by decide) hgrants
  refine ⟨s, hrun, (set_pgfault_upcall_iff
    (booted_bootedMachine .roundRobin (n := 64) (by decide) (by decide)) hrun hcur 0
    0xeebfd000).mpr fun t ht => ?_⟩
  rw [envid2env, if_pos rfl, hcur] at ht
  obtain rfl := Except.ok.inj ht
  refine ⟨fun d _ _ => ?_, fun d hd hno => ?_⟩
  · rw [Env.Live, hstatus]
    exact ⟨by decide, by decide⟩
  · obtain rfl := Option.some.inj (hdir.symm.trans hd)
    exact absurd hrange hno

/-- It names an upcall for the child at an address where nothing is mapped: the child is freed,
and the call returns `0`. -/
theorem upcall_lost : ¬ ∀ (s₀ s : Kernel) (evs : List Event) (c : Cpu) (cur : Slot)
    (envid func : Word), Booted s₀ → Trace OrderlyStep s₀ evs s → s.curenv c = some cur →
    UpcallTruthful c s cur envid func := by
  intro hclaim
  have hboot := booted_bootedMachine .roundRobin (n := 64) (by decide) (by decide)
  obtain ⟨s, hrun, hs⟩ := exists_trace (fun s ev => ev.Hygienic s ∧ ev.Orderly s)
    (bootedMachine .roundRobin 64) oneChild
    (fun s => decide (s.curenv 0 = some 0 ∧ (s.envs 0).envStatus ≠ .free ∧
      (envid2env 0 s 0x1001 true).toOption = some 1 ∧
      (s.dirs 1).map (fun d => leaf s.mem d 0x800000) = some 0))
    (by decide +kernel)
  obtain ⟨hcur, hused, hchild, hleaf⟩ := of_decide_eq_true hs
  obtain ⟨use, h⟩ := (resting_of_run hboot hrun).mapped
  obtain ⟨d, hd, hzero⟩ := Option.map_eq_some_iff.mp hleaf
  have henv : envid2env 0 s 0x1001 true = .ok 1 := by
    cases henv : envid2env 0 s 0x1001 true with
    | error r =>
        rw [henv] at hchild
        cases hchild
    | ok t =>
        rw [henv] at hchild
        rw [Option.some.inj hchild]
  have htruthful := hclaim _ s _ 0 0 0x1001 0x800000 hboot hrun hcur
  have htarget := (upcallTruthful_iff h hcur hused).mp htruthful 1 henv
  have hrange : ¬ UpcallRange s.mem d 0x800000 := fun hrange =>
    leaf_ne_zero_of_grants (hrange.2 0x800000 (by decide) (by decide)) hzero
  exact absurd (htarget.destroyed d hd hrange).1 (by decide)

end JosSched
