import JosSched.Kern.Effects
import JosSched.Kern.PmapSpec

/-!
# What the functions of `kern/env.c` and `kern/sched.c` return

The state each function leaves when it succeeds, and what it does not touch.
-/

open Except

namespace JosSched

variable {c : Cpu}

/-! ## The scheduler -/

@[simp] theorem schedAge_status {s : Kernel} {best e : Slot} :
    ((schedAge s best).envs e).envStatus = (s.envs e).envStatus := by
  simp only [schedAge]
  split
  · rfl
  · split <;> rfl

@[simp] theorem schedAge_curenv {s : Kernel} {best : Slot} :
    (schedAge s best).curenv c = s.curenv c := rfl

theorem withMem_eq_ok {α : Type} {s s' : Kernel} {x : Except Panic (α × Mem)} {a : α}
    (h : s.withMem x = .ok (a, s')) : ∃ m, x = .ok (a, m) ∧ s' = s.setMem m := by
  unfold Kernel.withMem at h
  split at h
  · next a' m =>
      obtain ⟨rfl, rfl⟩ := Prod.mk.inj (Except.ok.inj h)
      exact ⟨m, rfl, rfl⟩
  · cases h

@[simp] theorem setMem_self (s : Kernel) : s.setMem s.mem = s := rfl

/-! ## Allocation -/

/-- The page directory that `env_setup_vm` builds in page `p`. -/
def newPgdir (m : Mem) (p : Ppn) : Mem :=
  let m := m.fill p (m.phys m.kernPgdir)
  let m := m.setRef p (m.ref p + 1)
  m.store (p, pdxUvpt) (page2pa p ||| PTE_P ||| PTE_U)

theorem envSetupVm_eq_ok {s s' : Kernel} {e : Slot} {r : ℤ} (h : envSetupVm s e = .ok (r, s')) :
    (r = -E_NO_MEM ∧ s' = s) ∨ ∃ p m, r = 0 ∧ pageAlloc s.mem true = .ok (some p, m) ∧
      s' = (s.modEnv e fun env => { env with envPgdir := some p }).setMem (newPgdir m p) := by
  unfold envSetupVm at h
  obtain ⟨⟨p, s₁⟩, hpage, h⟩ := bind_eq_ok.mp h
  obtain ⟨m, halloc, rfl⟩ := withMem_eq_ok hpage
  cases p with
  | none =>
      obtain ⟨rfl, rfl⟩ := Prod.mk.inj (Except.ok.inj h)
      rcases pageAlloc_eq_ok halloc with ⟨-, -, rfl⟩ | ⟨pp, hpp, -⟩
      · exact .inl ⟨rfl, rfl⟩
      · cases hpp
  | some p =>
      obtain ⟨rfl, rfl⟩ := Prod.mk.inj (Except.ok.inj h)
      exact .inr ⟨p, m, rfl, halloc, rfl⟩

/-- The environment `env_alloc` returns: the slot it took, and the page directory in it. -/
theorem envAlloc_eq_ok {s s' : Kernel} {parentId : Word} {e : Slot}
    (h : envAlloc s parentId = .ok (.ok e, s')) :
    ∃ p m, s.envFreeList = some e ∧ pageAlloc s.mem true = .ok (some p, m) ∧
      s' = (((s.modEnv e fun env => { env with envPgdir := some p }).setMem (newPgdir m p)).modEnv e
        (initEnv e parentId)).setFreeList (s.envs e).envLink := by
  unfold envAlloc at h
  split at h
  · cases (Prod.mk.inj (Except.ok.inj h)).1
  · next t ht =>
      obtain ⟨⟨r', s₁⟩, hvm, hret⟩ := bind_eq_ok.mp h
      dsimp only at hret
      rcases envSetupVm_eq_ok hvm with ⟨rfl, rfl⟩ | ⟨p, m, rfl, halloc, rfl⟩
      · cases (Prod.mk.inj (Except.ok.inj hret)).1
      · obtain ⟨ht', rfl⟩ := Prod.mk.inj (Except.ok.inj hret)
        obtain rfl := Except.ok.inj ht'
        exact ⟨p, m, ht, halloc, by simp [initEnv]⟩

/-- With a free slot and a free page it succeeds. -/
theorem envAlloc_eq {s : Kernel} {parentId : Word} {e : Slot} {p : Ppn} {m : Mem}
    (hfree : s.envFreeList = some e) (hpage : pageAlloc s.mem true = .ok (some p, m)) :
    envAlloc s parentId = .ok (.ok e, (((s.modEnv e fun env =>
      { env with envPgdir := some p }).setMem (newPgdir m p)).modEnv e
        (initEnv e parentId)).setFreeList (s.envs e).envLink) := by
  unfold envAlloc envSetupVm
  rw [hfree, hpage]
  simp [Kernel.withMem, newPgdir, initEnv, bind, Except.bind, pure, Except.pure]
  rfl

theorem envAlloc_curenv {s s' : Kernel} {parentId : Word} {e : Slot} (d : Cpu)
    (h : envAlloc s parentId = .ok (.ok e, s')) : s'.curenv d = s.curenv d := by
  obtain ⟨p, m, -, -, rfl⟩ := envAlloc_eq_ok h
  rfl

theorem envAlloc_envs_ne {s s' : Kernel} {parentId : Word} {e t : Slot}
    (h : envAlloc s parentId = .ok (.ok e, s')) (ht : t ≠ e) : s'.envs t = s.envs t := by
  obtain ⟨p, m, -, -, rfl⟩ := envAlloc_eq_ok h
  simp [Kernel.modEnv_apply, ht]

/-- The low bits of an id are the slot it was issued for. -/
theorem envx_nextEnvId (e : Slot) (old : Word) : envx (nextEnvId e old) = e := by
  have hmask : ∀ x : Word, (x &&& ~~~(1023 : Word)).extractLsb' 0 10 = 0 := fun x => by
    rw [BitVec.extractLsb'_and, show (~~~(1023 : Word)).extractLsb' 0 10 = 0 by decide]
    exact BitVec.and_zero
  have hgen : ∀ g : Word, g.extractLsb' 0 10 = 0 → envx (g ||| BitVec.ofNat 32 e) = e := by
    intro g hg
    unfold envx
    rw [BitVec.extractLsb'_or, hg, show (0 : BitVec 10) ||| _ = _ from BitVec.zero_or]
    apply Fin.ext
    simp
  unfold nextEnvId
  dsimp only
  split
  · exact hgen _ (by decide)
  · exact hgen _ (hmask _)

/-- Its high bits are a generation of their own. -/
theorem nextEnvId_ne (e : Slot) (old : Word) : nextEnvId e old ≠ old := by
  have hslot : (BitVec.ofNat 32 e.val).extractLsb' 10 22 = 0 := by
    have he : e.val < 1024 := e.isLt
    apply BitVec.eq_of_toNat_eq
    rw [BitVec.extractLsb'_toNat, BitVec.toNat_ofNat, Nat.shiftRight_eq_div_pow]
    simp
    omega
  have hmask : ∀ x : Word, (x &&& ~~~(1023 : Word)).extractLsb' 10 22 = x.extractLsb' 10 22 := by
    intro x
    rw [BitVec.extractLsb'_and,
      show (~~~(1023 : Word)).extractLsb' 10 22 = BitVec.allOnes 22 by decide]
    exact BitVec.and_allOnes
  have hgen : ∀ g : Word, (g ||| BitVec.ofNat 32 e.val).extractLsb' 10 22 =
      g.extractLsb' 10 22 := by
    intro g
    rw [BitVec.extractLsb'_or, hslot]
    exact BitVec.or_zero
  intro heq
  have hhigh := congrArg (BitVec.extractLsb' 10 22) heq
  unfold nextEnvId at hhigh
  dsimp only at hhigh
  rw [hgen] at hhigh
  have hone : ((1 : Word) <<< 12).toNat = 4096 := by decide
  split at hhigh
  · next hneg =>
      -- a generation that starts over follows a negative one, not the first
      have hnat := congrArg BitVec.toNat hhigh
      have hgen := congrArg BitVec.toNat (hmask (old + (1 : Word) <<< 12))
      simp only [BitVec.extractLsb'_toNat, Nat.shiftRight_eq_div_pow, BitVec.toNat_add, hone]
        at hnat hgen
      have hlt := ((old + (1 : Word) <<< 12) &&& ~~~(1023 : Word)).isLt
      rw [BitVec.toInt_eq_toNat_cond] at hneg
      split at hneg <;> omega
  · rw [hmask] at hhigh
    have hnat := congrArg BitVec.toNat hhigh
    simp only [BitVec.extractLsb'_toNat, Nat.shiftRight_eq_div_pow, BitVec.toNat_add, hone] at hnat
    omega

theorem envAlloc_error {s s' : Kernel} {parentId : Word} {r : ℤ}
    (h : envAlloc s parentId = .ok (.error r, s')) : s' = s := by
  unfold envAlloc at h
  split at h
  · exact (Prod.mk.inj (Except.ok.inj h)).2.symm
  · next t ht =>
      obtain ⟨⟨r', s₁⟩, hvm, hret⟩ := bind_eq_ok.mp h
      rcases envSetupVm_eq_ok hvm with ⟨rfl, rfl⟩ | ⟨p, m, rfl, halloc, rfl⟩
      · exact (Prod.mk.inj (Except.ok.inj hret)).2.symm
      · cases (Prod.mk.inj (Except.ok.inj hret)).1

/-! ## Destruction -/

theorem envPgdirOf_eq_ok {s : Kernel} {e : Slot} {pgdir : Ppn} (h : envPgdirOf s e = .ok pgdir) :
    (s.envs e).envPgdir = some pgdir := by
  unfold envPgdirOf at h
  split at h
  · next hpgdir => rw [hpgdir, Except.ok.inj h]
  · cases h

/-- What `env_destroy` leaves alone: the fields by which `env_free` recognises threads, and
who is running. -/
structure SameFamily (c : Cpu) (s s' : Kernel) : Prop where
  curenv : s'.curenv c = s.curenv c
  envId : ∀ e, (s'.envs e).envId = (s.envs e).envId
  envParentId : ∀ e, (s'.envs e).envParentId = (s.envs e).envParentId
  envType : ∀ e, (s'.envs e).envType = (s.envs e).envType

namespace SameFamily

variable {s s₁ s₂ : Kernel}

theorem refl : SameFamily c s s := ⟨rfl, fun _ => rfl, fun _ => rfl, fun _ => rfl⟩

theorem trans (h : SameFamily c s s₁) (h' : SameFamily c s₁ s₂) : SameFamily c s s₂ where
  curenv := h'.curenv.trans h.curenv
  envId e := (h'.envId e).trans (h.envId e)
  envParentId e := (h'.envParentId e).trans (h.envParentId e)
  envType e := (h'.envType e).trans (h.envType e)

theorem modEnv {e : Slot} {f : Env → Env} (hid : ∀ env, (f env).envId = env.envId)
    (hparent : ∀ env, (f env).envParentId = env.envParentId)
    (htype : ∀ env, (f env).envType = env.envType) : SameFamily c s (s.modEnv e f) where
  curenv := rfl
  envId t := by
    rw [Kernel.modEnv_apply]
    split <;> simp [hid]
  envParentId t := by
    rw [Kernel.modEnv_apply]
    split <;> simp [hparent]
  envType t := by
    rw [Kernel.modEnv_apply]
    split <;> simp [htype]

end SameFamily

theorem dropPgdir_eq_ok {s s' : Kernel} {e : Slot} {pgdir : Ppn}
    (h : dropPgdir s e pgdir = .ok s') : ∃ m, pageDecref s.mem pgdir = .ok m ∧
      s' = (s.modEnv e fun env => { env with envPgdir := none }).setMem m := by
  unfold dropPgdir at h
  obtain ⟨⟨_, s₁⟩, hdecref, hret⟩ := bind_eq_ok.mp h
  obtain ⟨m₁, hmap, rfl⟩ := withMem_eq_ok hdecref
  obtain ⟨m, hm, hpair⟩ := map_eq_ok.mp hmap
  obtain ⟨-, rfl⟩ := Prod.mk.inj hpair
  exact ⟨m, hm, (Except.ok.inj hret).symm⟩

theorem dropPgdir_eq {s : Kernel} {e : Slot} {pgdir : Ppn} {m : Mem}
    (h : pageDecref s.mem pgdir = .ok m) : dropPgdir s e pgdir =
      .ok ((s.modEnv e fun env => { env with envPgdir := none }).setMem m) := by
  unfold dropPgdir
  dsimp only
  rw [Kernel.modEnv_mem, h]
  rfl

/-- The state after slot `e` is freed, when the memory is left as `m`. -/
def freed (c : Cpu) (s : Kernel) (e : Slot) (m : Mem) : Kernel :=
  let s := if s.curenv c = some e then s.lcr3 c s.mem.kernPgdir else s
  pushFree ((s.modEnv e fun env => { env with envPgdir := none }).setMem m) e

section freed

variable {s : Kernel} {e t : Slot} {m : Mem} {d : Cpu}

@[simp] theorem freed_mem : (freed c s e m).mem = m := rfl

@[simp] theorem freed_envFreeList : (freed c s e m).envFreeList = some e := rfl

theorem freed_envs_self : (freed c s e m).envs e =
    { s.envs e with envStatus := .free, envPgdir := none, envLink := s.envFreeList } := by
  unfold freed
  split <;> simp [pushFree]

theorem freed_envs_ne (ht : t ≠ e) : (freed c s e m).envs t = s.envs t := by
  unfold freed
  split <;> simp [pushFree, Kernel.modEnv_apply, ht]

@[simp] theorem freed_curenv : (freed c s e m).curenv d = s.curenv d := by
  unfold freed
  split
  · exact Kernel.lcr3_curenv s c d _
  · rfl

@[simp] theorem freed_ticks : (freed c s e m).ticks = s.ticks := by
  unfold freed
  split <;> rfl

@[simp] theorem freed_policy : (freed c s e m).policy = s.policy := by
  unfold freed
  split <;> rfl

@[simp] theorem freed_stats : (freed c s e m).stats = s.stats := by
  unfold freed
  split <;> rfl

theorem sameFamily_freed : SameFamily c s (freed c s e m) := by
  refine ⟨freed_curenv, fun t => ?_, fun t => ?_, fun t => ?_⟩ <;>
  · by_cases ht : t = e
    · subst ht
      rw [freed_envs_self]
    · rw [freed_envs_ne ht]

end freed

theorem envFreeThread_eq_ok {s s' : Kernel} {t : Slot} (h : envFreeThread c s t = .ok s') :
    ∃ pgdir m, (s.envs t).envPgdir = some pgdir ∧ pageDecref s.mem pgdir = .ok m ∧
      s' = freed c s t m := by
  unfold envFreeThread at h
  obtain ⟨pgdir, hpgdir, h⟩ := bind_eq_ok.mp h
  obtain ⟨s₂, hdrop, h⟩ := bind_eq_ok.mp h
  obtain ⟨m, hdecref, rfl⟩ := dropPgdir_eq_ok hdrop
  refine ⟨pgdir, m, ?_, ?_, (Except.ok.inj h).symm⟩
  · have hpgdir := envPgdirOf_eq_ok hpgdir
    split at hpgdir <;> exact hpgdir
  · split at hdecref <;> exact hdecref

theorem envFreeThread_eq {s : Kernel} {t : Slot} {pgdir : Ppn} {m : Mem}
    (hpgdir : (s.envs t).envPgdir = some pgdir) (h : pageDecref s.mem pgdir = .ok m) :
    envFreeThread c s t = .ok (freed c s t m) := by
  unfold envFreeThread freed
  dsimp only
  split
  · simp [envPgdirOf, hpgdir, dropPgdir_eq (s := s.lcr3 c s.mem.kernPgdir) (e := t) h, bind,
      Except.bind, pure, Except.pure]
  · simp [envPgdirOf, hpgdir, dropPgdir_eq (e := t) h, bind, Except.bind, pure, Except.pure]

theorem envFreeProcess_eq_ok {s s' : Kernel} {e : Slot} (h : envFreeProcess c s e = .ok s') :
    ∃ pgdir m₁ m, (s.envs e).envPgdir = some pgdir ∧ unmapUser s.mem pgdir = .ok m₁ ∧
      pageDecref m₁ pgdir = .ok m ∧ s' = freed c s e m := by
  unfold envFreeProcess at h
  obtain ⟨pgdir, hpgdir, h⟩ := bind_eq_ok.mp h
  obtain ⟨⟨_, s₁⟩, hunmap, h⟩ := bind_eq_ok.mp h
  obtain ⟨s₂, hdrop, h⟩ := bind_eq_ok.mp h
  obtain ⟨m, hdecref, rfl⟩ := dropPgdir_eq_ok hdrop
  have hmem : (if s.curenv c = some e then s.lcr3 c s.mem.kernPgdir else s).mem = s.mem := by
    split <;> rfl
  obtain ⟨m₂, hmap, rfl⟩ := withMem_eq_ok hunmap
  obtain ⟨m₁, hun, hpair⟩ := map_eq_ok.mp hmap
  obtain ⟨-, rfl⟩ := Prod.mk.inj hpair
  rw [hmem] at hun
  refine ⟨pgdir, m₁, m, ?_, hun, hdecref, (Except.ok.inj h).symm⟩
  have hpgdir := envPgdirOf_eq_ok hpgdir
  split at hpgdir <;> exact hpgdir

/-! ## Switching to an environment -/

/-- A CPU that has left the kernel: it runs its environment in the right address space, or it
is halted. -/
structure Settled (c : Cpu) (s : Kernel) : Prop where
  running : ∀ e, s.curenv c = some e → (s.envs e).envStatus = .running
  cr3 : ∀ e, s.curenv c = some e → (s.envs e).envPgdir = some (s.cpus c).cpuCr3

/-- The state `env_run(e)` leaves on CPU `c`. -/
structure Ran (c : Cpu) (s : Kernel) (e : Slot) (s' : Kernel) : Prop where
  mem : s'.mem = s.mem
  envFreeList : s'.envFreeList = s.envFreeList
  ticks : s'.ticks = s.ticks
  policy : s'.policy = s.policy
  curenv : s'.curenv c = some e
  frame : ∀ d, d ≠ c → s'.cpus d = s.cpus d
  cpuStatus : (s'.cpus c).cpuStatus = (s.cpus c).cpuStatus
  cr3 : (s.envs e).envPgdir = some (s'.cpus c).cpuCr3
  envs : ∀ t, s'.envs t = { s.envs t with
    envStatus := if t = e then .running
      else if s.curenv c = some t ∧ (s.envs t).envStatus = .running then .runnable
      else (s.envs t).envStatus
    envRuns := if t = e then (s.envs t).envRuns + 1 else (s.envs t).envRuns
    envCpunum := if t = e then c else (s.envs t).envCpunum }

theorem preempt_envs {s : Kernel} (t : Slot) : (preempt c s).envs t = { s.envs t with
    envStatus := if s.curenv c = some t ∧ (s.envs t).envStatus = .running then .runnable
      else (s.envs t).envStatus } := by
  unfold preempt
  split
  · next cur hcur =>
      by_cases ht : t = cur
      · subst ht
        split <;> simp [*]
      · have hne : cur ≠ t := fun h => ht h.symm
        split <;> simp [Kernel.modEnv_apply, ht, hcur, hne]
  · next hcur => simp [hcur]

theorem preempt_rest {s : Kernel} : (preempt c s).mem = s.mem ∧ (preempt c s).cpus = s.cpus ∧
    (preempt c s).envFreeList = s.envFreeList ∧ (preempt c s).ticks = s.ticks ∧
    (preempt c s).policy = s.policy := by
  unfold preempt
  split
  · split <;> exact ⟨rfl, rfl, rfl, rfl, rfl⟩
  · exact ⟨rfl, rfl, rfl, rfl, rfl⟩

theorem envRun_eq_leave {s s' : Kernel} {e : Slot} (h : envRun c s e = .leave s') :
    Ran c s e s' := by
  obtain ⟨hmem, hcpus, hlist, hticks, hpolicy⟩ := preempt_rest (c := c) (s := s)
  unfold envRun at h
  dsimp only at h
  split at h
  · cases h
  · next pgdir hpgdir =>
      obtain rfl := Exit.leave.inj h
      refine ⟨hmem, hlist, hticks, hpolicy, ?_, fun d hd => ?_, ?_, ?_, fun t => ?_⟩
      · simp
      · simp [Kernel.lcr3, Kernel.setCurenv, Kernel.modCpu, hd, hcpus]
      · simp [Kernel.lcr3, Kernel.setCurenv, Kernel.modCpu, hcpus]
      · rw [Kernel.modEnv_self, Kernel.setCurenv_envs, preempt_envs] at hpgdir
        simpa [Kernel.lcr3, Kernel.modCpu] using hpgdir
      · by_cases ht : t = e
        · subst ht
          simp [preempt_envs]
        · simp [Kernel.modEnv_apply, ht, preempt_envs]

theorem envRun_stats {s s' : Kernel} {e : Slot} (h : envRun c s e = .leave s') :
    s'.stats = s.stats := by
  have hpre : (preempt c s).stats = s.stats := by
    unfold preempt
    split
    · split <;> rfl
    · rfl
  unfold envRun at h
  dsimp only at h
  split at h
  · cases h
  · obtain rfl := Exit.leave.inj h
    exact hpre

/-- An environment with an address space can be run. -/
theorem exists_envRun {s : Kernel} {e : Slot} {pgdir : Ppn} (h : (s.envs e).envPgdir = some pgdir) :
    ∃ s', envRun c s e = .leave s' := by
  unfold envRun
  dsimp only
  have hpgdir : ((((preempt c s).setCurenv c (some e)).modEnv e fun env =>
      { env with envStatus := .running, envRuns := env.envRuns + 1 }).envs e).envPgdir =
      some pgdir := by
    rw [Kernel.modEnv_self, Kernel.setCurenv_envs, preempt_envs]
    exact h
  rw [hpgdir]
  exact ⟨_, rfl⟩

theorem Ran.settled {s s' : Kernel} {e : Slot} (h : Ran c s e s') : Settled c s' := by
  constructor <;>
  · intro t ht
    rw [h.curenv] at ht
    obtain rfl := Option.some.inj ht
    rw [h.envs]
    first
      | exact if_pos rfl
      | exact h.cr3

/-- `sched_run` switches like `env_run`; its records only feed the statistics. -/
theorem schedRun_eq_leave {s s' : Kernel} {e : Slot} {effective : Word}
    (h : schedRun c s e effective = .leave s') : Ran c s e s' := by
  have hrec : (schedRecord s e effective).mem = s.mem ∧
      (schedRecord s e effective).envs = s.envs ∧ (schedRecord s e effective).cpus = s.cpus ∧
      (schedRecord s e effective).envFreeList = s.envFreeList ∧
      (schedRecord s e effective).ticks = s.ticks ∧
      (schedRecord s e effective).policy = s.policy := by
    unfold schedRecord schedAccountCputicks
    dsimp only
    split <;> exact ⟨rfl, rfl, rfl, rfl, rfl, rfl⟩
  obtain ⟨hmem, henvs, hcpus, hlist, hticks, hpolicy⟩ := hrec
  have hran := envRun_eq_leave h
  have hcur : ∀ d, (schedRecord s e effective).curenv d = s.curenv d := fun d =>
    congrArg CpuInfo.cpuEnv (congrFun hcpus d)
  refine ⟨hran.mem.trans hmem, hran.envFreeList.trans hlist, hran.ticks.trans hticks,
    hran.policy.trans hpolicy, hran.curenv, fun d hd => (hran.frame d hd).trans (congrFun hcpus d),
    hran.cpuStatus.trans (congrArg CpuInfo.cpuStatus (congrFun hcpus c)), ?_, fun t => ?_⟩
  · rw [← hran.cr3, henvs]
  · rw [hran.envs t, henvs, hcur]

/-- The state `sched_halt` leaves: the CPU has no environment and waits for an interrupt. -/
def halted (c : Cpu) (s : Kernel) : Kernel :=
  ((s.setCurenv c none).lcr3 c s.mem.kernPgdir).modCpu c fun cpu =>
    { cpu with cpuStatus := .halted }

theorem schedHalt_eq_leave {s s' : Kernel} (h : schedHalt c s = .leave s') : s' = halted c s := by
  unfold schedHalt at h
  split at h
  · exact (Exit.leave.inj h).symm
  · cases h

section halted

variable {s : Kernel} {d : Cpu}

@[simp] theorem halted_envs : (halted c s).envs = s.envs := rfl
@[simp] theorem halted_mem : (halted c s).mem = s.mem := rfl
@[simp] theorem halted_envFreeList : (halted c s).envFreeList = s.envFreeList := rfl
@[simp] theorem halted_ticks : (halted c s).ticks = s.ticks := rfl
@[simp] theorem halted_policy : (halted c s).policy = s.policy := rfl

@[simp] theorem halted_curenv_self : (halted c s).curenv c = none := by
  simp [halted, Kernel.modCpu, Kernel.lcr3, Kernel.setCurenv, Kernel.curenv]

theorem halted_cpus_ne (hd : d ≠ c) : (halted c s).cpus d = s.cpus d := by
  simp [halted, Kernel.modCpu, Kernel.lcr3, Kernel.setCurenv, hd]

theorem halted_curenv_ne (hd : d ≠ c) : (halted c s).curenv d = s.curenv d :=
  congrArg CpuInfo.cpuEnv (halted_cpus_ne hd)

theorem settled_halted : Settled c (halted c s) := by
  constructor <;> intro e he <;> rw [halted_curenv_self] at he <;> cases he

end halted

end JosSched
