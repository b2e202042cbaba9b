import JosSched.Kern.TrapPaths
import JosSched.Kern.BootPaths
import JosSched.Sched.Decision

/-!
# Which action writes which field

The frame lemmas of the primitive actions: a projection of the environment table survives
every action that does not write what it reads.
-/

namespace JosSched

variable {c : Cpu} {s s' : Kernel} {a : Act}

/-- A user store only changes memory. -/
theorem store_eq_setMem {va : Word} {byte : BitVec 8}
    (h : (Event.store c va byte).exec s = .leave s') : ∃ m, s' = s.setMem m := by
  unfold Event.exec at h
  dsimp only at h
  split at h
  · next m _ => exact ⟨m, (Exit.leave.inj h).symm⟩
  · exact ⟨s.mem, (Exit.leave.inj h).symm⟩

/-! ## Projections of the table -/

section

variable {α : Type} (g : Env → α) {e t : Slot}

theorem modEnv_proj {f : Env → Env} (h : ∀ env, g (f env) = g env) :
    g ((s.modEnv e f).envs t) = g (s.envs t) := by
  rw [Kernel.modEnv_apply]
  split
  · exact h _
  · rfl

@[simp] theorem forget_envs {e : Slot} : (forget c s e).envs = s.envs := by
  unfold forget
  split <;> rfl

@[simp] theorem forget_mem {e : Slot} : (forget c s e).mem = s.mem := by
  unfold forget
  split <;> rfl

@[simp] theorem forget_envFreeList {e : Slot} : (forget c s e).envFreeList = s.envFreeList := by
  unfold forget
  split <;> rfl

@[simp] theorem forget_ticks {e : Slot} : (forget c s e).ticks = s.ticks := by
  unfold forget
  split <;> rfl

@[simp] theorem forget_policy {e : Slot} : (forget c s e).policy = s.policy := by
  unfold forget
  split <;> rfl

@[simp] theorem forget_stats {e : Slot} : (forget c s e).stats = s.stats := by
  unfold forget
  split <;> rfl

theorem freed_proj {m : Mem}
    (h : ∀ (env : Env) link, g { env with
      envStatus := .free, envPgdir := none, envLink := link } = g env) :
    g ((freed c s e m).envs t) = g (s.envs t) := by
  by_cases ht : t = e
  · subst ht
    rw [freed_envs_self]
    exact h _ _
  · rw [freed_envs_ne ht]

theorem Ran.proj (hran : Ran c s e s')
    (h : ∀ (env : Env) st runs cpu, g { env with
      envStatus := st, envRuns := runs, envCpunum := cpu } = g env) :
    g (s'.envs t) = g (s.envs t) := by
  rw [hran.envs]
  exact h _ _ _ _

theorem wakeup_proj {n : Word} {env : Env}
    (h : ∀ (env : Env), g { env with envSleepUntil := 0, envStatus := .runnable } = g env) :
    g (wakeup n env) = g env := by
  unfold wakeup
  split
  · rfl
  · split
    · exact h env
    · rfl

end

/-! ## Allocation -/

/-- The actions that take slot `e` off the free list. -/
def Act.Takes (e : Slot) : Act → Prop
  | .create e' | .exofork _ e' | .thread _ e' => e' = e
  | _ => False

/-- Allocation writes the slot it takes and no other. -/
theorem Micro.frame_of_takes {e : Slot} (h : Micro c a s s') (ha : a.Takes e) :
    (∀ t, t ≠ e → s'.envs t = s.envs t) ∧ ∀ d, s'.curenv d = s.curenv d := by
  cases h with
  | create halloc =>
      obtain rfl := ha
      exact ⟨fun t ht => envAlloc_envs_ne halloc ht, fun d => envAlloc_curenv d halloc⟩
  | exofork _ halloc =>
      obtain rfl := ha
      have hcurenv := fun d => envAlloc_curenv d halloc
      refine ⟨fun t ht => ?_, hcurenv⟩
      rw [Kernel.modEnv_ne _ _ ht, envAlloc_envs_ne halloc ht]
  | thread _ _ _ halloc _ hdrop _ =>
      obtain rfl := ha
      obtain ⟨m, -, rfl⟩ := dropPgdir_eq_ok hdrop
      have hcurenv := fun d => envAlloc_curenv d halloc
      refine ⟨fun t ht => ?_, hcurenv⟩
      simp only [Kernel.setMem_envs, Kernel.modEnv_ne _ _ ht, envAlloc_envs_ne halloc ht]
  | _ => exact absurd ha id

/-- The slot comes off the head of the free list and is free no more. -/
theorem Micro.list_of_takes {e : Slot} (h : Micro c a s s') (ha : a.Takes e) :
    s.envFreeList = some e ∧ s'.envFreeList = (s.envs e).envLink ∧
      (s'.envs e).envStatus ≠ .free := by
  cases h with
  | create halloc =>
      obtain rfl := ha
      obtain ⟨p, m, hfree, -, rfl⟩ := envAlloc_eq_ok halloc
      exact ⟨hfree, rfl, by simp [initEnv]⟩
  | exofork _ halloc =>
      obtain rfl := ha
      obtain ⟨p, m, hfree, -, rfl⟩ := envAlloc_eq_ok halloc
      exact ⟨hfree, rfl, by simp⟩
  | thread _ _ _ halloc _ hdrop _ =>
      obtain rfl := ha
      obtain ⟨m', -, rfl⟩ := dropPgdir_eq_ok hdrop
      obtain ⟨p, m, hfree, -, rfl⟩ := envAlloc_eq_ok halloc
      exact ⟨hfree, rfl, by simp [initEnv]⟩
  | _ => exact absurd ha id

/-- The slot gets the next id of its own. -/
theorem Micro.id_of_takes {e : Slot} (h : Micro c a s s') (ha : a.Takes e) :
    (s'.envs e).envId = nextEnvId e (s.envs e).envId := by
  cases h with
  | create halloc =>
      obtain rfl := ha
      obtain ⟨p, m, -, -, rfl⟩ := envAlloc_eq_ok halloc
      simp [initEnv]
  | exofork _ halloc =>
      obtain rfl := ha
      obtain ⟨p, m, -, -, rfl⟩ := envAlloc_eq_ok halloc
      simp [initEnv]
  | thread _ _ _ halloc _ hdrop _ =>
      obtain rfl := ha
      obtain ⟨m', -, rfl⟩ := dropPgdir_eq_ok hdrop
      obtain ⟨p, m, -, -, rfl⟩ := envAlloc_eq_ok halloc
      simp [initEnv]
  | _ => exact absurd ha id

/-! ## Current environments -/

/-- The actions that free a slot, and forget it if it was the current environment. -/
def Act.Frees : Act → Prop
  | .freeThread _ _ | .freeProcess _ _ => True
  | _ => False

theorem forget_curenv {e t : Slot} {d : Cpu} (h : (forget c s e).curenv d = some t) :
    s.curenv d = some t := by
  unfold forget at h
  split at h
  · by_cases hd : d = c
    · rw [hd, Kernel.setCurenv_curenv_self] at h
      cases h
    · rwa [Kernel.setCurenv_curenv_ne _ _ hd] at h
  · exact h

/-- No CPU gets another environment inside the kernel. -/
theorem Micro.curenv_eq (h : Micro c a s s') (ha : ¬ a.Frees) (d : Cpu) :
    s'.curenv d = s.curenv d := by
  cases h with
  | start => exact started_curenv
  | create halloc => exact envAlloc_curenv d halloc
  | exofork _ halloc =>
      have hcurenv := envAlloc_curenv d halloc
      exact hcurenv
  | thread _ _ _ halloc _ hdrop _ =>
      obtain ⟨m, -, rfl⟩ := dropPgdir_eq_ok hdrop
      have hcurenv := envAlloc_curenv d halloc
      exact hcurenv
  | freeThread | freeProcess => exact absurd trivial ha
  | _ => rfl

/-- It may lose the one it has. -/
theorem Micro.curenv_of {d : Cpu} {e : Slot} (h : Micro c a s s') (he : s'.curenv d = some e) :
    s.curenv d = some e := by
  by_cases ha : a.Frees
  · cases h with
    | freeThread _ _ _ hfree =>
        obtain ⟨pgdir, m, -, -, rfl⟩ := envFreeThread_eq_ok hfree
        exact freed_curenv ▸ forget_curenv he
    | freeProcess _ _ _ _ hfree =>
        obtain ⟨pgdir, m₁, m, -, -, -, rfl⟩ := envFreeProcess_eq_ok hfree
        exact freed_curenv ▸ forget_curenv he
    | _ => exact absurd ha id
  · rwa [h.curenv_eq ha] at he

theorem Path.curenv_of {L : Act → Prop} {s₁ : Kernel} {d : Cpu} {e : Slot} (hpath : Path c L s s₁)
    (he : s₁.curenv d = some e) : s.curenv d = some e := by
  have h := hpath.invariant (I := fun s₁ => ∀ e, s₁.curenv d = some e → s.curenv d = some e)
    (fun _ h => h) fun a _ _ _ hm hs e he => hs e (hm.curenv_of he)
  exact h e he

theorem forget_cpus_ne {e : Slot} {d : Cpu} (hd : d ≠ c) : (forget c s e).cpus d = s.cpus d := by
  unfold forget
  split <;> simp [Kernel.setCurenv, Kernel.modCpu, hd]

theorem forget_cpuStatus {e : Slot} {d : Cpu} :
    ((forget c s e).cpus d).cpuStatus = (s.cpus d).cpuStatus := by
  unfold forget
  by_cases hd : d = c <;> split <;> simp [Kernel.setCurenv, Kernel.modCpu, hd]

theorem freed_cpus_ne {e : Slot} {m : Mem} {d : Cpu} (hd : d ≠ c) :
    (freed c s e m).cpus d = s.cpus d := by
  unfold freed pushFree
  split <;> simp [Kernel.lcr3, Kernel.modCpu, hd]

theorem freed_cpuStatus {e : Slot} {m : Mem} {d : Cpu} :
    ((freed c s e m).cpus d).cpuStatus = (s.cpus d).cpuStatus := by
  unfold freed pushFree
  by_cases hd : d = c <;> split <;> simp [Kernel.lcr3, Kernel.modCpu, hd]

/-- A CPU writes its own `struct CpuInfo` only. -/
theorem Micro.cpus_ne (h : Micro c a s s') {d : Cpu} (hd : d ≠ c) : s'.cpus d = s.cpus d := by
  cases h with
  | start => simp [started, Kernel.modCpu, hd]
  | create halloc =>
      obtain ⟨p, m, -, -, rfl⟩ := envAlloc_eq_ok halloc
      rfl
  | exofork _ halloc =>
      obtain ⟨p, m, -, -, rfl⟩ := envAlloc_eq_ok halloc
      rfl
  | thread _ _ _ halloc _ hdrop _ =>
      obtain ⟨m', -, rfl⟩ := dropPgdir_eq_ok hdrop
      obtain ⟨p, m, -, -, rfl⟩ := envAlloc_eq_ok halloc
      rfl
  | freeThread _ _ _ hfree =>
      obtain ⟨pgdir, m, -, -, rfl⟩ := envFreeThread_eq_ok hfree
      rw [forget_cpus_ne hd, freed_cpus_ne hd]
  | freeProcess _ _ _ _ hfree =>
      obtain ⟨pgdir, m₁, m, -, -, -, rfl⟩ := envFreeProcess_eq_ok hfree
      rw [forget_cpus_ne hd, freed_cpus_ne hd]
  | _ => rfl

/-- Inside the kernel, only the entry writes `cpu_status`. -/
theorem Micro.cpuStatus (h : Micro c a s s') (ha : a ≠ .start) (d : Cpu) :
    (s'.cpus d).cpuStatus = (s.cpus d).cpuStatus := by
  cases h with
  | start => exact absurd rfl ha
  | create halloc =>
      obtain ⟨p, m, -, -, rfl⟩ := envAlloc_eq_ok halloc
      rfl
  | exofork _ halloc =>
      obtain ⟨p, m, -, -, rfl⟩ := envAlloc_eq_ok halloc
      rfl
  | thread _ _ _ halloc _ hdrop _ =>
      obtain ⟨m', -, rfl⟩ := dropPgdir_eq_ok hdrop
      obtain ⟨p, m, -, -, rfl⟩ := envAlloc_eq_ok halloc
      rfl
  | freeThread _ _ _ hfree =>
      obtain ⟨pgdir, m, -, -, rfl⟩ := envFreeThread_eq_ok hfree
      rw [forget_cpuStatus, freed_cpuStatus]
  | freeProcess _ _ _ _ hfree =>
      obtain ⟨pgdir, m₁, m, -, -, -, rfl⟩ := envFreeProcess_eq_ok hfree
      rw [forget_cpuStatus, freed_cpuStatus]
  | _ => rfl

/-! ## The clock -/

theorem Micro.ticks (h : Micro c a s s') (ha : a ≠ .tick) : s'.ticks = s.ticks := by
  cases h with
  | tick => exact absurd rfl ha
  | create halloc =>
      obtain ⟨p, m, -, -, rfl⟩ := envAlloc_eq_ok halloc
      rfl
  | exofork _ halloc =>
      obtain ⟨p, m, -, -, rfl⟩ := envAlloc_eq_ok halloc
      rfl
  | thread _ _ _ halloc _ hdrop _ =>
      obtain ⟨m', -, rfl⟩ := dropPgdir_eq_ok hdrop
      obtain ⟨p, m, -, -, rfl⟩ := envAlloc_eq_ok halloc
      rfl
  | freeThread _ _ _ hfree =>
      obtain ⟨pgdir, m, -, -, rfl⟩ := envFreeThread_eq_ok hfree
      simp
  | freeProcess _ _ _ _ hfree =>
      obtain ⟨pgdir, m₁, m, -, -, -, rfl⟩ := envFreeProcess_eq_ok hfree
      simp
  | _ => rfl

theorem Path.ticks {L : Act → Prop} {s₁ : Kernel} (h : Path c L s s₁) (hL : ∀ a, L a → a ≠ .tick) :
    s₁.ticks = s.ticks :=
  h.invariant (I := fun s₁ => s₁.ticks = s.ticks) rfl
    fun a _ _ ha hm hs => (hm.ticks (hL a ha)).trans hs

/-! ## Policy and statistics -/

theorem Micro.constants (h : Micro c a s s') : s'.policy = s.policy ∧ s'.stats = s.stats := by
  cases h with
  | create halloc =>
      obtain ⟨p, m, -, -, rfl⟩ := envAlloc_eq_ok halloc
      exact ⟨rfl, rfl⟩
  | exofork _ halloc =>
      obtain ⟨p, m, -, -, rfl⟩ := envAlloc_eq_ok halloc
      exact ⟨rfl, rfl⟩
  | thread _ _ _ halloc _ hdrop _ =>
      obtain ⟨m', -, rfl⟩ := dropPgdir_eq_ok hdrop
      obtain ⟨p, m, -, -, rfl⟩ := envAlloc_eq_ok halloc
      exact ⟨rfl, rfl⟩
  | freeThread _ _ _ hfree =>
      obtain ⟨pgdir, m, -, -, rfl⟩ := envFreeThread_eq_ok hfree
      simp
  | freeProcess _ _ _ _ hfree =>
      obtain ⟨pgdir, m₁, m, -, -, -, rfl⟩ := envFreeProcess_eq_ok hfree
      simp
  | _ => exact ⟨rfl, rfl⟩

theorem Path.constants {L : Act → Prop} {s₁ : Kernel} (h : Path c L s s₁) :
    s₁.policy = s.policy ∧ s₁.stats = s.stats :=
  h.invariant (I := fun s₁ => s₁.policy = s.policy ∧ s₁.stats = s.stats) ⟨rfl, rfl⟩
    fun _ _ _ _ hm hs => ⟨hm.constants.1.trans hs.1, hm.constants.2.trans hs.2⟩

/-! ## Identities and priorities -/

/-- The actions that give a slot a new identity. -/
def Act.Allocates : Act → Prop
  | .create _ | .exofork _ _ | .thread _ _ | .entry _ _ => True
  | _ => False

/-- Who the environment is. -/
def Env.who (env : Env) : Word × Word × EnvType := (env.envId, env.envParentId, env.envType)

def Env.rank (env : Env) : (Word × Word × EnvType) × Word := (env.who, env.envPriority)

theorem Env.who_inj {env env' : Env} (h : env.who = env'.who) :
    env.envId = env'.envId ∧ env.envParentId = env'.envParentId ∧ env.envType = env'.envType := by
  simpa [Env.who] using h

/-- Only allocation changes who a slot is, and only `sys_setpriority` its priority. -/
theorem Micro.rank (h : Micro c a s s') (ha : ¬ a.Allocates)
    (hpriority : ∀ cur t p, a ≠ .priority cur t p) (t : Slot) :
    (s'.envs t).rank = (s.envs t).rank := by
  cases h with
  | start => rfl
  | tick => exact wakeup_proj Env.rank fun _ => rfl
  | freeThread _ _ _ hfree =>
      obtain ⟨pgdir, m, -, -, rfl⟩ := envFreeThread_eq_ok hfree
      rw [forget_envs]
      exact freed_proj Env.rank fun _ _ => rfl
  | freeProcess _ _ _ _ hfree =>
      obtain ⟨pgdir, m₁, m, -, -, -, rfl⟩ := envFreeProcess_eq_ok hfree
      rw [forget_envs]
      exact freed_proj Env.rank fun _ _ => rfl
  | pageNew => rfl
  | pageShare => rfl
  | pageDrop => rfl
  | kstore => rfl
  | priority => exact absurd rfl (hpriority _ _ _)
  | create | exofork | thread | entry => exact absurd trivial ha
  | save | ret | redirect | dying | status | deliver | ipcPerm | recving | block | sleep | upcall =>
      exact modEnv_proj Env.rank fun _ => rfl

theorem Departs.rank {L : Act → Prop} (h : Departs c L s s') (t : Slot) :
    (s'.envs t).rank = (s.envs t).rank :=
  h.departed.proj Env.rank fun _ _ _ _ _ => rfl

/-! ## Slots in use -/

/-- The slot is taken, or a CPU executes it all the same (it may have been freed under it). -/
def Kernel.alive (s : Kernel) (e : Slot) : Prop :=
  (s.envs e).envStatus ≠ .free ∨ ∃ d, s.curenv d = some e

theorem Target.alive {e : Slot} (h : Target c s e) : s.alive e :=
  h.symm.imp id fun hcur => ⟨c, hcur⟩

theorem alive_of_curenv {e : Slot} (h : s.curenv c = some e) : s.alive e := .inr ⟨c, h⟩

theorem alive_modEnv {e t : Slot} {f : Env → Env} (he : s.alive e) (h : (s.modEnv e f).alive t) :
    s.alive t := by
  by_cases ht : t = e
  · exact ht ▸ he
  · exact h.imp (fun h => by rwa [Kernel.modEnv_ne _ _ ht] at h) id

theorem Ran.alive {e t : Slot} (hran : Ran c s e s') (he : s.alive e) (h : s'.alive t) :
    s.alive t := by
  by_cases ht : t = e
  · exact ht ▸ he
  rcases h with h | ⟨d, hd⟩
  · rw [hran.envs t] at h
    simp only [ht, if_false] at h
    split at h
    · next hrun => exact .inr ⟨c, hrun.1⟩
    · exact .inl h
  · by_cases hdc : d = c
    · rw [hdc, hran.curenv] at hd
      exact absurd (Option.some.inj hd).symm ht
    · exact .inr ⟨d, by rwa [Kernel.curenv, hran.frame d hdc] at hd⟩

theorem alive_freed {e t : Slot} {m : Mem} (h : (forget c (freed c s e m) e).alive t) :
    s.alive t := by
  rcases h with h | ⟨d, hd⟩
  · rw [forget_envs] at h
    by_cases ht : t = e
    · rw [ht, freed_envs_self] at h
      exact absurd rfl h
    · rw [freed_envs_ne ht] at h
      exact .inl h
  · exact .inr ⟨d, freed_curenv ▸ forget_curenv hd⟩

theorem wakeup_free_iff {n : Word} {env : Env} :
    (wakeup n env).envStatus = .free ↔ env.envStatus = .free := by
  unfold wakeup
  split
  · exact Iff.rfl
  · next hne =>
      rw [not_or, not_not] at hne
      split
      · rw [hne.1]
        exact ⟨EnvStatus.noConfusion, EnvStatus.noConfusion⟩
      · exact Iff.rfl

/-- Only allocation takes a slot into use. -/
theorem Micro.alive (h : Micro c a s s') (ha : ¬ a.Allocates) {t : Slot} (ht : s'.alive t) :
    s.alive t := by
  cases h with
  | start => exact ht.imp id fun ⟨d, hd⟩ => ⟨d, started_curenv.symm.trans hd⟩
  | save hcur | ret hcur | redirect hcur _ | recving hcur | block hcur _ | sleep hcur _ =>
      exact alive_modEnv (alive_of_curenv hcur) ht
  | dying hrun _ => exact alive_modEnv (.inl (by rw [hrun]; exact EnvStatus.noConfusion)) ht
  | ipcPerm htarget _ => exact alive_modEnv htarget.alive ht
  | status _ htarget _ | deliver _ htarget _ | priority _ htarget _ _ =>
      exact alive_modEnv htarget.alive ht
  | upcall =>
      refine ht.imp (fun h => ?_) id
      rwa [modEnv_proj Env.envStatus] at h
      exact fun _ => rfl
  | tick => exact ht.imp (fun hst => wakeup_free_iff.not.mp hst) id
  | freeThread _ _ _ hfree =>
      obtain ⟨pgdir, m, -, -, rfl⟩ := envFreeThread_eq_ok hfree
      exact alive_freed ht
  | freeProcess _ _ _ _ hfree =>
      obtain ⟨pgdir, m₁, m, -, -, -, rfl⟩ := envFreeProcess_eq_ok hfree
      exact alive_freed ht
  | pageNew | pageShare | pageDrop | kstore => exact ht
  | create | exofork | thread | entry => exact absurd trivial ha

theorem SameButWait.alive {s₁ : Kernel} {t : Slot} (h : SameButWait s s₁) (ht : s₁.alive t) :
    s.alive t := by
  refine ht.imp (fun hst => ?_) fun ⟨d, hd⟩ => ⟨d, ?_⟩
  · rwa [h.envs t] at hst
  · rwa [Kernel.curenv, h.cpus] at hd

theorem Departs.alive {L : Act → Prop} (h : Departs c L s s') {t : Slot} (ht : s'.alive t) :
    s.alive t := by
  rcases h.cases with hdec | ⟨e, hcur, hran⟩
  · cases hdec with
    | ran hsame he hran =>
        refine hran.alive ?_ ht |> hsame.alive
        rw [Kernel.alive, hsame.envs]
        rcases he with he | ⟨he, -⟩
        · exact .inl (by rw [he]; exact EnvStatus.noConfusion)
        · exact .inr ⟨c, by rwa [Kernel.curenv, hsame.cpus]⟩
    | halted hsame =>
        refine hsame.alive (ht.imp id fun hcur => ?_)
        obtain ⟨d, hd⟩ := hcur
        by_cases hdc : d = c
        · rw [hdc, halted_curenv_self] at hd
          cases hd
        · exact ⟨d, by rwa [halted_curenv_ne hdc] at hd⟩
  · exact hran.alive (alive_of_curenv hcur) ht

/-! ## Steps -/

/-- The invariant rule for the whole machine: what every action, every way of leaving the kernel
and every user store keeps, every step keeps. -/
theorem Step.invariant {I : Kernel → Prop} {ev : Event} (hstep : Step s ev s') (h : I s)
    (hmicro : ∀ c a s s', Micro c a s s' → I s → I s')
    (hdeparts : ∀ c L s s', Departs c L s s' → I s → I s')
    (hstore : ∀ s m, I s → I (s.setMem m)) : I s' := by
  obtain ⟨-, hexec⟩ := hstep
  have hexit : ∀ {c : Cpu} {L : Act → Prop} {x : Exit}, x.Path c L s → x = .leave s' → I s' :=
    fun hpath hx => hpath.invariant hx h (fun a s s' _ => hmicro _ a s s')
      fun s s' => hdeparts _ _ s s'
  cases ev with
  | boot binary =>
      obtain ⟨e, -, hpath⟩ := envCreate_path (c := 0) (envCreate_eq_ok hexec)
      exact hpath.invariant h fun a s s' _ => hmicro 0 a s s'
  | start d => exact hexit (mpMain_path s) hexec
  | timer d => exact hexit (trapHalted_path s) hexec
  | trap d inp tf => exact hexit (trap_path s inp tf) hexec
  | store d va byte =>
      obtain ⟨m, rfl⟩ := store_eq_setMem hexec
      exact hstore s m h

/-- A new environment has the priority of its creator. -/
theorem Micro.inherits (h : Micro c a s s') (cur e : Slot)
    (ha : a = .exofork cur e ∨ a = .thread cur e) (hne : cur ≠ e) :
    (s'.envs e).envPriority = (s.envs cur).envPriority := by
  rcases ha with rfl | rfl
  · cases h with
    | exofork _ halloc => rw [Kernel.modEnv_self, envAlloc_envs_ne halloc hne]
  · cases h with
    | thread _ _ _ halloc _ hdrop _ =>
        obtain ⟨m, -, rfl⟩ := dropPgdir_eq_ok hdrop
        simp only [Kernel.modEnv_self, Kernel.setMem_envs, Kernel.modEnv_ne _ _ hne,
          envAlloc_envs_ne halloc hne]

end JosSched
