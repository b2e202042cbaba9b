import JosSched.Smp.Zombies

/-!
# One CPU

What holds in every state of a machine on which only CPU `c` ever enters the kernel: the
environment that is running is its current one, there are no zombies, every environment in use
has an id with its own slot in it, and no priority is above `ENV_PRIORITY_MAX`.
-/

namespace JosSched

/-- The event is an event of CPU `c`, or `env_create` while the kernel boots. -/
def Event.By (c : Cpu) : Event → Prop
  | .boot _ => True
  | .start d | .trap d _ _ | .timer d | .store d _ _ => d = c

instance (c : Cpu) (ev : Event) : Decidable (ev.By c) :=
  match ev with
  | .boot _ => inferInstanceAs (Decidable True)
  | .start d | .trap d _ _ | .timer d | .store d _ _ => inferInstanceAs (Decidable (d = c))

/-- What holds all the time, also while the CPU is in the kernel. -/
structure Lone (c : Cpu) (s : Kernel) : Prop where
  running : ∀ t, (s.envs t).envStatus = .running → s.curenv c = some t
  undying : ∀ t, (s.envs t).envStatus ≠ .dying
  named : ∀ t, s.alive t → envx (s.envs t).envId = t
  bounded : ∀ t, (s.envs t).envPriority ≤ ENV_PRIORITY_MAX

/-- What holds between two entries into the kernel. -/
structure Solo (c : Cpu) (s : Kernel) : Prop extends Lone c s where
  exclusive : Exclusive s
  others : ∀ d, d ≠ c → s.curenv d = none

variable {c : Cpu} {s s' s₀ : Kernel} {a : Act} {ev : Event} {e : Slot} {L : Act → Prop}

theorem Solo.cur_running (h : Solo c s) (hcur : s.curenv c = some e) :
    (s.envs e).envStatus = .running :=
  (h.exclusive.executing c e hcur).resolve_right (h.undying e)

/-! ## Inside the kernel -/

namespace Lone

/-- Nothing that the invariant reads changes, but for statuses that only get tamer. -/
theorem of_eq (h : Lone c s) (hcurenv : ∀ d, s'.curenv d = s.curenv d)
    (hid : ∀ t, (s'.envs t).envId = (s.envs t).envId)
    (hprio : ∀ t, (s'.envs t).envPriority = (s.envs t).envPriority)
    (hstatus : ∀ t, (s'.envs t).envStatus = (s.envs t).envStatus ∨
      (s'.envs t).envStatus ≠ .running ∧ (s'.envs t).envStatus ≠ .dying ∧
        s.alive t) : Lone c s' where
  running t ht := by
    rcases hstatus t with heq | hne
    · exact (hcurenv c).trans (h.running t (heq.symm.trans ht))
    · exact absurd ht hne.1
  undying t ht := by
    rcases hstatus t with heq | hne
    · exact h.undying t (heq.symm.trans ht)
    · exact hne.2.1 ht
  named t ht := by
    have halive : s.alive t := by
      rcases hstatus t with heq | hne
      · exact ht.imp (fun hst => heq ▸ hst) fun ⟨d, hd⟩ => ⟨d, (hcurenv d).symm.trans hd⟩
      · exact hne.2.2
    exact (congrArg envx (hid t)).trans (h.named t halive)
  bounded t := by
    rw [hprio]
    exact h.bounded t

/-- Changing one environment. -/
theorem modEnv (h : Lone c s) {t : Slot} {f : Env → Env}
    (hsame : ∀ env, (f env).envId = env.envId ∧ (f env).envPriority = env.envPriority)
    (hstatus : (f (s.envs t)).envStatus = (s.envs t).envStatus ∨
      (f (s.envs t)).envStatus ≠ .running ∧ (f (s.envs t)).envStatus ≠ .dying ∧ s.alive t) :
    Lone c (s.modEnv t f) := by
  refine h.of_eq (fun _ => rfl) (fun e => modEnv_proj Env.envId fun env => (hsame env).1)
    (fun e => modEnv_proj Env.envPriority fun env => (hsame env).2) fun e => ?_
  by_cases he : e = t
  · rw [he, Kernel.modEnv_self]
    exact hstatus
  · rw [Kernel.modEnv_ne _ _ he]
    exact .inl rfl

theorem freed (h : Lone c s) {t : Slot} {m : Mem} :
    Lone c (forget c (JosSched.freed c s t m) t) where
  running e he := by
    rw [forget_envs] at he
    have hne : e ≠ t := by
      rintro rfl
      rw [freed_envs_self] at he
      cases he
    rw [freed_envs_ne hne] at he
    have hcur := h.running e he
    rw [forget, if_neg, freed_curenv]
    · exact hcur
    · rw [freed_curenv, hcur]
      exact fun heq => hne (Option.some.inj heq)
  undying e he := by
    rw [forget_envs] at he
    by_cases hne : e = t
    · rw [hne, freed_envs_self] at he
      cases he
    · rw [freed_envs_ne hne] at he
      exact h.undying e he
  named e he := by
    rw [forget_envs, freed_proj Env.envId fun _ _ => rfl]
    exact h.named e (alive_freed he)
  bounded e := by
    rw [forget_envs, freed_proj Env.envPriority fun _ _ => rfl]
    exact h.bounded e

/-- A slot that is handed out gets an id of its own. -/
theorem takes (h : Lone c s) (hm : Micro c a s s') (ha : a.Takes e)
    (hnew : (s'.envs e).envStatus ≠ .running ∧ (s'.envs e).envStatus ≠ .dying ∧
      envx (s'.envs e).envId = e ∧ (s'.envs e).envPriority ≤ ENV_PRIORITY_MAX) : Lone c s' := by
  obtain ⟨henvs, hcurenv⟩ := hm.frame_of_takes ha
  refine ⟨fun t ht => ?_, fun t ht => ?_, fun t ht => ?_, fun t => ?_⟩ <;>
    by_cases hte : t = e
  · exact absurd (hte ▸ ht) hnew.1
  · rw [henvs t hte] at ht
    exact (hcurenv c).trans (h.running t ht)
  · exact hnew.2.1 (hte ▸ ht)
  · rw [henvs t hte] at ht
    exact h.undying t ht
  · rw [hte]
    exact hnew.2.2.1
  · rw [henvs t hte]
    refine h.named t (ht.imp (fun hst => ?_) fun ⟨d, hd⟩ => ⟨d, (hcurenv d).symm.trans hd⟩)
    rwa [henvs t hte] at hst
  · rw [hte]
    exact hnew.2.2.2
  · rw [henvs t hte]
    exact h.bounded t

theorem bounded_envAlloc (h : Lone c s) {parentId : Word}
    (halloc : envAlloc s parentId = .ok (.ok e, s')) (t : Slot) :
    (s'.envs t).envPriority ≤ ENV_PRIORITY_MAX := by
  by_cases ht : t = e
  · obtain ⟨p, m, -, -, rfl⟩ := envAlloc_eq_ok halloc
    rw [ht]
    simp [initEnv, ENV_PRIORITY_DEFAULT, ENV_PRIORITY_MAX]
  · rw [envAlloc_envs_ne halloc ht]
    exact h.bounded t

theorem running_of_ran {s₁ : Kernel} (h : Lone c s) (hsame : SameButWait s s₁)
    (hran : Ran c s₁ e s') {t : Slot} (ht : (s'.envs t).envStatus = .running) :
    s'.curenv c = some t := by
  by_cases hte : t = e
  · rw [hte]
    exact hran.curenv
  · have hcur₁ : s₁.curenv c = s.curenv c := congrArg CpuInfo.cpuEnv (congrFun hsame.cpus c)
    rw [hran.envs t, if_neg hte, hcur₁, hsame.envs t] at ht
    dsimp only at ht
    split at ht
    · cases ht
    · next hpre => exact absurd ⟨h.running t ht, ht⟩ hpre

theorem undying_of_ran {s₁ : Kernel} (h : Lone c s) (hsame : SameButWait s s₁)
    (hran : Ran c s₁ e s') {t : Slot} : (s'.envs t).envStatus ≠ .dying := by
  rw [hran.envs t, hsame.envs t]
  dsimp only
  split
  · exact EnvStatus.noConfusion
  · split
    · exact EnvStatus.noConfusion
    · exact h.undying t

end Lone

theorem Lone.micro (h : Lone c s) (hm : Micro c a s s') : Lone c s' := by
  cases hm with
  | start => exact h.of_eq (fun _ => started_curenv) (fun _ => rfl) (fun _ => rfl) fun _ => .inl rfl
  | save | ret | redirect | ipcPerm | recving | upcall =>
      exact h.modEnv (fun _ => ⟨rfl, rfl⟩) (.inl rfl)
  -- a zombie would be made of an environment that runs elsewhere, and there is no elsewhere
  | dying hrun hcur => exact absurd (h.running _ hrun) hcur
  | status _ htarget hst =>
      refine h.modEnv (fun _ => ⟨rfl, rfl⟩) (.inr ⟨?_, ?_, htarget.alive⟩) <;>
        rcases hst with rfl | rfl <;> exact EnvStatus.noConfusion
  | deliver _ htarget _ =>
      exact h.modEnv (fun _ => ⟨rfl, rfl⟩)
        (.inr ⟨EnvStatus.noConfusion, EnvStatus.noConfusion, htarget.alive⟩)
  | block hcur _ | sleep hcur _ =>
      exact h.modEnv (fun _ => ⟨rfl, rfl⟩)
        (.inr ⟨EnvStatus.noConfusion, EnvStatus.noConfusion, alive_of_curenv hcur⟩)
  | @priority _ _ t p hcur htarget hmax _ =>
      refine ⟨fun u hu => ?_, fun u hu => ?_, fun u hu => ?_, fun u => ?_⟩
      · rw [modEnv_proj Env.envStatus] at hu
        · exact h.running u hu
        · exact fun _ => rfl
      · rw [modEnv_proj Env.envStatus] at hu
        · exact h.undying u hu
        · exact fun _ => rfl
      · rw [modEnv_proj Env.envId]
        · exact h.named u (alive_modEnv htarget.alive hu)
        · exact fun _ => rfl
      · by_cases hut : u = t
        · rw [hut, Kernel.modEnv_self]
          exact BitVec.not_lt.mp hmax
        · rw [Kernel.modEnv_ne _ _ hut]
          exact h.bounded u
  -- the clock makes sleepers runnable, which were in use before
  | tick =>
      refine h.of_eq (fun _ => rfl) (fun t => wakeup_proj Env.envId fun _ => rfl)
        (fun t => wakeup_proj Env.envPriority fun _ => rfl) fun t => ?_
      show (wakeup _ (s.envs t)).envStatus = _ ∨ (wakeup _ (s.envs t)).envStatus ≠ _ ∧
        (wakeup _ (s.envs t)).envStatus ≠ _ ∧ _
      unfold wakeup
      split
      · exact .inl rfl
      · next hne =>
          rw [not_or, not_not] at hne
          split
          · refine .inr ⟨EnvStatus.noConfusion, EnvStatus.noConfusion, .inl ?_⟩
            rw [hne.1]
            exact EnvStatus.noConfusion
          · exact .inl rfl
  | create halloc =>
      refine h.takes (.create halloc) rfl ?_
      obtain ⟨p, m, -, -, rfl⟩ := envAlloc_eq_ok halloc
      simp [initEnv, envx_nextEnvId, ENV_PRIORITY_DEFAULT, ENV_PRIORITY_MAX]
  | @exofork _ s₁ _ cur hcur halloc =>
      have hprio := h.bounded_envAlloc halloc cur
      refine h.takes (.exofork hcur halloc) rfl ?_
      obtain ⟨p, m, -, -, rfl⟩ := envAlloc_eq_ok halloc
      rw [Kernel.modEnv_self]
      refine ⟨EnvStatus.noConfusion, EnvStatus.noConfusion, ?_, hprio⟩
      simp [initEnv, envx_nextEnvId]
  | @thread _ s₁ s₂ _ cur _ _ _ _ hcur h₁ h₂ halloc h₄ hdrop h₆ =>
      have hprio := h.bounded_envAlloc halloc cur
      refine h.takes (.thread hcur h₁ h₂ halloc h₄ hdrop h₆) rfl ?_
      obtain ⟨m', -, rfl⟩ := dropPgdir_eq_ok hdrop
      obtain ⟨p, m, -, -, rfl⟩ := envAlloc_eq_ok halloc
      rw [Kernel.modEnv_self]
      refine ⟨?_, ?_, ?_, ?_⟩
      · simp [initEnv]
      · simp [initEnv]
      · simp [initEnv, envx_nextEnvId]
      · simp only [Kernel.setMem_envs]
        rw [modEnv_proj Env.envPriority]
        · exact hprio
        · exact fun _ => rfl
  | freeThread _ _ _ hfree =>
      obtain ⟨pgdir, m, -, -, rfl⟩ := envFreeThread_eq_ok hfree
      exact h.freed
  | freeProcess _ _ _ _ hfree =>
      obtain ⟨pgdir, m₁, m, -, -, -, rfl⟩ := envFreeProcess_eq_ok hfree
      exact h.freed
  | pageNew | pageShare | pageDrop | kstore =>
      exact h.of_eq (fun _ => rfl) (fun _ => rfl) (fun _ => rfl) fun _ => .inl rfl
  | @entry _ e _ =>
      refine h.of_eq (fun _ => rfl) (fun t => modEnv_proj Env.envId fun _ => rfl)
        (fun t => modEnv_proj Env.envPriority fun _ => rfl) fun t => .inl ?_
      exact modEnv_proj Env.envStatus fun _ => rfl

theorem Lone.departs (h : Lone c s) (hdep : Departs c L s s') : Lone c s' := by
  have hdeparted := hdep.departed
  refine ⟨fun t ht => ?_, fun t ht => ?_, fun t ht => ?_, fun t => ?_⟩
  · rcases hdep.cases with hdec | ⟨e, -, hran⟩
    · cases hdec with
      | ran hsame he hran => exact h.running_of_ran hsame hran ht
      | halted hsame hcur =>
          rw [halted_envs, hsame.envs] at ht
          exact absurd ht (hcur t (h.running t ht))
    · exact h.running_of_ran .refl hran ht
  · rcases hdep.cases with hdec | ⟨e, -, hran⟩
    · cases hdec with
      | ran hsame he hran => exact h.undying_of_ran hsame hran ht
      | halted hsame hcur =>
          rw [halted_envs, hsame.envs] at ht
          exact h.undying t ht
    · exact h.undying_of_ran .refl hran ht
  · rw [hdeparted.proj Env.envId fun _ _ _ _ _ => rfl]
    exact h.named t (hdep.alive ht)
  · rw [hdeparted.proj Env.envPriority fun _ _ _ _ _ => rfl]
    exact h.bounded t

/-! ## Between two entries -/

theorem Solo.onlyHere (h : Solo c s) (t : Slot) : OnlyHere c s t := fun d hd hde => by
  rw [h.others d hd] at hde
  cases hde

theorem Solo.hygienic (h : Solo c s) (hby : ev.By c) : ev.Hygienic s := by
  cases ev with
  | trap d inp tf =>
      obtain rfl := hby
      exact ⟨fun _ _ _ t _ => h.onlyHere t, fun _ _ t _ _ => h.onlyHere t,
        fun _ _ _ t _ _ => h.onlyHere t⟩
  | boot | start | timer | store => exact trivial

/-- Alone, the CPU can do no harm to an environment that another CPU executes. -/
theorem Solo.safe (h : Solo c s) : a.Safe c s := by
  cases a <;> first | exact trivial | exact h.onlyHere _ | exact fun _ => h.onlyHere _

theorem Lone.exit {x : Exit} (h : Lone c s) (hpath : x.Path c L s) (hx : x = .leave s') :
    Lone c s' :=
  hpath.invariant hx h (fun _ _ _ _ hm hs => hs.micro hm) fun _ _ hdep hs => hs.departs hdep

theorem Solo.step (h : Solo c s) (hstep : Step s ev s') (hby : ev.By c) : Solo c s' := by
  obtain ⟨hexclusive, hund⟩ := exclusive_step h.exclusive hstep (h.hygienic hby)
  have hothers : ∀ d, d ≠ c → s'.curenv d = none := by
    intro d hd
    refine ((hund d fun hd' => hd ?_).curenv).trans (h.others d hd)
    cases ev with
    | start | trap | timer => exact hd'.symm.trans hby
    | boot | store => exact absurd hd' id
  refine ⟨?_, hexclusive, hothers⟩
  obtain ⟨henabled, hexec⟩ := hstep
  cases ev with
  | boot binary =>
      obtain ⟨e, -, hpath⟩ := envCreate_path (c := c) (envCreate_eq_ok hexec)
      exact hpath.invariant h.toLone fun _ _ _ _ hm hs => hs.micro hm
  | start d =>
      obtain rfl := hby
      exact h.toLone.exit (mpMain_path s) hexec
  | timer d =>
      obtain rfl := hby
      exact h.toLone.exit (trapHalted_path s) hexec
  | trap d inp tf =>
      obtain rfl := hby
      exact h.toLone.exit (trap_path s inp tf) hexec
  | store d va byte =>
      obtain ⟨m, rfl⟩ := store_eq_setMem hexec
      exact ⟨h.running, h.undying, h.named, h.bounded⟩

theorem solo_booted (h : Booted s) (c : Cpu) : Solo c s where
  running t ht := by
    rw [h.envs] at ht
    cases ht
  undying t ht := by
    rw [h.envs] at ht
    cases ht
  named t ht := by
    rcases ht with hst | ⟨d, hd⟩
    · rw [h.envs] at hst
      exact absurd rfl hst
    · rw [Kernel.curenv, (h.cpus d).2] at hd
      cases hd
  bounded t := by
    rw [h.envs]
    exact Nat.zero_le _
  exclusive := exclusive_booted h
  others d _ := (h.cpus d).2

/-- A step of a machine with one CPU. -/
def CpuStep (c : Cpu) (s : Kernel) (ev : Event) (s' : Kernel) : Prop := Step s ev s' ∧ ev.By c

theorem solo_of_run {evs : List Event} (hboot : Booted s₀) (h : Trace (CpuStep c) s₀ evs s) :
    Solo c s :=
  h.invariant (solo_booted hboot c) fun _ _ _ hs hstep => hs.step hstep.1 hstep.2

/-- One CPU alone can only make hygienic steps. -/
theorem hygienic_of_run {evs : List Event} (hboot : Booted s₀) (h : Trace (CpuStep c) s₀ evs s) :
    Trace HygienicStep s₀ evs s := by
  induction h with
  | nil => exact .nil
  | snoc hrun hstep ih => exact ih.snoc ⟨hstep.1, (solo_of_run hboot hrun).hygienic hstep.2⟩

end JosSched
