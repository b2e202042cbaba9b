import JosSched.Kern.Memory

/-!
# Actions on the memory of the kernel

Inside the kernel, every action but the ones that map pages keeps `Mapped`, provided that it
does not wake a zombie thread up, and so does leaving the kernel.
-/

open Except

namespace JosSched

variable {c : Cpu} {pool : Set Ppn} {lost : Set (Ppn × Use)} {s s' s₁ : Kernel}
  {use use' : Ppn → Use} {e t o : Slot}
  {d p : Ppn} {m : Mem}

/-! ## Actions -/

/-- The action does not wake a zombie thread up.  The actions that map pages are not among them:
what becomes of a page depends on more than the action. -/
def Act.Tame (s : Kernel) : Act → Prop
  | .status _ t _ | .deliver _ t _ => ¬ s.ZombieThread t
  | .block e _ | .sleep e _ | .thread e _ => ¬ s.ZombieThread e
  | .pageNew _ _ _ | .pageShare _ _ _ _ _ => False
  | _ => True

/-- A status that is neither free nor a zombie's replaces another one. -/
theorem Env.Kept.of_status {env env' : Env} (hpgdir : env'.envPgdir = env.envPgdir)
    (hwho : env'.who = env.who) (hdstva : UserPage env.envIpcDstva → UserPage env'.envIpcDstva)
    (hfree : env.envStatus ≠ .free) (hfree' : env'.envStatus ≠ .free)
    (hdying : ¬ (env.envType = .thread ∧ env.envStatus = .dying)) : env.Kept env' := by
  obtain ⟨hid, hparent, htype⟩ := Env.who_inj hwho
  exact ⟨hpgdir, ⟨hid, hparent⟩, .inl htype, ⟨fun h => absurd h hfree', fun h => absurd h hfree⟩,
    fun ht hst => absurd ⟨htype ▸ ht, hst⟩ hdying, hdstva⟩

variable {a : Act} {s₀ : Kernel}

theorem Mapped.micro (h : Mapped pool lost s use) (hcustody : Custody c s₀ s)
    (hm : Micro c a s s') (ha : a.Tame s) : ∃ use', Mapped pool lost s' use' := by
  cases hm with
  | start => exact ⟨use, h.of_kept rfl fun e => .refl _⟩
  | save | ret | redirect | ipcPerm | recving | priority | upcall =>
      exact ⟨use, h.modEnv ⟨rfl, ⟨rfl, rfl⟩, .inl rfl, .rfl, fun _ hst => hst, fun hva => hva⟩⟩
  | dying hrun _ =>
      refine ⟨use, h.modEnv (.of_status rfl rfl (fun hva => hva) (by rw [hrun]; decide)
        EnvStatus.noConfusion fun hand => ?_)⟩
      rw [hrun] at hand
      exact EnvStatus.noConfusion hand.2
  | status _ htarget hst =>
      refine ⟨use, h.modEnv (.of_status rfl rfl (fun hva => hva)
        (hcustody.ne_free_of_target htarget)
        ?_ ha)⟩
      rcases hst with rfl | rfl <;> exact EnvStatus.noConfusion
  | deliver _ htarget _ =>
      exact ⟨use, h.modEnv (.of_status rfl rfl (fun hva => hva) (hcustody.ne_free_of_target htarget)
        EnvStatus.noConfusion ha)⟩
  | block hcur hva =>
      exact ⟨use, h.modEnv (.of_status rfl rfl (fun _ => hva) (hcustody.own _ hcur)
        EnvStatus.noConfusion ha)⟩
  | sleep hcur _ =>
      exact ⟨use, h.modEnv (.of_status rfl rfl (fun hva => hva) (hcustody.own _ hcur)
        EnvStatus.noConfusion ha)⟩
  -- the clock may wake a sleeper: its status changes, to one that is in use as well
  | tick =>
      refine ⟨use, h.of_kept rfl fun e => ⟨?_, ⟨?_, ?_⟩, .inl ?_, wakeup_free_iff,
        fun _ hst => ?_, ?_⟩⟩
      · exact wakeup_proj Env.envPgdir fun _ => rfl
      · exact wakeup_proj Env.envId fun _ => rfl
      · exact wakeup_proj Env.envParentId fun _ => rfl
      · exact wakeup_proj Env.envType fun _ => rfl
      · show (wakeup _ (s.envs e)).envStatus = .dying
        rw [wakeup, if_pos (.inl (by rw [hst]; decide)), hst]
      · have heq : (wakeup (s.ticks + 1) (s.envs e)).envIpcDstva = (s.envs e).envIpcDstva :=
          wakeup_proj Env.envIpcDstva fun _ => rfl
        exact fun hva => heq ▸ hva
  | create halloc =>
      obtain ⟨p, m, hfree, -⟩ := envAlloc_eq_ok halloc
      obtain ⟨p, -, h', -⟩ := h.envAlloc (hcustody.freeSlots.head hfree) halloc
      exact ⟨_, h'⟩
  | exofork _ halloc =>
      obtain ⟨p, m, hfree, -, hs₁⟩ := envAlloc_eq_ok halloc
      obtain ⟨p, -, h', -⟩ := h.envAlloc (hcustody.freeSlots.head hfree) halloc
      refine ⟨_, h'.modEnv (.of_status rfl rfl (fun hva => hva) ?_ EnvStatus.noConfusion
        fun hand => ?_)⟩
      · simp [hs₁, initEnv]
      · simp [hs₁, initEnv] at hand
  | thread hcur _ _ halloc hown hdrop hshared =>
      obtain ⟨p, m, hfree, -⟩ := envAlloc_eq_ok halloc
      exact h.createThread (hcustody.freeSlots.head hfree) (hcustody.own _ hcur) ha halloc hown
        hdrop hshared
        rfl fun _ => ⟨rfl, rfl, rfl, rfl, rfl⟩
  | freeThread htype _ _ hfree => exact h.freeThread htype hfree
  | freeProcess _ _ _ hthreads hfree => exact h.freeProcess hthreads hfree
  -- what maps pages is not tame, and has its own lemmas
  | pageNew | pageShare => exact absurd ha id
  | pageDrop _ hva hd hrm =>
      obtain ⟨use', h', -⟩ := h.removed hd hva.1 hrm
      exact ⟨use', h'⟩
  | kstore _ hd hva hstore =>
      exact ⟨use, h.stored (h.layout.kernStore (h.layout.holders _ _ hd) hva hstore)⟩
  | entry => exact ⟨use, h.modEnv ⟨rfl, ⟨rfl, rfl⟩, .inr rfl, .rfl, fun _ hst => hst,
      fun hva => hva⟩⟩

/-! ## The current environment -/

/-- The environment that CPU `c` executes is no zombie thread. -/
def NoZombie (c : Cpu) (s : Kernel) : Prop := ∀ e, s.curenv c = some e → ¬ s.ZombieThread e

theorem zombieThread_modEnv {f : Env → Env} (hz : (s.modEnv e f).ZombieThread t)
    (htype : ∀ env, (f env).envType = env.envType)
    (hstatus : ∀ env, (f env).envStatus = .dying → env.envStatus = .dying) : s.ZombieThread t := by
  obtain ⟨hthread, hst⟩ := hz
  rw [Kernel.modEnv_apply] at hthread hst
  split at hthread
  · next heq =>
      rw [if_pos heq] at hst
      exact ⟨htype _ ▸ hthread, hstatus _ hst⟩
  · next hne =>
      rw [if_neg hne] at hst
      exact ⟨hthread, hst⟩

/-- Only an environment on another CPU becomes a zombie. -/
theorem Micro.zombieThread (hm : Micro c a s s') (hz : s'.ZombieThread t) :
    s.ZombieThread t ∨ s.curenv c ≠ some t := by
  -- an action that takes a free slot leaves all the others alone
  have htakes : ∀ {e}, a.Takes e → t ≠ e → s.ZombieThread t := fun he hte => by
    rwa [Kernel.ZombieThread, (hm.frame_of_takes he).1 t hte] at hz
  have hfreed : ∀ {e m}, s' = forget c (freed c s e m) e → s.ZombieThread t := by
    rintro e m rfl
    obtain ⟨hthread, hst⟩ := hz
    rw [forget_envs] at hthread hst
    by_cases hte : t = e
    · rw [hte, freed_envs_self] at hst
      cases hst
    · rw [freed_envs_ne hte] at hthread hst
      exact ⟨hthread, hst⟩
  cases hm with
  | start | pageNew | pageShare | pageDrop | kstore => exact .inl hz
  | save | ret | redirect | ipcPerm | recving | priority | upcall =>
      exact .inl (zombieThread_modEnv hz (fun _ => rfl) fun _ hst => hst)
  | block | sleep | deliver =>
      exact .inl (zombieThread_modEnv hz (fun _ => rfl) fun _ hst => EnvStatus.noConfusion hst)
  | status _ _ hst =>
      refine .inl (zombieThread_modEnv hz (fun _ => rfl) fun _ hdy => ?_)
      rcases hst with rfl | rfl <;> exact EnvStatus.noConfusion hdy
  -- the only action that makes a zombie, and never of the current environment
  | @dying _ e hrun hcur =>
      by_cases hte : t = e
      · exact .inr (hte ▸ hcur)
      · rw [Kernel.ZombieThread, Kernel.modEnv_ne _ _ hte] at hz
        exact .inl hz
  | tick =>
      have htype : (wakeup (s.ticks + 1) (s.envs t)).envType = (s.envs t).envType :=
        wakeup_proj Env.envType fun _ => rfl
      refine .inl ⟨htype.symm.trans hz.1, ?_⟩
      have hst : (wakeup (s.ticks + 1) (s.envs t)).envStatus = .dying := hz.2
      unfold wakeup at hst
      split at hst
      · exact hst
      · split at hst
        · cases hst
        · exact hst
  | entry =>
      obtain ⟨hthread, hst⟩ := hz
      rw [Kernel.modEnv_apply] at hthread hst
      split at hthread
      · cases hthread
      · next hne =>
          rw [if_neg hne] at hst
          exact .inl ⟨hthread, hst⟩
  | @create _ _ e halloc =>
      by_cases hte : t = e
      · obtain ⟨p, m, -, -, rfl⟩ := envAlloc_eq_ok halloc
        obtain ⟨-, hst⟩ := hz
        simp [hte, initEnv] at hst
      · exact .inl (htakes rfl hte)
  | @exofork _ _ e _ _ halloc =>
      by_cases hte : t = e
      · obtain ⟨-, hst⟩ := hz
        rw [hte, Kernel.modEnv_self] at hst
        cases hst
      · exact .inl (htakes rfl hte)
  | @thread _ _ _ e _ _ _ _ _ _ _ _ halloc _ hdrop _ =>
      by_cases hte : t = e
      · obtain ⟨p, m, -, -, rfl⟩ := envAlloc_eq_ok halloc
        obtain ⟨m', -, rfl⟩ := dropPgdir_eq_ok hdrop
        obtain ⟨-, hst⟩ := hz
        simp [hte, initEnv] at hst
      · exact .inl (htakes rfl hte)
  | freeThread _ _ _ hfree =>
      obtain ⟨pgdir, m, -, -, rfl⟩ := envFreeThread_eq_ok hfree
      exact .inl (hfreed rfl)
  | freeProcess _ _ _ _ hfree =>
      obtain ⟨pgdir, m₁, m, -, -, -, rfl⟩ := envFreeProcess_eq_ok hfree
      exact .inl (hfreed rfl)

theorem NoZombie.micro (h : NoZombie c s) (hm : Micro c a s s') : NoZombie c s' := fun e he hz =>
  (hm.zombieThread hz).elim (h e (hm.curenv_of he)) fun hne => hne (hm.curenv_of he)

/-! ## Leaving the kernel -/

theorem Mapped.ran (h : Mapped pool lost s use) (hran : Ran c s e s')
    (hfree : (s.envs e).envStatus ≠ .free) (he : ¬ s.ZombieThread e) :
    Mapped pool lost s' use := by
  refine h.of_kept hran.mem fun t => ?_
  have henv := hran.envs t
  by_cases hte : t = e
  · subst hte
    rw [if_pos rfl, if_pos rfl, if_pos rfl] at henv
    rw [henv]
    exact .of_status rfl rfl (fun hva => hva) hfree EnvStatus.noConfusion he
  · rw [if_neg hte, if_neg hte, if_neg hte] at henv
    rw [henv]
    split
    · next hrun =>
        refine .of_status rfl rfl (fun hva => hva) (by rw [hrun.2]; decide) EnvStatus.noConfusion ?_
        rintro ⟨-, hst⟩
        rw [hrun.2] at hst
        cases hst
    · exact .refl _

theorem Mapped.decided (h : Mapped pool lost s use) (hdec : Decided c s s') :
    Mapped pool lost s' use := by
  have hsame : ∀ {s₁}, SameButWait s s₁ → Mapped pool lost s₁ use := fun hsame =>
    h.of_kept hsame.mem fun e => by
      rw [hsame.envs e]
      exact ⟨rfl, ⟨rfl, rfl⟩, .inl rfl, .rfl, fun _ hst => hst, fun hva => hva⟩
  cases hdec with
  | @ran s₁ _ e hwait he hran =>
      have hst : (s₁.envs e).envStatus = .runnable ∨ (s₁.envs e).envStatus = .running := by
        rw [hwait.envs e]
        exact he.imp id And.right
      refine (hsame hwait).ran hran (by rcases hst with hst | hst <;> rw [hst] <;> decide) ?_
      rintro ⟨-, hdy⟩
      rw [hdy] at hst
      rcases hst with hst | hst <;> cases hst
  | halted hwait => exact (hsame hwait).of_kept rfl fun _ => .refl _

theorem Mapped.departs {L : Act → Prop} (h : Mapped pool lost s use) (hcustody : Custody c s₀ s)
    (hlive : NoZombie c s) (hdep : Departs c L s s') : Mapped pool lost s' use := by
  rcases hdep.cases with hdec | ⟨e, hcur, hran⟩
  · exact h.decided hdec
  · exact h.ran hran (hcustody.own e hcur) (hlive e hcur)

end JosSched
