import JosSched.Sched.Sleep

/-!
# Who the clock wakes up

`sched_wakeup_sleeping` takes every environment that is not runnable and has a deadline for a
sleeper.  That is right as long as nobody makes a sleeper ready before its time:
`sys_env_set_status` and a delivered message leave the deadline behind, and the next time the
environment waits for something else the clock wakes it up.

A run notes for every slot what suspended it last (`track`).
-/

namespace JosSched

/-- What makes an environment stop being ready, or starts it that way. -/
inductive Cause where
  | sleep
  | recv
  | status
  | created
  deriving DecidableEq

variable {c : Cpu} {s s₀ s₁ s₂ s' : Kernel} {a : Act} {ev : Event} {e t cur : Slot} {tf : Trapframe}
  {inp : Input} {L : Act → Prop} {g : Slot → Option Cause}

/-- What the event suspends `e` for, if it does. -/
def Event.suspends (s : Kernel) (ev : Event) (e : Slot) : Option Cause :=
  match ev with
  | .boot _ => if s.envFreeList = some e then some .created else none
  | .trap c _ tf =>
      if s.curenv c = some e ∧ Calls tf .sleep ∧ tf.tfRegs.regEdx ≠ 0 then some .sleep
      else if s.curenv c = some e ∧ Calls tf .ipcRecv ∧ UserPage tf.tfRegs.regEdx then some .recv
      else if Calls tf .envSetStatus ∧ settableStatus tf.tfRegs.regEcx = some .notRunnable ∧
          (envid2env c s tf.tfRegs.regEdx true).toOption = some e then some .status
      else if (Calls tf .exofork ∨ Calls tf .threadCreate) ∧ s.envFreeList = some e then
        some .created
      else none
  | _ => none

/-- What suspended each slot last. -/
def track (s : Kernel) (ev : Event) (g : Slot → Option Cause) (e : Slot) : Option Cause :=
  (ev.suspends s e).or (g e)

/-- The event neither sets the status of an environment with a deadline nor delivers a message to
one. -/
def Event.SparesSleepers (s s' : Kernel) : Event → Prop
  | .trap c _ tf =>
      (Calls tf .envSetStatus → (settableStatus tf.tfRegs.regEcx).isSome →
        ∀ t, envid2env c s tf.tfRegs.regEdx true = .ok t → (s.envs t).envSleepUntil = 0) ∧
      (Calls tf .ipcTrySend → ∀ t, envid2env c s tf.tfRegs.regEdx false = .ok t →
        (s.envs t).envIpcRecving = true → (s'.envs t).envIpcRecving = false →
        (s.envs t).envSleepUntil = 0)
  | _ => True

/-- A step of the machine, with its note. -/
structure NotedStep (x : Kernel × (Slot → Option Cause)) (ev : Event)
    (y : Kernel × (Slot → Option Cause)) : Prop where
  step : HygienicStep x.1 ev y.1
  spares : ev.SparesSleepers x.1 y.1
  noted : y.2 = track x.1 ev x.2

/-- Whoever has a deadline sleeps, and was suspended by its own call of `sys_sleep`. -/
def OnlySleepers (s : Kernel) (g : Slot → Option Cause) : Prop :=
  ∀ e, (s.envs e).envStatus ≠ .free → (s.envs e).envSleepUntil ≠ 0 →
    (s.envs e).envStatus = .notRunnable ∧ g e = some .sleep

/-! ## Inside the kernel -/

/-- Whoever has a deadline has been asleep since `s`. -/
def Dormant (s s₁ : Kernel) : Prop :=
  ∀ t, (s₁.envs t).envStatus ≠ .free → (s₁.envs t).envSleepUntil ≠ 0 →
    (s₁.envs t).envStatus = .notRunnable ∧ (s₁.envs t).nap = (s.envs t).nap

theorem Dormant.of_nap (h : Dormant s s₁) (ht : (s₁.envs t).envStatus ≠ .free)
    (hdeadline : (s₁.envs t).envSleepUntil ≠ 0) :
    (s.envs t).envStatus = .notRunnable ∧ (s.envs t).envSleepUntil ≠ 0 := by
  obtain ⟨hst, hnap⟩ := h t ht hdeadline
  obtain ⟨hst', hsleep, -⟩ := Env.nap_inj hnap
  exact ⟨hst'.symm.trans hst, hsleep ▸ hdeadline⟩

theorem Dormant.of_nap_eq (h : Dormant s s₁) (hsame : ∀ t, (s₂.envs t).nap = (s₁.envs t).nap) :
    Dormant s s₂ := by
  intro t ht hdeadline
  obtain ⟨hst, hsleep, -⟩ := Env.nap_inj (hsame t)
  rw [hst] at ht ⊢
  rw [hsleep] at hdeadline
  obtain ⟨hst', hnap⟩ := h t ht hdeadline
  exact ⟨hst', (hsame t).trans hnap⟩

/-- The current environment has no deadline. -/
theorem Dormant.current (h : Dormant s s₁) (hs : Exclusive s) (hcur : s.curenv c = some t)
    (ht : (s₁.envs t).envStatus ≠ .free) : (s₁.envs t).envSleepUntil = 0 := by
  by_contra hdeadline
  have hst := (h.of_nap ht hdeadline).1
  rcases hs.executing c t hcur with hst' | hst' <;> rw [hst] at hst' <;> cases hst'

theorem Dormant.sleepUntil_modEnv {f : Env → Env} (h : Dormant s s₁)
    (hsleep : ∀ env, (f env).envSleepUntil = env.envSleepUntil)
    (hzero : (s₁.envs t).envSleepUntil = 0) : Dormant s (s₁.modEnv t f) := by
  intro u hu hdeadline
  by_cases hut : u = t
  · rw [hut, Kernel.modEnv_self, hsleep] at hdeadline
    exact absurd hzero hdeadline
  · rw [Kernel.modEnv_ne _ _ hut] at hu hdeadline ⊢
    exact h u hu hdeadline

/-- A sleeper got a message. -/
def Delivered (c : Cpu) (s s₁ : Kernel) (tf : Trapframe) : Prop :=
  Calls tf .ipcTrySend ∧ ∃ t, envid2env c s tf.tfRegs.regEdx false = .ok t ∧
    (s.envs t).envIpcRecving = true ∧ (s₁.envs t).envIpcRecving = false ∧
    (s.envs t).envSleepUntil ≠ 0

theorem Micro.recving_eq (h : Micro c a s s') (ha : ∀ e, a ≠ .recving e)
    (hrecv : (s.envs t).envIpcRecving = false) : (s'.envs t).envIpcRecving = false := by
  -- a slot that is given away starts with its flag clear
  have htakes : ∀ {u}, a.Takes u → (s'.envs u).envIpcRecving = false →
      (s'.envs t).envIpcRecving = false := by
    intro u hu hnew
    by_cases htu : t = u
    · rw [htu]
      exact hnew
    · rw [(h.frame_of_takes hu).1 t htu]
      exact hrecv
  cases h with
  | start | pageNew | pageShare | pageDrop | kstore => exact hrecv
  | save | ret | redirect | dying | status | ipcPerm | block | sleep | priority | upcall | entry =>
      refine (modEnv_proj Env.envIpcRecving fun _ => ?_).trans hrecv
      rfl
  | @deliver _ _ u value _ _ _ =>
      unfold ipcDeliver
      rw [Kernel.modEnv_apply]
      split
      · rfl
      · exact hrecv
  | recving => exact absurd rfl (ha _)
  | tick => exact (wakeup_proj Env.envIpcRecving fun _ => rfl).trans hrecv
  | create halloc =>
      refine htakes rfl ?_
      obtain ⟨p, m, -, -, rfl⟩ := envAlloc_eq_ok halloc
      simp [initEnv]
  | exofork hcur halloc =>
      refine htakes rfl ?_
      obtain ⟨p, m, -, -, rfl⟩ := envAlloc_eq_ok halloc
      simp [initEnv]
  | thread hcur h₁ h₂ halloc h₄ hdrop h₆ =>
      refine htakes rfl ?_
      obtain ⟨m', -, rfl⟩ := dropPgdir_eq_ok hdrop
      obtain ⟨p, m, -, -, rfl⟩ := envAlloc_eq_ok halloc
      simp [initEnv]
  | freeThread _ _ _ hfree =>
      obtain ⟨pgdir, m, -, -, rfl⟩ := envFreeThread_eq_ok hfree
      rw [forget_envs, freed_proj Env.envIpcRecving fun _ _ => rfl]
      exact hrecv
  | freeProcess _ _ _ _ hfree =>
      obtain ⟨pgdir, m₁, m, -, -, -, rfl⟩ := envFreeProcess_eq_ok hfree
      rw [forget_envs, freed_proj Env.envIpcRecving fun _ _ => rfl]
      exact hrecv

theorem Delivered.micro (h : Delivered c s s₁ tf) (ha : Allowed c s tf a) (hm : Micro c a s₁ s₂) :
    Delivered c s s₂ tf := by
  obtain ⟨hcall, t, ht, hrecv, hrecv₁, hdeadline⟩ := h
  refine ⟨hcall, t, ht, hrecv, hm.recving_eq (fun e => ?_) hrecv₁, hdeadline⟩
  rintro rfl
  cases ha with
  | destroy _ hdestroy => exact hdestroy
  | recving hcall' _ => exact absurd (hcall.unique hcall') Sysno.noConfusion

/-- Handing out a slot clears its deadline. -/
theorem Micro.sleepUntil_takes (h : Micro c a s s') (ha : a.Takes e) :
    (s'.envs e).envSleepUntil = 0 := by
  cases h with
  | create halloc =>
      obtain rfl := ha
      obtain ⟨p, m, -, -, rfl⟩ := envAlloc_eq_ok halloc
      simp [initEnv]
  | exofork _ halloc =>
      obtain rfl := ha
      obtain ⟨p, m, -, -, rfl⟩ := envAlloc_eq_ok halloc
      simp [initEnv]
  | thread _ _ _ halloc _ hdrop _ =>
      obtain rfl := ha
      obtain ⟨m', -, rfl⟩ := dropPgdir_eq_ok hdrop
      obtain ⟨p, m, -, -, rfl⟩ := envAlloc_eq_ok halloc
      simp [initEnv]
  | _ => exact absurd ha id

theorem Dormant.takes (h : Dormant s s₁) (hm : Micro c a s₁ s₂) (ha : a.Takes e) :
    Dormant s s₂ := by
  intro t ht hdeadline
  by_cases hte : t = e
  · rw [hte, hm.sleepUntil_takes ha] at hdeadline
    exact absurd rfl hdeadline
  · rw [(hm.frame_of_takes ha).1 t hte] at ht hdeadline ⊢
    exact h t ht hdeadline

theorem Dormant.freed (h : Dormant s s₁) {m : Mem} :
    Dormant s (forget c (JosSched.freed c s₁ e m) e) := by
  intro t ht hdeadline
  rw [forget_envs] at ht hdeadline ⊢
  by_cases hte : t = e
  · rw [hte, freed_envs_self] at ht
    exact absurd rfl ht
  · rw [freed_envs_ne hte] at ht hdeadline ⊢
    exact h t ht hdeadline

theorem Dormant.tick (h : Dormant s s₁) : Dormant s (JosSched.tick s₁) := by
  intro t ht hdeadline
  have heq : (JosSched.tick s₁).envs t = wakeup (s₁.ticks + 1) (s₁.envs t) := rfl
  rw [heq] at ht hdeadline ⊢
  unfold wakeup at ht hdeadline ⊢
  split at ht
  · next hkeep =>
      rw [if_pos hkeep] at hdeadline ⊢
      exact h t ht hdeadline
  · next hkeep =>
      rw [if_neg hkeep] at hdeadline ⊢
      split at hdeadline
      · exact absurd rfl hdeadline
      · next hlate =>
          rw [if_neg hlate] at ht ⊢
          exact h t ht hdeadline

/-- An allowed action wakes up nobody before its time, or it delivers to a sleeper. -/
theorem Dormant.micro (h : Dormant s s₁) (hs : Exclusive s) (hcustody : Custody c s s₁)
    (hspares : Calls tf .envSetStatus → (settableStatus tf.tfRegs.regEcx).isSome →
      ∀ t, envid2env c s tf.tfRegs.regEdx true = .ok t → (s.envs t).envSleepUntil = 0)
    (ha : Allowed c s tf a) (hsleep : ∀ e n, a ≠ .sleep e n) (hm : Micro c a s₁ s₂)
    (hcurenv : ∀ t, s₁.curenv c = some t → s.curenv c = some t) :
    Dormant s s₂ ∨ Delivered c s s₂ tf := by
  -- the current environment runs, so it does not sleep
  have hcurrent : ∀ {t}, s₁.curenv c = some t → (s₁.envs t).envSleepUntil = 0 := fun hcur =>
    h.current hs (hcurenv _ hcur) (hcustody.own _ hcur)
  cases hm with
  | start | pageNew | pageShare | pageDrop | kstore => exact .inl h
  | tick => exact .inl h.tick
  | save hcur | ret hcur | redirect hcur _ | recving hcur | block hcur _ =>
      exact .inl (h.sleepUntil_modEnv (fun _ => rfl) (hcurrent hcur))
  | ipcPerm | upcall | priority =>
      refine .inl (h.of_nap_eq fun u => modEnv_proj Env.nap fun _ => ?_)
      rfl
  | dying hrun _ =>
      refine .inl (h.sleepUntil_modEnv (fun _ => rfl) ?_)
      by_contra hdeadline
      have hst := (h _ (by rw [hrun]; exact EnvStatus.noConfusion) hdeadline).1
      rw [hrun] at hst
      cases hst
  | status _ htarget _ =>
      refine .inl (h.sleepUntil_modEnv (fun _ => rfl) ?_)
      by_contra hdeadline
      cases ha with
      | destroy _ hdestroy => exact hdestroy
      | status hcall _ ht hst =>
          exact (h.of_nap (hcustody.ne_free_of_target htarget) hdeadline).2
            (hspares hcall (by rw [hst]; rfl) _ ht)
  -- a message may reach a sleeper, which is the exception
  | @deliver _ cur t value _ htarget _ =>
      by_cases hdeadline : (s₁.envs t).envSleepUntil = 0
      · exact .inl (h.sleepUntil_modEnv (fun _ => rfl) hdeadline)
      · cases ha with
        | destroy _ hdestroy => exact absurd hdestroy id
        | deliver hcall _ ht hrecv =>
            refine .inr ⟨hcall, t, ht, hrecv, ?_,
              (h.of_nap (hcustody.ne_free_of_target htarget) hdeadline).2⟩
            rw [ipcDeliver, Kernel.modEnv_self]
  | sleep => exact absurd rfl (hsleep _ _)
  | create =>
      cases ha with
      | destroy _ hdestroy => exact absurd hdestroy id
  | exofork hcur halloc => exact .inl (h.takes (.exofork hcur halloc) rfl)
  | thread hcur h₁ h₂ h₃ h₄ h₅ h₆ => exact .inl (h.takes (.thread hcur h₁ h₂ h₃ h₄ h₅ h₆) rfl)
  | freeThread _ _ _ hfree =>
      obtain ⟨pgdir, m, -, -, rfl⟩ := envFreeThread_eq_ok hfree
      exact .inl h.freed
  | freeProcess _ _ _ _ hfree =>
      obtain ⟨pgdir, m₁, m, -, -, -, rfl⟩ := envFreeProcess_eq_ok hfree
      exact .inl h.freed
  | entry =>
      cases ha with
      | destroy _ hdestroy => exact absurd hdestroy id

/-- Leaving the kernel concerns nobody who sleeps. -/
theorem Dormant.departs (h : Dormant s s₁) (hs : Exclusive s)
    (hown : ∀ t, s₁.curenv c = some t → (s₁.envs t).envStatus ≠ .free)
    (hcurenv : ∀ t, s₁.curenv c = some t → s.curenv c = some t) (hdep : Departs c L s₁ s') :
    Dormant s s' := by
  intro t ht hdeadline
  have hsleep : (s'.envs t).envSleepUntil = (s₁.envs t).envSleepUntil :=
    hdep.departed.proj Env.envSleepUntil fun _ _ _ _ _ => rfl
  rw [hsleep] at hdeadline
  by_cases hcur : s₁.curenv c = some t
  · exact absurd (h.current hs (hcurenv t hcur) (hown t hcur)) hdeadline
  · have hfree : (s₁.envs t).envStatus ≠ .free := by
      intro hst
      have hnap := hdep.nap hcur (by rw [hst]; exact EnvStatus.noConfusion)
      exact ht ((Env.nap_inj hnap).1.trans hst)
    obtain ⟨hst, hnap⟩ := h t hfree hdeadline
    have hnap' := hdep.nap hcur (by rw [hst]; exact EnvStatus.noConfusion)
    exact ⟨(Env.nap_inj hnap').1.trans hst, hnap'.trans hnap⟩

/-! ## One step -/

/-- The notes of an environment that was asleep before the step. -/
theorem track_eq (hs : Exclusive s) (hstatus : (s.envs e).envStatus = .notRunnable)
    (hdeadline : (s.envs e).envSleepUntil ≠ 0) (hspares : ev.SparesSleepers s s') :
    track s ev g e = g e := by
  have hcur : ∀ c, s.curenv c ≠ some e := by
    intro c hcur
    rcases hs.executing c e hcur with hst | hst <;> rw [hstatus] at hst <;> cases hst
  have hhead : s.envFreeList ≠ some e := hs.head_ne (by rw [hstatus]; exact EnvStatus.noConfusion)
  have hnone : ev.suspends s e = none := by
    cases ev with
    | boot => exact if_neg hhead
    | start | timer | store => rfl
    | trap c inp tf =>
        unfold Event.suspends
        dsimp only
        rw [if_neg fun h => hcur c h.1, if_neg fun h => hcur c h.1, if_neg,
          if_neg fun h => hhead h.2]
        rintro ⟨hcall, hst, ht⟩
        have hok : envid2env c s tf.tfRegs.regEdx true = .ok e := by
          cases hlookup : envid2env c s tf.tfRegs.regEdx true with
          | error r =>
              rw [hlookup] at ht
              cases ht
          | ok t =>
              rw [hlookup] at ht
              rw [Option.some.inj ht]
        exact hdeadline (hspares.1 hcall (by rw [hst]; rfl) e hok)
  rw [track, hnone, Option.none_or]

/-- After a step in which nobody who had a deadline was woken before its time. -/
theorem OnlySleepers.of_dormant (h : OnlySleepers s g) (hs : Exclusive s) (hkept : Dormant s s')
    (hspares : ev.SparesSleepers s s') : OnlySleepers s' (track s ev g) := by
  intro e he hdeadline
  obtain ⟨hst, hsleep⟩ := hkept.of_nap he hdeadline
  obtain ⟨-, hnote⟩ := h e (by rw [hst]; exact EnvStatus.noConfusion) hsleep
  exact ⟨(hkept e he hdeadline).1, (track_eq hs hst hsleep hspares).trans hnote⟩

theorem OnlySleepers.dormant (h : OnlySleepers s g) : Dormant s s :=
  fun e he hdeadline => ⟨(h e he hdeadline).1, rfl⟩

/-- A call of `sys_sleep`. -/
theorem OnlySleepers.sleep (h : OnlySleepers s g) (hs : Exclusive s) (hcur : s.curenv c = some cur)
    (halive : (s.envs cur).envStatus ≠ .dying) (hcall : Calls tf .sleep)
    (hn : tf.tfRegs.regEdx ≠ 0) (hspares : (Event.trap c inp tf).SparesSleepers s s')
    (hexec : trap c s inp tf = .leave s') : OnlySleepers s' (track s (.trap c inp tf) g) := by
  rw [trap_sleep hcur halive hcall hn] at hexec
  have hdec := schedYield_decided hexec
  have hcur' : (asleep (saved c s cur tf) cur tf.tfRegs.regEdx).curenv c = some cur :=
    started_curenv.trans hcur
  intro e he hdeadline
  by_cases hec : e = cur
  · subst hec
    have hst : ((asleep (saved c s e tf) e tf.tfRegs.regEdx).envs e).envStatus = .notRunnable := by
      rw [asleep, Kernel.modEnv_self]
    have hnap := hdec.nap (by rw [hst]; exact EnvStatus.noConfusion)
      fun _ => by rw [hst]; exact EnvStatus.noConfusion
    refine ⟨(Env.nap_inj hnap).1.trans hst, ?_⟩
    unfold track Event.suspends
    dsimp only
    rw [if_pos ⟨hcur, hcall, hn⟩]
    rfl
  · have hsame : ((asleep (saved c s cur tf) cur tf.tfRegs.regEdx).envs e) = s.envs e := by
      rw [asleep, Kernel.modEnv_ne _ _ hec, saved_envs, if_neg hec]
    have hnotcur : (asleep (saved c s cur tf) cur tf.tfRegs.regEdx).curenv c ≠ some e := by
      rw [hcur']
      exact fun heq => hec (Option.some.inj heq).symm
    have hdep : Departs c (fun _ => True) (asleep (saved c s cur tf) cur tf.tfRegs.regEdx) s' :=
      .preempt trivial hexec
    have hsleep : (s'.envs e).envSleepUntil = (s.envs e).envSleepUntil := by
      rw [hdep.departed.proj Env.envSleepUntil fun _ _ _ _ _ => rfl, hsame]
    have hfree : (s.envs e).envStatus ≠ .free := by
      intro hst
      have hnap := hdep.nap hnotcur (by rw [hsame, hst]; exact EnvStatus.noConfusion)
      rw [hsame] at hnap
      exact he ((Env.nap_inj hnap).1.trans hst)
    rw [hsleep] at hdeadline
    obtain ⟨hst, hnote⟩ := h e hfree hdeadline
    have hnap := hdep.nap hnotcur (by rw [hsame, hst]; exact EnvStatus.noConfusion)
    rw [hsame] at hnap
    exact ⟨(Env.nap_inj hnap).1.trans hst, (track_eq hs hst hdeadline hspares).trans hnote⟩

/-- Any other trap. -/
theorem dormant_trap (h : OnlySleepers s g) (hs : Exclusive s)
    (hyg : (Event.trap c inp tf).Hygienic s) (hspares : (Event.trap c inp tf).SparesSleepers s s')
    (hpath : (trap c s inp tf).Path c L s)
    (hL : ∀ a, L a → Allowed c s tf a ∧ ∀ e n, a = .sleep e n → n = 0)
    (hexec : trap c s inp tf = .leave s') : Dormant s s' := by
  rw [hexec] at hpath
  obtain ⟨s₁, hpath, hdep⟩ := Exit.path_leave.mp hpath
  have hinv := hpath.invariant
    (I := fun s₁ => Custody c s s₁ ∧ (Dormant s s₁ ∨ Delivered c s s₁ tf) ∧
      ∀ t, s₁.curenv c = some t → s.curenv c = some t)
    ⟨hs.custody, .inl h.dormant, fun _ h => h⟩ fun a s₁ s₂ ha hm hs₁ => by
      obtain ⟨hcustody, hkept, hcurenv⟩ := hs₁
      refine ⟨hcustody.micro hm (safe_of_allowed hyg (hL a ha).1), ?_,
        fun t ht => hcurenv t (hm.curenv_of ht)⟩
      rcases hkept with hkept | hdelivered
      · refine hkept.micro hs hcustody hspares.1 (hL a ha).1 ?_ hm hcurenv
        rintro e n rfl
        cases hm with
        | sleep _ hn => exact hn ((hL _ ha).2 e n rfl)
      · exact .inr (hdelivered.micro (hL a ha).1 hm)
  obtain ⟨hcustody, hkept, hcurenv⟩ := hinv
  rcases hkept with hkept | ⟨hcall, t, ht, hrecv, hrecv₁, hdeadline⟩
  · exact hkept.departs hs hcustody.own hcurenv hdep
  · have hrecv' : (s'.envs t).envIpcRecving = false :=
      (hdep.departed.proj Env.envIpcRecving fun _ _ _ _ _ => rfl).trans hrecv₁
    exact absurd (hspares.2 hcall t ht hrecv hrecv') hdeadline

/-- The scheduler is called as soon as the CPU has entered the kernel. -/
theorem Dormant.decided (h : Dormant s s₁) (hs : Exclusive s)
    (hcurenv : ∀ t, s₁.curenv c = some t → s.curenv c = some t)
    (hstatus : ∀ t, (s₁.envs t).envStatus = .free → (s.envs t).envStatus = .free)
    (hyield : schedYield c s₁ = .leave s') : Dormant s s' := by
  refine h.departs hs (fun t ht hst => ?_) hcurenv
    (Departs.preempt (L := fun _ => True) trivial hyield)
  rcases hs.executing c t (hcurenv t ht) with hst' | hst' <;> rw [hstatus t hst] at hst' <;>
    cases hst'

theorem onlySleepers_step (h : OnlySleepers s g) (hs : Exclusive s) (hstep : HygienicStep s ev s')
    (hspares : ev.SparesSleepers s s') : OnlySleepers s' (track s ev g) := by
  obtain ⟨⟨henabled, hexec⟩, hyg⟩ := hstep
  cases ev with
  | boot binary =>
      obtain ⟨e, hfree, hpath⟩ := envCreate_path (c := 0) (envCreate_eq_ok hexec)
      have hinv := hpath.invariant (I := fun s₁ => ∀ t, (s₁.envs t).nap = (s.envs t).nap ∨
        (s₁.envs t).envSleepUntil = 0) (fun _ => .inl rfl) fun a s₁ s₂ ha hm hs₁ t => by
          by_cases hrouses : a.Rouses t
          · refine .inr (hm.sleepUntil_takes ?_)
            cases a <;> first | exact absurd ha id | exact absurd hrouses id | exact hrouses
          · have hnap := hm.nap hrouses
            exact (hs₁ t).imp hnap.trans fun hzero => (Env.nap_inj hnap).2.1.trans hzero
      refine h.of_dormant hs (fun t ht hdeadline => ?_) hspares
      have hnap := (hinv t).resolve_right hdeadline
      obtain ⟨hst, hsleep, -⟩ := Env.nap_inj hnap
      exact ⟨hst.trans (h t (hst ▸ ht) (hsleep ▸ hdeadline)).1, hnap⟩
  | start c =>
      have hkept : Dormant s (started c s) := h.dormant
      have hyield : schedYield c (started c s) = .leave s' := hexec
      have hcurenv : ∀ t, (started c s).curenv c = some t → s.curenv c = some t :=
        fun _ ht => started_curenv.symm.trans ht
      exact h.of_dormant hs (hkept.decided hs hcurenv (fun _ hst => hst) hyield) hspares
  | timer c =>
      have hkept : Dormant s (started c s) := h.dormant
      have hyield : schedYield c (JosSched.tick (started c s)) = .leave s' := hexec
      have hcurenv : ∀ t, (JosSched.tick (started c s)).curenv c = some t → s.curenv c = some t :=
        fun _ ht => started_curenv.symm.trans ht
      exact h.of_dormant hs (hkept.tick.decided hs hcurenv
        (fun _ hst => wakeup_free_iff.mp hst) hyield)
        hspares
  | store c va byte =>
      obtain ⟨m, rfl⟩ := store_eq_setMem hexec
      exact h.of_dormant hs h.dormant hspares
  | trap c inp tf =>
      -- a trap: a call that suspends its caller, a zombie that is freed, or anything else
      by_cases hsleep : ∃ cur, s.curenv c = some cur ∧ (s.envs cur).envStatus ≠ .dying ∧
          Calls tf .sleep ∧ tf.tfRegs.regEdx ≠ 0
      · obtain ⟨cur, hcur, halive, hcall, hn⟩ := hsleep
        exact h.sleep hs hcur halive hcall hn hspares hexec
      · by_cases hdying : ∃ cur, s.curenv c = some cur ∧ (s.envs cur).envStatus = .dying
        · obtain ⟨cur, hcur, hdying⟩ := hdying
          have hpath : (trap c s inp tf).Path c (fun a => a = .start ∨ a.OfDestroy c s cur) s :=
            trap_zombie_path hcur hdying (.inl rfl) fun _ ha => .inr ha
          refine h.of_dormant hs
            (dormant_trap h hs hyg hspares hpath (fun a ha => ?_) hexec) hspares
          rcases ha with rfl | ha
          · exact ⟨.start, fun _ _ => Act.noConfusion⟩
          · refine ⟨.destroy (.zombie hcur hdying) ha, ?_⟩
            rintro e n rfl
            exact absurd ha id
        · refine h.of_dormant hs (dormant_trap h hs hyg hspares (trap_path s inp tf)
            (fun a ha => ⟨ha, ?_⟩) hexec) hspares
          rintro e n rfl
          cases ha with
          | destroy _ hdestroy => exact absurd hdestroy id
          | sleep hcall hcur =>
              by_contra hn
              exact hsleep ⟨e, hcur, fun hst => hdying ⟨e, hcur, hst⟩, hcall, hn⟩

/-! ## Runs -/

/-- Nobody has been suspended yet. -/
def noNotes : Slot → Option Cause := fun _ => none

theorem onlySleepers_of_run {x : Kernel × (Slot → Option Cause)} {evs : List Event}
    (hboot : Booted s₀) (hrun : Trace NotedStep (s₀, noNotes) evs x) :
    Exclusive x.1 ∧ OnlySleepers x.1 x.2 := by
  refine hrun.invariant (I := fun x => Exclusive x.1 ∧ OnlySleepers x.1 x.2)
    ⟨exclusive_booted hboot, fun e he => ?_⟩ fun x ev y hx hstep => ?_
  · rw [hboot.envs] at he
    exact absurd rfl he
  · refine ⟨(exclusive_step hx.1 hstep.step.1 hstep.step.2).1, ?_⟩
    rw [hstep.noted]
    exact onlySleepers_step hx.2 hx.1 hstep.step hstep.spares

/-- The clock wakes up sleepers and nobody else. -/
structure WakesSleepers (s : Kernel) (g : Slot → Option Cause) : Prop where
  sleepers : OnlySleepers s g
  others : ∀ ticks e, g e ≠ some .sleep → wakeup ticks (s.envs e) = s.envs e
  clock : ∀ (ev : Event) s' e, HygienicStep s ev s' → ev.isClock = true → ev.Counted s →
    g e ≠ some .sleep → (s.envs e).envStatus = .notRunnable → (s'.envs e).envStatus = .notRunnable

/-- No clock interrupt is a system call. -/
theorem others_of_clock (hclock : ev.isClock = true) (hcur : ∀ c, s.curenv c ≠ some e) :
    ev.Others e s := by
  cases ev with
  | boot | start | timer | store => exact trivial
  | trap c inp tf =>
      have htimer : tf.tfTrapno = IRQ_OFFSET + IRQ_TIMER := of_decide_eq_true hclock
      have hnot : ∀ no, ¬ Calls tf no := fun no hcall => by
        rw [Calls, htimer] at hcall
        exact absurd hcall.1 (by decide)
      exact ⟨hcur c, fun h => absurd h (hnot _), fun h => absurd h (hnot _)⟩

/-- In every run that spares the sleepers, the clock interrupt never wakes an environment that is
blocked in `sys_ipc_recv`, was suspended with `sys_env_set_status`, or is new. -/
theorem timer_wakes_sleepers {evs : List Event} (hboot : Booted s₀)
    (hrun : Trace NotedStep (s₀, noNotes) evs (s, g)) : WakesSleepers s g := by
  obtain ⟨hs, hsleepers⟩ := onlySleepers_of_run hboot hrun
  have hsame : ∀ ticks e, g e ≠ some .sleep → wakeup ticks (s.envs e) = s.envs e := by
    intro ticks e hg
    unfold wakeup
    rw [if_pos]
    by_contra hboth
    rw [not_or, not_not] at hboth
    refine hg (hsleepers e ?_ hboth.2).2
    rw [hboth.1]
    exact EnvStatus.noConfusion
  refine ⟨hsleepers, hsame, fun ev s' e hstep hclock hcounted hg hst => ?_⟩
  have hcur : ∀ c, s.curenv c ≠ some e := by
    intro c hcur
    rcases hs.executing c e hcur with hst' | hst' <;> rw [hst] at hst' <;> cases hst'
  obtain ⟨c, s₁, -, hwake, hcurenv, hdep⟩ :=
    exec_clock (others_of_clock hclock hcur) hcounted hclock hstep.1.2
  rw [hsame _ e hg] at hwake
  have hnap := hdep.nap (hcurenv ▸ hcur c) (by rw [hwake, hst]; exact EnvStatus.noConfusion)
  exact (Env.nap_inj hnap).1.trans (by rw [hwake, hst])

/-! ## A sleeper, and one that was woken -/

/-- Runs the events on one CPU, with the notes, as long as they pass the test `ok`. -/
def replayNoted (ok : Event → Bool) (x : Kernel × (Slot → Option Cause)) (ev : Event) :
    Option (Kernel × (Slot → Option Cause)) :=
  if ev.By 0 ∧ ok ev then (ev.next x.1).map fun s' => (s', track x.1 ev x.2) else none

/-- One CPU makes hygienic steps. -/
theorem noted_of_replay {ok : Event → Bool} {evs : List Event} {x : Kernel × (Slot → Option Cause)}
    (hboot : Booted s₀)
    (hrun : Trace (fun x ev y => replayNoted ok x ev = some y) (s₀, noNotes) evs x) :
    Solo 0 x.1 ∧ Trace (fun x ev y => HygienicStep x.1 ev y.1 ∧ y.2 = track x.1 ev x.2 ∧ ok ev)
      (s₀, noNotes) evs x := by
  induction hrun with
  | nil => exact ⟨solo_booted hboot 0, .nil⟩
  | @snoc _ ev x y _ hnext ih =>
      obtain ⟨hsolo, hrun⟩ := ih
      unfold replayNoted at hnext
      split at hnext
      · next hok =>
          obtain ⟨s', hs', rfl⟩ := Option.map_eq_some_iff.mp hnext
          have hstep := step_of_next hs'
          exact ⟨hsolo.step hstep hok.1, hrun.snoc ⟨⟨hstep, hsolo.hygienic hok.1⟩, rfl, hok.2⟩⟩
      · cases hnext

/-- The event is no call that could wake somebody up. -/
def Event.wakesNobody : Event → Bool
  | .trap _ _ tf => !decide (Calls tf .envSetStatus) && !decide (Calls tf .ipcTrySend)
  | _ => true

theorem sparesSleepers_of_wakesNobody (h : ev.wakesNobody = true) : ev.SparesSleepers s s' := by
  cases ev with
  | boot | start | timer | store => exact trivial
  | trap c inp tf =>
      simp only [Event.wakesNobody, Bool.and_eq_true, Bool.not_eq_true',
        decide_eq_false_iff_not] at h
      exact ⟨fun hcall => absurd hcall h.1, fun hcall => absurd hcall h.2⟩

theorem timer_wakes_sleepers_two : ∃ s g, Trace NotedStep (bootedMachine .roundRobin 64, noNotes)
      (twoProcesses ++ [sleepCall 1]) (s, g) ∧
    ((s.envs 0).envSleepUntil = 1 ∧ g 0 = some .sleep) ∧ WakesSleepers s g := by
  obtain ⟨⟨s, g⟩, hrun, hs⟩ := Trace.exists_of_foldlM (replayNoted Event.wakesNobody)
    (bootedMachine .roundRobin 64, noNotes) (twoProcesses ++ [sleepCall 1])
    (fun x => decide ((x.1.envs 0).envSleepUntil = 1 ∧ x.2 0 = some .sleep)) (by decide +kernel)
  have hboot := booted_bootedMachine .roundRobin (n := 64) (by decide) (by decide)
  have hnoted : Trace NotedStep (bootedMachine .roundRobin 64, noNotes)
      (twoProcesses ++ [sleepCall 1]) (s, g) :=
    (noted_of_replay hboot hrun).2.mono fun _ _ _ hstep =>
      ⟨hstep.1, sparesSleepers_of_wakesNobody hstep.2.2, hstep.2.1⟩
  exact ⟨s, g, hnoted, decide_eq_true_iff.mp hs, timer_wakes_sleepers hboot hnoted⟩

/-- A child sleeps for one tick; its parent makes it ready at once; the child waits for a
message. -/
def sleeperWoken : List Event :=
  [.boot emptyImage, .start 0, sysTrap 0 .exofork 0 0 0 0 0,
    sysTrap 0 .envSetStatus 0x1001 2 0 0 0, sysTrap 0 .yield 0 0 0 0 0, sleepCall 1,
    sysTrap 0 .envSetStatus 0x1001 2 0 0 0, sysTrap 0 .yield 0 0 0 0 0,
    sysTrap 0 .ipcRecv 0 0 0 0 0]

/-- The next clock interrupt makes the receiver ready. -/
theorem receiver_woken : ¬ ∀ (s₀ s : Kernel) (g : Slot → Option Cause) (evs : List Event),
    Booted s₀ → Trace (fun x ev y => HygienicStep x.1 ev y.1 ∧ y.2 = track x.1 ev x.2)
      (s₀, noNotes) evs (s, g) → WakesSleepers s g := by
  intro hclaim
  obtain ⟨⟨s, g⟩, hrun, hs⟩ := Trace.exists_of_foldlM (replayNoted fun _ => true)
    (bootedMachine .roundRobin 64, noNotes) sleeperWoken
    (fun x => decide ((x.1.envs 1).envStatus = .notRunnable ∧ x.2 1 = some .recv ∧
      (wakeup 1 (x.1.envs 1)).envStatus = .runnable)) (by decide +kernel)
  rw [decide_eq_true_iff] at hs
  obtain ⟨hst, hnote, hwoken⟩ := hs
  have hboot := booted_bootedMachine .roundRobin (n := 64) (by decide) (by decide)
  have hwakes := hclaim _ s g _ hboot
    ((noted_of_replay hboot hrun).2.mono fun _ _ _ hstep => ⟨hstep.1, hstep.2.1⟩)
  have hnot : g 1 ≠ some .sleep := by
    rw [show g 1 = some .recv from hnote]
    decide
  have hsame := hwakes.others 1 1 hnot
  rw [hsame, hst] at hwoken
  cases hwoken

end JosSched
