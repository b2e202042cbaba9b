import JosSched.Smp.Isolation
import JosSched.Kern.Replay

/-!
# How far a system call reaches

A system call may write the environments that are in its reach (`Reached`): its caller, the
children of the caller, the threads of an environment that it destroys, and a new one.  A receiver
that is ready may be anybody's (`Receives`), and it gets the message and nothing else.  For all
others, `syscall_reach` says what remains: they may be given the CPU, and they may have waited for
it (`Turn`).  This holds in every state, of every system call, including those that destroy their
caller or never return.
-/

open Except

namespace JosSched

variable {c : Cpu} {s s' s₁ : Kernel} {inp : Input} {tf : Trapframe} {cur e t : Slot} {a : Act}
  {L : Act → Prop} {va len perm : Word}

/-! ## Who is in reach -/

/-- The system call destroys this environment: a zombie that traps, the argument of
`sys_env_destroy`, or an environment whose memory does not pass a check. -/
inductive Destroys (c : Cpu) (s : Kernel) (tf : Trapframe) (cur : Slot) : Slot → Prop
  | zombie : (s.envs cur).envStatus = .dying → Destroys c s tf cur cur
  | call {e : Slot} : Calls tf .envDestroy → envid2env c s tf.tfRegs.regEdx true = .ok e →
      Destroys c s tf cur e
  | cputs : Calls tf .cputs →
      FailsCheck s cur tf.tfRegs.regEdx tf.tfRegs.regEcx (PTE_P ||| PTE_W ||| PTE_U) →
      Destroys c s tf cur cur
  | upcall {e : Slot} : Calls tf .envSetPgfaultUpcall →
      envid2env c s tf.tfRegs.regEdx true = .ok e →
      FailsCheck s e tf.tfRegs.regEcx PGSIZE (PTE_P ||| PTE_U) → Destroys c s tf cur e

/-- The environments that a system call of `cur` may write. -/
inductive Reached (c : Cpu) (s : Kernel) (tf : Trapframe) (cur : Slot) : Slot → Prop
  | self : Reached c s tf cur cur
  | child {t : Slot} : (s.envs t).envStatus ≠ .free → (s.envs t).envParentId = (s.envs cur).envId →
      Reached c s tf cur t
  | thread {e t : Slot} : Destroys c s tf cur e → isThreadOf s e t = true → Reached c s tf cur t
  | created {t : Slot} : Calls tf .exofork ∨ Calls tf .threadCreate → s.envFreeList = some t →
      Reached c s tf cur t

/-- The call is a send to an environment that waits for a message. -/
def Receives (c : Cpu) (s : Kernel) (tf : Trapframe) (t : Slot) : Prop :=
  Calls tf .ipcTrySend ∧ envid2env c s tf.tfRegs.regEdx false = .ok t ∧
    (s.envs t).envIpcRecving = true

/-- The receiver, once it has the message that `cur` sends with frame `tf`. -/
def messaged (tf : Trapframe) (cur env : Env) : Env := { env with
  envIpcFrom := cur.envId
  envIpcRecving := false
  envIpcValue := tf.tfRegs.regEcx
  envIpcPerm := ipcPermAfter env tf.tfRegs.regEbx tf.tfRegs.regEdi
  envTf := env.envTf.setEax 0
  envStatus := .runnable }

/-- Environment `e`, which was as in `env`, may have been given the CPU, or have waited. -/
structure Turn (c : Cpu) (env : Env) (s' : Kernel) (e : Slot) : Prop where
  fields : s'.envs e = { env with
    envStatus := (s'.envs e).envStatus
    envRuns := (s'.envs e).envRuns
    envCpunum := (s'.envs e).envCpunum
    envWaitTicks := (s'.envs e).envWaitTicks }
  waiting : s'.curenv c ≠ some e → (s'.envs e).envStatus = env.envStatus ∧
    (s'.envs e).envRuns = env.envRuns ∧ (s'.envs e).envCpunum = env.envCpunum
  chosen : s'.curenv c = some e → env.envStatus = .runnable ∧ (s'.envs e).envStatus = .running ∧
    (s'.envs e).envRuns = env.envRuns + 1

theorem Turn.proj {α : Type} {env : Env} (h : Turn c env s' e) (f : Env → α)
    (hf : ∀ st runs cpu ticks, f { env with
      envStatus := st
      envRuns := runs
      envCpunum := cpu
      envWaitTicks := ticks } = f env) : f (s'.envs e) = f env :=
  (congrArg f h.fields).trans (hf _ _ _ _)

/-- The target of a call that checks permissions is in reach. -/
theorem Reached.target (hcur : s.curenv c = some cur) {envid : Word}
    (henv : envid2env c s envid true = .ok t) : Reached c s tf cur t := by
  obtain ⟨cur', hcur', hfamily⟩ := self_or_child_of_envid2env henv
  obtain rfl := Option.some.inj (hcur.symm.trans hcur')
  rcases target_of_envid2env henv with hself | hlive
  · obtain rfl := Option.some.inj (hcur.symm.trans hself)
    exact .self
  · rcases hfamily with rfl | hparent
    · exact .self
    · exact .child hlive hparent

theorem Destroys.reached (hcur : s.curenv c = some cur) (h : Destroys c s tf cur e) :
    Reached c s tf cur e := by
  cases h with
  | zombie | cputs => exact .self
  | call _ henv | upcall _ henv => exact .target hcur henv

/-- A system call destroys whom it hands to `env_destroy`. -/
theorem Root.destroys (h : Root c s tf t) (hcur : s.curenv c = some cur)
    (htrap : tf.tfTrapno = T_SYSCALL) : Destroys c s tf cur t := by
  cases h with
  | zombie hself hdying =>
      obtain rfl := Option.some.inj (hcur.symm.trans hself)
      exact .zombie hdying
  | self hself _ h =>
      obtain rfl := Option.some.inj (hcur.symm.trans hself)
      rcases h with ⟨hcalls, hfail⟩ | ⟨hfault, -⟩ | hother
      · exact .cputs hcalls hfail
      · rw [htrap] at hfault
        exact absurd hfault (by decide)
      · refine absurd ?_ hother
        rw [Trapframe.Handled, htrap]
        decide
  | call _ _ h henv =>
      rcases h with hcalls | ⟨hcalls, hfail⟩
      · exact .call hcalls henv
      · exact .upcall hcalls henv hfail

/-! ## Leaving the kernel -/

/-- Once `e` is not the environment that made the call, leaving the kernel only takes turns. -/
theorem Departs.turn (h : Departs c L s s') (hcur : s.curenv c ≠ some e) :
    Turn c (s.envs e) s' e := by
  have hran : ∀ {s₁ t}, SameButWait s s₁ → Ran c s₁ t s' →
      (t = e → (s.envs e).envStatus = .runnable) → Turn c (s.envs e) s' e := by
    intro s₁ t hsame hran hready
    have hcur₁ : s₁.curenv c ≠ some e := by
      rw [Kernel.curenv, hsame.cpus]
      exact hcur
    have henvs := hran.envs e
    rw [hsame.envs e] at henvs
    by_cases hte : e = t
    · obtain rfl := hte
      simp only [if_true] at henvs
      refine ⟨by rw [henvs], fun hne => absurd hran.curenv hne, fun _ => ⟨hready rfl, ?_⟩⟩
      rw [henvs]
      exact ⟨rfl, rfl⟩
    · simp only [if_neg hte, hcur₁, false_and, if_false] at henvs
      refine ⟨by rw [henvs], fun _ => ?_, fun hchosen => ?_⟩
      · rw [henvs]
        exact ⟨rfl, rfl, rfl⟩
      · exact absurd (Option.some.inj (hchosen.symm.trans hran.curenv)) hte
  rcases h.cases with hdec | ⟨t, ht, hresumed⟩
  · cases hdec with
    | ran hsame hcandidate hchosen =>
        refine hran hsame hchosen fun hte => ?_
        obtain rfl := hte
        exact hcandidate.resolve_right fun hself => hcur hself.1
    | halted hsame =>
        refine ⟨by rw [halted_envs, hsame.envs e], fun _ => ?_, fun hchosen => ?_⟩
        · rw [halted_envs, hsame.envs e]
          exact ⟨rfl, rfl, rfl⟩
        · rw [halted_curenv_self] at hchosen
          cases hchosen
  · refine hran .refl hresumed fun hte => ?_
    obtain rfl := hte
    exact absurd ht hcur

/-! ## Inside the kernel -/

/-- The action writes environment `e`. -/
def Act.Touches (e : Slot) : Act → Prop
  | .save t _ | .ret t _ | .redirect t | .dying t | .status _ t _ | .deliver _ t _ | .ipcPerm t _
  | .recving t | .block t _ | .sleep t _ | .priority _ t _ | .upcall t _ | .create t
  | .exofork _ t | .thread _ t | .freeThread t _ | .freeProcess t _ | .entry t _ => e = t
  | .tick => True
  | _ => False

theorem Micro.untouched (h : Micro c a s s') (ha : ¬ a.Touches e) : s'.envs e = s.envs e := by
  have hm := h
  cases h with
  | start | pageNew | pageShare | pageDrop | kstore => rfl
  | tick => exact absurd trivial ha
  | create | exofork | thread => exact (hm.frame_of_takes rfl).1 e ha
  | freeThread _ _ _ hfree =>
      obtain ⟨d, m, -, -, rfl⟩ := envFreeThread_eq_ok hfree
      rw [forget_envs]
      exact freed_envs_ne ha
  | freeProcess _ _ _ _ hfree =>
      obtain ⟨d, m₁, m, -, -, -, rfl⟩ := envFreeProcess_eq_ok hfree
      rw [forget_envs]
      exact freed_envs_ne ha
  | save | ret | redirect | dying | status | deliver | ipcPerm | recving | block | sleep | priority
  | upcall | entry => exact Kernel.modEnv_ne _ _ ha

theorem Path.untouched (h : Path c L s s₁) (hL : ∀ a, L a → ¬ a.Touches e) :
    s₁.envs e = s.envs e :=
  h.invariant (I := fun s₁ => s₁.envs e = s.envs e) rfl fun _ _ _ ha hm h =>
    (hm.untouched (hL _ ha)).trans h

/-- Destroying an environment writes the environment and its threads. -/
theorem Act.OfDestroy.untouched (h : a.OfDestroy c s t) (hne : e ≠ t)
    (hthread : isThreadOf s t e = false) : ¬ a.Touches e := by
  have hnot : ∀ u, u = t ∨ isThreadOf s t u = true → e ≠ u := by
    rintro u (rfl | hu) rfl
    · exact hne rfl
    · exact absurd (hthread.symm.trans hu) Bool.false_ne_true
  cases a with
  | dying u => exact hnot u h
  | freeThread u st => exact hnot u h.2.1
  | freeProcess u st => exact hnot u (.inl h.2.1)
  | _ => exact absurd h id

theorem Destroys.untouched (h : Destroys c s tf cur t) (hcur : s.curenv c = some cur)
    (he : ¬ Reached c s tf cur e) (ha : a.OfDestroy c s t) : ¬ a.Touches e := by
  refine ha.untouched (fun heq => he (heq ▸ h.reached hcur)) ?_
  exact Bool.eq_false_iff.mpr fun hthread => he (.thread h hthread)

/-- What a system call may do leaves alone who is out of reach.  Sends are told apart below. -/
theorem Allowed.untouched (h : Allowed c s tf a) (hcur : s.curenv c = some cur)
    (htrap : tf.tfTrapno = T_SYSCALL) (hsend : ¬ Calls tf .ipcTrySend)
    (he : ¬ Reached c s tf cur e) : ¬ a.Touches e := by
  have hself : ∀ t, s.curenv c = some t → e ≠ t := by
    rintro t ht rfl
    obtain rfl := Option.some.inj (hcur.symm.trans ht)
    exact he .self
  have htarget : ∀ {envid t}, envid2env c s envid true = .ok t → e ≠ t := by
    rintro envid t ht rfl
    exact he (.target hcur ht)
  have hnew : ∀ t, Calls tf .exofork ∨ Calls tf .threadCreate → s.envFreeList = some t → e ≠ t := by
    rintro t hcalls hfree rfl
    exact he (.created hcalls hfree)
  cases h with
  | start | preempt | kstore | pageAlloc | pageMap | pageUnmap | ipcPage | ipcShare => exact id
  | save h | ret h _ | redirect h _ | recving _ h | block _ h | sleep _ h => exact hself _ h
  | tick htimer =>
      rw [htrap] at htimer
      exact absurd htimer (by decide)
  | destroy h ha => exact (h.destroys hcur htrap).untouched hcur he ha
  | status _ _ ht _ | priority _ _ ht | upcall _ ht => exact htarget ht
  | deliver hcalls | ipcPerm hcalls => exact absurd hcalls hsend
  | exofork hcalls _ hfree => exact hnew _ (.inl hcalls) hfree
  | thread hcalls _ hfree => exact hnew _ (.inr hcalls) hfree

/-! ## System calls -/

/-- An environment that the way to the end of the call does not touch. -/
theorem Path.turn {x : Exit} (h : x.Path c L s) (hx : x = .leave s') (hcur : s.curenv c ≠ some e)
    (hL : ∀ a, L a → ¬ a.Touches e) : Turn c (s.envs e) s' e := by
  subst hx
  obtain ⟨s₁, hpath, hdep⟩ := Exit.path_leave.mp h
  rw [← hpath.untouched hL]
  exact hdep.turn fun hcur₁ => hcur (hpath.curenv_of hcur₁)

/-- A call that returns to its caller. -/
theorem turn_of_returned {r : ℤ} (hne : e ≠ cur) (hcur : s₁.curenv c ≠ some e)
    (hleave : trapReturn c (returned s₁ cur r) = .leave s') : Turn c (s₁.envs e) s' e := by
  have hdep : Departs c (fun _ => True) (returned s₁ cur r) s' := trapReturn_departs hleave
  have hturn := hdep.turn (e := e) hcur
  rwa [returned, Kernel.modEnv_ne _ _ hne] at hturn

theorem saved_envs_ne (hne : e ≠ cur) : (saved c s cur tf).envs e = s.envs e := by
  rw [saved_envs, if_neg hne]

/-- `sys_ipc_try_send`, whose target may be anybody. -/
theorem turn_of_send (hcur : s.curenv c = some cur) (hdying : (s.envs cur).envStatus ≠ .dying)
    (hcalls : Calls tf .ipcTrySend) (hleave : trap c s inp tf = .leave s') (hne : e ≠ cur) :
    ∃ env, (env = s.envs e ∨ Receives c s tf e ∧ env = messaged tf (s.envs cur) (s.envs e)) ∧
      Turn c env s' e := by
  have hsaved : (saved c s cur tf).curenv c ≠ some e := by
    rw [saved_curenv, hcur]
    exact fun heq => hne (Option.some.inj heq).symm
  rcases trap_syscall hcur hdying hcalls hleave with ⟨r, s₁, hret, hback⟩ | herr
  · obtain ⟨-, m, rfl⟩ | ⟨-, t, m, henv, hrecv, rfl⟩ := sysIpcTrySend_eq_ok hret
    · have hturn := turn_of_returned hne (by exact hsaved) hback
      rw [Kernel.setMem_envs, saved_envs_ne hne] at hturn
      exact ⟨_, .inl rfl, hturn⟩
    · have hturn := turn_of_returned hne (by exact hsaved) hback
      rw [envid2env_saved] at henv
      rw [saved_envs] at hrecv
      by_cases het : e = t
      · obtain rfl := het
        refine ⟨_, .inr ⟨⟨hcalls, henv, hrecv⟩, ?_⟩, hturn⟩
        rw [ipcDeliver, Kernel.modEnv_self, setIpcPerm, Kernel.modEnv_self,
          Kernel.modEnv_ne _ _ (Ne.symm hne), Kernel.setMem_envs, saved_envs_ne hne, saved_envs]
        rfl
      · rw [ipcDeliver, Kernel.modEnv_ne _ _ het, setIpcPerm, Kernel.modEnv_ne _ _ het,
          Kernel.setMem_envs, saved_envs_ne hne] at hturn
        exact ⟨_, .inl rfl, hturn⟩
  · exact absurd rfl (sysIpcTrySend_stays.of_error _ herr s')

/-- A trap of a zombie, or a call that is no send. -/
theorem turn_of_trap (hcur : s.curenv c = some cur) (htrap : tf.tfTrapno = T_SYSCALL)
    (hsend : (s.envs cur).envStatus ≠ .dying → ¬ Calls tf .ipcTrySend)
    (hleave : trap c s inp tf = .leave s') (he : ¬ Reached c s tf cur e) :
    Turn c (s.envs e) s' e := by
  have hcur' : s.curenv c ≠ some e := fun heq =>
    he (Option.some.inj (hcur.symm.trans heq) ▸ .self)
  by_cases hdying : (s.envs cur).envStatus = .dying
  · refine Path.turn (L := fun a => a = .start ∨ a.OfDestroy c s cur)
      (trap_zombie_path hcur hdying (.inl rfl) fun _ => .inr) hleave hcur' ?_
    rintro a (rfl | ha)
    · exact id
    · exact Destroys.untouched (.zombie hdying) hcur he ha
  · exact Path.turn (trap_path s inp tf) hleave hcur' fun a ha =>
      ha.untouched hcur htrap (hsend hdying) he

/-- Whatever system call `cur` makes, with whatever arguments, an environment out of reach keeps
everything but its turn, unless the call sends it the message that it waits for. -/
theorem syscall_reach (hcur : s.curenv c = some cur) (htrap : tf.tfTrapno = T_SYSCALL)
    (hleave : trap c s inp tf = .leave s') (he : ¬ Reached c s tf cur e) :
    ∃ env, (env = s.envs e ∨ Receives c s tf e ∧ env = messaged tf (s.envs cur) (s.envs e)) ∧
      Turn c env s' e := by
  by_cases hsend : (s.envs cur).envStatus ≠ .dying ∧ Calls tf .ipcTrySend
  · exact turn_of_send hcur hsend.1 hsend.2 hleave fun heq => he (heq ▸ .self)
  · exact ⟨_, .inl rfl, turn_of_trap hcur htrap (not_and.mp hsend) hleave he⟩

/-- Two processes, the first of which runs. -/
def bothBooted : List Event := [.boot emptyImage, .boot emptyImage, .start 0]

/-- The first process destroys itself, and the second one gets the CPU. -/
theorem syscall_reach_exit : ∃ s s', Trace Step (bootedMachine .roundRobin 64) bothBooted s ∧
    trap 0 s {} (sysFrame {} .envDestroy 0 0 0 0 0) = .leave s' ∧ s'.curenv 0 = some 1 ∧
    ∃ env, (env = s.envs 1 ∨ Receives 0 s (sysFrame {} .envDestroy 0 0 0 0 0) 1 ∧
      env = messaged (sysFrame {} .envDestroy 0 0 0 0 0) (s.envs 0) (s.envs 1)) ∧
      Turn 0 env s' 1 := by
  have heval : (replay (fun _ _ => True) (bootedMachine .roundRobin 64) bothBooted).any
      (fun s => decide (s.curenv 0 = some 0 ∧ (s.envs 1).envType = .user ∧
        (s.envs 1).envParentId ≠ (s.envs 0).envId) &&
        ((sysTrap 0 .envDestroy 0 0 0 0 0).next s).any fun s' => decide (s'.curenv 0 = some 1)) =
      true := by
    decide +kernel
  obtain ⟨s, hrun, hs⟩ := exists_trace _ _ _ _ heval
  rw [Bool.and_eq_true, decide_eq_true_iff] at hs
  obtain ⟨⟨hcur, huser, hparent⟩, hnext⟩ := hs
  obtain ⟨s', hnext, hchosen⟩ := (Option.any_eq_true _ _).mp hnext
  have hleave : trap 0 s {} (sysFrame {} .envDestroy 0 0 0 0 0) = .leave s' :=
    (step_of_next hnext).2
  refine ⟨s, s', hrun.mono fun _ _ _ hstep => hstep.1, hleave, decide_eq_true_iff.mp hchosen,
    syscall_reach hcur rfl hleave ?_⟩
  rintro (_ | ⟨-, hchild⟩ | ⟨-, hthread⟩ | ⟨hcalls, -⟩)
  · exact hparent hchild
  · rw [isThreadOf_iff, huser] at hthread
    exact EnvType.noConfusion hthread.2.1
  · exact absurd hcalls (by decide)

end JosSched
