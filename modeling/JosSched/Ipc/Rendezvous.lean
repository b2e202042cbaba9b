import JosSched.Ipc.Phases

/-!
# The rendezvous of `sys_ipc_recv` and `sys_ipc_try_send`

Any number of environments, on any number of CPUs, receive, send, sleep, yield and are
interrupted in any order.  As long as every `sys_ipc_recv` is given a valid address, a send
succeeds exactly when its target is suspended in a receive, and the receive it ends returns
that message.

`sys_ipc_recv` sets `env_ipc_recving` before it checks its argument and leaves it set when it
returns `-E_INVAL`; a send then finds a receiver that is not there.
-/

open Except

namespace JosSched

/-! ## The protocol -/

def ipcCalls : List Sysno := [.ipcRecv, .ipcTrySend, .sleep, .yield]

/-- The event is one of the protocol's calls, the clock, or no trap at all. -/
def Event.IsIpc : Event → Prop
  | .trap _ _ tf => tf.tfTrapno = IRQ_OFFSET + IRQ_TIMER ∨ ∃ no ∈ ipcCalls, Calls tf no
  | _ => True

/-- A `sys_ipc_recv` has a valid address. -/
def Event.ValidRecv : Event → Prop
  | .trap _ _ tf => Calls tf .ipcRecv → UserPage tf.tfRegs.regEdx
  | _ => True

/-- A step of a machine that runs the protocol. -/
structure IpcStep (x : Tracked) (ev : Event) (y : Tracked) : Prop where
  step : Step x.kernel ev y.kernel
  isIpc : ev.IsIpc
  next : y = x.next ev y.kernel

/-- A machine with nobody inside `sys_ipc_recv`. -/
structure Quiet (s : Kernel) : Prop where
  exclusive : Exclusive s
  envOk : ∀ e, EnvOk .user (s.envs e)

/-- What the protocol promises of the step from `x` to `y`. -/
structure Rendezvous (x : Tracked) (ev : Event) (y : Tracked) : Prop where
  /-- A send returns 0 only when its target is suspended in a receive. -/
  sound : ∀ msg, ev.sent x.kernel = some msg → x.phases msg.dest = .receiving
  /-- A receive goes on until a send ends it. -/
  receiving : ∀ e, x.phases e = .receiving → ¬ y.kernel.Executing e ∧
    (y.phases e = .receiving ∨ ∃ msg, ev.sent x.kernel = some msg ∧ msg.dest = e ∧
      y.phases e = .delivered msg.value msg.sender)
  /-- The message waits for the receiver, whose call returns 0 with it. -/
  delivered : ∀ e v f, x.phases e = .delivered v f →
    ¬ y.kernel.Executing e ∧ y.phases e = .delivered v f ∨
    y.kernel.Executing e ∧ (y.kernel.envs e).envIpcValue = v ∧
      (y.kernel.envs e).envIpcFrom = f ∧ (y.kernel.envs e).envTf.tfRegs.regEax = 0
  /-- A send leaves alone everybody but a receiver, and the sender gets a result. -/
  unaffected : ∀ c inp tf cur, ev = .trap c inp tf → Calls tf .ipcTrySend →
    x.kernel.curenv c = some cur → ∀ t, x.phases t ≠ .receiving →
    (y.kernel.envs t).envStatus = (x.kernel.envs t).envStatus ∧
      (t ≠ cur → (y.kernel.envs t).envTf = (x.kernel.envs t).envTf) ∧
      (t = cur → ∃ r, (y.kernel.envs t).envTf = tf.setEax r)
  /-- A receive that fails leaves its caller unable to receive. -/
  refused : ∀ c inp tf cur, ev = .trap c inp tf → Calls tf .ipcRecv →
    x.kernel.curenv c = some cur →
    ∀ s₁, sysIpcRecv c (saved c x.kernel cur tf) cur tf.tfRegs.regEdx = .ok (-E_INVAL, s₁) →
    (y.kernel.envs cur).envIpcRecving = false

/-- The invariant of the protocol. -/
structure InProtocol (x : Tracked) : Prop where
  exclusive : Exclusive x.kernel
  envOk : ∀ e, EnvOk (x.phases e) (x.kernel.envs e)

variable {c : Cpu} {s s₁ s' s₀ : Kernel} {g : Phases} {x y : Tracked} {ev : Event} {cur : Slot}
  {tf : Trapframe} {inp : Input}

namespace InProtocol

/-- Whoever a CPU executes is running, and in user mode. -/
theorem running (h : InProtocol x) (hcur : x.kernel.curenv c = some cur) :
    (x.kernel.envs cur).envStatus = .running :=
  (h.exclusive.executing c cur hcur).resolve_right (h.envOk cur).alive

theorem user (h : InProtocol x) (hcur : x.kernel.curenv c = some cur) : x.phases cur = .user := by
  refine (h.envOk cur).eq_user ?_ ?_ <;> rw [h.running hcur] <;> decide

theorem ready (h : InProtocol x) (c : Cpu) : Ready c x.kernel x.phases :=
  ⟨h.envOk, fun _ _ _ hd => h.user hd⟩

/-- No zombies, and the status of nobody who is executing is written. -/
theorem hygienic (h : InProtocol x) (hipc : ev.IsIpc) : ev.Hygienic x.kernel := by
  cases ev with
  | trap c inp tf =>
      refine ⟨fun _ hcall => ?_, fun _ _ t _ hflag d _ hd => ?_, fun _ _ _ t _ hdying => ?_⟩
      · rcases hipc with htimer | ⟨no, hno, hcall'⟩
        · rw [hcall.1] at htimer
          exact absurd htimer (by decide)
        · have heq := Option.some.inj (hcall.2.symm.trans hcall'.2)
          subst heq
          exact absurd hno (by decide)
      · have hrecv := (h.envOk t).flag.mp hflag
        rw [h.user hd] at hrecv
        cases hrecv
      · exact absurd hdying (h.envOk t).alive
  | boot | start | timer | store => exact trivial

end InProtocol

/-! ## The phases of each event -/

theorem phases_of_sent {msg : Message} (h : ev.sent s = some msg) :
    ev.phases s g = Function.update g msg.dest (.delivered msg.value msg.sender) := by
  simp only [Event.phases, h]

theorem phases_of_receiver (hsent : ev.sent s = none) (h : ev.receiver s = some cur) :
    ev.phases s g = Function.update g cur .receiving := by
  simp only [Event.phases, hsent, h]

theorem phases_of_none (hsent : ev.sent s = none) (h : ev.receiver s = none) :
    ev.phases s g = g := by
  simp only [Event.phases, hsent, h]

theorem sent_eq_none (h : ¬ Calls tf .ipcTrySend) : (Event.trap c inp tf).sent s = none := by
  unfold Event.sent
  dsimp only
  split
  · rfl
  · exact if_neg fun h' => h h'.1

theorem phases_eq (hsend : ¬ Calls tf .ipcTrySend) (hrecv : ¬ Calls tf .ipcRecv) :
    (Event.trap c inp tf).phases s g = g :=
  phases_of_none (sent_eq_none hsend) (if_neg hrecv)

theorem phases_recv (hcall : Calls tf .ipcRecv) (hcur : s.curenv c = some cur) :
    (Event.trap c inp tf).phases s g = Function.update g cur .receiving :=
  phases_of_receiver (sent_eq_none fun h => Sysno.noConfusion (h.unique hcall))
    ((if_pos hcall).trans hcur)

/-- A send returns to its caller: with an error, having changed memory at most, or with 0,
having woken a receiver. -/
theorem send_cases (hcall : Calls tf .ipcTrySend) (hcur : s.curenv c = some cur)
    (hdying : (s.envs cur).envStatus ≠ .dying) (h : trap c s inp tf = .leave s') :
    ∃ r s₁, trapReturn c (returned s₁ cur r) = .leave s' ∧
      ((Event.sent s (.trap c inp tf) = none ∧ -8 < r ∧ r < 0 ∧
        ∃ m, s₁ = (saved c s cur tf).setMem m) ∨
        ∃ dst m p, Event.sent s (.trap c inp tf) =
            some ⟨dst, tf.tfRegs.regEcx, (s.envs cur).envId⟩ ∧
          (s.envs dst).envIpcRecving = true ∧
          p = ipcPermAfter (s.envs dst) tf.tfRegs.regEbx tf.tfRegs.regEdi ∧ r = 0 ∧
          s₁ = ipcDeliver (setIpcPerm ((saved c s cur tf).setMem m) dst p) cur dst
            tf.tfRegs.regEcx) := by
  rcases trap_syscall hcur hdying hcall h with ⟨r, s₁, hret, hreturn⟩ | hexit
  · have hsend : sysIpcTrySend c (saved c s cur tf) inp cur tf.tfRegs.regEdx tf.tfRegs.regEcx
        tf.tfRegs.regEbx tf.tfRegs.regEdi = .ok (r, s₁) := hret
    refine ⟨r, s₁, hreturn, ?_⟩
    rcases sysIpcTrySend_eq_ok hsend with ⟨hneg, m, rfl⟩ | ⟨rfl, dst, m, hdst, hflag, rfl⟩
    · refine .inl ⟨?_, (sysIpcTrySend_small _ _ hsend).1, hneg, m, rfl⟩
      simp only [Event.sent, hcur, hcall, hdying, ne_eq, not_false_eq_true, and_self, if_true,
        hsend]
      cases envid2env c s tf.tfRegs.regEdx false <;> simp [hneg.ne]
    · rw [envid2env_saved] at hdst
      refine .inr ⟨dst, m, _, ?_, ?_, ?_, rfl, rfl⟩
      · simp only [Event.sent, hcur, hcall, hdying, ne_eq, not_false_eq_true, and_self, if_true,
          hsend, hdst]
      · rw [saved_envs] at hflag
        exact hflag
      · rw [saved_envs]
        rfl
  · exact absurd rfl (sysIpcTrySend_stays.of_error _ hexit s')

/-! ## One call -/

/-- What the calls of the protocol start from: the caller runs, in user mode. -/
structure Caller (c : Cpu) (s : Kernel) (g : Phases) (cur : Slot) : Prop where
  ready : Ready c s g
  curenv : s.curenv c = some cur
  running : (s.envs cur).envStatus = .running
  user : g cur = .user
  onlyHere : OnlyHere c s cur

namespace Caller

theorem saved (h : Caller c s g cur) : Caller c (saved c s cur tf) g cur where
  ready := h.ready.saved h.user
  curenv := saved_curenv.trans h.curenv
  running := by
    rw [saved_envs]
    exact h.running
  user := h.user
  onlyHere d hd hde := h.onlyHere d hd (saved_curenv ▸ hde)

theorem awake (h : Caller c s g cur) : (s.envs cur).envSleepUntil = 0 :=
  (h.ready.envOk cur).awake (by rw [h.running]; decide)

theorem flag (h : Caller c s g cur) : (s.envs cur).envIpcRecving = false := by
  rw [← Bool.not_eq_true]
  intro hflag
  have hrecv := (h.ready.envOk cur).flag.mp hflag
  rw [h.user] at hrecv
  cases hrecv

/-- `sys_ipc_recv` suspends its caller. -/
theorem recv (h : Caller c s g cur) {dstva : Word} (hva : UserPage dstva)
    (hexit : sysIpcRecv c s cur dstva = .error (.leave s')) :
    Resumed s' (Function.update g cur .receiving) := by
  have hva' : ¬ (UTOP ≤ dstva ∨ pgoff dstva ≠ 0) :=
    not_or.mpr ⟨BitVec.not_le.mpr hva.1, not_not.mpr hva.2⟩
  have hyield := Except.error.inj ((if_neg hva').symm.trans hexit)
  refine Ready.decided ?_ (schedYield_decided hyield)
  have hblocked := h.ready.modEnv (e := cur) (p := .receiving)
    (f := fun env => { env with
      envIpcRecving := true, envIpcDstva := dstva, envStatus := .notRunnable })
    ⟨by simp, fun hne => absurd rfl hne, by simp, fun _ => ⟨rfl, h.awake⟩,
      fun _ _ hp => Phase.noConfusion hp⟩ h.onlyHere
  simpa [Kernel.modEnv] using hblocked

/-- `sys_sleep` suspends its caller too, but not for a message. -/
theorem sleep (h : Caller c s g cur) {n : Word}
    (hexit : sysSleep c s cur n = .error (.leave s')) : Resumed s' g := by
  unfold sysSleep at hexit
  split at hexit
  · cases hexit
  · refine (h.ready.modEnv_user h.user ?_).decided (schedYield_decided (Except.error.inj hexit))
    exact .of_user (by simp) (fun hne => absurd rfl hne) h.flag

/-- A call that returns has left its caller running, and may have delivered a message. -/
theorem returned (h : Caller c s g cur) {r : ℤ}
    (hret : trapReturn c (returned s cur r) = .leave s') :
    Resumed s' g :=
  (h.ready.ret h.user _).decided (trapReturn_decided hret)

theorem setMem (h : Caller c s g cur) (m : Mem) : Caller c (s.setMem m) g cur :=
  ⟨h.ready.setMem m, h.curenv, h.running, h.user, h.onlyHere⟩

/-- A send to a suspended receiver. -/
theorem deliver (h : Caller c s g cur) (perm value : Word) {dst : Slot}
    (hflag : (s.envs dst).envIpcRecving = true) :
    Caller c (ipcDeliver (setIpcPerm s dst perm) cur dst value)
      (Function.update g dst (.delivered value (s.envs cur).envId)) cur := by
  have hrecv := (h.ready.envOk dst).flag.mp hflag
  obtain ⟨-, hslept⟩ := (h.ready.envOk dst).receiving hrecv
  have hne : cur ≠ dst := by
    rintro rfl
    rw [h.user] at hrecv
    cases hrecv
  have honly : OnlyHere c s dst := fun d hd hde => by
    rw [h.ready.others d hd dst hde] at hrecv
    cases hrecv
  have hid : ((setIpcPerm s dst perm).envs cur).envId = (s.envs cur).envId :=
    congrArg Env.envId (Kernel.modEnv_ne _ _ hne)
  refine ⟨?_, h.curenv, ?_, ?_, h.onlyHere⟩
  · have hdelivered := h.ready.modEnv (e := dst)
      (p := .delivered value (s.envs cur).envId)
      (f := fun env => { env with
        envIpcPerm := perm, envIpcFrom := (s.envs cur).envId, envIpcRecving := false,
        envIpcValue := value, envTf := env.envTf.setEax 0, envStatus := .runnable })
      ⟨by simp, fun _ => hslept, by simp, fun hp => Phase.noConfusion hp, fun v f hp => by
        obtain ⟨rfl, rfl⟩ := Phase.delivered.inj hp
        exact ⟨rfl, rfl, rfl, rfl⟩⟩ honly
    unfold ipcDeliver
    rw [hid]
    simpa [setIpcPerm, Kernel.modEnv] using hdelivered
  · rw [ipcDeliver, Kernel.modEnv_ne _ _ hne, setIpcPerm, Kernel.modEnv_ne _ _ hne]
    exact h.running
  · rw [Function.update_of_ne hne]
    exact h.user

end Caller

theorem InProtocol.caller (h : InProtocol x) (hcur : x.kernel.curenv c = some cur) :
    Caller c x.kernel x.phases cur where
  ready := h.ready c
  curenv := hcur
  running := h.running hcur
  user := h.user hcur
  onlyHere d hd hde := hd (h.exclusive.inj d c cur hde hcur)

/-- The stay in the kernel that a trap begins. -/
theorem trap_resumed (h : InProtocol x) (hcur : x.kernel.curenv c = some cur)
    (hipc : (Event.trap c inp tf).IsIpc) (hvalid : (Event.trap c inp tf).ValidRecv)
    (hexec : trap c x.kernel inp tf = .leave s') :
    Resumed s' ((Event.trap c inp tf).phases x.kernel x.phases) := by
  have hdying := (h.envOk cur).alive
  have hcaller : Caller c (saved c x.kernel cur tf) x.phases cur := (h.caller hcur).saved
  rcases hipc with htimer | ⟨no, hno, hcall⟩
  · have hnot : ∀ no, ¬ Calls tf no := fun no hcall =>
      absurd (hcall.1.symm.trans htimer) (by decide)
    rw [phases_eq (hnot _) (hnot _)]
    rw [trap_timer hcur hdying htimer] at hexec
    exact hcaller.ready.tick.decided (schedYield_decided hexec)
  simp only [ipcCalls, List.mem_cons, List.not_mem_nil, or_false] at hno
  rcases hno with rfl | rfl | rfl | rfl
  -- `sys_ipc_recv` with an address that it accepts never returns
  · have hva := hvalid hcall
    rw [phases_recv hcall hcur]
    rcases trap_syscall hcur hdying hcall hexec with ⟨r, s₁, hret, -⟩ | hexit
    · have hva' : ¬ (UTOP ≤ tf.tfRegs.regEdx ∨ pgoff tf.tfRegs.regEdx ≠ 0) :=
        not_or.mpr ⟨BitVec.not_le.mpr hva.1, not_not.mpr hva.2⟩
      cases (if_neg hva').symm.trans hret
    · exact hcaller.recv hva hexit
  -- a send delivers to one receiver or to nobody
  · obtain ⟨r, s₁, hreturn, hsend⟩ := send_cases hcall hcur hdying hexec
    rcases hsend with ⟨hnone, -, -, m, rfl⟩ | ⟨dst, m, p, hsome, hflag, -, -, rfl⟩
    · have hrecv : ¬ Calls tf .ipcRecv := fun h => Sysno.noConfusion (h.unique hcall)
      rw [phases_of_none hnone (if_neg hrecv)]
      exact (hcaller.setMem m).returned hreturn
    · have hflag' : (((saved c x.kernel cur tf).setMem m).envs dst).envIpcRecving = true := by
        rw [Kernel.setMem_envs, saved_envs]
        exact hflag
      have hid : (((saved c x.kernel cur tf).setMem m).envs cur).envId =
          (x.kernel.envs cur).envId := by
        rw [Kernel.setMem_envs, saved_envs]
      have hdelivered := (hcaller.setMem m).deliver p tf.tfRegs.regEcx hflag'
      rw [hid] at hdelivered
      rw [phases_of_sent hsome]
      exact hdelivered.returned hreturn
  · have hnot : ∀ no, no ≠ .sleep → ¬ Calls tf no := fun no hne hcall' =>
      hne (hcall'.unique hcall)
    rw [phases_eq (hnot _ (by decide)) (hnot _ (by decide))]
    rcases trap_syscall hcur hdying hcall hexec with ⟨r, s₁, hret, hreturn⟩ | hexit
    · have hret : sysSleep c (saved c x.kernel cur tf) cur tf.tfRegs.regEdx = .ok (r, s₁) := hret
      unfold sysSleep at hret
      split at hret
      · obtain ⟨-, rfl⟩ := Prod.mk.inj (Except.ok.inj hret)
        exact hcaller.returned hreturn
      · cases hret
    · exact hcaller.sleep hexit
  · have hnot : ∀ no, no ≠ .yield → ¬ Calls tf no := fun no hne hcall' =>
      hne (hcall'.unique hcall)
    rw [phases_eq (hnot _ (by decide)) (hnot _ (by decide))]
    rcases trap_syscall hcur hdying hcall hexec with ⟨r, s₁, hret, -⟩ | hexit
    · cases hret
    · exact hcaller.ready.decided (schedYield_decided (Except.error.inj hexit))

/-- `env_create` sets up an environment that is not inside a receive. -/
theorem boot_resumed (h : InProtocol x) {binary : Image}
    (hexec : envCreate x.kernel binary = .ok s') : Resumed s' x.phases := by
  obtain ⟨e, hfree, hpath⟩ := envCreate_path (c := 0) hexec
  have hstatus := h.exclusive.freeSlots.head hfree
  have huser : x.phases e = .user := by
    refine (h.envOk e).eq_user ?_ ?_ <;> rw [hstatus] <;> decide
  have hinv : Ready 0 s' x.phases ∧ s'.curenv 0 = x.kernel.curenv 0 := by
    refine hpath.invariant (I := fun s => Ready 0 s x.phases ∧ s.curenv 0 = x.kernel.curenv 0)
      ⟨h.ready 0, rfl⟩ fun a s₁ s₂ ha hm hready => ?_
    cases hm with
    | create halloc =>
        obtain rfl := ha
        obtain ⟨p, m, -, -, rfl⟩ := envAlloc_eq_ok halloc
        refine ⟨⟨fun t => ?_, hready.1.others⟩, hready.2⟩
        by_cases ht : x.phases t = .user
        · rw [ht]
          have hokt := ht ▸ hready.1.envOk t
          refine ⟨?_, ?_, ?_, fun hp => Phase.noConfusion hp,
            fun _ _ hp => Phase.noConfusion hp⟩ <;>
          · simp only [Kernel.setFreeList_envs, Kernel.modEnv_apply, Kernel.setMem_envs]
            split
            · simp [initEnv]
            · first
                | exact hokt.alive
                | exact hokt.awake
                | exact hokt.flag
        · have hne : t ≠ _ := fun heq => ht (heq ▸ huser)
          simpa [Kernel.modEnv_apply, hne] using hready.1.envOk t
    | entry =>
        obtain rfl := ha
        exact ⟨hready.1.modEnv_user huser
          ((huser ▸ hready.1.envOk _).congr rfl rfl rfl ⟨rfl, rfl⟩ fun hp => absurd rfl hp),
            hready.2⟩
    | kstore | pageNew => exact ⟨hready.1.setMem _, hready.2⟩
    | _ => exact absurd ha id
  exact hinv.1.resumed_of_executing fun t ht => h.user (hinv.2 ▸ ht)

/-- Any step of the protocol. -/
theorem step_resumed (h : InProtocol x) (hstep : Step x.kernel ev s') (hipc : ev.IsIpc)
    (hvalid : ev.ValidRecv) : Resumed s' (ev.phases x.kernel x.phases) := by
  obtain ⟨henabled, hexec⟩ := hstep
  cases ev with
  | boot binary => exact boot_resumed h (envCreate_eq_ok hexec)
  | start c => exact (h.ready c).started.decided (schedYield_decided hexec)
  | timer c => exact (h.ready c).started.tick.decided (schedYield_decided hexec)
  | trap c inp tf =>
      obtain ⟨cur, hcur⟩ := Option.isSome_iff_exists.mp henabled.1.2
      exact trap_resumed h hcur hipc hvalid hexec
  | store c va byte =>
      obtain ⟨m, rfl⟩ := store_eq_setMem hexec
      exact ((h.ready c).setMem m).resumed_of_executing fun e he => h.user he

theorem InProtocol.next (h : InProtocol x) (hstep : IpcStep x ev y) (hvalid : ev.ValidRecv) :
    InProtocol y := by
  rw [hstep.next]
  exact ⟨(exclusive_step h.exclusive hstep.step (h.hygienic hstep.isIpc)).1,
    (step_resumed h hstep.step hstep.isIpc hvalid).envOk⟩

/-! ## What a step promises -/

theorem flag_of_sent {msg : Message} (h : ev.sent s = some msg) :
    (s.envs msg.dest).envIpcRecving = true := by
  cases ev with
  | trap c inp tf =>
      unfold Event.sent at h
      dsimp only at h
      split at h
      · cases h
      · next cur hcur =>
          split at h
          · split at h
            · next dest ret s₁ hdest hsend =>
                split at h
                · next hret =>
                    obtain rfl := Option.some.inj h
                    rcases sysIpcTrySend_eq_ok hsend with ⟨hneg, -⟩ | ⟨-, dst, m, hdst, hflag, -⟩
                    · exact absurd hret hneg.ne
                    · rw [envid2env_saved, hdest] at hdst
                      obtain rfl := Except.ok.inj hdst
                      rw [saved_envs] at hflag
                      exact hflag
                · cases h
            · cases h
          · cases h
  | boot | start | timer | store => cases h

theorem InProtocol.sound (h : InProtocol x) {msg : Message} (hsent : ev.sent x.kernel = some msg) :
    x.phases msg.dest = .receiving :=
  (h.envOk msg.dest).flag.mp (flag_of_sent hsent)

/-- A receive that is under way goes on, or the event is the send that ends it. -/
theorem phases_of_receiving {e : Slot} (hg : g e = .receiving) :
    ev.phases s g e = .receiving ∨ ∃ msg, ev.sent s = some msg ∧ msg.dest = e ∧
      ev.phases s g e = .delivered msg.value msg.sender := by
  cases hsent : ev.sent s with
  | some msg =>
      rw [phases_of_sent hsent]
      by_cases he : e = msg.dest
      · exact .inr ⟨msg, rfl, he.symm, by rw [he, Function.update_self]⟩
      · exact .inl (by rw [Function.update_of_ne he, hg])
  | none =>
      left
      cases hrecv : ev.receiver s with
      | some cur =>
          rw [phases_of_receiver hsent hrecv]
          by_cases he : e = cur
          · rw [he, Function.update_self]
          · rw [Function.update_of_ne he, hg]
      | none => rw [phases_of_none hsent hrecv, hg]

theorem InProtocol.user_of_receiver (h : InProtocol x) (hrecv : ev.receiver x.kernel = some cur) :
    x.phases cur = .user := by
  cases ev with
  | trap c inp tf =>
      unfold Event.receiver at hrecv
      dsimp only at hrecv
      split at hrecv
      · exact h.user hrecv
      · cases hrecv
  | boot | start | timer | store => cases hrecv

/-- A message that waits for its receiver is not overwritten. -/
theorem InProtocol.phases_of_delivered (h : InProtocol x) (ev : Event) {e : Slot} {v f : Word}
    (hg : x.phases e = .delivered v f) : ev.phases x.kernel x.phases e = .delivered v f := by
  cases hsent : ev.sent x.kernel with
  | some msg =>
      have hne : e ≠ msg.dest := by
        rintro rfl
        rw [h.sound hsent] at hg
        cases hg
      rw [phases_of_sent hsent, Function.update_of_ne hne, hg]
  | none =>
      cases hrecv : ev.receiver x.kernel with
      | some cur =>
          have hne : e ≠ cur := by
            rintro rfl
            rw [h.user_of_receiver hrecv] at hg
            cases hg
          rw [phases_of_receiver hsent hrecv, Function.update_of_ne hne, hg]
      | none => rw [phases_of_none hsent hrecv, hg]

/-- A send resumes its caller, and has changed nobody but a receiver. -/
theorem InProtocol.send_ran (h : InProtocol x) (hcall : Calls tf .ipcTrySend)
    (hcur : x.kernel.curenv c = some cur) (hexec : trap c x.kernel inp tf = .leave s') :
    ∃ r s₁, Ran c (returned s₁ cur r) cur s' ∧ (∀ d, s₁.curenv d = x.kernel.curenv d) ∧
      ∀ e, x.phases e ≠ .receiving →
        (s₁.envs e).envStatus = (x.kernel.envs e).envStatus ∧
          (s₁.envs e).envTf = if e = cur then tf else (x.kernel.envs e).envTf := by
  obtain ⟨r, s₁, hreturn, hsend⟩ := send_cases hcall hcur (h.envOk cur).alive hexec
  have hcurenv : ∀ d, s₁.curenv d = x.kernel.curenv d := by
    intro d
    have hsaved : (saved c x.kernel cur tf).curenv d = x.kernel.curenv d := saved_curenv
    rcases hsend with ⟨-, -, -, m, rfl⟩ | ⟨dst, m, p, -, -, -, -, rfl⟩ <;> exact hsaved
  have hsame : ∀ e, x.phases e ≠ .receiving → s₁.envs e = (saved c x.kernel cur tf).envs e := by
    intro e he
    rcases hsend with ⟨-, -, -, m, rfl⟩ | ⟨dst, m, p, -, hdst, -, -, rfl⟩
    · rfl
    · have hne : e ≠ dst := by
        rintro rfl
        exact he ((h.envOk e).flag.mp hdst)
      rw [ipcDeliver, Kernel.modEnv_ne _ _ hne, setIpcPerm, Kernel.modEnv_ne _ _ hne]
      rfl
  refine ⟨r, s₁, trapReturn_running ((hcurenv c).trans hcur) ?_ hreturn, hcurenv,
    fun e he => ?_⟩
  · have hnot : x.phases cur ≠ .receiving := by
      rw [h.user hcur]
      exact Phase.noConfusion
    rw [returned, Kernel.modEnv_self]
    show (s₁.envs cur).envStatus = .running
    rw [hsame cur hnot, saved_envs]
    exact h.running hcur
  · rw [hsame e he, saved_envs]
    exact ⟨rfl, rfl⟩

/-- A send leaves everybody alone but the receiver that it wakes. -/
theorem InProtocol.unaffected (h : InProtocol x) (hcall : Calls tf .ipcTrySend)
    (hcur : x.kernel.curenv c = some cur) (hexec : trap c x.kernel inp tf = .leave s') {t : Slot}
    (ht : x.phases t ≠ .receiving) :
    (s'.envs t).envStatus = (x.kernel.envs t).envStatus ∧
      (t ≠ cur → (s'.envs t).envTf = (x.kernel.envs t).envTf) ∧
      (t = cur → ∃ r, (s'.envs t).envTf = tf.setEax r) := by
  obtain ⟨r, s₁, hran, hcurenv, hsame⟩ := h.send_ran hcall hcur hexec
  obtain ⟨hstatus, htf⟩ := hsame t ht
  by_cases heq : t = cur
  · subst heq
    rw [hran.envs t, returned, Kernel.modEnv_self]
    refine ⟨?_, fun hne => absurd rfl hne, fun _ => ⟨BitVec.ofInt 32 r, ?_⟩⟩
    · rw [h.running hcur]
      exact if_pos rfl
    · simp only [htf, if_true]
  · have hcur' : (returned s₁ cur r).curenv c ≠ some t := by
      rw [returned, Kernel.modEnv_curenv, hcurenv c, hcur]
      exact fun hcur => heq (Option.some.inj hcur).symm
    rw [if_neg heq] at htf
    rw [hran.envs t, if_neg heq, if_neg fun hpre => hcur' hpre.1, returned,
      Kernel.modEnv_ne _ _ heq]
    exact ⟨hstatus, fun _ => htf, fun h => absurd h heq⟩

/-- The receiver of a message waits for its turn. -/
theorem InProtocol.not_executing_of_sent (h : InProtocol x) (hstep : Step x.kernel ev s')
    {msg : Message} (hsent : ev.sent x.kernel = some msg) : ¬ s'.Executing msg.dest := by
  have hrecv := h.sound hsent
  have huser : ∀ d, x.kernel.curenv d ≠ some msg.dest := by
    intro d hd
    rw [h.user hd] at hrecv
    cases hrecv
  cases ev with
  | trap c inp tf =>
      obtain ⟨cur, hcur⟩ := Option.isSome_iff_exists.mp hstep.1.1.2
      have hcall : Calls tf .ipcTrySend := by
        by_contra hnot
        rw [sent_eq_none hnot] at hsent
        cases hsent
      obtain ⟨r, s₁, hran, hcurenv, -⟩ := h.send_ran hcall hcur hstep.2
      rintro ⟨d, hd⟩
      by_cases hdc : d = c
      · rw [hdc, hran.curenv] at hd
        exact huser c (hcur.trans hd)
      · rw [Kernel.curenv, hran.frame d hdc] at hd
        exact huser d ((hcurenv d).symm.trans hd)
  | boot | start | timer | store => cases hsent

/-- A receive with an invalid address returns `-E_INVAL`, and its caller goes on with
`env_ipc_recving` set. -/
theorem InProtocol.recving_of_invalid (h : InProtocol x) (hcall : Calls tf .ipcRecv)
    (hva : ¬ UserPage tf.tfRegs.regEdx) (hcur : x.kernel.curenv c = some cur)
    (hexec : trap c x.kernel inp tf = .leave s') :
    (∃ s₁, sysIpcRecv c (saved c x.kernel cur tf) cur tf.tfRegs.regEdx = .ok (-E_INVAL, s₁)) ∧
      (s'.envs cur).envIpcRecving = true := by
  have hinvalid : UTOP ≤ tf.tfRegs.regEdx ∨ pgoff tf.tfRegs.regEdx ≠ 0 := by
    by_contra hvalid
    obtain ⟨hlt, hoff⟩ := not_or.mp hvalid
    exact hva ⟨BitVec.not_le.mp hlt, not_not.mp hoff⟩
  have hrecv : sysIpcRecv c (saved c x.kernel cur tf) cur tf.tfRegs.regEdx = .ok (-E_INVAL,
      (saved c x.kernel cur tf).modEnv cur fun env => { env with envIpcRecving := true }) :=
    if_pos hinvalid
  refine ⟨⟨_, hrecv⟩, ?_⟩
  rcases trap_syscall hcur (h.envOk cur).alive hcall hexec with ⟨r, s₁, hret, hreturn⟩ | hexit
  · have hret : sysIpcRecv c (saved c x.kernel cur tf) cur tf.tfRegs.regEdx = .ok (r, s₁) := hret
    rw [hrecv] at hret
    obtain ⟨-, hs₁⟩ := Prod.mk.inj (Except.ok.inj hret)
    have hsaved : (saved c x.kernel cur tf).curenv c = some cur := saved_curenv.trans hcur
    have hcurenv : (returned s₁ cur r).curenv c = some cur := by
      rw [← hs₁]
      exact hsaved
    have hrunning : ((returned s₁ cur r).envs cur).envStatus = .running := by
      rw [← hs₁, returned, Kernel.modEnv_self, Kernel.modEnv_self, saved_envs]
      exact h.running hcur
    rw [(trapReturn_running hcurenv hrunning hreturn).envs cur, ← hs₁, returned,
      Kernel.modEnv_self, Kernel.modEnv_self]
  · have hexit : sysIpcRecv c (saved c x.kernel cur tf) cur tf.tfRegs.regEdx =
        .error (.leave s') := hexit
    rw [hrecv] at hexit
    cases hexit

theorem InProtocol.rendezvous (h : InProtocol x) (hstep : IpcStep x ev y)
    (hvalid : ev.ValidRecv) : Rendezvous x ev y := by
  have hresumed := step_resumed h hstep.step hstep.isIpc hvalid
  have hphases : y.phases = settle y.kernel (ev.phases x.kernel x.phases) :=
    congrArg Tracked.phases hstep.next
  refine ⟨fun msg hsent => h.sound hsent, fun e hg => ?_, fun e v f hg => ?_, ?_, ?_⟩
  · have hnot : ¬ y.kernel.Executing e := by
      intro hexec
      rcases phases_of_receiving hg with hg' | ⟨msg, hsent, rfl, -⟩
      · exact hresumed.receiving e hg' hexec
      · exact h.not_executing_of_sent hstep.step hsent hexec
    rw [hphases, settle_of_not_executing hnot]
    exact ⟨hnot, phases_of_receiving hg⟩
  · have hg' := h.phases_of_delivered ev hg
    by_cases hexec : y.kernel.Executing e
    · exact .inr ⟨hexec, hresumed.delivered e v f hg' hexec⟩
    · rw [hphases, settle_of_not_executing hexec]
      exact .inl ⟨hexec, hg'⟩
  · rintro c inp tf cur rfl hcall hcur t ht
    exact h.unaffected hcall hcur hstep.step.2 ht
  · rintro c inp tf cur rfl hcall hcur s₁ hret
    have hva := hvalid hcall
    have hva' : ¬ (UTOP ≤ tf.tfRegs.regEdx ∨ pgoff tf.tfRegs.regEdx ≠ 0) :=
      not_or.mpr ⟨BitVec.not_le.mpr hva.1, not_not.mpr hva.2⟩
    cases (if_neg hva').symm.trans hret

/-! ## Runs -/

/-- A step of the protocol whose `sys_ipc_recv`, if it is one, has a valid address. -/
def ValidStep (x : Tracked) (ev : Event) (y : Tracked) : Prop := IpcStep x ev y ∧ ev.ValidRecv

/-- A machine before its first call, with nobody inside a receive. -/
def Tracked.start (s : Kernel) : Tracked := ⟨s, fun _ => .user⟩

theorem quiet_booted (h : Booted s) : Quiet s where
  exclusive := exclusive_booted h
  envOk e := by
    rw [h.envs e]
    exact .of_user (by simp) (fun _ => rfl) rfl

theorem inProtocol_of_run {evs : List Event} (hquiet : Quiet s)
    (h : Trace ValidStep (.start s) evs x) : InProtocol x :=
  h.invariant ⟨hquiet.exclusive, hquiet.envOk⟩ fun _ _ _ hx hstep => hx.next hstep.1 hstep.2

/-- The rendezvous.  In every run whose receives have valid addresses, every step keeps the
promises of the protocol; and the first receive with an invalid address breaks them. -/
theorem rendezvous_iff {evs : List Event} (hquiet : Quiet s)
    (h : Trace ValidStep (.start s) evs x) (hstep : IpcStep x ev y) :
    Rendezvous x ev y ↔ ev.ValidRecv := by
  have hx := inProtocol_of_run hquiet h
  refine ⟨fun hy => ?_, hx.rendezvous hstep⟩
  cases ev with
  | trap c inp tf =>
      intro hcall
      by_contra hva
      obtain ⟨cur, hcur⟩ := Option.isSome_iff_exists.mp hstep.step.1.1.2
      obtain ⟨⟨s₁, hret⟩, hflag⟩ := hx.recving_of_invalid hcall hva hcur hstep.step.2
      have hclear := hy.refused c inp tf cur rfl hcall hcur s₁ hret
      rw [hflag] at hclear
      cases hclear
  | boot | start | timer | store => exact trivial

/-! ### Two processes -/

instance (ev : Event) : Decidable ev.IsIpc :=
  match ev with
  | .trap _ _ _ => inferInstanceAs (Decidable (_ ∨ _))
  | .boot _ | .start _ | .timer _ | .store _ _ _ => inferInstanceAs (Decidable True)

instance (ev : Event) : Decidable ev.ValidRecv :=
  match ev with
  | .trap _ _ _ => inferInstanceAs (Decidable (_ → _))
  | .boot _ | .start _ | .timer _ | .store _ _ _ => inferInstanceAs (Decidable True)

/-- The step of a machine that runs the protocol, computed. -/
def Tracked.step (x : Tracked) (ev : Event) : Option Tracked :=
  if ev.IsIpc then (ev.next x.kernel).map fun s' => x.next ev s' else none

theorem ipcStep_of_step (h : x.step ev = some y) : IpcStep x ev y := by
  unfold Tracked.step at h
  split at h
  · next hipc =>
      obtain ⟨s', hnext, rfl⟩ := Option.map_eq_some_iff.mp h
      exact ⟨step_of_next hnext, hipc, rfl⟩
  · cases h

/-- The id of the second environment a kernel creates. -/
def secondEnv : Word := 0x1001

/-- Two processes on CPU 0.  The first one receives, so the second one runs. -/
def receiveFirst : List Event :=
  [.boot emptyImage, .boot emptyImage, .start 0, sysTrap 0 .ipcRecv 0x800000 0 0 0 0]

/-- The second process sends `42`. -/
def sendSecond : Event := sysTrap 0 .ipcTrySend firstEnv 42 0xffffffff 0 0

/-- The send finds the receiver, and the receiver has the message. -/
theorem rendezvous_iff_send : ∃ x y,
    (∃ evs, Trace ValidStep (.start (bootedMachine .roundRobin 64)) evs x) ∧
    x.phases 0 = .receiving ∧ y.phases 0 = .delivered 42 secondEnv ∧
    (Rendezvous x sendSecond y ↔ sendSecond.ValidRecv) := by
  obtain ⟨x, hrun, hx⟩ := Trace.exists_of_foldlM
    (fun (x : Tracked) (ev : Event) => if ev.ValidRecv then x.step ev else none)
    (.start (bootedMachine .roundRobin 64)) receiveFirst
    (fun (x : Tracked) => decide (x.phases 0 = .receiving) &&
      (x.step sendSecond).any fun (y : Tracked) =>
        decide (y.phases 0 = .delivered 42 secondEnv))
    (by decide +kernel)
  rw [Bool.and_eq_true, decide_eq_true_iff, Option.any_eq_true] at hx
  obtain ⟨hrecv, y, hy, hphase⟩ := hx
  have hvalid : ∀ x ev y, (if ev.ValidRecv then x.step ev else none) = some y →
      ValidStep x ev y := by
    intro x ev y h
    split at h
    · next hvalid => exact ⟨ipcStep_of_step h, hvalid⟩
    · cases h
  have hrun' := hrun.mono hvalid
  have hboot := booted_bootedMachine .roundRobin (n := 64) (by decide) (by decide)
  exact ⟨x, y, ⟨_, hrun'⟩, hrecv, of_decide_eq_true hphase,
    rendezvous_iff (quiet_booted hboot) hrun' (ipcStep_of_step hy)⟩

/-- A receive fails, its caller sleeps, and the send that comes then succeeds and wakes it. -/
theorem rendezvous_lost : ¬ ∀ (s : Kernel) (evs : List Event) (x y : Tracked) (ev : Event),
    Booted s → Trace IpcStep (.start s) evs x → IpcStep x ev y → Rendezvous x ev y := by
  intro hclaim
  obtain ⟨x, hrun, hx⟩ := Trace.exists_of_foldlM Tracked.step
    (.start (bootedMachine .roundRobin 64))
    [.boot emptyImage, .boot emptyImage, .start 0,
      sysTrap 0 .ipcRecv UTOP 0 0 0 0, sysTrap 0 .sleep 100 0 0 0 0]
    (fun (x : Tracked) => ((Event.sent x.kernel sendSecond).any fun msg =>
      decide (x.phases msg.dest = .user)) && (x.step sendSecond).isSome)
    (by decide +kernel)
  rw [Bool.and_eq_true, Option.any_eq_true, Option.isSome_iff_exists] at hx
  obtain ⟨⟨msg, hsent, huser⟩, y, hy⟩ := hx
  have hboot := booted_bootedMachine .roundRobin (n := 64) (by decide) (by decide)
  have hrendezvous := hclaim _ _ x y sendSecond hboot
    (hrun.mono fun _ _ _ h => ipcStep_of_step h) (ipcStep_of_step hy)
  have hrecv := hrendezvous.sound msg hsent
  rw [of_decide_eq_true huser] at hrecv
  cases hrecv

end JosSched
