import JosSched.Ipc.Rendezvous

/-!
# The message of an environment

`env_ipc_value`, `env_ipc_from` and `env_ipc_perm` are written by the send that wakes their
environment, and by nothing else in the protocol.
-/

open Except

namespace JosSched

/-- What a send leaves for its receiver. -/
def Env.message (env : Env) : Word × Word × Word :=
  (env.envIpcValue, env.envIpcFrom, env.envIpcPerm)

variable {c : Cpu} {s s₁ s' : Kernel} {x y : Tracked} {ev : Event} {cur e : Slot}
  {tf : Trapframe} {inp : Input} {msg : Message}

theorem Decided.message (h : Decided c s s') : (s'.envs e).message = (s.envs e).message :=
  h.departed.proj Env.message fun _ _ _ _ _ => rfl

theorem saved_message : ((saved c s cur tf).envs e).message = (s.envs e).message := by
  rw [saved_envs]
  split <;> rfl

theorem tick_message : ((tick s).envs e).message = (s.envs e).message :=
  wakeup_proj (g := Env.message) fun _ => rfl

theorem modEnv_message {f : Env → Env} {t : Slot}
    (h : ∀ env, (f env).message = Env.message env) :
    ((s.modEnv t f).envs e).message = (s.envs e).message :=
  modEnv_proj Env.message h

/-- A call that blocks its caller. -/
theorem recv_message {dstva : Word} (h : sysIpcRecv c s cur dstva = .error (.leave s')) :
    (s'.envs e).message = (s.envs e).message := by
  unfold sysIpcRecv at h
  dsimp only at h
  split at h
  · cases h
  · rw [(schedYield_decided (Except.error.inj h)).message]
    refine (modEnv_message fun env => ?_).trans (modEnv_message fun env => ?_) <;> rfl

theorem sleep_message {n : Word} (h : sysSleep c s cur n = .error (.leave s')) :
    (s'.envs e).message = (s.envs e).message := by
  unfold sysSleep at h
  split at h
  · cases h
  · rw [(schedYield_decided (Except.error.inj h)).message]
    exact modEnv_message fun _ => rfl

theorem returned_message {r : ℤ} (h : trapReturn c (returned s cur r) = .leave s') :
    (s'.envs e).message = (s.envs e).message := by
  rw [(trapReturn_decided h).message]
  exact modEnv_message fun _ => rfl

/-- Delivering a message to somebody else. -/
theorem deliver_message_ne {m : Mem} {p value : Word} {dst : Slot} (h : e ≠ dst) :
    ((ipcDeliver (setIpcPerm (s.setMem m) dst p) cur dst value).envs e).message =
      (s.envs e).message := by
  rw [ipcDeliver, Kernel.modEnv_ne _ _ h, setIpcPerm, Kernel.modEnv_ne _ _ h]
  rfl

namespace InProtocol

/-- A send writes the message of its receiver only. -/
theorem message_send (h : InProtocol x) (hcall : Calls tf .ipcTrySend)
    (hcur : x.kernel.curenv c = some cur) (hexec : trap c x.kernel inp tf = .leave s')
    (hne : ∀ msg, (Event.trap c inp tf).sent x.kernel = some msg → msg.dest ≠ e) :
    (s'.envs e).message = (x.kernel.envs e).message := by
  obtain ⟨r, s₁, hreturn, hsend⟩ := send_cases hcall hcur (h.envOk cur).alive hexec
  rw [returned_message hreturn]
  rcases hsend with ⟨-, -, -, m, rfl⟩ | ⟨dst, m, p, hsome, -, -, -, rfl⟩
  · exact saved_message
  · rw [deliver_message_ne (hne _ hsome).symm]
    exact saved_message

/-- In any step, the message of an environment changes only when a send to it succeeds. -/
theorem message_eq (h : InProtocol x) (hstep : IpcStep x ev y) (hboot : ∀ binary, ev ≠ .boot binary)
    (hvalid : ev.ValidRecv) (hne : ∀ msg, ev.sent x.kernel = some msg → msg.dest ≠ e) :
    (y.kernel.envs e).message = (x.kernel.envs e).message := by
  obtain ⟨⟨henabled, hexec⟩, hipc, -⟩ := hstep
  cases ev with
  | boot binary => exact absurd rfl (hboot binary)
  | start c =>
      have hyield : schedYield c (started c x.kernel) = .leave y.kernel := hexec
      exact (schedYield_decided hyield).message
  | timer c =>
      have hyield : schedYield c (tick (started c x.kernel)) = .leave y.kernel := hexec
      rw [(schedYield_decided hyield).message]
      exact tick_message
  | store c va byte =>
      obtain ⟨m, hm⟩ := store_eq_setMem hexec
      rw [hm]
      rfl
  | trap c inp tf =>
      obtain ⟨cur, hcur⟩ := Option.isSome_iff_exists.mp henabled.1.2
      have hdying := (h.envOk cur).alive
      rcases hipc with htimer | ⟨no, hno, hcall⟩
      · have hexec : trap c x.kernel inp tf = .leave y.kernel := hexec
        rw [trap_timer hcur hdying htimer] at hexec
        rw [(schedYield_decided hexec).message, tick_message, saved_message]
      simp only [ipcCalls, List.mem_cons, List.not_mem_nil, or_false] at hno
      rcases hno with rfl | rfl | rfl | rfl
      · rcases trap_syscall hcur hdying hcall hexec with ⟨r, s₁, hret, -⟩ | hexit
        · have hva := hvalid hcall
          have hva' : ¬ (UTOP ≤ tf.tfRegs.regEdx ∨ pgoff tf.tfRegs.regEdx ≠ 0) :=
            not_or.mpr ⟨BitVec.not_le.mpr hva.1, not_not.mpr hva.2⟩
          cases (if_neg hva').symm.trans hret
        · rw [recv_message hexit, saved_message]
      -- this is the one call that delivers
      · exact h.message_send hcall hcur hexec hne
      · rcases trap_syscall hcur hdying hcall hexec with ⟨r, s₁, hret, hreturn⟩ | hexit
        · have hret : sysSleep c (saved c x.kernel cur tf) cur tf.tfRegs.regEdx =
              .ok (r, s₁) := hret
          unfold sysSleep at hret
          split at hret
          · obtain ⟨-, rfl⟩ := Prod.mk.inj (Except.ok.inj hret)
            rw [returned_message hreturn, saved_message]
          · cases hret
        · rw [sleep_message hexit, saved_message]
      · rcases trap_syscall hcur hdying hcall hexec with ⟨r, s₁, hret, -⟩ | hexit
        · cases hret
        · rw [(schedYield_decided (Except.error.inj hexit)).message, saved_message]

/-- The sender learns whether it has succeeded, and its receiver has the message then. -/
theorem send_result (h : InProtocol x) (hcall : Calls tf .ipcTrySend)
    (hcur : x.kernel.curenv c = some cur) (hexec : trap c x.kernel inp tf = .leave s') :
    ((Event.trap c inp tf).sent x.kernel = none ∧ (s'.envs cur).envTf.tfRegs.regEax ≠ 0) ∨
      ∃ msg, (Event.trap c inp tf).sent x.kernel = some msg ∧
        (s'.envs cur).envTf.tfRegs.regEax = 0 ∧ (s'.envs msg.dest).message =
          (msg.value, msg.sender, ipcPermAfter (x.kernel.envs msg.dest) tf.tfRegs.regEbx
            tf.tfRegs.regEdi) := by
  obtain ⟨r, s₁, hreturn, hsend⟩ := send_cases hcall hcur (h.envOk cur).alive hexec
  have hdec := (trapReturn_decided hreturn).departed
  have heax : (s'.envs cur).envTf.tfRegs.regEax = BitVec.ofInt 32 r := by
    rw [hdec.proj (fun env => env.envTf.tfRegs.regEax) fun _ _ _ _ _ => rfl, returned,
      Kernel.modEnv_self]
    rfl
  rcases hsend with ⟨hnone, hlo, hneg, -⟩ | ⟨dst, m, p, hsome, hflag, rfl, rfl, rfl⟩
  · refine .inl ⟨hnone, ?_⟩
    rw [heax]
    intro hzero
    have hzero := congrArg BitVec.toInt hzero
    rw [BitVec.toInt_ofInt] at hzero
    have hbmod : r.bmod (2 ^ 32) = r := by
      rw [Int.bmod_eq_of_le] <;> omega
    rw [hbmod] at hzero
    have hr : r = 0 := hzero
    omega
  · refine .inr ⟨_, hsome, heax, ?_⟩
    rw [returned_message hreturn, ipcDeliver, Kernel.modEnv_self, setIpcPerm, Kernel.modEnv_self]
    have hne : cur ≠ dst := by
      rintro rfl
      have hrecv := (h.envOk cur).flag.mp hflag
      rw [h.user hcur] at hrecv
      cases hrecv
    have hid : (((saved c x.kernel cur tf).setMem m).modEnv dst fun env => { env with
        envIpcPerm := ipcPermAfter (x.kernel.envs dst) tf.tfRegs.regEbx tf.tfRegs.regEdi }).envs
          cur = (saved c x.kernel cur tf).envs cur := Kernel.modEnv_ne _ _ hne
    rw [Env.message, hid, saved_envs]

end InProtocol

end JosSched
