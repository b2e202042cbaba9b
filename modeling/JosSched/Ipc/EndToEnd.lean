import JosSched.Ipc.Library

/-!
# The IPC library delivers messages

The invariant of the library: an environment that has been woken still finds the message in its
`struct Env`, until its `ipc_recv` has read all of it.  So as long as `thisenv` denotes the
caller, `ipc_recv` returns the message of the send that woke it.

A thread shares `thisenv` with the process that created it, and reads the message of somebody
else.
-/

open Except

namespace JosSched

/-! ## The invariant -/

/-- The fields that `ipc_recv` reads are those of the message. -/
structure Env.Has (env : Env) (msg : Sent) (storePerm : Bool) : Prop where
  value : env.envIpcValue = msg.value
  sender : env.envIpcFrom = msg.sender
  perm : storePerm = true → env.envIpcPerm = msg.perm

theorem Env.Has.congr {env env' : Env} {msg : Sent} {storePerm : Bool} (h : env.Has msg storePerm)
    (heq : env'.message = env.message) : env'.Has msg storePerm := by
  obtain ⟨hvalue, hrest⟩ := Prod.mk.inj heq
  obtain ⟨hsender, hperm⟩ := Prod.mk.inj hrest
  exact ⟨hvalue.trans h.value, hsender.trans h.sender, fun hs => hperm.trans (h.perm hs)⟩

/-- How the program, the kernel and the history of an environment fit together: `p` is its
phase, and `pending` the send that woke it. -/
inductive CallOk (env : Env) (p : Phase) (pending : Option Sent) : IpcCall → Prop
  | outside : p = .user → pending = none → CallOk env p pending .outside
  | waiting {a} : p = .receiving → pending = none → CallOk env p pending (.recv a)
  | woken {a msg} : p = .delivered msg.value msg.sender → pending = some msg →
      env.Has msg a.storePerm → CallOk env p pending (.recv a)
  | readFrom {a msg} : p = .user → pending = some msg → env.Has msg a.storePerm →
      CallOk env p pending (.readFrom a)
  | readPerm {a msg f} : p = .user → pending = some msg → env.Has msg a.storePerm →
      (∀ w, f = some w → w = msg.sender) → CallOk env p pending (.readPerm a f)
  | readValue {msg f perm} : p = .user → pending = some msg → env.envIpcValue = msg.value →
      (∀ w, f = some w → w = msg.sender) → (∀ w, perm = some w → w = msg.perm) →
      CallOk env p pending (.readValue f perm)
  | send {a} : p = .user → pending = none → CallOk env p pending (.send a)
  | retry {a} : p = .user → pending = none → CallOk env p pending (.retry a)
  | panicked : p = .user → pending = none → CallOk env p pending .panicked

namespace LibState

/-- The history by itself: every send is on its way to a receiver, or has been received. -/
structure History (x : LibState) : Prop where
  dest : ∀ e k, x.woken e = some k → ∃ msg, x.sends[k]? = some msg ∧ msg.dest = e
  received : ∀ r ∈ x.received, ∃ k msg, r.send = some k ∧ x.sends[k]? = some msg ∧
    msg.dest = r.env ∧ r.got.Matches msg
  once : (x.received.map Receipt.send).Nodup ∧
    ∀ e k, x.woken e = some k → some k ∉ x.received.map Receipt.send
  covered : ∀ k < x.sends.length, some k ∈ x.received.map Receipt.send ∨ ∃ e, x.woken e = some k
  returned : x.sendsReturned = x.sends.length

/-- The send that woke an environment. -/
def pending (x : LibState) (e : Slot) : Option Sent := (x.woken e).bind fun k => x.sends[k]?

/-- The invariant of the library. -/
structure Inv (thisenv : Slot → Slot) (x : LibState) : Prop where
  protocol : InProtocol x.machine
  call : ∀ e, CallOk (x.kernel.envs e) (x.machine.phases e) (x.pending e) (x.calls e)
  self : ∀ e, (x.calls e).InRecv → thisenv e = e
  history : History x

end LibState

variable {thisenv : Slot → Slot} {x y : LibState} {ev : Event} {t : Tracked} {e : Slot}
  {c : Cpu} {inp : Input} {tf : Trapframe} {env env' : Env} {p p' : Phase}
  {pending : Option Sent} {call : IpcCall}

/-- Outside of `sys_ipc_recv` a program goes on as it was. -/
theorem CallOk.congr_user (h : CallOk env .user pending call)
    (hmessage : env'.message = env.message) : CallOk env' .user pending call := by
  cases h with
  | outside _ hpending => exact .outside rfl hpending
  | waiting hp => cases hp
  | woken hp => cases hp
  | readFrom _ hpending hhas => exact .readFrom rfl hpending (hhas.congr hmessage)
  | readPerm _ hpending hhas hf => exact .readPerm rfl hpending (hhas.congr hmessage) hf
  | readValue _ hpending hvalue hf hperm =>
      exact .readValue rfl hpending ((Prod.mk.inj hmessage).1.trans hvalue) hf hperm
  | send _ hpending => exact .send rfl hpending
  | retry _ hpending => exact .retry rfl hpending
  | panicked _ hpending => exact .panicked rfl hpending

/-- A program that is not suspended is not in `sys_ipc_recv`. -/
theorem CallOk.not_recv {a : RecvArgs} (h : CallOk env .user pending (.recv a)) : False := by
  cases h with
  | waiting hp => cases hp
  | woken hp => cases hp

/-- What a step of the machine does to an environment that has no part in it. -/
structure Uninvolved (x y : Tracked) (e : Slot) : Prop where
  message : (y.kernel.envs e).message = (x.kernel.envs e).message
  user : x.phases e = .user → y.phases e = .user
  receiving : x.phases e = .receiving → y.phases e = .receiving ∧ ¬ y.kernel.Executing e
  delivered : ∀ v f, x.phases e = .delivered v f →
    ¬ y.kernel.Executing e ∧ y.phases e = .delivered v f ∨
    y.kernel.Executing e ∧ y.phases e = .user ∧ (y.kernel.envs e).envTf.tfRegs.regEax = 0

theorem InProtocol.uninvolved {x y : Tracked} (h : InProtocol x) (hstep : IpcStep x ev y)
    (hboot : ∀ binary, ev ≠ .boot binary) (hvalid : ev.ValidRecv)
    (hsent : ∀ msg, ev.sent x.kernel = some msg → msg.dest ≠ e)
    (hrecv : ev.receiver x.kernel ≠ some e) : Uninvolved x y e := by
  have hrendezvous := h.rendezvous hstep hvalid
  have hphase : ev.phases x.kernel x.phases e = x.phases e := by
    cases hs : ev.sent x.kernel with
    | some msg => rw [phases_of_sent hs, Function.update_of_ne (hsent msg hs).symm]
    | none =>
        cases hr : ev.receiver x.kernel with
        | some cur =>
            have hne : e ≠ cur := fun heq => hrecv (heq ▸ hr)
            rw [phases_of_receiver hs hr, Function.update_of_ne hne]
        | none => rw [phases_of_none hs hr]
  have hnext : y.phases e = settle y.kernel (ev.phases x.kernel x.phases) e :=
    congrFun (congrArg Tracked.phases hstep.next) e
  refine ⟨h.message_eq hstep hboot hvalid hsent, fun hx => ?_, fun hx => ?_, fun v f hx => ?_⟩
  · rw [hnext]
    by_cases hexec : y.kernel.Executing e
    · exact settle_of_executing hexec
    · rw [settle_of_not_executing hexec, hphase, hx]
  · obtain ⟨hexec, -⟩ := hrendezvous.receiving e hx
    rw [hnext, settle_of_not_executing hexec, hphase]
    exact ⟨hx, hexec⟩
  · rcases hrendezvous.delivered e v f hx with hwait | ⟨hexec, -, -, heax⟩
    · exact .inl hwait
    · refine .inr ⟨hexec, ?_, heax⟩
      rw [hnext, settle_of_executing hexec]

/-- A program goes on as the kernel lets it. -/
theorem CallOk.settle {x y : Tracked} {calls : Slot → IpcCall}
    (h : CallOk (x.kernel.envs e) (x.phases e) pending (calls e)) (hun : Uninvolved x y e) :
    CallOk (y.kernel.envs e) (y.phases e) pending (settleCalls y.kernel calls e) := by
  cases hx : x.phases e with
  | user =>
      rw [hx] at h
      have hcall : settleCalls y.kernel calls e = calls e := by
        unfold settleCalls
        cases hc : calls e with
        | recv a => exact (hc ▸ h).not_recv.elim
        | _ => rfl
      rw [hcall, hun.user hx]
      exact h.congr_user hun.message
  -- a receiver still waits; if it has been woken, it goes on when a CPU has resumed it
  | receiving =>
      rw [hx] at h
      obtain ⟨hy, hexec⟩ := hun.receiving hx
      cases hc : calls e with
      | recv a =>
          have hcall : settleCalls y.kernel calls e = .recv a := by
            simp only [settleCalls, hc, if_neg hexec]
          rw [hc] at h
          rw [hcall, hy]
          cases h with
          | waiting _ hpending => exact .waiting rfl hpending
          | woken hp => cases hp
      | _ =>
          rw [hc] at h
          cases h with
          | _ hp => cases hp
  | delivered v f =>
      rw [hx] at h
      cases hc : calls e with
      | recv a =>
          rw [hc] at h
          cases h with
          | waiting hp => cases hp
          | @woken _ msg hp hpending hhas =>
              have hhas' := hhas.congr hun.message
              rcases hun.delivered v f hx with ⟨hexec, hy⟩ | ⟨hexec, hy, heax⟩
              · have hcall : settleCalls y.kernel calls e = .recv a := by
                  simp only [settleCalls, hc, if_neg hexec]
                rw [hcall, hy]
                exact .woken hp hpending hhas'
              · have hcall : settleCalls y.kernel calls e = .readFrom a := by
                  simp only [settleCalls, hc, if_pos hexec, heax, if_true]
                rw [hcall, hy]
                exact .readFrom rfl hpending hhas'
      | _ =>
          rw [hc] at h
          cases h with
          | _ hp => cases hp

theorem CallOk.inRecv {msg : Sent} (h : CallOk env p (some msg) call) : call.InRecv := by
  cases h with
  | outside _ hpending | waiting _ hpending | send _ hpending | retry _ hpending
  | panicked _ hpending => cases hpending
  | woken | readFrom | readPerm | readValue => trivial

theorem inRecv_of_settleCalls {s : Kernel} {calls : Slot → IpcCall}
    (h : (settleCalls s calls e).InRecv) : (calls e).InRecv := by
  unfold settleCalls at h
  cases hc : calls e with
  | recv a => trivial
  | readFrom a => trivial
  | readPerm a f => trivial
  | readValue f perm => trivial
  | _ =>
      rw [hc] at h
      exact h

theorem settleCalls_update_ne {s : Kernel} {calls : Slot → IpcCall} {cur : Slot} {call : IpcCall}
    (h : e ≠ cur) : settleCalls s (Function.update calls cur call) e = settleCalls s calls e := by
  simp only [settleCalls, Function.update_of_ne h]

namespace LibState

/-- The promises follow from the invariant. -/
theorem Inv.endToEnd (h : Inv thisenv x) : EndToEnd x where
  received := h.history.received
  once := h.history.once
  delivered k hk := by
    refine (h.history.covered k hk).imp id fun ⟨e, hwoken⟩ => ⟨e, hwoken, ?_⟩
    obtain ⟨msg, hmsg, -⟩ := h.history.dest e k hwoken
    have hpending : x.pending e = some msg := by rw [pending, hwoken, Option.bind_some, hmsg]
    exact (hpending ▸ h.call e).inRecv
  returned := h.history.returned

/-- A call of the environment `cur` that neither sends nor receives. -/
theorem Inv.settled (h : Inv thisenv x) {calls : Slot → IpcCall}
    (hprotocol : InProtocol t)
    (hcall : ∀ e, CallOk (t.kernel.envs e) (t.phases e) (x.pending e)
      (settleCalls t.kernel calls e))
    (hself : ∀ e, (calls e).InRecv → thisenv e = e) : Inv thisenv (x.settled t calls) where
  protocol := hprotocol
  call := hcall
  self e he := hself e (inRecv_of_settleCalls he)
  history := ⟨h.history.dest, h.history.received, h.history.once, h.history.covered,
    h.history.returned⟩

/-- Beside the library nothing is sent or received. -/
theorem Beside.quiet (h : x.Beside ev) : (∀ binary, ev ≠ .boot binary) ∧ ev.ValidRecv ∧
    ev.sent x.kernel = none ∧ ev.receiver x.kernel = none := by
  cases ev with
  | boot binary => exact h.elim
  | trap c inp tf =>
      exact ⟨fun _ => Event.noConfusion, fun hcall => absurd hcall h.1, sent_eq_none h.2.1,
        if_neg h.1⟩
  | start | timer | store => exact ⟨fun _ => Event.noConfusion, trivial, rfl, rfl⟩

/-- Every environment is uninvolved in a step that neither sends nor receives. -/
theorem Inv.uninvolved (h : Inv thisenv x) (hstep : IpcStep x.machine ev t)
    (hboot : ∀ binary, ev ≠ .boot binary) (hvalid : ev.ValidRecv)
    (hsent : ev.sent x.kernel = none) (hrecv : ev.receiver x.kernel = none) (e : Slot) :
    Uninvolved x.machine t e := by
  refine h.protocol.uninvolved hstep hboot hvalid (fun msg hmsg => ?_) fun heq => ?_
  · rw [show ev.sent x.machine.kernel = none from hsent] at hmsg
    cases hmsg
  · rw [show ev.receiver x.machine.kernel = none from hrecv] at heq
    cases heq

theorem Inv.user (h : Inv thisenv x) (hcur : x.kernel.curenv c = some e) :
    x.machine.phases e = .user := h.protocol.user hcur

theorem Inv.machine (h : Inv thisenv x) (hbeside : x.Beside ev) (hstep : IpcStep x.machine ev t) :
    Inv thisenv (x.settled t x.calls) := by
  obtain ⟨hboot, hvalid, hsent, hrecv⟩ := hbeside.quiet
  exact h.settled (h.protocol.next hstep hvalid)
    (fun e => (h.call e).settle (h.uninvolved hstep hboot hvalid hsent hrecv e)) h.self

/-- A call of `ipc_recv`. -/
theorem Inv.recv (h : Inv thisenv x) {a : RecvArgs} (hcur : x.kernel.curenv c = some e)
    (hout : x.calls e = .outside) (hcall : Calls tf .ipcRecv) (hedx : tf.tfRegs.regEdx = a.pg)
    (hva : UserPage a.pg) (hself : thisenv e = e) (hstep : IpcStep x.machine (.trap c inp tf) t) :
    Inv thisenv (x.settled t (Function.update x.calls e (.recv a))) := by
  have hvalid : (Event.trap c inp tf).ValidRecv := fun _ => hedx ▸ hva
  have hboot : ∀ binary, Event.trap c inp tf ≠ .boot binary := fun _ => Event.noConfusion
  have hsent : (Event.trap c inp tf).sent x.machine.kernel = none :=
    sent_eq_none fun hsend => Sysno.noConfusion (hsend.unique hcall)
  have hrecv : (Event.trap c inp tf).receiver x.machine.kernel = some e := (if_pos hcall).trans hcur
  have hphases : (Event.trap c inp tf).phases x.machine.kernel x.machine.phases e = .receiving := by
    rw [phases_of_receiver hsent hrecv, Function.update_self]
  -- the caller does not run when the kernel is left, so it waits in the library as well
  have hexec : ¬ t.kernel.Executing e :=
    (step_resumed h.protocol hstep.step hstep.isIpc hvalid).receiving e hphases
  refine h.settled (h.protocol.next hstep hvalid) (fun e' => ?_) fun e' he' => ?_
  · by_cases he : e' = e
    · subst he
      have hnow : settleCalls t.kernel (Function.update x.calls e' (.recv a)) e' = .recv a := by
        simp only [settleCalls, Function.update_self, if_neg hexec]
      have hphase : t.phases e' = .receiving := by
        rw [congrFun (congrArg Tracked.phases hstep.next) e']
        exact (settle_of_not_executing hexec).trans hphases
      have hpending := h.call e'
      rw [hout] at hpending
      cases hpending with
      | outside _ hnone =>
          rw [hnow]
          exact .waiting hphase hnone
    · rw [settleCalls_update_ne he]
      refine (h.call e').settle (h.protocol.uninvolved hstep hboot hvalid (fun msg hmsg => ?_) ?_)
      · rw [hsent] at hmsg
        cases hmsg
      · rw [hrecv]
        exact fun heq => he (Option.some.inj heq).symm
  · by_cases he : e' = e
    · exact he ▸ hself
    · rw [Function.update_of_ne he] at he'
      exact h.self e' he'

/-- A program goes to another place in the library, while the kernel does nothing. -/
theorem Inv.update (h : Inv thisenv x) {call : IpcCall}
    (hok : CallOk (x.kernel.envs e) (x.machine.phases e) (x.pending e) call)
    (hin : call.InRecv → (x.calls e).InRecv) :
    Inv thisenv { x with calls := Function.update x.calls e call } where
  protocol := h.protocol
  call e' := by
    by_cases he : e' = e
    · subst he
      show CallOk _ _ (x.pending e') (Function.update x.calls e' call e')
      rw [Function.update_self]
      exact hok
    · show CallOk _ _ (x.pending e') (Function.update x.calls e call e')
      rw [Function.update_of_ne he]
      exact h.call e'
  self e' he' := by
    have he' : (Function.update x.calls e call e').InRecv := he'
    by_cases he : e' = e
    · subst he
      rw [Function.update_self] at he'
      exact h.self e' (hin he')
    · rw [Function.update_of_ne he] at he'
      exact h.self e' he'
  history := ⟨h.history.dest, h.history.received, h.history.once, h.history.covered,
    h.history.returned⟩

theorem Inv.outside_pending (h : Inv thisenv x) (hout : x.calls e = .outside) :
    x.machine.phases e = .user ∧ x.pending e = none := by
  have hcall := h.call e
  rw [hout] at hcall
  cases hcall with
  | outside hp hpending => exact ⟨hp, hpending⟩

/-- A call of `ipc_send`. -/
theorem Inv.send (h : Inv thisenv x) (a : SendArgs) (hout : x.calls e = .outside) :
    Inv thisenv { x with calls := Function.update x.calls e (.send a) } := by
  obtain ⟨hp, hpending⟩ := h.outside_pending hout
  exact h.update (.send hp hpending) fun hin => hin.elim

/-- The `sys_yield` of `ipc_send`. -/
theorem Inv.yield (h : Inv thisenv x) {a : SendArgs} (hretry : x.calls e = .retry a)
    (hcall : Calls tf .yield) (hstep : IpcStep x.machine (.trap c inp tf) t) :
    Inv thisenv (x.settled t (Function.update x.calls e (.send a))) := by
  have hsend : ¬ Calls tf .ipcTrySend := fun h => Sysno.noConfusion (h.unique hcall)
  have hrecv : ¬ Calls tf .ipcRecv := fun h => Sysno.noConfusion (h.unique hcall)
  have hinv : Inv thisenv { x with calls := Function.update x.calls e (.send a) } := by
    refine h.update ?_ fun hin => hin.elim
    have hok := h.call e
    rw [hretry] at hok
    cases hok with
    | retry hp hpending => exact .send hp hpending
  have hboot : ∀ binary, Event.trap c inp tf ≠ .boot binary := fun _ => Event.noConfusion
  have hvalid : (Event.trap c inp tf).ValidRecv := fun h => absurd h hrecv
  refine hinv.settled (h.protocol.next hstep hvalid) (fun e' => ?_) hinv.self
  refine (hinv.call e').settle ?_
  exact hinv.uninvolved hstep hboot hvalid (sent_eq_none hsend) (if_neg hrecv) e'

/-- A receipt for the send that woke its environment. -/
theorem History.receive (h : x.History) {k : ℕ} {msg : Sent} {got : Received}
    (hwoken : x.woken e = some k) (hmsg : x.sends[k]? = some msg) (hgot : got.Matches msg)
    (call : IpcCall) : History { x with
      calls := Function.update x.calls e call
      woken := Function.update x.woken e none
      received := x.received ++ [⟨e, got, x.woken e⟩] } := by
  have hdest : ∀ e' k, Function.update x.woken e none e' = some k →
      e' ≠ e ∧ x.woken e' = some k := by
    intro e' k hk
    by_cases he : e' = e
    · rw [he, Function.update_self] at hk
      cases hk
    · rw [Function.update_of_ne he] at hk
      exact ⟨he, hk⟩
  -- the send that woke `e` is the one that the receipt is for
  obtain ⟨msg', hmsg', hdest'⟩ := h.dest e k hwoken
  rw [hmsg] at hmsg'
  obtain rfl := Option.some.inj hmsg'
  refine ⟨fun e' k' hk => h.dest e' k' (hdest e' k' hk).2, fun r hr => ?_, ⟨?_, ?_⟩, ?_, h.returned⟩
  · rcases List.mem_append.mp hr with hr | hr
    · exact h.received r hr
    · obtain rfl := List.mem_singleton.mp hr
      exact ⟨k, msg, hwoken, hmsg, hdest', hgot⟩
  -- no receipt is for that send yet, since its environment has not read it
  · show ((x.received ++ [Receipt.mk e got (x.woken e)]).map Receipt.send).Nodup
    rw [List.map_append]
    refine List.nodup_append.mpr ⟨h.once.1, List.nodup_singleton _, ?_⟩
    intro o ho o' ho' heq
    have ho' : o' = x.woken e := List.mem_singleton.mp ho'
    rw [heq, ho', hwoken] at ho
    exact h.once.2 e k hwoken ho
  · intro e' k' hk hmem
    obtain ⟨hne, hk⟩ := hdest e' k' hk
    have hmem : some k' ∈ (x.received ++ [Receipt.mk e got (x.woken e)]).map Receipt.send := hmem
    rw [List.map_append] at hmem
    rcases List.mem_append.mp hmem with hmem | hmem
    · exact h.once.2 e' k' hk hmem
    · have heq : some k' = x.woken e := List.mem_singleton.mp hmem
      obtain ⟨m₁, hm₁, hd₁⟩ := h.dest e' k' hk
      obtain ⟨m₂, hm₂, hd₂⟩ := h.dest e k' heq.symm
      rw [hm₁] at hm₂
      obtain rfl := Option.some.inj hm₂
      exact hne (hd₁.symm.trans hd₂)
  · intro k' hk'
    show some k' ∈ (x.received ++ [Receipt.mk e got (x.woken e)]).map Receipt.send ∨
      ∃ e', Function.update x.woken e none e' = some k'
    rw [List.map_append]
    rcases h.covered k' hk' with hmem | ⟨e', he'⟩
    · exact .inl (List.mem_append_left _ hmem)
    · by_cases he : e' = e
      · subst he
        exact .inl (List.mem_append_right _ (List.mem_singleton.mpr he'.symm))
      · exact .inr ⟨e', by rw [Function.update_of_ne he, he']⟩

theorem pending_eq_some {msg : Sent} (h : x.pending e = some msg) :
    ∃ k, x.woken e = some k ∧ x.sends[k]? = some msg := Option.bind_eq_some_iff.mp h

/-- A statement of `ipc_recv`. -/
theorem Inv.read (h : Inv thisenv x)
    (hread : x.read e (x.kernel.envs (thisenv e)) = some y) : Inv thisenv y := by
  have hok := h.call e
  unfold LibState.read at hread
  split at hread
  · next a ha =>
      obtain rfl := Option.some.inj hread
      have hself := h.self e (ha ▸ trivial)
      rw [ha] at hok
      cases hok with
      | @readFrom _ msg hp hpending hhas =>
          refine h.update (.readPerm hp hpending hhas fun w hw => ?_) fun _ => ha ▸ trivial
          split at hw
          · rw [hself] at hw
            exact (Option.some.inj hw).symm.trans hhas.sender
          · cases hw
  · next a f ha =>
      obtain rfl := Option.some.inj hread
      have hself := h.self e (ha ▸ trivial)
      rw [ha] at hok
      cases hok with
      | @readPerm _ msg _ hp hpending hhas hf =>
          refine h.update (.readValue hp hpending hhas.value hf fun w hw => ?_) fun _ =>
            ha ▸ trivial
          split at hw
          · next hstore =>
              rw [hself] at hw
              exact (Option.some.inj hw).symm.trans (hhas.perm hstore)
          · cases hw
  -- the last statement: the call is over, and what it has stored is the message of its send
  · next f perm ha =>
      obtain rfl := Option.some.inj hread
      have hself := h.self e (ha ▸ trivial)
      rw [ha] at hok
      cases hok with
      | @readValue msg _ _ hp hpending hvalue hf hperm =>
          obtain ⟨k, hwoken, hmsg⟩ := pending_eq_some hpending
          have hgot : Received.Matches ⟨(x.kernel.envs (thisenv e)).envIpcValue, f, perm⟩ msg := by
            rw [hself]
            exact ⟨hvalue, hf, hperm⟩
          refine ⟨h.protocol, fun e' => ?_, fun e' he' => ?_,
            h.history.receive hwoken hmsg hgot .outside⟩
          · by_cases he : e' = e
            · subst he
              refine (show CallOk _ _ _ (Function.update x.calls e' .outside e') from ?_)
              rw [Function.update_self]
              refine .outside hp ?_
              show (Function.update x.woken e' none e').bind _ = none
              rw [Function.update_self, Option.bind_none]
            · refine (show CallOk (x.kernel.envs e') (x.machine.phases e')
                ((Function.update x.woken e none e').bind fun k => x.sends[k]?)
                (Function.update x.calls e .outside e') from ?_)
              rw [Function.update_of_ne he, Function.update_of_ne he]
              exact h.call e'
          · have he' : (Function.update x.calls e .outside e').InRecv := he'
            by_cases he : e' = e
            · rw [he, Function.update_self] at he'
              exact he'.elim
            · rw [Function.update_of_ne he] at he'
              exact h.self e' he'
  · cases hread

/-! ## `sys_ipc_try_send` in the loop of `ipc_send` -/

theorem envid2env_of_sent {msg : Message} (hcur : x.kernel.curenv c = some e)
    (h : (Event.trap c inp tf).sent x.kernel = some msg) :
    envid2env c x.kernel tf.tfRegs.regEdx false = .ok msg.dest := by
  unfold Event.sent at h
  dsimp only at h
  rw [hcur] at h
  dsimp only at h
  split at h
  · split at h
    · next dest ret s₁ hdest hsend =>
        split at h
        · obtain rfl := Option.some.inj h
          exact hdest
        · cases h
    · cases h
  · cases h

/-- A send is recorded: it is on its way to the environment it has woken. -/
theorem History.record (h : x.History) {msg : Message} {a : SendArgs}
    (hfree : x.woken msg.dest = none) :
    History { x.recordSend a (some msg) with sendsReturned := x.sendsReturned + 1 } := by
  -- sends keep their numbers when one is added at the end
  have hlt : ∀ {k m}, x.sends[k]? = some m → ∀ r : Sent, (x.sends ++ [r])[k]? = some m :=
    fun {k m} hm r => by
      obtain ⟨hk, -⟩ := List.getElem?_eq_some_iff.mp hm
      rw [List.getElem?_append_left hk, hm]
  refine ⟨fun e k hk => ?_, fun r hr => ?_, ⟨h.once.1, fun e k hk => ?_⟩, fun k hk => ?_, ?_⟩
  · have hk : Function.update x.woken msg.dest (some x.sends.length) e = some k := hk
    by_cases he : e = msg.dest
    · rw [he, Function.update_self] at hk
      obtain rfl := Option.some.inj hk
      refine ⟨⟨msg.dest, msg.value, msg.sender, x.sentPerm msg.dest a⟩, ?_, he.symm⟩
      exact List.getElem?_concat_length
    · rw [Function.update_of_ne he] at hk
      obtain ⟨m, hm, hd⟩ := h.dest e k hk
      exact ⟨m, hlt hm _, hd⟩
  · obtain ⟨k, m, hk, hm, hd, hgot⟩ := h.received r hr
    exact ⟨k, m, hk, hlt hm _, hd, hgot⟩
  · have hk : Function.update x.woken msg.dest (some x.sends.length) e = some k := hk
    intro hmem
    obtain ⟨r, hr, hrk⟩ := List.mem_map.mp hmem
    obtain ⟨k', m, hk', hm, -⟩ := h.received r hr
    rw [hk'] at hrk
    obtain rfl := Option.some.inj hrk
    by_cases he : e = msg.dest
    · rw [he, Function.update_self] at hk
      obtain rfl := Option.some.inj hk
      rw [List.getElem?_eq_none le_rfl] at hm
      cases hm
    · rw [Function.update_of_ne he] at hk
      exact h.once.2 e _ hk hmem
  -- the new send is with the environment that it has woken, the others are where they were
  · have hk : k <
        (x.sends ++ [Sent.mk msg.dest msg.value msg.sender (x.sentPerm msg.dest a)]).length :=
      hk
    rw [List.length_append, List.length_singleton] at hk
    show _ ∨ ∃ e, Function.update x.woken msg.dest (some x.sends.length) e = some k
    by_cases hlast : k = x.sends.length
    · exact .inr ⟨msg.dest, by rw [Function.update_self, hlast]⟩
    · rcases h.covered k (by omega) with hmem | ⟨e, he⟩
      · exact .inl hmem
      · refine .inr ⟨e, ?_⟩
        have hne : e ≠ msg.dest := fun heq => by
          rw [heq, hfree] at he
          cases he
        rw [Function.update_of_ne hne, he]
  · show x.sendsReturned + 1 =
      (x.sends ++ [Sent.mk msg.dest msg.value msg.sender (x.sentPerm msg.dest a)]).length
    rw [List.length_append, h.returned]
    rfl

/-- `sys_ipc_try_send` has failed, and `ipc_send` looks at its result. -/
theorem Inv.sendResult (h : Inv thisenv x) {a : SendArgs} {r : Word} (hsend : x.calls e = .send a)
    (hr : r ≠ 0) : Inv thisenv (x.sendResult e a r) := by
  have hok := h.call e
  rw [hsend] at hok
  cases hok with
  | send hp hpending =>
      unfold LibState.sendResult
      rw [if_neg hr]
      split
      · exact h.update (.retry hp hpending) fun hin => hin.elim
      · exact h.update (.panicked hp hpending) fun hin => hin.elim

/-- Without a pending send, an environment has not been woken. -/
theorem Inv.woken_eq_none (h : Inv thisenv x) (hpending : x.pending e = none) :
    x.woken e = none := by
  cases hwoken : x.woken e with
  | none => rfl
  | some k =>
      obtain ⟨msg, hmsg, -⟩ := h.history.dest e k hwoken
      rw [LibState.pending, hwoken, Option.bind_some, hmsg] at hpending
      cases hpending

theorem pending_recordSend_ne (h : Inv thisenv x) {msg : Message} {a : SendArgs}
    (hne : e ≠ msg.dest) : (x.recordSend a (some msg)).pending e = x.pending e := by
  show (Function.update x.woken msg.dest (some x.sends.length) e).bind
    (fun k => (x.sends ++ [Sent.mk msg.dest msg.value msg.sender (x.sentPerm msg.dest a)])[k]?) = _
  rw [Function.update_of_ne hne, LibState.pending]
  cases hwoken : x.woken e with
  | none => rfl
  | some k =>
      obtain ⟨m, hm, -⟩ := h.history.dest e k hwoken
      obtain ⟨hk, -⟩ := List.getElem?_eq_some_iff.mp hm
      rw [Option.bind_some, Option.bind_some, List.getElem?_append_left hk]

theorem pending_recordSend_self {msg : Message} {a : SendArgs} :
    (x.recordSend a (some msg)).pending msg.dest =
      some ⟨msg.dest, msg.value, msg.sender, x.sentPerm msg.dest a⟩ := by
  show (Function.update x.woken msg.dest (some x.sends.length) msg.dest).bind
    (fun k => (x.sends ++ [Sent.mk msg.dest msg.value msg.sender (x.sentPerm msg.dest a)])[k]?) = _
  rw [Function.update_self, Option.bind_some]
  exact List.getElem?_concat_length

/-- A receiver that gets a message is inside `ipc_recv`. -/
theorem Inv.receiver (h : Inv thisenv x) {d : Slot} (hd : x.machine.phases d = .receiving) :
    ∃ r, x.calls d = .recv r ∧ x.pending d = none := by
  have hok := h.call d
  rw [hd] at hok
  cases hc : x.calls d with
  | recv r =>
      rw [hc] at hok
      cases hok with
      | waiting _ hpending => exact ⟨r, rfl, hpending⟩
      | woken hp => cases hp
  | _ =>
      rw [hc] at hok
      cases hok with
      | _ hp => cases hp

/-- `env_ipc_perm` of the receiver is the permission of the send, or left from an earlier one. -/
theorem ipcPermAfter_eq_sentPerm {d : Slot} {a : SendArgs}
    (h : a.pg < UTOP → (x.kernel.envs d).envIpcDstva = 0 → (x.kernel.envs d).envIpcPerm = 0) :
    ipcPermAfter (x.kernel.envs d) a.pg a.perm = x.sentPerm d a := by
  unfold ipcPermAfter sentPerm
  by_cases hpg : UTOP ≤ a.pg
  · rw [if_pos hpg, if_pos (Or.inl hpg)]
  · rw [if_neg hpg]
    by_cases hdstva : (x.kernel.envs d).envIpcDstva = 0
    · rw [if_pos hdstva, if_pos (Or.inr hdstva)]
      exact h (BitVec.not_le.mp hpg) hdstva
    · rw [if_neg hdstva, if_neg (not_or.mpr ⟨hpg, hdstva⟩)]

theorem Inv.delivered (h : Inv thisenv x) {a : SendArgs} {msg : Message}
    (hcur : x.kernel.curenv c = some e) (hsend : x.calls e = .send a)
    (hcall : Calls tf .ipcTrySend) (hedx : tf.tfRegs.regEdx = a.toEnv)
    (hebx : tf.tfRegs.regEbx = a.pg) (hedi : tf.tfRegs.regEdi = a.perm)
    (hgood : (LibEvent.trySend c inp tf a).Good thisenv x)
    (hsome : (Event.trap c inp tf).sent x.machine.kernel = some msg)
    (heax : (t.kernel.envs e).envTf.tfRegs.regEax = 0)
    (hmessage : (t.kernel.envs msg.dest).message = (msg.value, msg.sender,
      ipcPermAfter (x.machine.kernel.envs msg.dest) tf.tfRegs.regEbx tf.tfRegs.regEdi))
    (hstep : IpcStep x.machine (.trap c inp tf) t) :
    Inv thisenv
      (((x.recordSend a (Event.sent x.kernel (.trap c inp tf))).settled t x.calls).sendResult e a
        (t.kernel.envs e).envTf.tfRegs.regEax) := by
  have hnrecv : ¬ Calls tf .ipcRecv := fun h => Sysno.noConfusion (h.unique hcall)
  have hboot : ∀ binary, Event.trap c inp tf ≠ .boot binary := fun _ => Event.noConfusion
  have hvalid : (Event.trap c inp tf).ValidRecv := fun h => absurd h hnrecv
  have hrecv : (Event.trap c inp tf).receiver x.machine.kernel = none := if_neg hnrecv
  have hphase := h.protocol.sound hsome
  have huser := h.user hcur
  -- the sender runs and the receiver waits, so they are different environments
  have hne : e ≠ msg.dest := by
    rintro rfl
    rw [huser] at hphase
    cases hphase
  obtain ⟨r, hcalls, hpending⟩ := h.receiver hphase
  have hun : ∀ e', e' ≠ msg.dest → Uninvolved x.machine t e' := fun e' he' =>
    h.protocol.uninvolved hstep hboot hvalid (fun msg' hmsg' => by
      rw [hsome] at hmsg'
      obtain rfl := Option.some.inj hmsg'
      exact he'.symm) (by rw [hrecv]; exact (Option.some_ne_none e').symm)
  have hsent : Event.sent x.kernel (.trap c inp tf) = some msg := hsome
  rw [hsent, heax]
  unfold LibState.sendResult
  rw [if_pos rfl]
  refine ⟨h.protocol.next hstep hvalid, fun e' => ?_, fun e' he' => ?_, ?_⟩
  · show CallOk (t.kernel.envs e') (t.phases e') ((x.recordSend a (some msg)).pending e')
      (Function.update (settleCalls t.kernel x.calls) e .outside e')
    -- the receiver has been woken, the sender has returned, and the others are not involved
    by_cases hd : e' = msg.dest
    · subst hd
      obtain ⟨hexec, hrest⟩ := (h.protocol.rendezvous hstep hvalid).receiving _ hphase
      have hphase' : t.phases msg.dest = .delivered msg.value msg.sender := by
        rw [congrFun (congrArg Tracked.phases hstep.next) msg.dest]
        refine (settle_of_not_executing hexec).trans ?_
        rw [phases_of_sent hsome, Function.update_self]
      have hnow : settleCalls t.kernel x.calls msg.dest = .recv r := by
        simp only [settleCalls, hcalls, if_neg hexec]
      obtain ⟨hvalue, hrest'⟩ := Prod.mk.inj hmessage
      obtain ⟨hsender, hperm⟩ := Prod.mk.inj hrest'
      rw [Function.update_of_ne hne.symm, hnow, pending_recordSend_self]
      refine .woken hphase' rfl ⟨hvalue, hsender, fun hstore => ?_⟩
      show (t.kernel.envs msg.dest).envIpcPerm = x.sentPerm msg.dest a
      rw [hperm, hebx, hedi]
      have hstale := hgood msg.dest r (hedx ▸ envid2env_of_sent hcur hsent)
      exact ipcPermAfter_eq_sentPerm fun hpg hdstva => hstale hpg hdstva hcalls hstore
    · rw [pending_recordSend_ne h hd]
      by_cases he : e' = e
      · subst he
        have hok := h.call e'
        rw [hsend] at hok
        cases hok with
        | send _ hnone =>
            rw [Function.update_self]
            exact .outside ((hun e' hd).user huser) hnone
      · rw [Function.update_of_ne he]
        exact (h.call e').settle (hun e' hd)
  · have he' : (Function.update (settleCalls t.kernel x.calls) e .outside e').InRecv := he'
    by_cases he : e' = e
    · rw [he, Function.update_self] at he'
      exact he'.elim
    · rw [Function.update_of_ne he] at he'
      exact h.self e' (inRecv_of_settleCalls he')
  · have hrecord := h.history.record (a := a) (h.woken_eq_none hpending)
    exact ⟨hrecord.dest, hrecord.received, hrecord.once, hrecord.covered, hrecord.returned⟩

theorem Inv.trySend (h : Inv thisenv x) {a : SendArgs} (hcur : x.kernel.curenv c = some e)
    (hsend : x.calls e = .send a) (hcall : Calls tf .ipcTrySend) (hedx : tf.tfRegs.regEdx = a.toEnv)
    (hebx : tf.tfRegs.regEbx = a.pg) (hedi : tf.tfRegs.regEdi = a.perm)
    (hgood : (LibEvent.trySend c inp tf a).Good thisenv x)
    (hstep : IpcStep x.machine (.trap c inp tf) t) :
    Inv thisenv
      (((x.recordSend a (Event.sent x.kernel (.trap c inp tf))).settled t x.calls).sendResult e a
        (t.kernel.envs e).envTf.tfRegs.regEax) := by
  have hnrecv : ¬ Calls tf .ipcRecv := fun h => Sysno.noConfusion (h.unique hcall)
  have hboot : ∀ binary, Event.trap c inp tf ≠ .boot binary := fun _ => Event.noConfusion
  have hvalid : (Event.trap c inp tf).ValidRecv := fun h => absurd h hnrecv
  have hrecv : (Event.trap c inp tf).receiver x.machine.kernel = none := if_neg hnrecv
  have hprotocol := h.protocol.next hstep hvalid
  rcases h.protocol.send_result hcall hcur hstep.step.2 with
    ⟨hnone, heax⟩ | ⟨msg, hsome, heax, hmessage⟩
  · have hnone' : (Event.trap c inp tf).sent x.kernel = none := hnone
    rw [hnone']
    have hsettled : Inv thisenv (x.settled t x.calls) := h.settled hprotocol
      (fun e' => (h.call e').settle (h.uninvolved hstep hboot hvalid hnone hrecv e')) h.self
    refine Inv.sendResult (x := x.settled t x.calls) hsettled ?_ heax
    show settleCalls t.kernel x.calls e = .send a
    simp only [settleCalls, hsend]
  · exact h.delivered hcur hsend hcall hedx hebx hedi hgood hsome heax hmessage hstep

/-- Any step of the library that meets the condition. -/
theorem Inv.step (h : Inv thisenv x) {ev : LibEvent} (hstep : LibStep thisenv x ev y)
    (hgood : ev.Good thisenv x) : Inv thisenv y := by
  cases hstep with
  | machine hbeside hstep => exact h.machine hbeside hstep
  | recv hcur hout hcall hedx hstep =>
      exact h.recv hcur hout hcall hedx hgood.1 (hgood.2 _ hcur) hstep
  | send hcur hout => exact h.send _ hout
  | trySend hcur hsend hcall hedx hecx hebx hedi hstep =>
      exact h.trySend hcur hsend hcall hedx hebx hedi hgood hstep
  | yield hcur hretry hcall hstep => exact h.yield hretry hcall hstep
  | read hcur hread => exact h.read hread

theorem Inv.start {s : Kernel} (h : Quiet s) : Inv thisenv (.start s) where
  protocol := ⟨h.exclusive, h.envOk⟩
  call _ := .outside rfl rfl
  self _ he := he.elim
  history := by
    refine ⟨fun e k hk => ?_, fun r hr => ?_, ⟨List.nodup_nil, fun e k hk => ?_⟩,
      fun k hk => ?_, rfl⟩
    · cases hk
    · cases hr
    · cases hk
    · exact absurd hk (Nat.not_lt_zero k)

end LibState

/-! ## Every run -/

/-- A step that meets the condition. -/
def GoodStep (thisenv : Slot → Slot) (x : LibState) (ev : LibEvent) (y : LibState) : Prop :=
  LibStep thisenv x ev y ∧ ev.Good thisenv x

/-- Messages are delivered from end to end, in every run whose steps meet the condition. -/
theorem ipc_end_to_end {s : Kernel} {evs : List LibEvent} (hquiet : Quiet s)
    (h : Trace (GoodStep thisenv) (.start s) evs x) : EndToEnd x :=
  (h.invariant (LibState.Inv.start hquiet) fun _ _ _ hx hstep => hx.step hstep.1 hstep.2).endToEnd

/-! ### A process and its thread -/

/-- What `libmain` and `fork` store in `thisenv`: the environment of the process, which its
threads share. -/
def libThisenv (s : Kernel) (e : Slot) : Slot :=
  if (s.envs e).envType = .thread then envx (s.envs e).envParentId else e

instance (x : LibState) (c : Cpu) : Decidable (x.OutsideOn c) :=
  decidable_of_iff ((x.kernel.curenv c).any fun e => decide (x.calls e = .outside)) (by
    simp [LibState.OutsideOn, Option.any_eq_true])

instance (x : LibState) (ev : Event) : Decidable (x.Beside ev) :=
  match ev with
  | .boot _ => inferInstanceAs (Decidable False)
  | .trap _ _ _ => inferInstanceAs (Decidable (_ ∧ _ ∧ (_ → _)))
  | .start _ | .timer _ | .store _ _ _ => inferInstanceAs (Decidable True)

/-- A step of the library, computed. -/
def LibState.next (thisenv : Slot → Slot) (x : LibState) (ev : LibEvent) : Option LibState :=
  match ev with
  | .machine ev =>
      if x.Beside ev then (x.machine.step ev).map fun t => x.settled t x.calls else none
  | .recv c inp tf a =>
      match x.kernel.curenv c with
      | none => none
      | some e =>
          if x.calls e = .outside ∧ Calls tf .ipcRecv ∧ tf.tfRegs.regEdx = a.pg then
            (x.machine.step (.trap c inp tf)).map fun t =>
              x.settled t (Function.update x.calls e (.recv a))
          else none
  | .send c a =>
      match x.kernel.curenv c with
      | none => none
      | some e =>
          if x.calls e = .outside then
            some { x with calls := Function.update x.calls e (.send a.start) }
          else none
  | .trySend c inp tf a =>
      match x.kernel.curenv c with
      | none => none
      | some e =>
          if x.calls e = .send a ∧ Calls tf .ipcTrySend ∧ tf.tfRegs.regEdx = a.toEnv ∧
              tf.tfRegs.regEcx = a.val ∧ tf.tfRegs.regEbx = a.pg ∧ tf.tfRegs.regEdi = a.perm then
            (x.machine.step (.trap c inp tf)).map fun t =>
              ((x.recordSend a (Event.sent x.kernel (.trap c inp tf))).settled t x.calls).sendResult
                e a (t.kernel.envs e).envTf.tfRegs.regEax
          else none
  | .yield c inp tf a =>
      match x.kernel.curenv c with
      | none => none
      | some e =>
          if x.calls e = .retry a ∧ Calls tf .yield then
            (x.machine.step (.trap c inp tf)).map fun t =>
              x.settled t (Function.update x.calls e (.send a))
          else none
  | .read c =>
      match x.kernel.curenv c with
      | none => none
      | some e => x.read e (x.kernel.envs (thisenv e))

theorem libStep_of_next {ev : LibEvent} (h : x.next thisenv ev = some y) :
    LibStep thisenv x ev y := by
  cases ev with
  | machine ev =>
      unfold LibState.next at h
      dsimp only at h
      -- a step of the machine beside the library
      split at h
      · next hbeside =>
          obtain ⟨t, ht, rfl⟩ := Option.map_eq_some_iff.mp h
          exact .machine hbeside (ipcStep_of_step ht)
      · cases h
  | recv c inp tf a =>
      unfold LibState.next at h
      dsimp only at h
      split at h
      · cases h
      · next e hcur =>
          split at h
          · next hcond =>
              obtain ⟨t, ht, rfl⟩ := Option.map_eq_some_iff.mp h
              exact .recv hcur hcond.1 hcond.2.1 hcond.2.2 (ipcStep_of_step ht)
          · cases h
  | send c a =>
      unfold LibState.next at h
      dsimp only at h
      split at h
      · cases h
      · next e hcur =>
          split at h
          · next hout =>
              obtain rfl := Option.some.inj h
              exact .send hcur hout
          · cases h
  | trySend c inp tf a =>
      unfold LibState.next at h
      dsimp only at h
      split at h
      · cases h
      · next e hcur =>
          split at h
          · next hcond =>
              obtain ⟨t, ht, rfl⟩ := Option.map_eq_some_iff.mp h
              obtain ⟨hsend, hcall, hedx, hecx, hebx, hedi⟩ := hcond
              exact .trySend hcur hsend hcall hedx hecx hebx hedi (ipcStep_of_step ht)
          · cases h
  | yield c inp tf a =>
      unfold LibState.next at h
      dsimp only at h
      split at h
      · cases h
      · next e hcur =>
          split at h
          · next hcond =>
              obtain ⟨t, ht, rfl⟩ := Option.map_eq_some_iff.mp h
              exact .yield hcur hcond.1 hcond.2 (ipcStep_of_step ht)
          · cases h
  | read c =>
      unfold LibState.next at h
      dsimp only at h
      split at h
      · cases h
      · next e hcur => exact .read hcur h

/-- A system call of the library from CPU 0. -/
def libFrame (no : Sysno) (a1 a2 a3 a4 : Word) : Trapframe := sysFrame {} no a1 a2 a3 a4 0

/-- The arguments of `ipc_recv(&from, NULL, &perm)`. -/
def recvArgs : RecvArgs := ⟨true, true, 0⟩

/-- The arguments of `ipc_send(to, 42, NULL, 0)`. -/
def sendArgs (dest : Word) : SendArgs := ⟨dest, 42, UTOP, 0⟩

/-- The environment that runs lets the other one run. -/
def libYield : LibEvent := .machine (sysTrap 0 .yield 0 0 0 0 0)

/-- One environment receives, and the other one, which runs then, sends to it. -/
def exchange (dest : Word) : List LibEvent :=
  [.recv 0 {} (libFrame .ipcRecv 0 0 0 0) recvArgs, .send 0 (sendArgs dest),
    .trySend 0 {} (libFrame .ipcTrySend dest 42 UTOP 0) (sendArgs dest), libYield,
    .read 0, .read 0, .read 0]

/-- Nobody is in a receive, and there are no zombies. -/
def NobodyWaits (s : Kernel) : Prop := ∀ e, (s.envs e).envStatus ≠ .dying ∧
  ((s.envs e).envStatus ≠ .notRunnable → (s.envs e).envSleepUntil = 0) ∧
  (s.envs e).envIpcRecving = false

instance (s : Kernel) : Decidable (NobodyWaits s) := inferInstanceAs (Decidable (∀ _, _))

theorem quiet_of_run {s₀ s : Kernel} {evs : List Event} (hboot : Booted s₀)
    (h : Trace HygienicStep s₀ evs s) (hnobody : NobodyWaits s) : Quiet s where
  exclusive := exclusive_of_run hboot h
  envOk e := .of_user (hnobody e).1 (hnobody e).2.1 (hnobody e).2.2

/-- Enough for the condition: no pages are sent. -/
def LibEvent.plain (thisenv : Slot → Slot) (x : LibState) : LibEvent → Bool
  | .recv c _ _ a => decide (UserPage a.pg) && (x.kernel.curenv c).all fun e => thisenv e = e
  | .trySend _ _ _ a => decide (UTOP ≤ a.pg)
  | _ => true

theorem good_of_plain {ev : LibEvent} (h : ev.plain thisenv x = true) : ev.Good thisenv x := by
  cases ev with
  | recv c inp tf a =>
      obtain ⟨hva, hself⟩ := Bool.and_eq_true_iff.mp h
      refine ⟨of_decide_eq_true hva, fun e he => ?_⟩
      rw [he] at hself
      exact of_decide_eq_true hself
  | trySend c inp tf a =>
      intro e r _ hpg
      exact absurd hpg (BitVec.not_lt.mpr (of_decide_eq_true h))
  | machine | send | yield | read => trivial

/-- The process receives from its thread. -/
theorem ipc_end_to_end_process : ∃ s x, Quiet s ∧
    Trace (GoodStep (libThisenv s)) (.start s) (exchange firstEnv) x ∧
    x.received.map (fun r => r.got.value) = [42] ∧ EndToEnd x := by
  obtain ⟨s, hrun, hs⟩ := exists_trace (fun s ev => ev.Hygienic s) (bootedMachine .roundRobin 64)
    createThread (fun s => decide (NobodyWaits s) && ((exchange firstEnv).foldlM
      (fun (x : LibState) (ev : LibEvent) =>
        if ev.plain (libThisenv s) x then x.next (libThisenv s) ev else none) (.start s)).any
      fun (x : LibState) => decide (x.received.map (fun r => r.got.value) = [42]))
    (by decide +kernel)
  obtain ⟨hnobody, hexchange⟩ := Bool.and_eq_true_iff.mp hs
  obtain ⟨x, hrun', hx⟩ := Trace.exists_of_foldlM _ _ _ _ hexchange
  have hgood : Trace (GoodStep (libThisenv s)) (.start s) (exchange firstEnv) x := by
    refine hrun'.mono fun x ev y h => ?_
    split at h
    · next hplain => exact ⟨libStep_of_next h, good_of_plain hplain⟩
    · cases h
  have hboot := booted_bootedMachine .roundRobin (n := 64) (by decide) (by decide)
  have hquiet := quiet_of_run hboot hrun (of_decide_eq_true hnobody)
  exact ⟨s, x, hquiet, hgood, of_decide_eq_true hx, ipc_end_to_end hquiet hgood⟩

/-- A thread receives from its process, and `ipc_recv` returns what is in the `struct Env` of
the process. -/
theorem ipc_thread_misread : ¬ ∀ (s₀ s : Kernel) (evs : List Event) (levs : List LibEvent)
    (x : LibState), Booted s₀ → Trace HygienicStep s₀ evs s → Quiet s →
    Trace (LibStep (libThisenv s)) (.start s) levs x → EndToEnd x := by
  intro hclaim
  obtain ⟨s, hrun, hs⟩ := exists_trace (fun s ev => ev.Hygienic s) (bootedMachine .roundRobin 64)
    createThread (fun s => decide (NobodyWaits s) &&
      ((libYield :: exchange firstThread).foldlM (LibState.next (libThisenv s)) (.start s)).any
      fun (x : LibState) => decide
        (x.received.map (fun r => (r.got.value, r.send)) = [(0, some 0)] ∧
        x.sends.map Sent.value = [42])) (by decide +kernel)
  obtain ⟨hnobody, hexchange⟩ := Bool.and_eq_true_iff.mp hs
  obtain ⟨x, hrun', hx⟩ := Trace.exists_of_foldlM _ _ _ _ hexchange
  have hboot := booted_bootedMachine .roundRobin (n := 64) (by decide) (by decide)
  have hend := hclaim _ s _ _ x hboot hrun (quiet_of_run hboot hrun (of_decide_eq_true hnobody))
    (hrun'.mono fun _ _ _ h => libStep_of_next h)
  obtain ⟨hreceived, hsends⟩ := of_decide_eq_true hx
  obtain ⟨r, hr, hgot⟩ := List.map_eq_singleton_iff.mp hreceived
  obtain ⟨msg, hmsgs, hvalue⟩ := List.map_eq_singleton_iff.mp hsends
  obtain ⟨k, msg', hk, hmsg', -, hmatches⟩ := hend.received r (hr ▸ List.mem_singleton_self r)
  have hmem : msg' ∈ x.sends := List.mem_of_getElem? hmsg'
  rw [hmsgs, List.mem_singleton] at hmem
  subst hmem
  have hzero : r.got.value = 0 := (Prod.mk.inj hgot).1
  rw [hmatches.value, hvalue] at hzero
  exact absurd hzero (by decide)

end JosSched
