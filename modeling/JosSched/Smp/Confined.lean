import JosSched.Smp.Aloof
import JosSched.Ipc.PageTransfer

/-!
# Confinement of system calls

Every system call is confined to its reach (`syscalls_confined`).  In every state, an environment
out of reach keeps its type, its parent, its priority, its deadline, its upcall, its page directory
and its frame; the scheduler may take it from `ENV_RUNNABLE` to `ENV_RUNNING`, and a send to an
environment that waits delivers the message, writes the result of the call that waits for it and
makes it runnable.  In an orderly run, the page directory of an environment out of reach translates
as before, unless somebody in reach lives in it too.  Where a receiver lives in it, the page that it
asked for may differ.  Besides, when the send needs a page table that is not there yet, the window
at `UVPT` shows it afterwards (`sent_table_shows`).
-/

namespace JosSched

variable {c : Cpu} {s s' s₀ : Kernel} {inp : Input} {tf : Trapframe} {cur e : Slot} {env : Env}

/-- What the call of CPU `c` with frame `tf` leaves of environment `e`. -/
structure FieldsKept (c : Cpu) (s : Kernel) (tf : Trapframe) (e : Slot) (s' : Kernel) : Prop where
  id : (s'.envs e).envId = (s.envs e).envId
  type : (s'.envs e).envType = (s.envs e).envType
  parent : (s'.envs e).envParentId = (s.envs e).envParentId
  priority : (s'.envs e).envPriority = (s.envs e).envPriority
  deadline : (s'.envs e).envSleepUntil = (s.envs e).envSleepUntil
  upcall : (s'.envs e).envPgfaultUpcall = (s.envs e).envPgfaultUpcall
  pgdir : (s'.envs e).envPgdir = (s.envs e).envPgdir
  dstva : (s'.envs e).envIpcDstva = (s.envs e).envIpcDstva
  status : (s'.envs e).envStatus = (s.envs e).envStatus ∨
    s'.curenv c = some e ∧ (s.envs e).envStatus = .runnable ∧ (s'.envs e).envStatus = .running ∨
    Receives c s tf e ∧ ((s'.envs e).envStatus = .runnable ∨
      s'.curenv c = some e ∧ (s'.envs e).envStatus = .running)
  frame : (s'.envs e).envTf = (s.envs e).envTf ∨
    Receives c s tf e ∧ (s'.envs e).envTf = (s.envs e).envTf.setEax 0
  message : Receives c s tf e ∨
    (s'.envs e).envIpcRecving = (s.envs e).envIpcRecving ∧
    (s'.envs e).envIpcFrom = (s.envs e).envIpcFrom ∧
    (s'.envs e).envIpcValue = (s.envs e).envIpcValue ∧
    (s'.envs e).envIpcPerm = (s.envs e).envIpcPerm

theorem FieldsKept.of_turn (h : Turn c env s' e)
    (henv : env = s.envs e ∨ Receives c s tf e ∧ env = messaged tf (s.envs cur) (s.envs e)) :
    FieldsKept c s tf e s' := by
  have hid := h.proj Env.envId fun _ _ _ _ => rfl
  have htype := h.proj Env.envType fun _ _ _ _ => rfl
  have hparent := h.proj Env.envParentId fun _ _ _ _ => rfl
  have hpriority := h.proj Env.envPriority fun _ _ _ _ => rfl
  have hdeadline := h.proj Env.envSleepUntil fun _ _ _ _ => rfl
  have hupcall := h.proj Env.envPgfaultUpcall fun _ _ _ _ => rfl
  have hpgdir := h.proj Env.envPgdir fun _ _ _ _ => rfl
  have hdstva := h.proj Env.envIpcDstva fun _ _ _ _ => rfl
  have hframe := h.proj Env.envTf fun _ _ _ _ => rfl
  rcases henv with rfl | ⟨hrecv, rfl⟩
  · refine ⟨hid, htype, hparent, hpriority, hdeadline, hupcall, hpgdir, hdstva, ?_, .inl hframe,
      .inr ?_⟩
    · by_cases hchosen : s'.curenv c = some e
      · obtain ⟨hready, hran, -⟩ := h.chosen hchosen
        exact .inr (.inl ⟨hchosen, hready, hran⟩)
      · exact .inl (h.waiting hchosen).1
    · exact ⟨h.proj Env.envIpcRecving fun _ _ _ _ => rfl,
        h.proj Env.envIpcFrom fun _ _ _ _ => rfl, h.proj Env.envIpcValue fun _ _ _ _ => rfl,
        h.proj Env.envIpcPerm fun _ _ _ _ => rfl⟩
  · -- the message has been written, and the receiver may have been picked since
    refine ⟨hid, htype, hparent, hpriority, hdeadline, hupcall, hpgdir, hdstva,
      .inr (.inr ⟨hrecv, ?_⟩), .inr ⟨hrecv, hframe⟩, .inl hrecv⟩
    by_cases hchosen : s'.curenv c = some e
    · exact .inr ⟨hchosen, (h.chosen hchosen).2.1⟩
    · exact .inl (h.waiting hchosen).1

/-- Whatever system call `cur` makes, with whatever arguments, an environment out of reach keeps
its fields, and in an orderly run the translations of its address space. -/
theorem syscalls_confined (hcur : s.curenv c = some cur) (htrap : tf.tfTrapno = T_SYSCALL)
    (hleave : trap c s inp tf = .leave s') (he : ¬ Reached c s tf cur e) :
    FieldsKept c s tf e s' ∧
      ∀ {s₀ : Kernel} {evs : List Event}, Booted s₀ → KernelMemory s₀.mem →
        Trace OrderlyStep s₀ evs s → OrderlyStep s (.trap c inp tf) s' →
        ∀ d, s.dirs e = some d → OutOfReach c s tf cur d →
          s'.dirs e = some d ∧ ∀ va, ¬ SentPage c s tf d va → mmu s'.mem d va = mmu s.mem d va := by
  constructor
  · by_cases hsend : (s.envs cur).envStatus ≠ .dying ∧ Calls tf .ipcTrySend
    · obtain ⟨env, henv, hturn⟩ :=
        turn_of_send hcur hsend.1 hsend.2 hleave fun heq => he (heq ▸ .self)
      exact .of_turn hturn henv
    · have hturn := turn_of_trap hcur htrap (not_and.mp hsend) hleave he
      have hsame : s.envs e = s.envs e ∨
          Receives c s tf e ∧ s.envs e = messaged tf (s.envs cur) (s.envs e) := .inl rfl
      exact .of_turn hturn hsame
  · intro s₀ evs hboot hmem hrun hstep d hd hreach
    have hkept := spaceKept_of_run hboot hmem hrun hstep hcur htrap hd hreach
    exact ⟨hkept.owner, fun va hva => hkept.spared.mmu va hva⟩

/-- The first of two processes waits for a page at an address without a page table, and the second
one sends it a page. -/
theorem exists_sent : ∃ s s', Trace OrderlyStep (bootedMachine .roundRobin 64) waiting s ∧
    OrderlyStep s (.trap 0 {} sendPage) s' ∧ s.curenv 0 = some 1 ∧ Receives 0 s sendPage 0 ∧
    (s.envs 0).envIpcDstva = 0x800000 ∧ s.dirs 0 = some 8 ∧ OutOfReach 0 s sendPage 1 8 ∧
    mmu s.mem 8 0xef402000 = none ∧ (mmu s'.mem 8 0xef402000).isSome ∧
    (mmu s.mem 8 0xeebfd000).isSome := by
  have heval : (replay (fun s ev => ev.Hygienic s ∧ ev.Orderly s) (bootedMachine .roundRobin 64)
      waiting).any (fun s => decide (s.curenv 0 = some 1 ∧ envid2env 0 s firstEnv false = .ok 0 ∧
        (s.envs 0).envIpcRecving = true ∧ (s.envs 0).envIpcDstva = 0x800000 ∧
        s.dirs 0 = some 8 ∧ (∀ t, s.dirs t = some 8 → t = 0) ∧ (s.envs 0).envType = .user ∧
        (s.envs 0).envParentId ≠ (s.envs 1).envId ∧ mmu s.mem 8 0xef402000 = none ∧
        (mmu s.mem 8 0xeebfd000).isSome) &&
        decide ((Event.trap 0 {} sendPage).Hygienic s ∧ (Event.trap 0 {} sendPage).Orderly s) &&
        ((Event.trap 0 {} sendPage).next s).any fun s' => (mmu s'.mem 8 0xef402000).isSome) =
      true := by
    decide +kernel
  obtain ⟨s, hrun, hs⟩ := exists_trace _ _ _ _ heval
  simp only [Bool.and_eq_true, decide_eq_true_iff] at hs
  obtain ⟨⟨hstate, hplain⟩, hnext⟩ := hs
  obtain ⟨hcur, henv, hrecv, hdstva, hdir, honly, huser, hparent, hnone, hstack⟩ := hstate
  obtain ⟨s', hnext, hshown⟩ := (Option.any_eq_true _ _).mp hnext
  refine ⟨s, s', hrun, ⟨step_of_next hnext, hplain⟩, hcur, ⟨by decide, henv, hrecv⟩, hdstva, hdir,
    fun t ht hlives => ?_, hnone, hshown, hstack⟩
  obtain rfl := honly t hlives
  rcases ht with _ | ⟨-, hchild⟩ | ⟨-, hthread⟩ | ⟨hcalls, -⟩
  · exact hparent hchild
  · rw [isThreadOf_iff, huser] at hthread
    exact EnvType.noConfusion hthread.2.1
  · exact absurd hcalls (by decide)

/-- The receiver keeps its fields and its stack. -/
theorem syscalls_confined_send : ∃ s s',
    Trace OrderlyStep (bootedMachine .roundRobin 64) waiting s ∧
    OrderlyStep s (.trap 0 {} sendPage) s' ∧ FieldsKept 0 s sendPage 0 s' ∧
    (mmu s.mem 8 0xeebfd000).isSome ∧ mmu s'.mem 8 0xeebfd000 = mmu s.mem 8 0xeebfd000 := by
  obtain ⟨s, s', hrun, hstep, hcur, ⟨-, henv, -⟩, hdstva, hdir, hreach, -, -, hstack⟩ := exists_sent
  have hboot := booted_bootedMachine .roundRobin (n := 64) (by decide) (by decide)
  obtain ⟨hfields, hspace⟩ :=
    syscalls_confined hcur rfl hstep.1.2 (hreach.not_reached hdir)
  obtain ⟨-, hkept⟩ := hspace hboot (kernelMemory_bootedMem (by decide) (by decide)) hrun hstep 8
    hdir hreach
  refine ⟨s, s', hrun, hstep, hfields, hstack, hkept _ ?_⟩
  rintro ⟨t, ⟨-, henv', -⟩, -, hwritten⟩
  obtain rfl := Except.ok.inj (henv.symm.trans henv')
  rw [hdstva] at hwritten
  rcases hwritten with hpage | ⟨hwindow, -⟩
  · exact absurd hpage (by decide)
  · exact absurd hwindow.1 (by decide)

/-- A send may change one more translation than that of the page the receiver asked for: where it
makes a page table, the window of the receiver shows it. -/
theorem sent_table_shows : ¬ ∀ (s₀ s s' : Kernel) (evs : List Event) (c : Cpu) (inp : Input)
    (tf : Trapframe) (cur e : Slot) (d : Ppn) (va : Word), Booted s₀ → Trace Step s₀ evs s →
    Step s (.trap c inp tf) s' → s.curenv c = some cur → tf.tfTrapno = T_SYSCALL →
    s.dirs e = some d → OutOfReach c s tf cur d →
    ¬ (Receives c s tf e ∧ SamePage (s.envs e).envIpcDstva va) →
    mmu s'.mem d va = mmu s.mem d va := by
  intro hkept
  obtain ⟨s, s', hrun, hstep, hcur, -, hdstva, hdir, hreach, hnone, hshown, -⟩ := exists_sent
  have hboot := booted_bootedMachine .roundRobin (n := 64) (by decide) (by decide)
  have hsame := hkept _ s s' _ 0 {} sendPage 1 0 8 0xef402000 hboot
    (hrun.mono fun _ _ _ h => h.1) hstep.1 hcur rfl hdir hreach fun hsent => by
      rw [hdstva] at hsent
      exact absurd hsent.2 (by decide)
  rw [hsame, hnone] at hshown
  cases hshown

end JosSched
