import JosSched.Smp.Memory

/-!
# The page of a message

A page that is sent and wanted arrives in two steps: a zeroed page takes the place of what was
mapped at the destination, and `env_page_map` then looks the source up again.  So the transfer
goes wrong when the destination is the page that is sent, in an address space that sender and
receiver share, and when nothing was mapped at the source to begin with.  A receiver that wants
no page keeps the `env_ipc_perm` of an earlier message.
-/

open Except

namespace JosSched

variable {c : Cpu} {pool : Set Ppn} {lost : Set (Ppn × Use)} {s s' s₀ : Kernel} {use : Ppn → Use}
  {cur dst t : Slot}
  {d p srcdir : Ppn} {m : Mem} {va srcva perm envid value : Word} {r : ℤ} {inp : Input}
  {tf : Trapframe}

/-! ## What a send should do -/

/-- The page of the sender is mapped at the receiver, with the permissions granted. -/
structure PageArrived (s s' : Kernel) (cur dst : Slot) (srcva perm : Word) : Prop where
  page : ∃ srcdir d, s.dirs cur = some srcdir ∧ s.dirs dst = some d ∧ leaf s.mem srcdir srcva ≠ 0 ∧
    leaf s'.mem d (s.envs dst).envIpcDstva =
      userEntry (pgnum (leaf s.mem srcdir srcva)) (granted perm) ∧
    (∀ k, s'.mem.load (pgnum (leaf s.mem srcdir srcva), k) =
      s.mem.load (pgnum (leaf s.mem srcdir srcva), k)) ∧
    leaf s'.mem srcdir srcva = leaf s.mem srcdir srcva
  perm : (s'.envs dst).envIpcPerm = granted perm

/-- A page is offered and wanted. -/
def PageWanted (s : Kernel) (dst : Slot) (srcva : Word) : Prop :=
  srcva < UTOP ∧ (s.envs dst).envIpcDstva ≠ 0

/-- The page has arrived if it was offered and wanted; otherwise memory is as it was, and the
receiver is told that there is no page. -/
structure Transferred (s s' : Kernel) (cur dst : Slot) (srcva perm : Word) : Prop where
  wanted : PageWanted s dst srcva → PageArrived s s' cur dst srcva perm
  unwanted : ¬ PageWanted s dst srcva → s'.mem = s.mem ∧ (s'.envs dst).envIpcPerm = 0

/-- The source is not the page, in a shared address space, that the message replaces. -/
def Apart (s : Kernel) (cur dst : Slot) (srcva : Word) : Prop :=
  ¬ (s.dirs cur = s.dirs dst ∧ SamePage (s.envs dst).envIpcDstva srcva)

instance (va va' : Word) : Decidable (SamePage va va') := inferInstanceAs (Decidable (_ ∧ _))

instance (s : Kernel) (cur dst : Slot) (srcva : Word) : Decidable (Apart s cur dst srcva) :=
  inferInstanceAs (Decidable (¬ _))

/-! ## Successful sends -/

theorem ipcDeliver_perm {e : Slot} :
    ((ipcDeliver s cur dst value).envs e).envIpcPerm = (s.envs e).envIpcPerm :=
  modEnv_proj Env.envIpcPerm fun _ => rfl

/-- The two steps together map the page of the sender, unless the first has replaced it. -/
theorem PageSent.arrived_iff {s' : Kernel} (value : Word) (h : Mapped pool lost s use)
    (hsrcva : srcva < UTOP)
    (hwanted : (s.envs dst).envIpcDstva ≠ 0) (hcount : Countable s cur srcva)
    (hsent : PageSent pool lost s use cur dst srcva perm 0 s') :
    PageArrived s (ipcDeliver s' cur dst value) cur dst srcva perm ↔ Apart s cur dst srcva := by
  generalize hr : (0 : ℤ) = r at hsent
  cases hsent with
  | refused hneg =>
      rw [← hr] at hneg
      exact absurd hneg (by decide)
  | leaked | dropped => exact absurd hr (by decide)
  | unwanted hzero => exact absurd hzero hwanted
  | @sent srcdir d p m₁ m use₁ _ hsrcdir hd hp hperm hpage h₁ hleaf _ hshare =>
      have hsrc := h.layout.holders cur srcdir hsrcdir
      have hpage₂ := hshare (h.countable hp hperm hpage hsrcdir hsrcva hleaf hcount)
      have hsrc₁ := h₁.layout.holders cur srcdir hsrcdir
      constructor
      · rintro ⟨⟨srcdir', d', hsrcdir', hd', hleaf', harrived, -⟩, -⟩ ⟨hshared, hsame⟩
        obtain rfl := Option.some.inj (hsrcdir.symm.trans hsrcdir')
        obtain rfl := Option.some.inj (hd.symm.trans hd')
        obtain rfl : srcdir = d := by
          rw [hsrcdir, hd] at hshared
          exact Option.some.inj hshared
        -- the lookup has found the fresh page, which was not mapped anywhere
        have hfresh : pgnum (leaf m₁ srcdir srcva) = p := by
          rw [← leaf_samePage hsame, hpage.leaf, pgnum_userEntry hperm]
        have hmapped : leaf m srcdir (s.envs dst).envIpcDstva = userEntry p (granted perm) := by
          rw [← hfresh]
          exact hpage₂.leaf
        have hentry := hmapped.symm.trans harrived
        have hpp : p = pgnum (leaf s.mem srcdir srcva) := by
          have hpgnum := congrArg pgnum hentry
          rwa [pgnum_userEntry hperm, pgnum_userEntry hperm] at hpgnum
        have hdata := h.data_of_leaf hsrcdir hsrcva hleaf'
        rw [← hpp, hp] at hdata
        cases hdata
      · intro hapart
        have hne : ¬ (srcdir = d ∧ SamePage (s.envs dst).envIpcDstva srcva) := fun hand =>
          hapart ⟨by rw [hsrcdir, hd, hand.1], hand.2⟩
        have hsame₁ : leaf m₁ srcdir srcva = leaf s.mem srcdir srcva :=
          hpage.onlyAt srcdir srcva hsrc hsrcva hne
        have hsame₂ : leaf m srcdir srcva = leaf m₁ srcdir srcva :=
          hpage₂.onlyAt srcdir srcva hsrc₁ hsrcva hne
        have hdata₁ := h₁.data_of_leaf hsrcdir hsrcva hleaf
        rw [Kernel.setMem_mem] at hdata₁
        rw [hsame₁] at hleaf hdata₁
        have hdata := h.data_of_leaf hsrcdir hsrcva hleaf
        refine ⟨⟨srcdir, d, hsrcdir, hd, hleaf, ?_, fun k => ?_, hsame₂.trans hsame₁⟩, ?_⟩
        · rw [← hsame₁]
          exact hpage₂.leaf
        · calc m.load (pgnum (leaf s.mem srcdir srcva), k)
              = m₁.load (pgnum (leaf s.mem srcdir srcva), k) := hpage₂.data _ hdata₁
            _ = s.mem.load (pgnum (leaf s.mem srcdir srcva), k) := hpage.data _ hdata
        · rw [ipcDeliver_perm]
          simp [setIpcPerm]

/-- A send with result `0`, in a kernel whose memory is in order. -/
theorem Mapped.transferred_iff (h : Mapped pool lost s use) (hzombie : ¬ s.ZombieThread dst)
    (hcount : srcva < UTOP → Countable s cur srcva)
    (hdst : envid2env c s envid false = .ok dst)
    (hret : JosSched.sysIpcTrySend c s inp cur envid value srcva perm = .ok (0, s')) :
    Transferred s s' cur dst srcva perm ↔
      (PageWanted s dst srcva → Apart s cur dst srcva) ∧
      (srcva < UTOP → (s.envs dst).envIpcDstva = 0 → (s.envs dst).envIpcPerm = 0) := by
  unfold JosSched.sysIpcTrySend at hret
  rw [hdst] at hret
  dsimp only at hret
  split at hret
  · exact absurd (Prod.mk.inj (Except.ok.inj hret)).1 (by decide)
  split at hret
  · next hsrcva =>
      obtain ⟨-, rfl⟩ := Prod.mk.inj (Except.ok.inj hret)
      have hno : ¬ srcva < UTOP := BitVec.not_lt.mpr hsrcva
      refine iff_of_true ⟨fun hwanted => absurd hwanted.1 hno, fun _ => ⟨rfl, ?_⟩⟩
        ⟨fun hwanted => absurd hwanted.1 hno, fun hlt => absurd hlt hno⟩
      rw [ipcDeliver_perm]
      simp [setIpcPerm]
  next hsrcva =>
  rw [BitVec.not_le] at hsrcva
  obtain ⟨⟨r, s₁⟩, hsend, hret⟩ := bind_eq_ok.mp hret
  dsimp only at hret
  split at hret
  · next hneg =>
      rw [(Prod.mk.inj (Except.ok.inj hret)).1] at hneg
      exact absurd hneg (by decide)
  next hneg =>
  obtain ⟨-, rfl⟩ := Prod.mk.inj (Except.ok.inj hret)
  -- a page is offered and the call has succeeded
  have hsent := h.ipcSendPage (fun ho => hzombie ho.1) hsrcva hsend
  -- without `env_ipc_dstva` nothing is mapped and `env_ipc_perm` keeps its value
  by_cases hzero : (s.envs dst).envIpcDstva = 0
  · have hno : ¬ PageWanted s dst srcva := fun hwanted => hwanted.2 hzero
    obtain rfl : s₁ = s := by
      cases hsent with
      | refused hneg' => exact absurd hneg' hneg
      | leaked | dropped => exact absurd (by decide) hneg
      | unwanted => rfl
      | sent hne => exact absurd hzero hne
    refine ⟨fun htrans => ⟨fun hwanted => absurd hwanted hno, fun _ _ => ?_⟩,
      fun hcond => ⟨fun hwanted => absurd hwanted hno, fun _ => ⟨rfl, ?_⟩⟩⟩
    · rw [← (htrans.unwanted hno).2, ipcDeliver_perm]
    · rw [ipcDeliver_perm]
      exact hcond.2 hsrcva hzero
  · have hwanted : PageWanted s dst srcva := ⟨hsrcva, hzero⟩
    have hr : r = 0 := by
      cases hsent with
      | refused hneg' => exact absurd hneg' hneg
      | leaked | dropped => exact absurd (by decide) hneg
      | unwanted | sent => rfl
    subst hr
    have harrived := hsent.arrived_iff value h hsrcva hzero (hcount hsrcva)
    refine ⟨fun htrans => ⟨fun _ => harrived.mp (htrans.wanted hwanted),
      fun _ heq => absurd heq hzero⟩,
      fun hcond => ⟨fun _ => harrived.mpr (hcond.1 hwanted), fun hno => absurd hwanted hno⟩⟩

/-- The `sys_ipc_try_send` of a trap with frame `tf`. -/
abbrev sendOf (c : Cpu) (s : Kernel) (inp : Input) (cur : Slot) (tf : Trapframe) :
    Except Exit (ℤ × Kernel) :=
  sysIpcTrySend c (saved c s cur tf) inp cur tf.tfRegs.regEdx tf.tfRegs.regEcx tf.tfRegs.regEbx
    tf.tfRegs.regEdi

/-- A send that succeeds does what it should exactly if it does not replace the very page that it
sends, and if a receiver that is offered a page and wants none has no permission left over. -/
theorem page_transferred_iff {evs : List Event} (hboot : Booted s₀)
    (hrun : Trace OrderlyStep s₀ evs s) (hcur : s.curenv c = some cur)
    (hcall : Calls tf .ipcTrySend) (hord : (Event.trap c inp tf).Orderly s)
    (hdst : envid2env c s tf.tfRegs.regEdx false = .ok dst)
    (hret : sendOf c s inp cur tf = .ok (0, s')) :
    Transferred (saved c s cur tf) s' cur dst tf.tfRegs.regEbx tf.tfRegs.regEdi ↔
      (PageWanted s dst tf.tfRegs.regEbx → Apart s cur dst tf.tfRegs.regEbx) ∧
      (tf.tfRegs.regEbx < UTOP → (s.envs dst).envIpcDstva = 0 → (s.envs dst).envIpcPerm = 0) := by
  obtain ⟨use, hmapped⟩ := (resting_of_run hboot hrun).mapped
  have hdst' : envid2env c (saved c s cur tf) tf.tfRegs.regEdx false = .ok dst := by
    rwa [envid2env_saved]
  have hrecv : (s.envs dst).envIpcRecving = true := by
    rcases sysIpcTrySend_eq_ok hret with ⟨hneg, -⟩ | ⟨-, dst', -, henv, hrecv, -⟩
    · exact absurd hneg (by decide)
    · obtain rfl := Except.ok.inj (hdst'.symm.trans henv)
      rwa [saved_envs] at hrecv
  obtain ⟨hzombie, hcount⟩ := hord.2.2 hcall dst hdst hrecv
  have hsaved : Mapped _ _ (saved c s cur tf) use := hmapped.saved
  have hiff := hsaved.transferred_iff
    (zombieThread_saved.not.mpr hzombie) (fun hlt => countable_saved.mpr (hcount cur hcur hlt))
    hdst' hret
  simp only [PageWanted, Apart, dirs_saved, saved_envs] at hiff
  exact hiff

/-- A process waits for a page. -/
def waiting : List Event :=
  [.boot emptyImage, .boot emptyImage, .start 0, sysTrap 0 .ipcRecv 0x800000 0 0 0 0]

/-- The other one sends it a page of its stack. -/
def sendPage : Trapframe := sysFrame {} .ipcTrySend firstEnv 7 0xeebfd000 5 0

theorem page_transferred_iff_waiting : ∃ s s', Trace OrderlyStep (bootedMachine .roundRobin 64)
    waiting s ∧ sendOf 0 s {} 1 sendPage = .ok (0, s') ∧
    Transferred (saved 0 s 1 sendPage) s' 1 0 0xeebfd000 5 := by
  obtain ⟨s, hrun, hs⟩ := exists_trace (fun s ev => ev.Hygienic s ∧ ev.Orderly s)
    (bootedMachine .roundRobin 64) waiting
    (fun s => decide (s.curenv 0 = some 1) && decide ((Event.trap 0 {} sendPage).Orderly s) &&
      decide (envid2env 0 s firstEnv false = .ok 0) && decide (Apart s 1 0 0xeebfd000) &&
      decide ((s.envs 0).envIpcDstva ≠ 0) &&
      match sendOf 0 s {} 1 sendPage with
      | .ok (r, _) => decide (r = 0)
      | .error _ => false) (by decide +kernel)
  simp only [Bool.and_eq_true, decide_eq_true_iff] at hs
  obtain ⟨⟨⟨⟨⟨hcur, hord⟩, hdst⟩, hapart⟩, hwanted⟩, hsend⟩ := hs
  cases hret : sendOf 0 s {} 1 sendPage with
  | error x =>
      rw [hret] at hsend
      cases hsend
  | ok ret =>
      obtain ⟨r, s'⟩ := ret
      rw [hret] at hsend
      obtain rfl : r = 0 := of_decide_eq_true hsend
      have hboot := booted_bootedMachine .roundRobin (n := 64) (by decide) (by decide)
      exact ⟨s, s', hrun, hret,
        (page_transferred_iff hboot hrun hcur (by decide) hord hdst hret).mpr
        ⟨fun _ => hapart, fun _ hzero => absurd hzero hwanted⟩⟩

/-- A process waits for a page at the very page that its thread then sends. -/
def waitingForThread : List Event :=
  createThread ++ [sysTrap 0 .ipcRecv 0xeebfd000 0 0 0 0]

/-- The thread has sent its page, and the process has another one where it waited for it. -/
def replaced (s : Kernel) : Bool :=
  match sendOf 0 s {} 1 sendPage, s.dirs 0, s.dirs 1 with
  | .ok (r, s'), some d, some d' => decide (r = 0 ∧ leaf s'.mem d 0xeebfd000 ≠
      userEntry (pgnum (leaf s.mem d' 0xeebfd000)) (granted 5))
  | _, _, _ => false

/-- The thread sends the page where it is wanted: a zeroed page takes its place. -/
theorem sent_page_replaced : ¬ ∀ (s₀ s s' : Kernel) (evs : List Event) (c : Cpu) (inp : Input)
    (tf : Trapframe) (cur dst : Slot), Booted s₀ → Trace Step s₀ evs s →
    s.curenv c = some cur → Calls tf .ipcTrySend →
    envid2env c s tf.tfRegs.regEdx false = .ok dst → sendOf c s inp cur tf = .ok (0, s') →
    Transferred (saved c s cur tf) s' cur dst tf.tfRegs.regEbx tf.tfRegs.regEdi := by
  intro hclaim
  obtain ⟨s, hrun, hs⟩ := exists_trace (fun _ _ => True) (bootedMachine .roundRobin 64)
    waitingForThread
    (fun s => decide (s.curenv 0 = some 1) && decide (envid2env 0 s firstEnv false = .ok 0) &&
      decide ((s.envs 0).envIpcDstva = 0xeebfd000) && replaced s) (by decide +kernel)
  simp only [Bool.and_eq_true, decide_eq_true_iff] at hs
  obtain ⟨⟨⟨hcur, hdst⟩, hdstva⟩, hsend⟩ := hs
  unfold replaced at hsend
  split at hsend
  · next r s' d d' hret hd hd' =>
      obtain ⟨rfl, hne⟩ := of_decide_eq_true hsend
      have hboot := booted_bootedMachine .roundRobin (n := 64) (by decide) (by decide)
      have htrans := hclaim _ s s' _ 0 {} sendPage 1 0 hboot (hrun.mono fun _ _ _ h => h.1) hcur
        (by decide) hdst hret
      have hwanted : PageWanted (saved 0 s 1 sendPage) 0 sendPage.tfRegs.regEbx := by
        refine ⟨by decide, ?_⟩
        rw [saved_envs, hdstva]
        decide
      obtain ⟨⟨e', e, he', he, -, harrived, -⟩, -⟩ := htrans.wanted hwanted
      rw [dirs_saved] at he he'
      obtain rfl := Option.some.inj (hd.symm.trans he)
      obtain rfl := Option.some.inj (hd'.symm.trans he')
      rw [saved_envs, hdstva] at harrived
      exact hne harrived
  · cases hsend

end JosSched
