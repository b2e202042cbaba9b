import JosSched.Ipc.PageTransfer

/-!
# Sends that fail

A failed `sys_ipc_try_send` should be invisible.  It nearly is: even when `env_page_alloc` loses
a page, it is one that nobody had.  What the code misses is a source where nothing is mapped.
`page_lookup` stores nothing then, and the send goes on with whatever the uninitialised `srcpte`
points to.
-/

open Except

namespace JosSched

variable {c : Cpu} {pool : Set Ppn} {lost : Set (Ppn × Use)} {s s' s₀ : Kernel} {use : Ppn → Use}
  {cur dst t : Slot}
  {d p : Ppn} {m : Mem} {va srcva perm envid value : Word} {r : ℤ} {inp : Input} {tf : Trapframe}

/-- Environment `t` cannot tell the states apart. -/
structure Unnoticed (s s' : Kernel) (t : Slot) : Prop where
  env : s'.envs t = s.envs t
  leaves : ∀ d va, s.dirs t = some d → va < UTOP → leaf s'.mem d va = leaf s.mem d va
  contents : ∀ d va k, s.dirs t = some d → va < UTOP → leaf s.mem d va ≠ 0 →
    s'.mem.load (pgnum (leaf s.mem d va), k) = s.mem.load (pgnum (leaf s.mem d va), k)

/-- The send offers a page-aligned address at which the sender has nothing mapped, to a receiver
that waits for a message. -/
def OffersNothing (c : Cpu) (s : Kernel) (cur : Slot) (tf : Trapframe) : Prop :=
  tf.tfRegs.regEbx < UTOP ∧ pgoff tf.tfRegs.regEbx = 0 ∧
    (∃ dst, envid2env c s tf.tfRegs.regEdx false = .ok dst ∧ (s.envs dst).envIpcRecving = true) ∧
    ∃ d, s.dirs cur = some d ∧ leaf s.mem d tf.tfRegs.regEbx = 0

/-- A send that fails goes unnoticed, whatever an uninitialised pointer would read, and one that
offers nothing fails with `-E_INVAL`. -/
structure FailsCleanly (c : Cpu) (s : Kernel) (inp : Input) (cur : Slot) (tf : Trapframe) :
    Prop where
  unnoticed : ∀ undef r s', sendOf c s { inp with undef := undef } cur tf = .ok (r, s') → r < 0 →
    ∀ t, Unnoticed (saved c s cur tf) s' t
  unmapped : OffersNothing c s cur tf → ∀ undef,
    sendOf c s { inp with undef := undef } cur tf = .ok (-E_INVAL, saved c s cur tf)

theorem Unnoticed.refl : Unnoticed s s t := ⟨rfl, fun _ _ _ _ => rfl, fun _ _ _ _ _ _ => rfl⟩

/-- Only a frame that was free differs. -/
theorem Mapped.unnoticed (h : Mapped pool lost s use) (hp : use p = .free)
    (hload : ∀ x, x.1 ≠ p → m.load x = s.mem.load x) : Unnoticed s (s.setMem m) t := by
  have hne : ∀ {q}, use q ≠ .free → q ≠ p := fun hq heq => hq (heq ▸ hp)
  refine ⟨rfl, fun d va hd hva => ?_, fun d va k hd hva hleaf => hload _ (hne ?_)⟩
  · have hdir := h.layout.holders t d hd
    refine leaf_congr (hload _ (hne (by rw [hdir]; decide))) fun hpde => hload _ (hne ?_)
    have htable := (h.layout.table_of_pde hdir hva hpde).1
    rw [cell, htable]
    decide
  · rw [h.data_of_leaf hd hva hleaf]
    decide

/-- How a send with a negative result ends, in a kernel whose memory is in order. -/
theorem Mapped.unnoticed_of_neg (h : Mapped pool lost s use)
    (hzombie : ∀ dst, envid2env c s envid false = .ok dst → (s.envs dst).envIpcRecving = true →
      ¬ s.ZombieThread dst)
    (hret : JosSched.sysIpcTrySend c s inp cur envid value srcva perm = .ok (r, s'))
    (hneg : r < 0) :
    (∀ t, Unnoticed s s' t) ∨
      srcva < UTOP ∧ pgoff srcva = 0 ∧
        (∃ dst, envid2env c s envid false = .ok dst ∧ (s.envs dst).envIpcRecving = true) ∧
        ∃ d, s.dirs cur = some d ∧ leaf s.mem d srcva = 0 := by
  cases sysIpcTrySend_ends hret with
  | refused => exact .inl fun t => .refl
  | noPage | delivered => exact absurd hneg (by decide)
  | @failed dst _ _ hdst hrecv hsrcva hsend =>
      cases h.ipcSendPage (fun ho => hzombie dst hdst hrecv ho.1) hsrcva hsend with
      | refused => exact .inl fun t => .refl
      | leaked _ hp _ _ _ hload => exact .inl fun t => h.unnoticed hp hload
      | dropped hoff hd hleaf =>
          exact .inr ⟨hsrcva, hoff, ⟨dst, hdst, hrecv⟩, _, hd, hleaf⟩
      | unwanted | sent => exact absurd hneg (by decide)

/-- A send that offers nothing reads through the uninitialised pointer; when that faults, the
kernel panics. -/
theorem Mapped.send_unmapped (h : Mapped pool lost s use)
    (hdst : envid2env c s envid false = .ok dst) (hrecv : (s.envs dst).envIpcRecving = true)
    (hsrcva : srcva < UTOP) (hoff : pgoff srcva = 0) (hd : s.dirs cur = some d)
    (hleaf : leaf s.mem d srcva = 0) (hundef : inp.undef = none) :
    JosSched.sysIpcTrySend c s inp cur envid value srcva perm =
      .error (.stuck .kernelPageFault s) := by
  have hread : JosSched.readSrcpte s inp cur srcva = .error (.stuck .kernelPageFault s) := by
    rw [h.readSrcpte_unmapped hd hsrcva hleaf, hundef]
    rfl
  unfold JosSched.sysIpcTrySend JosSched.ipcSendPage
  rw [hdst]
  dsimp only
  rw [if_neg (by rw [hrecv]; decide), if_neg (BitVec.not_le.mpr hsrcva), if_neg (not_not.mpr hoff),
    hread]
  rfl

/-- Sends fail cleanly, but for the ones that offer nothing. -/
theorem failed_send_clean_iff {evs : List Event} (hboot : Booted s₀)
    (hrun : Trace OrderlyStep s₀ evs s) (hcall : Calls tf .ipcTrySend)
    (hord : (Event.trap c inp tf).Orderly s) :
    FailsCleanly c s inp cur tf ↔ ¬ OffersNothing c s cur tf := by
  obtain ⟨use, hmapped⟩ := (resting_of_run hboot hrun).mapped
  have h : Mapped _ _ (saved c s cur tf) use := hmapped.saved
  constructor
  · rintro hclean ⟨hsrcva, hoff, ⟨dst, hdst, hrecv⟩, d, hd, hleaf⟩
    have hfails := hclean.unmapped ⟨hsrcva, hoff, ⟨dst, hdst, hrecv⟩, d, hd, hleaf⟩ none
    have hpanics : sendOf c s { inp with undef := none } cur tf =
        .error (.stuck .kernelPageFault (saved c s cur tf)) :=
      h.send_unmapped (by rwa [envid2env_saved]) (by rwa [saved_envs]) hsrcva hoff
        (by rwa [dirs_saved]) hleaf rfl
    rw [hpanics] at hfails
    cases hfails
  · intro hoffers
    refine ⟨fun undef r s' hret hneg => ?_, fun hno => absurd hno hoffers⟩
    refine (h.unnoticed_of_neg (fun dst hdst hrecv => ?_) hret hneg).resolve_right ?_
    · rw [envid2env_saved] at hdst
      rw [saved_envs] at hrecv
      exact zombieThread_saved.not.mpr (hord.2.2 hcall dst hdst hrecv).1
    · rintro ⟨hsrcva, hoff, ⟨dst, hdst, hrecv⟩, d, hd, hleaf⟩
      rw [envid2env_saved] at hdst
      rw [saved_envs] at hrecv
      rw [dirs_saved] at hd
      exact hoffers ⟨hsrcva, hoff, ⟨dst, hdst, hrecv⟩, d, hd, hleaf⟩

/-- A page that is not aligned is offered. -/
def sendUnaligned : Trapframe := sysFrame {} .ipcTrySend firstEnv 7 0xeebfd001 5 0

theorem failed_send_clean_iff_waiting :
    ∃ s s', Trace Step (bootedMachine .roundRobin 64) waiting s ∧
    sendOf 0 s {} 1 sendUnaligned = .ok (-E_INVAL, s') ∧ FailsCleanly 0 s {} 1 sendUnaligned := by
  obtain ⟨s, hrun, hs⟩ := exists_trace (fun s ev => ev.Hygienic s ∧ ev.Orderly s)
    (bootedMachine .roundRobin 64) waiting
    (fun s => decide ((Event.trap 0 {} sendUnaligned).Orderly s) &&
      match sendOf 0 s {} 1 sendUnaligned with
      | .ok (r, _) => decide (r = -E_INVAL)
      | .error _ => false) (by decide +kernel)
  rw [Bool.and_eq_true, decide_eq_true_iff] at hs
  obtain ⟨hord, hsend⟩ := hs
  cases hret : sendOf 0 s {} 1 sendUnaligned with
  | error x =>
      rw [hret] at hsend
      cases hsend
  | ok ret =>
      obtain ⟨r, s'⟩ := ret
      rw [hret] at hsend
      obtain rfl : r = -E_INVAL := of_decide_eq_true hsend
      have hboot := booted_bootedMachine .roundRobin (n := 64) (by decide) (by decide)
      refine ⟨s, s', hrun.mono fun _ _ _ h => h.1, hret,
        (failed_send_clean_iff hboot hrun (by decide) hord).mpr fun hoffers => ?_⟩
      exact absurd hoffers.2.1 (by decide)

/-- A process waits for a page where its stack is. -/
def waitingOnStack : List Event :=
  [.boot emptyImage, .boot emptyImage, .start 0, sysTrap 0 .ipcRecv 0xeebfd000 0 0 0 0]

/-- The page at an address where the sender has none is offered. -/
def sendNothing : Trapframe := sysFrame {} .ipcTrySend firstEnv 7 0x800000 5 0

/-- The send fails, and the receiver has another page for its stack, or none. -/
def stackReplaced (s : Kernel) : Bool :=
  match sendOf 0 s { undef := some 0 } 1 sendNothing, s.dirs 0 with
  | .ok (r, s'), some d => decide (r < 0 ∧ leaf s'.mem d 0xeebfd000 ≠ leaf s.mem d 0xeebfd000)
  | _, _ => false

/-- The receiver loses the page of its stack in a send that fails, when the pointer happens to
point to a zero. -/
theorem failed_send_replaces_page : ¬ ∀ (s₀ s : Kernel) (evs : List Event) (c : Cpu) (inp : Input)
    (tf : Trapframe) (cur : Slot), Booted s₀ → Trace Step s₀ evs s →
    s.curenv c = some cur → Calls tf .ipcTrySend → FailsCleanly c s inp cur tf := by
  intro hclaim
  obtain ⟨s, hrun, hs⟩ := exists_trace (fun _ _ => True) (bootedMachine .roundRobin 64)
    waitingOnStack
    (fun s => decide (s.curenv 0 = some 1) && stackReplaced s) (by decide +kernel)
  rw [Bool.and_eq_true, decide_eq_true_iff] at hs
  obtain ⟨hcur, hsend⟩ := hs
  unfold stackReplaced at hsend
  split at hsend
  · next r s' d hret hd =>
      obtain ⟨hneg, hne⟩ := of_decide_eq_true hsend
      have hboot := booted_bootedMachine .roundRobin (n := 64) (by decide) (by decide)
      have hclean := hclaim _ s _ 0 {} sendNothing 1 hboot (hrun.mono fun _ _ _ h => h.1) hcur
        (by decide)
      have hunnoticed := hclean.unnoticed (some 0) r s' hret hneg 0
      have hd' : (saved 0 s 1 sendNothing).dirs 0 = some d := by rwa [dirs_saved]
      exact hne (hunnoticed.leaves d 0xeebfd000 hd' (by decide))
  · cases hsend

end JosSched
