import JosSched.Ipc.FailedSend

/-!
# Page frames

What becomes of the page frames in a run.  The references to a frame are counted from outside:
an environment refers to its page directory, a page directory to its page tables, and a page
table to the pages that it maps (`Refers`).  In an orderly run, `pp_ref` is the number of these
references, and no frame on the free list has any; so the page directory that a CPU runs on stays
in use, also when what it executes has become a zombie (`zombie_protocol`).  In a run that is
thrifty as well, every frame that was free after boot is free or referred to.

`sys_page_alloc` loses the frame that it has allocated when there is none left for a page table
(`last_frame_lost`), which is what a thrifty run avoids.
-/

open Except

namespace JosSched

variable {c : Cpu} {s s' s₀ : Kernel} {use : Ppn → Use} {e cur : Slot} {d f p pp : Ppn}
  {k j : Idx} {x y : Slot ⊕ PteRef} {r : ℤ} {inp : Input} {tf : Trapframe}

/-! ## References -/

/-- The page directory of an environment that is in use. -/
def Live (s : Kernel) (d : Ppn) : Prop :=
  ∃ e, (s.envs e).envStatus ≠ .free ∧ s.dirs e = some d

/-- Environment or entry `x`, in a live page directory, refers to frame `pp` below `UTOP`. -/
inductive Refers (s : Kernel) : Slot ⊕ PteRef → Ppn → Prop
  | pgdir {e : Slot} {d : Ppn} : (s.envs e).envStatus ≠ .free → s.dirs e = some d →
      Refers s (.inl e) d
  | table {d : Ppn} {k : Idx} : Live s d → k.val < PDX_UTOP → s.mem.load (d, k) &&& PTE_P ≠ 0 →
      Refers s (.inr (d, k)) (pgnum (s.mem.load (d, k)))
  | page {d : Ppn} {k j : Idx} : Live s d → k.val < PDX_UTOP → s.mem.load (d, k) &&& PTE_P ≠ 0 →
      s.mem.load (pgnum (s.mem.load (d, k)), j) &&& PTE_P ≠ 0 →
      Refers s (.inr (pgnum (s.mem.load (d, k)), j))
        (pgnum (s.mem.load (pgnum (s.mem.load (d, k)), j)))

variable {pool : Set Ppn} {lost : Set (Ppn × Use)}

namespace Mapped

theorem live (h : Mapped pool lost s use) (hd : s.dirs e = some d) : Live s d := by
  refine ⟨e, fun hst => ?_, hd⟩
  rw [h.unused e hst] at hd
  cases hd

/-- Something refers to a frame in use that is not lost. -/
theorem exists_reference (h : Mapped pool lost s use) (hkernel : use pp ≠ .kernel)
    (hfree : use pp ≠ .free) (hlost : (pp, use pp) ∉ lost) :
    ∃ a, Sum.elim s.dirs (links s.mem use) a = some pp := by
  refine exists_of_refCount fun hzero => hlost ?_
  exact h.layout.found pp (h.layout.mem_pool hkernel) hfree hzero (Option.some_ne_none pp).symm

theorem live_of_pgdir (h : Mapped pool lost s use) (hlost : lost ⊆ leaks) (hd : use d = .pgdir) :
    Live s d := by
  have hnot : (d, use d) ∉ lost := fun hin => by
    have hdata : use d = .data := hlost hin
    rw [hd] at hdata
    cases hdata
  obtain ⟨a, ha⟩ := h.exists_reference (by rw [hd]; decide) (by rw [hd]; decide) hnot
  rcases h.layout.use_of_cell ha with ⟨-, e, rfl⟩ | ⟨htable | hdata, -⟩
  · exact h.live ha
  · rw [hd] at htable
    cases htable
  · rw [hd] at hdata
    cases hdata

/-- A page table is in a live page directory. -/
theorem exists_pde_of_table (h : Mapped pool lost s use) (hlost : lost ⊆ leaks)
    (hf : use f = .table) :
    ∃ d k, Live s d ∧ k.val < PDX_UTOP ∧ s.mem.load (d, k) &&& PTE_P ≠ 0 ∧
      pgnum (s.mem.load (d, k)) = f := by
  have hnot : (f, use f) ∉ lost := fun hin => by
    have hdata : use f = .data := hlost hin
    rw [hf] at hdata
    cases hdata
  obtain ⟨a, ha⟩ := h.exists_reference (by rw [hf]; decide) (by rw [hf]; decide) hnot
  rcases h.layout.use_of_cell ha with ⟨hpgdir, -⟩ | ⟨-, ⟨d, k⟩, rfl⟩
  · rw [hf] at hpgdir
    cases hpgdir
  · obtain ⟨hentry, hne, hpp⟩ := links_eq_some.mp ha
    rcases hentry with ⟨hd, hk⟩ | htable
    · obtain ⟨t, -, heq⟩ := (h.layout.entries _ (.inl ⟨hd, hk⟩)).of_pgdir hd hne
      refine ⟨d, k, h.live_of_pgdir hlost hd, hk, ?_, hpp⟩
      rw [heq]
      exact tableEntry_present t
    · -- a page table refers to user data
      obtain ⟨q, perm, hdata, hperm, heq⟩ := (h.layout.entries _ (.inr htable)).of_table htable hne
      rw [heq, pgnum_userEntry hperm] at hpp
      rw [← hpp, hdata] at hf
      cases hf

/-- The references are those that the layout counts. -/
theorem refers_iff (h : Mapped pool lost s use) (hlost : lost ⊆ leaks) :
    Refers s x pp ↔ Sum.elim s.dirs (links s.mem use) x = some pp := by
  have hpgdir : ∀ {d}, Live s d → use d = .pgdir := fun ⟨e, _, hd⟩ => h.layout.holders e _ hd
  constructor
  · intro href
    cases href with
    | pgdir _ hd => exact hd
    | table hlive hk hpresent =>
        exact links_eq_some.mpr ⟨.inl ⟨hpgdir hlive, hk⟩, ne_zero_of_and hpresent, rfl⟩
    | @page d k j hlive hk hpresent hpresent' =>
        have hd := hpgdir hlive
        obtain ⟨t, ht, heq⟩ :=
          (h.layout.entries _ (.inl ⟨hd, hk⟩)).of_pgdir hd (ne_zero_of_and hpresent)
        have htable : use (pgnum (s.mem.load (d, k))) = .table := by
          rw [heq, pgnum_tableEntry, ht]
        exact links_eq_some.mpr ⟨.inr htable, ne_zero_of_and hpresent', rfl⟩
  · intro htarget
    cases x with
    | inl e =>
        have hd : s.dirs e = some pp := htarget
        refine .pgdir (fun hst => ?_) hd
        rw [h.unused e hst] at hd
        cases hd
    | inr x =>
        obtain ⟨f, k⟩ := x
        obtain ⟨hentry, hne, rfl⟩ := links_eq_some.mp htarget
        rcases hentry with ⟨hf, hk⟩ | hf
        · obtain ⟨t, -, heq⟩ := (h.layout.entries _ (.inl ⟨hf, hk⟩)).of_pgdir hf hne
          refine .table (h.live_of_pgdir hlost hf) hk ?_
          rw [heq]
          exact tableEntry_present t
        · obtain ⟨d, i, hlive, hi, hpresent, rfl⟩ := h.exists_pde_of_table hlost hf
          obtain ⟨q, perm, -, -, heq⟩ := (h.layout.entries _ (.inr hf)).of_table hf hne
          refine .page hlive hi hpresent ?_
          rw [heq]
          exact userEntry_present q perm

theorem ref_eq_card (h : Mapped pool lost s use) (hlost : lost ⊆ leaks) (hpp : pp ∈ pool) :
    (s.mem.ref pp).toNat = { x | Refers s x pp }.ncard := by
  have hcount := h.layout.counted pp hpp
  rw [if_neg (Option.some_ne_none pp).symm, Nat.add_zero] at hcount
  have hsame : { x | Sum.elim s.dirs (links s.mem use) x = some pp } = { x | Refers s x pp } :=
    Set.ext fun x => (h.refers_iff hlost).symm
  rw [hcount, refs, refCount, hsame]

theorem mem_freeFrames (h : Mapped pool lost s use) :
    pp ∈ freeFrames s.mem ↔ use pp = .free := by
  obtain ⟨l, hchain, -, hmem⟩ := h.layout.freeList
  rw [← hmem]
  exact ⟨fun ⟨l', hl', hpp⟩ => hl'.unique hchain ▸ hpp, fun hpp => ⟨l, hchain, hpp⟩⟩

end Mapped

/-! ## Reference counts -/

/-- The free list and the reference counts are right. -/
structure FramesSound (s : Kernel) : Prop where
  once : ∃ l, Chain (fun pp => (s.mem.pages pp).ppLink) s.mem.pageFreeList l ∧ l.Nodup
  unreferenced : ∀ pp ∈ freeFrames s.mem, ∀ x, ¬ Refers s x pp
  counted : ∀ x pp, Refers s x pp →
    s.mem.ref pp ≠ 0 ∧ (s.mem.ref pp).toNat = { y | Refers s y pp }.ncard

theorem Mapped.framesSound (h : Mapped pool lost s use) (hlost : lost ⊆ leaks) : FramesSound s := by
  have hused : ∀ {x pp}, Refers s x pp → use pp ≠ .free ∧ use pp ≠ .kernel := fun href => by
    rcases h.layout.use_of_cell ((h.refers_iff hlost).mp href) with ⟨huse, -⟩ | ⟨huse | huse, -⟩ <;>
      rw [huse] <;> exact ⟨by decide, by decide⟩
  refine ⟨?_, fun pp hfree x href => (hused href).1 (h.mem_freeFrames.mp hfree),
    fun x pp href => ?_⟩
  · obtain ⟨l, hchain, hnodup, -⟩ := h.layout.freeList
    exact ⟨l, hchain, hnodup⟩
  · have hpool := h.layout.mem_pool (hused href).2
    refine ⟨fun hzero => ?_, h.ref_eq_card hlost hpool⟩
    have hcount := h.layout.counted pp hpool
    rw [hzero, if_neg (Option.some_ne_none pp).symm, Nat.add_zero] at hcount
    exact refCount_eq_zero.mp hcount.symm x ((h.refers_iff hlost).mp href)

/-- In an orderly run, no page frame is used after it was freed. -/
theorem frames_sound {evs : List Event} (hboot : Booted s₀) (hrun : Trace OrderlyStep s₀ evs s) :
    FramesSound s := by
  obtain ⟨use, hmapped⟩ := (resting_of_run hboot hrun).mapped
  exact hmapped.framesSound subset_rfl

theorem frames_sound_waiting : ∃ s, Trace OrderlyStep (bootedMachine .roundRobin 64) waiting s ∧
    FramesSound s := by
  obtain ⟨s, hrun, -⟩ := exists_trace (fun s ev => ev.Hygienic s ∧ ev.Orderly s)
    (bootedMachine .roundRobin 64) waiting (fun _ => true) (by decide +kernel)
  exact ⟨s, hrun, frames_sound (booted_bootedMachine .roundRobin (n := 64) (by decide) (by decide))
    hrun⟩

/-- The permissions that a call passes are bits of `PTE_SYSCALL`. -/
def Event.PlainPerms : Event → Prop
  | .trap _ _ tf =>
      (Calls tf .pageAlloc → tf.tfRegs.regEbx &&& ~~~PTE_SYSCALL = 0) ∧
      (Calls tf .pageMap → tf.tfRegs.regEsi &&& ~~~PTE_SYSCALL = 0) ∧
      (Calls tf .ipcTrySend → tf.tfRegs.regEdi &&& ~~~PTE_SYSCALL = 0)
  | _ => True

instance (ev : Event) : Decidable ev.PlainPerms :=
  match ev with
  | .trap _ _ _ => inferInstanceAs (Decidable (_ ∧ _ ∧ _))
  | .boot _ | .start _ | .timer _ | .store _ _ _ => inferInstanceAs (Decidable True)

/-- A thread that is to receive is woken up instead and runs on CPU 1 when its process exits.
The other process then sends it a page of its stack, and the thread exits too. -/
def orphanedPage : List Event :=
  [.boot emptyImage, .boot emptyImage, .start 0, sysTrap 0 .threadCreate 0x800020 0xeebfe000 0 0 0,
    .start 1, clock 1, sysTrap 1 .ipcRecv 0x900000 0 0 0 0, sysTrap 0 .envSetStatus 0x1002 2 0 0 0,
    clock 1, sysTrap 0 .envDestroy 0 0 0 0 0, sysTrap 0 .ipcTrySend 0x1002 7 0xeebfd000 5 0,
    sysTrap 1 .envDestroy 0 0 0 0 0]

/-- Page directory `d` is the only one, and `va` the only page that is mapped in it. -/
structure MapsOnly (s : Kernel) (d : Ppn) (va : Word) : Prop where
  dir : ∀ e d', s.dirs e = some d' → d' = d
  pde : ∀ k : Idx, k.val < PDX_UTOP → s.mem.load (d, k) &&& PTE_P ≠ 0 → k = pdx va
  pte : ∀ j, s.mem.load (pgnum (s.mem.load (d, pdx va)), j) &&& PTE_P ≠ 0 → j = ptx va

instance (s : Kernel) (d : Ppn) (va : Word) : Decidable (MapsOnly s d va) :=
  have (e : Slot) := decidableForallSome (s.dirs e) (· = d)
  decidable_of_iff (_ ∧ _ ∧ _) ⟨fun h => ⟨h.1, h.2.1, h.2.2⟩, fun h => ⟨h.dir, h.pde, h.pte⟩⟩

/-- Its page table alone refers to the page. -/
theorem MapsOnly.refers {va : Word} (h : MapsOnly s d va) (hdir : pp ≠ d)
    (htable : pp ≠ pgnum (s.mem.load (d, pdx va))) (href : Refers s x pp) :
    x = .inr (pgnum (s.mem.load (d, pdx va)), ptx va) := by
  have hlive : ∀ {d'}, Live s d' → d' = d := fun ⟨e, _, hd⟩ => h.dir e _ hd
  cases href with
  | pgdir _ hd => exact absurd (h.dir _ _ hd) hdir
  | table hd hk hpresent =>
      obtain rfl := hlive hd
      exact absurd (by rw [h.pde _ hk hpresent]) htable
  | page hd hk hpresent hpresent' =>
      obtain rfl := hlive hd
      obtain rfl := h.pde _ hk hpresent
      rw [h.pte _ hpresent']

/-- The page counts the reference of the thread, whose page directory is gone. -/
theorem orphaned_page_counted : ¬ ∀ (s₀ s : Kernel) (evs : List Event), Booted s₀ →
    Trace (fun s ev s' => Step s ev s' ∧ ev.PlainPerms) s₀ evs s → FramesSound s := by
  intro hclaim
  obtain ⟨s, hrun, hs⟩ := exists_trace (fun _ ev => ev.PlainPerms) (bootedMachine .roundRobin 64)
    orphanedPage
    (fun s => decide (MapsOnly s 11 0xeebfd000) && decide (s.dirs 1 = some 11) &&
      decide ((s.envs 1).envStatus ≠ .free) &&
      decide (s.mem.load (11, pdx 0xeebfd000) &&& PTE_P ≠ 0) &&
      decide (s.mem.load (13, ptx 0xeebfd000) &&& PTE_P ≠ 0) &&
      decide (pgnum (s.mem.load (11, pdx 0xeebfd000)) = 13) &&
      decide (pgnum (s.mem.load (13, ptx 0xeebfd000)) = 12) &&
      decide (s.mem.ref 12 = 2)) (by decide +kernel)
  simp only [Bool.and_eq_true, decide_eq_true_iff] at hs
  obtain ⟨⟨⟨⟨⟨⟨⟨hmaps, hdir⟩, hst⟩, hpde⟩, hpte⟩, htable⟩, hpage⟩, href⟩ := hs
  have hsound := hclaim _ s _ (booted_bootedMachine .roundRobin (n := 64) (by decide) (by decide))
    hrun
  have hrefers : Refers s (.inr (13, ptx 0xeebfd000)) 12 := by
    have hreference := Refers.page (s := s) (j := ptx 0xeebfd000) ⟨1, hst, hdir⟩ (by decide) hpde
      (by rwa [htable])
    rwa [htable, hpage] at hreference
  have hcard := (hsound.counted _ _ hrefers).2
  have honly : ∀ {x}, Refers s x 12 → x = .inr (13, ptx 0xeebfd000) := fun href => by
    have heq := hmaps.refers (by decide) (by rw [htable]; decide) href
    rwa [htable] at heq
  have hset : { y | Refers s y 12 } = {.inr (13, ptx 0xeebfd000)} :=
    Set.eq_singleton_iff_unique_mem.mpr ⟨hrefers, fun _ href => honly href⟩
  rw [hset, Set.ncard_singleton, href] at hcard
  exact absurd hcard (by decide)

/-! ## What a CPU executes -/

/-- CPU `c` executes environment `e`: it is running or a zombie, and its page tables, which the CPU
uses, are on a frame that is in use. -/
structure Executing (c : Cpu) (s : Kernel) (e : Slot) : Prop where
  curenv : s.curenv c = some e
  status : (s.envs e).envStatus = .running ∨ (s.envs e).envStatus = .dying
  cr3 : s.dirs e = some (s.cpus c).cpuCr3
  notFree : (s.cpus c).cpuCr3 ∉ freeFrames s.mem
  referenced : 1 ≤ (s.mem.ref (s.cpus c).cpuCr3).toNat

theorem Resting.executing (h : Resting pool leaks s) (hcur : s.curenv c = some e) :
    Executing c s e := by
  obtain ⟨use, hmapped⟩ := h.mapped
  have hdir := h.cr3 c e hcur
  have hpgdir := hmapped.layout.holders e _ hdir
  have hcounted := (hmapped.framesSound subset_rfl).counted (.inl e) _
    ((hmapped.refers_iff subset_rfl).mpr hdir)
  refine ⟨hcur, h.exclusive.executing c e hcur, hdir, fun hfree => ?_, ?_⟩
  · rw [hmapped.mem_freeFrames, hpgdir] at hfree
    cases hfree
  · have hne : (s.mem.ref (s.cpus c).cpuCr3).toNat ≠ 0 := fun h0 =>
      hcounted.1 (BitVec.eq_of_toNat_eq h0)
    exact Nat.one_le_iff_ne_zero.mpr hne

/-- The zombie protocol.  In every state of an orderly run a CPU executes an environment that is
running or a zombie and whose page directory is in use; and until that CPU itself enters the
kernel, whatever the others do, the environment keeps its slot, its identity and its page
directory, none of which is freed. -/
theorem zombie_protocol {evs evs' : List Event} {d : Cpu} {e : Slot} (hboot : Booted s₀)
    (h : Trace OrderlyStep s₀ evs s) (h' : Trace OrderlyStep s evs' s')
    (hd : ∀ ev ∈ evs', ¬ ev.Enters d) (he : s.curenv d = some e) :
    Executing d s e ∧ Executing d s' e ∧
      (s'.envs e).envId = (s.envs e).envId ∧ (s'.envs e).envPgdir = (s.envs e).envPgdir := by
  have hygienic : ∀ {s evs s'}, Trace OrderlyStep s evs s' → Trace HygienicStep s evs s' :=
    fun hrun => hrun.mono fun _ _ _ hstep => ⟨hstep.1, hstep.2.1⟩
  obtain ⟨-, hcur, -, hid, hpgdir⟩ := executed_kept hboot (hygienic h) (hygienic h') hd he
  exact ⟨(resting_of_run hboot h).executing he, (resting_of_run hboot (h.trans h')).executing hcur,
    hid, hpgdir⟩

/-- A process exits while its thread runs on the other CPU: the thread becomes a zombie, and the
page directory stays in use for it. -/
theorem zombie_protocol_thread : ∃ s s', Trace OrderlyStep s [sysTrap 0 .envDestroy 0 0 0 0 0] s' ∧
    (s'.envs 0).envStatus = .free ∧ (s'.envs 1).envStatus = .dying ∧ Executing 1 s 1 ∧
    Executing 1 s' 1 ∧ (s'.envs 1).envId = (s.envs 1).envId ∧
    (s'.envs 1).envPgdir = (s.envs 1).envPgdir := by
  obtain ⟨s, hrun, hs⟩ := exists_trace (fun s ev => ev.Hygienic s ∧ ev.Orderly s)
    (bootedMachine .roundRobin 64) startThread
    (fun s => decide (s.curenv 1 = some 1) &&
      (replay (fun s ev => ev.Hygienic s ∧ ev.Orderly s) s
        [sysTrap 0 .envDestroy 0 0 0 0 0]).any fun s' =>
        decide ((s'.envs 0).envStatus = EnvStatus.free ∧ (s'.envs 1).envStatus = EnvStatus.dying))
    (by decide +kernel)
  rw [Bool.and_eq_true, decide_eq_true_iff] at hs
  obtain ⟨s', hrun', hs'⟩ := exists_trace _ _ _ _ hs.2
  rw [decide_eq_true_iff] at hs'
  have hboot := booted_bootedMachine .roundRobin (n := 64) (by decide) (by decide)
  have hnot : ∀ ev ∈ [sysTrap 0 .envDestroy 0 0 0 0 0], ¬ ev.Enters 1 := by
    intro ev hev
    rw [List.mem_singleton] at hev
    subst hev
    exact (by decide : ¬ (0 : Cpu) = 1)
  obtain ⟨hexec, hexec', hid, hpgdir⟩ := zombie_protocol hboot hrun hrun' hnot hs.1
  exact ⟨s, s', hrun', hs'.1, hs'.2, hexec, hexec', hid, hpgdir⟩

/-- The second `env_destroy` finds a zombie, not a running environment, and frees it under the
CPU that executes it. -/
theorem zombie_freed : ¬ ∀ (s₀ s : Kernel) (evs : List Event), Booted s₀ → Trace Step s₀ evs s →
    ∀ d e, s.curenv d = some e →
      (s.envs e).envStatus = .running ∨ (s.envs e).envStatus = .dying := by
  intro hclaim
  obtain ⟨s, hrun, hs⟩ := exists_trace (fun _ _ => True) (bootedMachine .roundRobin 64)
    (startThread ++ [sysTrap 0 .envDestroy firstThread 0 0 0 0,
      sysTrap 0 .envDestroy firstThread 0 0 0 0])
    (fun s => decide (s.curenv 1 = some 1 ∧ (s.envs 1).envStatus = .free)) (by decide +kernel)
  rw [decide_eq_true_iff] at hs
  have hboot := booted_bootedMachine .roundRobin (n := 64) (by decide) (by decide)
  have h := hclaim _ s _ hboot (hrun.mono fun _ _ _ h => h.1) 1 1 hs.1
  rw [hs.2] at h
  exact absurd h (by decide)

/-! ## Conservation -/

/-- Every frame that was free after boot is free or in use by an environment. -/
def Conserved (s₀ s : Kernel) : Prop :=
  ∀ pp ∈ freeFrames s₀.mem, pp ∈ freeFrames s.mem ∨ ∃ x, Refers s x pp

/-- The call leaves the free frames alone if it fails. -/
structure FailsFreely (c : Cpu) (s : Kernel) (inp : Input) (cur : Slot) (tf : Trapframe) :
    Prop where
  pageAlloc : Calls tf .pageAlloc → ∀ r s', sysPageAlloc c (saved c s cur tf) tf.tfRegs.regEdx
    tf.tfRegs.regEcx tf.tfRegs.regEbx = .ok (r, s') → r < 0 →
    freeFrames s'.mem = freeFrames s.mem
  ipcTrySend : Calls tf .ipcTrySend → ∀ r s', sendOf c s inp cur tf = .ok (r, s') → r < 0 →
    freeFrames s'.mem = freeFrames s.mem

theorem Mapped.conserved (h : Mapped (freeFrames s₀.mem) ∅ s use) : Conserved s₀ s := by
  intro pp hpp
  by_cases hfree : use pp = .free
  · exact .inl (h.mem_freeFrames.mpr hfree)
  · have hkernel : use pp ≠ .kernel := fun hk => (h.layout.kernel pp).mp hk hpp
    obtain ⟨x, hx⟩ := h.exists_reference hkernel hfree (Set.notMem_empty _)
    exact .inr ⟨x, (h.refers_iff (Set.empty_subset _)).mpr hx⟩

/-- A failing `sys_page_alloc` that takes no frame for nothing changes nothing. -/
theorem Mapped.pageAlloc_failed {envid va perm : Word} (h : Mapped pool lost s use)
    (ht : ∀ t, envid2env c s envid true = .ok t → ¬ s.Orphan t)
    (hthrifty : ThriftyAlloc c s envid va perm)
    (hcall : JosSched.sysPageAlloc c s envid va perm = .ok (r, s')) (hneg : r < 0) : s' = s := by
  obtain ⟨-, heq⟩ | ⟨t, henv, hva, halloc⟩ := sysPageAlloc_eq_ok hcall
  · exact heq
  cases h.envPageAlloc (ht t henv) hva.1 halloc with
  | refused => rfl
  | leaked hd _ hlast hpde _ _ hperm => exact absurd hpde (hthrifty hva hperm t henv _ _ hd hlast)
  | mapped => exact absurd hneg (by decide)

/-- A failing send that takes no frame for nothing, and offers something, changes nothing. -/
theorem Mapped.send_failed {envid value srcva perm : Word} (h : Mapped pool lost s use)
    (hlive : ∀ t, envid2env c s envid false = .ok t → (s.envs t).envIpcRecving = true →
      ¬ s.Orphan t)
    (hthrifty : ThriftySend c s envid srcva perm)
    (hoffer : ∀ t, envid2env c s envid false = .ok t → (s.envs t).envIpcRecving = true →
      srcva < UTOP → pgoff srcva = 0 → ∀ d, s.dirs cur = some d → leaf s.mem d srcva ≠ 0)
    (hcall : JosSched.sysIpcTrySend c s inp cur envid value srcva perm = .ok (r, s'))
    (hneg : r < 0) : s' = s := by
  cases sysIpcTrySend_ends hcall with
  | refused => rfl
  | noPage | delivered => exact absurd hneg (by decide)
  | @failed t _ _ henv hrecv hsrcva hsend =>
      cases h.ipcSendPage (hlive t henv hrecv) hsrcva hsend with
      | refused => rfl
      | leaked hd _ hlast hpde _ _ hoffered =>
          exact absurd hpde (hthrifty t henv hrecv hoffered _ _ hd hlast)
      | dropped hoff hd hleaf => exact absurd hleaf (hoffer t henv hrecv hsrcva hoff _ hd)
      | unwanted | sent => exact absurd hneg (by decide)

/-- A step of the machine whose call is hygienic, orderly and thrifty. -/
def ThriftyStep (s : Kernel) (ev : Event) (s' : Kernel) : Prop :=
  Step s ev s' ∧ (ev.Hygienic s ∧ ev.Orderly s ∧ ev.Thrifty s)

theorem resting_of_thrifty {evs : List Event} (hboot : Booted s₀)
    (hrun : Trace ThriftyStep s₀ evs s) : Resting (freeFrames s₀.mem) ∅ s :=
  hrun.invariant (resting_booted hboot) fun _ _ _ hs hstep =>
    hs.step hstep.1 hstep.2.1 hstep.2.2.1 (.inl hstep.2.2.2)

instance (s : Kernel) (e : Slot) (va : Word) : Decidable (Affords s e va) :=
  have (d : Ppn) := decidableForallSome s.mem.pageFreeList fun p =>
    (s.mem.pages p).ppLink = none → s.mem.load (d, pdx va) ≠ 0
  have := decidableForallSome (s.dirs e) fun d => ∀ p, s.mem.pageFreeList = some p →
    (s.mem.pages p).ppLink = none → s.mem.load (d, pdx va) ≠ 0
  decidable_of_iff (∀ d, s.dirs e = some d → ∀ p, s.mem.pageFreeList = some p →
      (s.mem.pages p).ppLink = none → s.mem.load (d, pdx va) ≠ 0)
    ⟨fun h d p hd hlast => h d hd p hlast.1 hlast.2, fun h d hd p hp hlink => h d p hd ⟨hp, hlink⟩⟩

instance (c : Cpu) (s : Kernel) (envid va perm : Word) :
    Decidable (ThriftyAlloc c s envid va perm) :=
  inferInstanceAs (Decidable (_ → _ → _))

instance (c : Cpu) (s : Kernel) (envid srcva perm : Word) :
    Decidable (ThriftySend c s envid srcva perm) :=
  inferInstanceAs (Decidable (∀ _, _))

instance (s : Kernel) (ev : Event) : Decidable (ev.Thrifty s) :=
  match ev with
  | .trap _ _ _ => inferInstanceAs (Decidable (_ ∧ _))
  | .boot _ | .start _ | .timer _ | .store _ _ _ => inferInstanceAs (Decidable True)

/-- In a thrifty run no page frame is lost, and a failing call that is thrifty, and offers
something if it is a send, leaves the free frames as they were. -/
theorem frames_conserved {evs : List Event} (hboot : Booted s₀)
    (hrun : Trace ThriftyStep s₀ evs s) :
    Conserved s₀ s ∧ ∀ c inp tf cur, (Event.trap c inp tf).Orderly s →
      (Event.trap c inp tf).Thrifty s → (Calls tf .ipcTrySend → ¬ OffersNothing c s cur tf) →
      FailsFreely c s inp cur tf := by
  obtain ⟨use, hmapped⟩ := (resting_of_thrifty hboot hrun).mapped
  refine ⟨hmapped.conserved, fun c inp tf cur hord hthrifty hoffers => ?_⟩
  obtain ⟨hliving, -, hsend⟩ := hord
  have hsaved : Mapped _ _ (saved c s cur tf) use := hmapped.saved
  refine ⟨fun hcall r s' hret hneg => ?_, fun hcall r s' hret hneg => ?_⟩
  · have hsame := hsaved.pageAlloc_failed (fun t henv horphan => ?_) (hthrifty.1 hcall).saved
      hret hneg
    · rw [hsame]
      rfl
    · rw [envid2env_saved] at henv
      exact (hliving t henv).1 hcall (orphan_of_saved horphan)
  · have hsame := hsaved.send_failed (fun t henv hrecv horphan => ?_) (hthrifty.2 hcall).saved
      (fun t henv hrecv hlt hoff d hd hleaf => ?_) hret hneg
    · rw [hsame]
      rfl
    · rw [envid2env_saved] at henv
      rw [saved_envs] at hrecv
      exact (hsend hcall t henv hrecv).1 (orphan_of_saved horphan).1
    · rw [envid2env_saved] at henv
      rw [saved_envs] at hrecv
      rw [dirs_saved] at hd
      exact hoffers hcall ⟨hlt, hoff, ⟨t, henv, hrecv⟩, d, hd, hleaf⟩

/-- The first process maps a page. -/
def allocating : List Event :=
  [.boot emptyImage, .start 0, sysTrap 0 .pageAlloc 0 0x800000 7 0 0]

/-- It asks for another one. -/
def allocPage : Trapframe := sysFrame {} .pageAlloc 0 0x800000 7 0 0

theorem frames_conserved_allocating : ∃ s,
    Trace ThriftyStep (bootedMachine .roundRobin 64) allocating s ∧
    Conserved (bootedMachine .roundRobin 64) s ∧ FailsFreely 0 s {} 0 allocPage := by
  obtain ⟨s, hrun, hs⟩ := exists_trace
    (fun s ev => ev.Hygienic s ∧ ev.Orderly s ∧ ev.Thrifty s) (bootedMachine .roundRobin 64)
    allocating (fun s => decide ((Event.trap 0 {} allocPage).Orderly s) &&
      decide ((Event.trap 0 {} allocPage).Thrifty s)) (by decide +kernel)
  simp only [Bool.and_eq_true, decide_eq_true_iff] at hs
  have hboot := booted_bootedMachine .roundRobin (n := 64) (by decide) (by decide)
  obtain ⟨hconserved, hfails⟩ := frames_conserved hboot hrun
  exact ⟨s, hrun, hconserved,
    hfails 0 {} allocPage 0 hs.1 hs.2 fun hcall => absurd hcall (by decide)⟩

/-- With one free frame left, `sys_page_alloc` takes it and fails. -/
theorem last_frame_lost : ¬ ∀ (s₀ s : Kernel) (evs : List Event), Booted s₀ →
    Trace Step s₀ evs s → Conserved s₀ s ∧ ∀ c inp tf cur, s.curenv c = some cur →
      FailsFreely c s inp cur tf := by
  intro hclaim
  obtain ⟨s, hrun, hs⟩ := exists_trace (fun _ _ => True) (bootedMachine .roundRobin 12)
    [.boot emptyImage, .start 0]
    (fun s => decide (s.curenv 0 = some 0) && decide (s.mem.pageFreeList = some 11) &&
      decide ((s.mem.pages 11).ppLink = none) &&
      match sysPageAlloc 0 (saved 0 s 0 allocPage) 0 0x800000 7 with
      | .ok (r, s') => decide (r < 0 ∧ s'.mem.pageFreeList = none)
      | .error _ => false) (by decide +kernel)
  simp only [Bool.and_eq_true, decide_eq_true_iff] at hs
  obtain ⟨⟨⟨hcur, hhead⟩, hlink⟩, hcall⟩ := hs
  split at hcall
  · next r s' hret =>
      obtain ⟨hneg, hnone⟩ := of_decide_eq_true hcall
      have hboot := booted_bootedMachine .roundRobin (n := 12) (by decide) (by decide)
      have hfails := (hclaim _ s _ hboot (hrun.mono fun _ _ _ h => h.1)).2 0 {} allocPage 0 hcur
      have hsame := hfails.pageAlloc (by decide) r s' hret hneg
      have hin : (11 : Ppn) ∈ freeFrames s.mem := by
        refine ⟨[11], ?_, List.mem_singleton.mpr rfl⟩
        rw [hhead]
        refine .cons ?_
        rw [hlink]
        exact .nil
      rw [← hsame] at hin
      obtain ⟨l, hchain, hmem⟩ := hin
      rw [hnone] at hchain
      cases hchain
      cases hmem
  · cases hcall

end JosSched
