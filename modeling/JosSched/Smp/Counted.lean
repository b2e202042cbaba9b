import JosSched.Smp.Window
import JosSched.Kern.Links
import JosSched.Vm.EnvFree

/-!
# Counters of a running machine

What `page_insert` and `env_free` do exactly is proved of memories whose counters are right.  In
every orderly run of a machine that has booted in order, they are (`rightCounts_of_run`): the
counters of the frames that the kernel keeps for itself stay as they are, and in the others the
environments and the entries of the page tables are counted.  So whatever processes have shared,
`env_free` gives back exactly what the one it frees has held (`env_free_exact`).
-/

open Except

namespace JosSched

variable {pool : Set Ppn} {lost : Set (Ppn × Use)} {s s₀ : Kernel} {use : Ppn → Use} {m : Mem}
  {dirs : Slot → Option Ppn} {d q t : Ppn} {x : PteRef} {k : Idx} {base : Ppn → ℕ} {c : Cpu}
  {e : Slot}

open Classical in
/-- The references that the kernel itself holds: those of the frames that it keeps. -/
noncomputable def kernelRefs (pool : Set Ppn) (m : Mem) (q : Ppn) : ℕ :=
  if q ∈ pool then 0 else (m.ref q).toNat

theorem kernelRefs_of_mem (hq : q ∈ pool) : kernelRefs pool m q = 0 := if_pos hq

/-- What `mem_init` leaves behind: above `UTOP` the kernel maps page tables of its own, and only
free pages are linked. -/
structure KernelMemory (m : Mem) : Prop where
  tables : ∀ k : Idx, PDX_UTOP ≤ k.val → k ≠ pdxUvpt → m.load (m.kernPgdir, k) = 0 ∨
    ∃ t, t ∉ freeFrames m ∧ m.load (m.kernPgdir, k) = tableEntry t
  unlinked : ∀ q, ¬ OnFreeList m q → (m.pages q).ppLink = none

/-! ## From the layout to the counters -/

namespace Layout

/-- An entry that is not empty, in a frame of either kind. -/
theorem use_of_links (h : Layout pool lost m dirs none use) (hx : links m use x = some q) :
    use x.1 = .pgdir ∧ use q = .table ∨ use x.1 = .table ∧ use q = .data := by
  obtain ⟨hentry, hne, rfl⟩ := links_eq_some.mp hx
  exact (h.entries x hentry).target hne

theorem entryFits (h : Layout pool lost m dirs none use) (hx : IsEntry use x) (hne : m.load x ≠ 0)
    (owned : Ppn → ℕ) : EntryFits m owned use x.1 (m.load x) := by
  cases h.entries x hx with
  | empty hzero => exact absurd hzero hne
  | @pde t hd ht hw =>
      rw [hw]
      refine ⟨tableEntry_present t, fun _ => by rwa [pgnum_tableEntry], fun hf => ?_⟩
      rw [hd] at hf
      cases hf
  | @pte p perm hf hp hperm hw =>
      rw [hw]
      refine ⟨userEntry_present p perm, fun hd => ?_, fun _ => ?_⟩
      · rw [hf] at hd
        cases hd
      · rw [pgnum_userEntry hperm]
        exact ⟨h.memory p (h.mem_pool (by rw [hp]; decide)), .inl hp⟩

/-- A page directory or a page table is in use because something refers to it. -/
theorem exists_ref (h : Layout pool lost m dirs none use) (hlost : ∀ x ∈ lost, x.2 = .data)
    (hq : use q = .pgdir ∨ use q = .table) : ∃ a, Sum.elim dirs (links m use) a = some q := by
  refine exists_of_refCount fun hzero => ?_
  have hpool : q ∈ pool := h.mem_pool fun hk => by
    rcases hq with hq | hq <;> rw [hk] at hq <;> cases hq
  have hfree : use q ≠ .free := fun hf => by
    rcases hq with hq | hq <;> rw [hf] at hq <;> cases hq
  have hdata : use q = .data :=
    hlost _ (h.found q hpool hfree hzero fun heq => by cases heq)
  rcases hq with hq | hq <;> rw [hdata] at hq <;> cases hq

theorem refs_eq (m : Mem) (dirs : Slot → Option Ppn) (use : Ppn → Use) (q : Ppn) :
    refs m dirs use q = refCount dirs q + refCount (links m use) q := refCount_sum _ _ q

/-- The counters are right, where pages in use are not linked and the upper part of a page
directory has the tables of the kernel. -/
theorem accurate (h : Layout pool lost m dirs none use) (hlost : ∀ x ∈ lost, x.2 = .data)
    (hlink : ∀ q, use q ≠ .free → (m.pages q).ppLink = none)
    (hupper : ∀ d k, use d = .pgdir → PDX_UTOP ≤ k.val → m.load (d, k) &&& PTE_P ≠ 0 →
      use (pgnum (m.load (d, k))) = .kernel ∨ k = pdxUvpt ∧ pgnum (m.load (d, k)) = d) :
    Accurate m (fun q => kernelRefs pool m q + refCount dirs q) use where
  freeList := h.freeList
  memory q hq := h.memory q <| h.mem_pool fun hk => by
    rcases hq with hq | hq <;> rw [hk] at hq <;> cases hq
  unlinked := hlink
  entries x hx hne := h.entryFits hx hne _
  rooted t ht := by
    obtain ⟨a, ha⟩ := h.exists_ref hlost (.inr ht)
    rcases h.use_of_cell ha with ⟨hd, -⟩ | ⟨-, x, rfl⟩
    · rw [ht] at hd
      cases hd
    · rcases h.use_of_links ha with ⟨hx, -⟩ | ⟨-, hdata⟩
      · exact ⟨x, hx, ha⟩
      · rw [ht] at hdata
        cases hdata
  -- a page table has a single reference
  unshared x y t hx _ hlinkx hlinky := by
    have ht : use t = .table := by
      rcases h.use_of_links hlinkx with ⟨-, ht⟩ | ⟨hx', -⟩
      · exact ht
      · rw [hx] at hx'
        cases hx'
    have hcellx : Sum.elim dirs (links m use) (.inr x) = some t := hlinkx
    have hcelly : Sum.elim dirs (links m use) (.inr y) = some t := hlinky
    exact Sum.inr.inj (eq_of_refCount_le_one (h.single t ht) hcellx hcelly)
  kernelPart := hupper
  counted q := by
    by_cases hq : q ∈ pool
    · have hcount := h.counted q hq
      rw [if_neg (Option.some_ne_none q).symm, Nat.add_zero, refs_eq] at hcount
      rw [hcount, kernelRefs_of_mem hq, Nat.zero_add]
    · have hzero := h.refs_eq_zero (.inr ((h.kernel q).mpr hq))
      rw [refs_eq] at hzero
      rw [kernelRefs, if_neg hq, Nat.add_assoc, hzero, Nat.add_zero]
  unowned q hq := by
    have hzero := h.refs_eq_zero (.inl hq)
    rw [refs_eq] at hzero
    rw [kernelRefs_of_mem (h.mem_pool (by rw [hq]; decide)), Nat.zero_add]
    exact (Nat.add_eq_zero_iff.mp hzero).1

end Layout

theorem Mapped.rightCounts (h : Mapped pool lost s use)
    (haccurate : Accurate s.mem (fun q => kernelRefs pool s.mem q + refCount s.dirs q) use) :
    RightCounts s (kernelRefs pool s.mem) use where
  accurate := haccurate
  dirs e d hd := by
    have hdir := h.layout.holders e d hd
    exact ⟨hdir, kernelRefs_of_mem (h.layout.mem_pool (by rw [hdir]; decide))⟩
  tables t ht := kernelRefs_of_mem (h.layout.mem_pool (by rw [ht]; decide))
  pages x q hx hlink := by
    rcases h.layout.use_of_links hlink with ⟨hd, -⟩ | ⟨-, hdata⟩
    · rw [hx] at hd
      cases hd
    · exact hdata

/-! ## Runs -/

/-- The upper part of a page directory. -/
theorem Windowed.kernelPart {m₀ : Mem} {e : Slot} (h : Windowed m₀ s) (hd : s.dirs e = some d)
    (hmem : KernelMemory m₀) (hk : PDX_UTOP ≤ k.val) (hpresent : s.mem.load (d, k) &&& PTE_P ≠ 0) :
    pgnum (s.mem.load (d, k)) ∉ freeFrames m₀ ∨
      k = pdxUvpt ∧ pgnum (s.mem.load (d, k)) = d := by
  have hentry := h.upper e d k hd hk
  by_cases huvpt : k = pdxUvpt
  · rw [setupEntry, if_pos huvpt] at hentry
    refine .inr ⟨huvpt, ?_⟩
    rw [hentry, pgnum_selfEntry]
  · rw [setupEntry, if_neg huvpt] at hentry
    rcases hmem.tables k hk huvpt with hzero | ⟨t, ht, heq⟩
    · rw [hentry, hzero] at hpresent
      exact absurd BitVec.zero_and hpresent
    · rw [hentry, heq, pgnum_tableEntry]
      exact .inl ht

/-- In every state of an orderly run the counters are right. -/
theorem rightCounts_of_run {evs : List Event} (hboot : Booted s₀) (hmem : KernelMemory s₀.mem)
    (hrun : Trace OrderlyStep s₀ evs s) : ∃ use, Mapped (freeFrames s₀.mem) leaks s use ∧
      RightCounts s (kernelRefs (freeFrames s₀.mem) s.mem) use := by
  obtain ⟨hwindow, hs⟩ := windowed_of_run hboot hrun
  obtain ⟨use, h⟩ := hs.mapped
  have hlink : ∀ q, use q ≠ .free → (s.mem.pages q).ppLink = none := fun q hq => by
    obtain ⟨l, hchain, -, hfree⟩ := h.layout.freeList
    have hoff : ¬ OnFreeList s.mem q := fun hon => hq ((hfree q).mp (hchain.mem_of_linked hon))
    rcases relinked_of_run (hrun.mono fun _ _ _ h => h.1) q hoff with ⟨hoff₀, heq⟩ | hnone
    · exact heq.trans (hmem.unlinked q hoff₀)
    · exact hnone
  refine ⟨use, h, h.rightCounts (h.layout.accurate (fun _ hx => hx) hlink fun d k hd hk hp => ?_)⟩
  obtain ⟨a, ha⟩ := h.layout.exists_ref (fun _ hx => hx) (.inl hd)
  rcases h.layout.use_of_cell ha with ⟨-, e, rfl⟩ | ⟨hor, -⟩
  · exact (hwindow.kernelPart ha hmem hk hp).imp_left fun hno => (h.layout.kernel _).mpr hno
  · rcases hor with hor | hor <;> rw [hd] at hor <;> cases hor

/-- The memory of `bootedMachine`. -/
theorem kernelMemory_bootedMem {n : ℕ} (h9 : 9 ≤ n) (hn : n ≤ 2 ^ 16) :
    KernelMemory (bootedMem n) := by
  refine ⟨fun _ _ _ => .inl rfl, fun q hoff => ?_⟩
  by_cases hq : 8 ≤ q.toNat ∧ q.toNat + 1 < n
  · have hchain := chain_bootedFree hn (n - 9) 8 le_rfl (by omega)
    refine absurd (hchain.linked_of_mem (b := q) ?_) hoff
    refine List.mem_map.mpr ⟨q.toNat, ?_, BitVec.eq_of_toNat_eq ?_⟩
    · rw [List.mem_range'_1]
      omega
    · exact (BitVec.toNat_ofNat _ _).trans (Nat.mod_eq_of_lt q.isLt)
  · show (if _ then _ else _ : PageInfo).ppLink = none
    rw [if_neg hq]

/-! ## What `env_free` gives back -/

/-- `env_free` gives back exactly the memory of an environment without threads: each page of its
address space once for every place where it is mapped, the page tables and the directory. -/
theorem env_free_exact (h : RightCounts s base use) (htype : (s.envs e).envType = .user)
    (hd : s.dirs e = some d) (hthreads : Threadless s e) :
    ∃ m', envFree c s e = .ok (freed c s e m') ∧ SpaceFreed use s.mem m' d := by
  obtain ⟨m₁, m', hunmap, hdec, hfreed⟩ := h.space_freed hd fun t ht => hthreads.alone t d hd ht
  refine ⟨m', ?_, hfreed⟩
  unfold envFree
  rw [if_neg (by rw [htype]; decide), envFreeThreads_none hthreads.swept]
  exact envFreeProcess_eq hd hunmap hdec

/-- The first process maps a page at two addresses and gives it to a child as well. -/
def pageShared : List Event :=
  [.boot emptyImage, .start 0, sysTrap 0 .pageAlloc 0 0x800000 7 0 0,
    sysTrap 0 .pageMap 0 0x800000 0 0x801000 7, sysTrap 0 .exofork 0 0 0 0 0,
    sysTrap 0 .pageMap 0 0x800000 firstThread 0x800000 7]

/-- Of the three references to the page, freeing the process leaves the child's. -/
theorem env_free_exact_shared : ∃ s use m',
    Trace OrderlyStep (bootedMachine .roundRobin 64) pageShared s ∧
    ((mmu s.mem 8 0x800000).map Prod.fst = some 11 ∧ (mmu s.mem 8 0x801000).map Prod.fst = some 11 ∧
      (mmu s.mem 13 0x800000).map Prod.fst = some 11) ∧ s.mem.ref 11 = 3 ∧ m'.ref 11 = 1 ∧
    envFree 0 s 0 = .ok (freed 0 s 0 m') ∧ SpaceFreed use s.mem m' 8 := by
  obtain ⟨s, hrun, hs⟩ := exists_trace (fun s ev => ev.Hygienic s ∧ ev.Orderly s)
    (bootedMachine .roundRobin 64) pageShared
    (fun s => decide (((mmu s.mem 8 0x800000).map Prod.fst = some 11 ∧
        (mmu s.mem 8 0x801000).map Prod.fst = some 11 ∧
        (mmu s.mem 13 0x800000).map Prod.fst = some 11) ∧
      s.mem.ref 11 = 3 ∧ (s.envs 0).envType = .user ∧ s.dirs 0 = some 8 ∧
      (∀ t, isThreadOf s 0 t = false) ∧ ∀ t, s.dirs t = some 8 → t = 0) &&
      ((envFree 0 s 0).toOption.map fun s' => s'.mem.ref 11) == some 1)
    (by decide +kernel)
  rw [Bool.and_eq_true, decide_eq_true_iff, beq_iff_eq] at hs
  obtain ⟨⟨hmmu, href, huser, hdir, hswept, halone⟩, hleft⟩ := hs
  have hboot := booted_bootedMachine .roundRobin (n := 64) (by decide) (by decide)
  obtain ⟨use, -, hcounts⟩ :=
    rightCounts_of_run hboot (kernelMemory_bootedMem (by decide) (by decide)) hrun
  obtain ⟨m', hfree, hfreed⟩ := env_free_exact (c := 0) hcounts huser hdir ⟨hswept, fun t d hd ht =>
    halone t (ht.trans (hd.symm.trans hdir))⟩
  refine ⟨s, use, m', hrun, hmmu, href, ?_, hfree, hfreed⟩
  rw [hfree] at hleft
  exact Option.some.inj hleft

end JosSched
