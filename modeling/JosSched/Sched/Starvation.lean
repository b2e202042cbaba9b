import JosSched.Sched.Aging
import JosSched.Sched.RoundRobin
import JosSched.Kern.Replay

/-!
# A run that starves an environment

Two slots are enough.  The thread in one of them creates a thread in the other and exits; the
kernel is left without a current environment, so the next scan starts at slot 0 and finds the new
thread before it gets to an environment further up.  The two slots have changed roles, and the
relay goes on for as long as it likes (`Relay.passedOver`), under either policy.
-/

open Except

namespace JosSched

/-- A thread of the highest priority runs in slot `cur`, slot `other` is the next one to be
handed out, and `waiter`, of the lowest priority, is the only one that is ready. -/
structure Relay (cur other waiter : Slot) (s : Kernel) : Prop where
  curenv : s.curenv 0 = some cur
  started : (s.cpus 0).cpuStatus = .started
  thread : (s.envs cur).envStatus = .running ∧ (s.envs cur).envType = .thread
  next : s.envFreeList = some other ∧ (s.envs other).envStatus = .free
  waits : (s.envs waiter).envPgdir.isSome = true
  alone : ∀ t, s.IsReady t ↔ t = waiter
  priorities : (s.envs cur).envPriority = ENV_PRIORITY_MAX ∧ (s.envs waiter).envPriority = 0
  memory : ∃ page, s.mem.pageFreeList = some page ∧ page.toNat < s.mem.npages ∧
    s.mem.ref page = 0 ∧ ∃ dir, (s.envs cur).envPgdir = some dir ∧ dir ≠ page ∧ s.mem.ref dir = 3

/-- The program of the threads: create the next one, and exit. -/
def spawnNext : Event := sysTrap 0 .threadCreate 0x800020 0xeebfe000 0 0 0
def exitThread : Event := sysTrap 0 .envDestroy 0 0 0 0 0

variable {cur other waiter : Slot} {s s₁ s' : Kernel}

namespace Relay

theorem ne (h : Relay cur other waiter s) : cur ≠ other ∧ waiter ≠ cur ∧ waiter ≠ other := by
  have hready : s.IsReady waiter := (h.alone waiter).mpr rfl
  refine ⟨?_, ?_, ?_⟩ <;> rintro rfl
  · have hrun := h.thread.1
    rw [h.next.2] at hrun
    cases hrun
  · rw [Kernel.IsReady, h.thread.1] at hready
    cases hready
  · rw [Kernel.IsReady, h.next.2] at hready
    cases hready

/-- The memory after a page has been taken for a page directory and given back. -/
theorem spawnMemory {m : Mem} {page dir : Ppn} (hfree : m.pageFreeList = some page)
    (hpage : page.toNat < m.npages) (href : m.ref page = 0) (hne : dir ≠ page)
    (hdir : m.ref dir = 3) :
    ∃ m₁ m₂, pageAlloc m true = .ok (some page, m₁) ∧
      pageDecref (newPgdir m₁ page) page = .ok m₂ ∧ m₂.pageFreeList = some page ∧
      m₂.npages = m.npages ∧ m₂.ref page = 0 ∧ m₂.ref dir = 3 := by
  refine ⟨_, _, pageAlloc_eq hfree hpage, pageDecref_last ?_ ?_, rfl, rfl, ?_, ?_⟩
  · simpa [newPgdir, takePage, Mem.ref, Mem.setRef, Mem.fill, Mem.store, Mem.setLink] using href
  · simp [newPgdir, takePage, Mem.setRef, Mem.fill, Mem.store, Mem.setLink]
  · simp [newPgdir, takePage, Mem.ref, Mem.setRef, Mem.fill, Mem.store, Mem.setLink]
  · simpa [newPgdir, takePage, Mem.ref, Mem.setRef, Mem.fill, Mem.store, Mem.setLink, hne]
      using hdir

/-- The relay in the middle: the next thread is there, and the current one has not exited. -/
structure Spawned (cur other waiter : Slot) (s : Kernel) : Prop where
  curenv : s.curenv 0 = some cur
  started : (s.cpus 0).cpuStatus = .started
  thread : (s.envs cur).envStatus = .running ∧ (s.envs cur).envType = .thread
  spawned : (s.envs other).envType = .thread
  waits : (s.envs waiter).envPgdir.isSome = true
  alone : ∀ t, s.IsReady t ↔ t = other ∨ t = waiter
  ne : waiter ≠ cur
  priorities : ENV_PRIORITY_MAX = (s.envs other).envPriority ∧ (s.envs waiter).envPriority = 0
  wait : (s.envs other).envWaitTicks = 0
  memory : ∃ page, s.mem.pageFreeList = some page ∧ page.toNat < s.mem.npages ∧
    s.mem.ref page = 0 ∧ ∃ dir, (s.envs cur).envPgdir = some dir ∧
    (s.envs other).envPgdir = some dir ∧ dir ≠ page ∧ s.mem.ref dir = 4

theorem sysThreadCreate_eq (cur : Slot) (entry ustackTop : Word) (own shared : Ppn)
    {s₂ : Kernel} {t : Slot}
    (hargs : ¬ (UTOP ≤ entry ∨ UTOP < ustackTop ∨ ustackTop = 0))
    (halloc : envAlloc s (if (s.envs cur).envType = .thread then (s.envs cur).envParentId
      else (s.envs cur).envId) = .ok (.ok t, s₁))
    (hown : (s₁.envs t).envPgdir = some own) (hdrop : dropPgdir s₁ t own = .ok s₂)
    (hshared : (s₂.envs cur).envPgdir = some shared) :
    ∃ r, sysThreadCreate s cur entry ustackTop = .ok (r,
      (s₂.setMem (s₂.mem.setRef shared (s₂.mem.ref shared + 1))).modEnv t fun env => { env with
        envPgdir := some shared
        envType := .thread
        envPriority := (s₂.envs cur).envPriority
        envTf := { env.envTf with tfEip := entry, tfEsp := ustackTop } }) := by
  unfold sysThreadCreate
  simp only [if_neg hargs, halloc, bind, Except.bind, pure, Except.pure, envPgdirOf, hown, hdrop,
    hshared, Kernel.setMem_envs]
  exact ⟨_, rfl⟩

/-- The call creates the next thread. -/
theorem sysThreadCreate_spawned (h : Relay cur other waiter s) (tf : Trapframe) :
    ∃ r s₁, sysThreadCreate (saved 0 s cur tf) cur 0x800020 0xeebfe000 = .ok (r, s₁) ∧
      Spawned cur other waiter s₁ ∧ s₁.stats = s.stats := by
  obtain ⟨page, hfree, hpage, href, dir, hdir, hne, hshare⟩ := h.memory
  obtain ⟨m₁, m₂, halloc, hdecref, hfree₂, hpages₂, hpage₂, hdir₂⟩ :=
    spawnMemory hfree hpage href hne hshare
  obtain ⟨hco, hwc, hwo⟩ := h.ne
  have hlist : (saved 0 s cur tf).envFreeList = some other := h.next.1
  obtain ⟨r, hcreate⟩ := sysThreadCreate_eq cur 0x800020 0xeebfe000 page dir (by decide)
    (envAlloc_eq hlist halloc) (by simp [initEnv]) (dropPgdir_eq hdecref)
    (by simp [Kernel.modEnv_ne _ _ hco, saved_envs, hdir])
  refine ⟨r, _, hcreate, ?_, rfl⟩
  have hstatus : ∀ t, ((saved 0 s cur tf).envs t).envStatus = (s.envs t).envStatus := fun t => by
    rw [saved_envs]
  refine ⟨?_, ?_, ⟨?_, ?_⟩, ?_, ?_, fun t => ?_, hwc, ⟨?_, ?_⟩, ?_, ?_⟩
  · have hcur : (saved 0 s cur tf).curenv 0 = some cur := saved_curenv.trans h.curenv
    exact hcur
  · have hstarted : ((saved 0 s cur tf).cpus 0).cpuStatus = .started := saved_cpuStatus
    exact hstarted
  · simp [Kernel.modEnv_ne _ _ hco, hstatus, h.thread.1]
  · simp [Kernel.modEnv_ne _ _ hco, saved_envs, h.thread.2]
  · simp
  · simpa [Kernel.modEnv_ne _ _ hwo, saved_envs] using h.waits
  · by_cases hto : t = other
    · simp [hto, Kernel.IsReady, initEnv]
    · have halone := h.alone t
      simpa [hto, Kernel.IsReady, Kernel.modEnv_ne _ _ hto, hstatus] using halone
  · simp [Kernel.modEnv_ne _ _ hco, saved_envs, h.priorities.1]
  · simp [Kernel.modEnv_ne _ _ hwo, saved_envs, h.priorities.2]
  · simp [initEnv]
  · refine ⟨page, hfree₂, hpages₂ ▸ hpage, ?_, dir, ?_, ?_, hne, ?_⟩
    · simpa [Mem.ref, Mem.setRef, hne.symm] using hpage₂
    · simp [Kernel.modEnv_ne _ _ hco, saved_envs, hdir]
    · simp
    · have hdir₂ : (m₂.pages dir).ppRef = 3 := hdir₂
      simp [Mem.ref, Mem.setRef, hdir₂]

theorem Spawned.resumed (h : Spawned cur other waiter s) (hran : Ran 0 s cur s') :
    Spawned cur other waiter s' := by
  have hproj : ∀ t, (s'.envs t).envType = (s.envs t).envType ∧
      (s'.envs t).envPgdir = (s.envs t).envPgdir ∧
      (s'.envs t).envPriority = (s.envs t).envPriority ∧
      (s'.envs t).envWaitTicks = (s.envs t).envWaitTicks := fun t => by
    rw [hran.envs t]
    exact ⟨rfl, rfl, rfl, rfl⟩
  have hready : ∀ t, s'.IsReady t ↔ s.IsReady t := fun t => by
    rw [Kernel.IsReady, Kernel.IsReady, hran.envs t, h.curenv]
    by_cases ht : t = cur
    · simp [ht, h.thread.1]
    · simp [ht, Ne.symm ht]
  refine ⟨hran.curenv, hran.cpuStatus.trans h.started, ⟨?_, ?_⟩, ?_, ?_, fun t => ?_, h.ne,
    ?_, ?_, ?_⟩
  · rw [hran.envs cur]
    exact if_pos rfl
  · rw [(hproj cur).1, h.thread.2]
  · rw [(hproj other).1, h.spawned]
  · rw [(hproj waiter).2.1, h.waits]
  · rw [hready t, h.alone t]
  · rw [(hproj other).2.2.1, (hproj waiter).2.2.1]
    exact h.priorities
  · rw [(hproj other).2.2.2, h.wait]
  · rw [hran.mem, (hproj cur).2.1, (hproj other).2.1]
    exact h.memory

theorem Spawned.returned (h : Spawned cur other waiter s) (r : ℤ) :
    Spawned cur other waiter (JosSched.returned s cur r) := by
  have hproj : ∀ {α : Type} (g : Env → α), (∀ env tf, g { env with envTf := tf } = g env) →
      ∀ t, g ((JosSched.returned s cur r).envs t) = g (s.envs t) :=
    fun g hg t => modEnv_proj g fun env => hg env _
  have hready : ∀ t, (JosSched.returned s cur r).IsReady t ↔ s.IsReady t := fun t => by
    rw [Kernel.IsReady, hproj Env.envStatus (fun _ _ => rfl) t]
    rfl
  refine ⟨h.curenv, h.started, ?_, ?_, ?_, fun t => (hready t).trans (h.alone t), h.ne, ?_, ?_, ?_⟩
  · rw [hproj Env.envStatus (fun _ _ => rfl), hproj Env.envType fun _ _ => rfl]
    exact h.thread
  · rw [hproj Env.envType fun _ _ => rfl, h.spawned]
  · rw [hproj Env.envPgdir fun _ _ => rfl, h.waits]
  · rw [hproj Env.envPriority (fun _ _ => rfl), hproj Env.envPriority fun _ _ => rfl]
    exact h.priorities
  · rw [hproj Env.envWaitTicks fun _ _ => rfl, h.wait]
  · rw [hproj Env.envPgdir (fun _ _ => rfl), hproj Env.envPgdir fun _ _ => rfl]
    exact h.memory

/-- The first half of a round. -/
theorem spawn (h : Relay cur other waiter s) :
    ∃ s₁, Step s spawnNext s₁ ∧ ¬ Decides s s₁ ∧ Spawned cur other waiter s₁ := by
  set tf : Trapframe := sysFrame {} .threadCreate 0x800020 0xeebfe000 0 0 0 with htf
  obtain ⟨r, s₁, hcreate, hspawned, hstats⟩ := h.sysThreadCreate_spawned tf
  have hret := hspawned.returned r
  obtain ⟨page, -, -, -, dir, hdir, -⟩ := hret.memory
  obtain ⟨s₂, hrun⟩ := exists_envRun (c := 0) hdir
  have hcall : Calls tf .threadCreate := calls_sysFrame
  have htrap : trap 0 s {} tf = trapReturn 0 (returned s₁ cur r) :=
    trap_of_ok h.curenv (by rw [h.thread.1]; decide) hcall hcreate
  have hexec : trap 0 s {} tf = .leave s₂ := by
    rw [htrap, trapReturn, hret.curenv]
    dsimp only
    rw [if_pos hret.thread.1, hrun]
  refine ⟨s₂, ⟨⟨⟨h.started, ?_⟩, rfl⟩, hexec⟩, ?_, hret.resumed (envRun_eq_leave hrun)⟩
  · rw [h.curenv]
    rfl
  · rw [Decides, envRun_stats hrun, not_not]
    exact congrArg SchedStats.schedCalls hstats

/-! ## The decision -/

/-- The state in which the second half of the round decides. -/
def exited (s : Kernel) (cur : Slot) (m : Mem) (tf : Trapframe) : Kernel :=
  (freed 0 (saved 0 s cur tf) cur m).setCurenv 0 none

theorem Spawned.trap_exitThread (h : Spawned cur other waiter s) (tf : Trapframe)
    (hcall : Calls tf .envDestroy) (harg : tf.tfRegs.regEdx = 0) :
    ∃ m, trap 0 s {} tf = schedYield 0 (exited s cur m tf) ∧
      ∃ page, m.pageFreeList = some page ∧ page.toNat < m.npages ∧ m.ref page = 0 ∧
        ∃ dir, (s.envs other).envPgdir = some dir ∧ dir ≠ page ∧ m.ref dir = 3 := by
  obtain ⟨page, hfree, hpage, href, dir, hdir, hdir', hne, hshare⟩ := h.memory
  have hdecref : pageDecref s.mem dir = .ok (s.mem.setRef dir (s.mem.ref dir - 1)) :=
    pageDecref_shared (by rw [hshare]; decide)
  refine ⟨s.mem.setRef dir (s.mem.ref dir - 1), ?_, page, hfree, hpage, ?_, dir, hdir', hne, ?_⟩
  · have hown : ((saved 0 s cur tf).envs cur).envPgdir = some dir := by rw [saved_envs, hdir]
    have hfreed := envFreeThread_eq (c := 0) hown hdecref
    have hcur : (saved 0 s cur tf).curenv 0 = some cur := saved_curenv.trans h.curenv
    refine trap_of_error h.curenv (by rw [h.thread.1]; decide) hcall ?_
    have hself : envid2env 0 (saved 0 s cur tf) tf.tfRegs.regEdx true = .ok cur := by
      rw [harg, envid2env, if_pos rfl, hcur]
    have htype : ((saved 0 s cur tf).envs cur).envType = .thread := by
      rw [saved_envs, h.thread.2]
    unfold syscall sysEnvDestroy envDestroy envFree exited
    dsimp only
    rw [hself]
    dsimp only
    rw [if_neg (fun hrun => hrun.2 hcur), if_pos htype, hfreed]
    simp only [bind, Except.bind, freed_curenv, hcur, if_true]
  · simpa [Mem.ref, Mem.setRef, hne.symm] using href
  · have hshare : (s.mem.pages dir).ppRef = 4 := hshare
    simp [Mem.ref, Mem.setRef, hshare]

theorem exited_envs {m : Mem} {tf : Trapframe} (t : Slot) :
    ((exited s cur m tf).envs t).envStatus = (if t = cur then .free else (s.envs t).envStatus) ∧
      ((exited s cur m tf).envs t).seat = (s.envs t).seat ∧
      ((exited s cur m tf).envs t).envType = (s.envs t).envType := by
  have henvs : (exited s cur m tf).envs t = (freed 0 (saved 0 s cur tf) cur m).envs t := rfl
  rw [henvs]
  by_cases ht : t = cur
  · rw [ht, freed_envs_self, saved_envs]
    exact ⟨(if_pos rfl).symm, rfl, rfl⟩
  · rw [freed_envs_ne ht, saved_envs]
    exact ⟨(if_neg ht).symm, rfl, rfl⟩

theorem exited_envPgdir {m : Mem} {tf : Trapframe} {t : Slot} (ht : t ≠ cur) :
    ((exited s cur m tf).envs t).envPgdir = (s.envs t).envPgdir := by
  have henvs : (exited s cur m tf).envs t = (freed 0 (saved 0 s cur tf) cur m).envs t := rfl
  rw [henvs, freed_envs_ne ht, saved_envs]

theorem exited_curenv {m : Mem} {tf : Trapframe} : (exited s cur m tf).curenv 0 = none :=
  Kernel.setCurenv_curenv_self ..

theorem exited_cpuStatus {m : Mem} {tf : Trapframe} (hcur : s.curenv 0 = some cur) :
    ((exited s cur m tf).cpus 0).cpuStatus = .started := by
  have hcur' : (saved 0 s cur tf).curenv 0 = some cur := saved_curenv.trans hcur
  simp [exited, freed, hcur', pushFree, Kernel.setCurenv, Kernel.lcr3, Kernel.modCpu]

/-- Those that compete once the current thread has exited. -/
theorem Spawned.ready_exited (h : Spawned cur other waiter s) (m : Mem) (tf : Trapframe)
    (hco : other ≠ cur) (t : Slot) : (exited s cur m tf).IsReady t ↔ t = other ∨ t = waiter := by
  rw [Kernel.IsReady, (exited_envs t).1]
  by_cases ht : t = cur
  · rw [if_pos ht, ht]
    simp [hco.symm, h.ne.symm]
  · rw [if_neg ht]
    exact h.alone t

/-- Nobody beats the new thread: its priority is the highest bonus that `waiter` can reach. -/
theorem Spawned.effective_exited (h : Spawned cur other waiter s) (hsolo : Solo 0 s) {m : Mem}
    {tf : Trapframe} :
    effective (exited s cur m tf) waiter ≤ effective (exited s cur m tf) other := by
  rw [effective_of_seat (exited_envs waiter).2.1, effective_of_seat (exited_envs other).2.1,
    effective_eq (hsolo.bounded _), effective_eq (hsolo.bounded _), ← h.priorities.1,
      h.priorities.2, h.wait]
  have hzero : (0 : Word).toNat = 0 := rfl
  rw [hzero, Nat.zero_div]
  omega

/-- The scan starts at slot 0 and comes to the new thread first. -/
theorem Spawned.next_thread (h : Spawned cur other waiter s) (hsolo : Solo 0 s)
    (hlt : other < waiter)
    (hco : other ≠ cur) {m : Mem} {tf : Trapframe}
    (hyield : schedYield 0 (exited s cur m tf) = .leave s') :
    ∃ s₁, SameButWait (exited s cur m tf) s₁ ∧ Ran 0 s₁ other s' := by
  have hready := h.ready_exited m tf hco
  have hstart : scanStart 0 (exited s cur m tf) = 0 := by rw [scanStart, exited_curenv]
  -- with no current environment the scan starts at slot 0, and `other` is the lower slot
  have hfirst : ∀ {next}, (exited s cur m tf).IsReady next →
      circularDist (scanStart 0 (exited s cur m tf)) next ≤
        circularDist (scanStart 0 (exited s cur m tf)) other → next = other := by
    intro next hnext hdist
    rw [hstart, circularDist_zero, circularDist_zero] at hdist
    refine ((hready next).mp hnext).resolve_right ?_
    rintro rfl
    exact absurd hlt (not_lt.mpr hdist)
  cases hpolicy : (exited s cur m tf).policy with
  | roundRobin =>
      obtain ⟨next, hnext, hdist, hran⟩ :=
        schedYield_next hpolicy hyield ((hready other).mpr (.inl rfl))
      obtain rfl := hfirst hnext hdist
      exact ⟨_, sameButWait_countCall, hran⟩
  | priorities =>
      obtain ⟨best, hpicked, hran⟩ :=
        schedYield_ran hpolicy hyield (.inl ((hready other).mpr (.inl rfl)))
      cases hpicked with
      | scan hmax _ =>
          have hbest := hmax.candidate
          have hdist := hmax.circularDist_le ((hready other).mpr (.inl rfl)) <| by
            rcases (hready best).mp hbest with rfl | rfl
            · exact le_rfl
            · exact h.effective_exited hsolo
          obtain rfl := hfirst hbest hdist
          exact ⟨_, sameButWait_schedAge, hran⟩
      | current hcur =>
          rw [exited_curenv] at hcur
          cases hcur

/-- The second half of a round. -/
theorem Spawned.exit (h : Spawned cur other waiter s) (hsolo : Solo 0 s) (hlt : other < waiter)
    (hco : other ≠ cur) :
    ∃ s₁, Step s exitThread s₁ ∧ Decides s s₁ ∧ Relay other cur waiter s₁ := by
  set tf : Trapframe := sysFrame {} .envDestroy 0 0 0 0 0 with htf
  obtain ⟨m, htrap, page, hfree, hpage, href, dir, hdir, hne, hshare⟩ :=
    h.trap_exitThread tf calls_sysFrame rfl
  -- only `other` and `waiter` can still be picked
  have hready := h.ready_exited m tf hco
  have hwaiter := (hready waiter).mpr (.inr rfl)
  obtain ⟨s₂, hyield⟩ := exists_schedYield (c := 0) (.inl hwaiter) fun t ht => by
      have ht := ht.resolve_right fun hcur => by
        rw [exited_curenv] at hcur
        cases hcur.1
      rcases (hready t).mp ht with rfl | rfl
      · rw [exited_envPgdir hco, hdir]
        rfl
      · rw [exited_envPgdir h.ne]
        exact h.waits
  -- the scan starts at slot 0, and `other` stands before `waiter`
  obtain ⟨s₁, hsame, hran⟩ := h.next_thread hsolo hlt hco hyield
  -- what the exit and the pick together have left of every slot
  have henvs : ∀ t, s₂.envs t = { (exited s cur m tf).envs t with
      envStatus := if t = other then .running else ((exited s cur m tf).envs t).envStatus
      envRuns := (s₂.envs t).envRuns
      envCpunum := (s₂.envs t).envCpunum
      envWaitTicks := (s₁.envs t).envWaitTicks } := fun t => by
    have hcur : s₁.curenv 0 = none := by
      rw [Kernel.curenv, hsame.cpus]
      exact exited_curenv
    rw [hran.envs t, hsame.envs t, hcur]
    simp
  have hprio : ∀ t, (s₂.envs t).envPriority = (s.envs t).envPriority := fun t => by
    rw [henvs t]
    exact (Prod.mk.inj (Prod.mk.inj (exited_envs t).2.1).2).1
  refine ⟨s₂, ⟨⟨⟨h.started, ?_⟩, rfl⟩, htrap.trans hyield⟩, ?_, ?_⟩
  · rw [h.curenv]
    rfl
  · have hstats : (exited s cur m tf).stats = s.stats :=
      freed_stats (s := saved 0 s cur tf) (e := cur) (m := m)
    rw [Decides, schedYield_schedCalls hyield, hstats]
    exact add_one_ne _
  · refine ⟨hran.curenv, ?_, ⟨?_, ?_⟩, ⟨?_, ?_⟩, ?_, fun t => ?_, ⟨?_, ?_⟩, page, ?_⟩
    · rw [hran.cpuStatus, hsame.cpus]
      exact exited_cpuStatus h.curenv
    · rw [henvs other]
      exact if_pos rfl
    · rw [henvs other]
      exact (exited_envs other).2.2.trans h.spawned
    · rw [hran.envFreeList, hsame.envFreeList]
      rfl
    · rw [henvs cur]
      dsimp only
      rw [if_neg hco.symm, (exited_envs cur).1, if_pos rfl]
    · rw [henvs waiter]
      exact (exited_envPgdir h.ne).symm ▸ h.waits
    · rw [Kernel.IsReady, henvs t]
      dsimp only
      by_cases hto : t = other
      · rw [if_pos hto]
        simp [hto, hlt.ne]
      · rw [if_neg hto]
        exact (hready t).trans (or_iff_right hto)
    · rw [hprio, h.priorities.1]
    · rw [hprio, h.priorities.2]
    · rw [hran.mem, hsame.mem]
      refine ⟨hfree, hpage, href, dir, ?_, hne, hshare⟩
      rw [henvs other]
      exact (exited_envPgdir hco).trans hdir

/-- A whole round: a decision lost for `waiter`. -/
theorem passedOver_succ {s₀ : Kernel} {n : ℕ} (hsolo : Solo 0 s₀) (how : other < waiter)
    (hrun : PassedOver 0 (fun _ _ => True) waiter s₀ n s) (h : Relay cur other waiter s) :
    ∃ s', PassedOver 0 (fun _ _ => True) waiter s₀ (n + 1) s' ∧ Relay other cur waiter s' := by
  obtain ⟨s₁, hspawn, hnot, hspawned⟩ := h.spawn
  have hrun₁ := hrun.wait ⟨hspawn, rfl⟩ ((hspawned.alone waiter).mpr (.inr rfl)) hnot
  obtain ⟨s₂, hexit, hdec, hrelay⟩ := hspawned.exit (hrun₁.solo hsolo) how h.ne.1.symm
  exact ⟨s₂, hrun₁.lose ⟨hexit, rfl⟩ ((hrelay.alone waiter).mpr rfl) hdec trivial, hrelay⟩

/-- The relay never ends. -/
theorem passedOver (h : Relay cur other waiter s) (hsolo : Solo 0 s) (hcw : cur < waiter)
    (how : other < waiter) (n : ℕ) : ∃ s', PassedOver 0 (fun _ _ => True) waiter s n s' := by
  have hboth : ∃ s', PassedOver 0 (fun _ _ => True) waiter s n s' ∧
      (Relay cur other waiter s' ∨ Relay other cur waiter s') := by
    induction n with
    | zero => exact ⟨s, .start ((h.alone waiter).mpr rfl), .inl h⟩
    | succ n ih =>
        obtain ⟨s', hrun, hrelay | hrelay⟩ := ih
        · obtain ⟨s₂, hrun₂, hrelay₂⟩ := hrelay.passedOver_succ hsolo how hrun
          exact ⟨s₂, hrun₂, .inr hrelay₂⟩
        · obtain ⟨s₂, hrun₂, hrelay₂⟩ := hrelay.passedOver_succ hsolo hcw hrun
          exact ⟨s₂, hrun₂, .inl hrelay₂⟩
  obtain ⟨s', hrun, -⟩ := hboth
  exact ⟨s', hrun⟩

end Relay

/-! ## A run that gets there -/

/-- A process creates three threads, destroys the second of them, gives the others the highest
and the lowest priority and suspends itself. -/
def relayStart : List Event :=
  [.boot emptyImage, .start 0, spawnNext, spawnNext, spawnNext,
    sysTrap 0 .envDestroy 0x1002 0 0 0 0,
    sysTrap 0 .setpriority 0x1001 15 0 0 0, sysTrap 0 .setpriority 0x1003 0 0 0 0,
    sysTrap 0 .envSetStatus 0 4 0 0 0]

/-- `Relay 1 2 3`, as a test. -/
def isRelay (s : Kernel) : Bool :=
  decide (s.curenv 0 = some 1 ∧ (s.cpus 0).cpuStatus = .started) &&
  decide ((s.envs 1).envStatus = .running ∧ (s.envs 1).envType = .thread) &&
  decide (s.envFreeList = some 2 ∧ (s.envs 2).envStatus = .free) &&
  decide ((s.envs 3).envPgdir.isSome ∧ ∀ t, s.IsReady t ↔ t = 3) &&
  decide ((s.envs 1).envPriority = ENV_PRIORITY_MAX ∧ (s.envs 3).envPriority = 0) &&
  s.mem.pageFreeList.any fun page => (s.envs 1).envPgdir.any fun dir =>
    page.toNat < s.mem.npages ∧ s.mem.ref page = 0 ∧ dir ≠ page ∧ s.mem.ref dir = 3

theorem relay_of_isRelay {s : Kernel} (h : isRelay s = true) : Relay 1 2 3 s := by
  simp only [isRelay, Bool.and_eq_true, decide_eq_true_iff, Option.any_eq_true] at h
  obtain ⟨⟨⟨⟨⟨hcur, hthread⟩, hnext⟩, hwaits⟩, hprio⟩, page, hpage, dir, hdir, hm⟩ := h
  exact ⟨hcur.1, hcur.2, hthread, hnext, hwaits.1, hwaits.2, hprio, page, hpage, hm.1, hm.2.1, dir,
    hdir, hm.2.2.1, hm.2.2.2⟩

theorem exists_relay (policy : Policy) (h : (replay (fun _ ev => ev.By 0)
    (bootedMachine policy 64) relayStart).any isRelay = true) :
    ∃ s, Trace (CpuStep 0) (bootedMachine policy 64) relayStart s ∧ Relay 1 2 3 s := by
  obtain ⟨s, hrun, hs⟩ := exists_trace _ _ _ _ h
  exact ⟨s, hrun, relay_of_isRelay hs⟩

/-- Under round robin the third thread is never picked. -/
theorem roundRobin_starves : ¬ ∀ (c : Cpu) (s₀ s s' : Kernel) (evs : List Event) (e : Slot) (n : ℕ),
    Booted s₀ → s₀.policy = .roundRobin → Trace (CpuStep c) s₀ evs s →
    PassedOver c (fun _ _ => True) e s n s' → n ≤ NENV - 1 := by
  intro hclaim
  obtain ⟨s, hrun, hrelay⟩ := exists_relay .roundRobin (by decide +kernel)
  have hboot := booted_bootedMachine .roundRobin (n := 64) (by decide) (by decide)
  obtain ⟨s', hpassed⟩ := hrelay.passedOver (solo_of_run hboot hrun) (by decide) (by decide) NENV
  exact absurd (hclaim 0 _ s s' _ 3 NENV hboot rfl hrun hpassed) (by decide)

/-- Neither is it under the priority policy. -/
theorem aging_starves : ¬ ∀ (c : Cpu) (s₀ s s' : Kernel) (evs : List Event) (e : Slot) (n : ℕ),
    Booted s₀ → s₀.policy = .priorities → Trace (CpuStep c) s₀ evs s →
    PassedOver c (fun _ _ => True) e s n s' → n ≤ MAX_WAIT + NENV := by
  intro hclaim
  obtain ⟨s, hrun, hrelay⟩ := exists_relay .priorities (by decide +kernel)
  have hboot := booted_bootedMachine .priorities (n := 64) (by decide) (by decide)
  obtain ⟨s', hpassed⟩ :=
    hrelay.passedOver (solo_of_run hboot hrun) (by decide) (by decide) (MAX_WAIT + NENV + 1)
  exact absurd (hclaim 0 _ s s' _ 3 _ hboot rfl hrun hpassed) (by decide)

end JosSched
