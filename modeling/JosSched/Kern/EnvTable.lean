import JosSched.Kern.Replay
import JosSched.Sched.Solo

/-!
# The table of environments

With one CPU, `env_free_list` links exactly the free slots, each once, and the id of a slot in
use is positive and names that slot.  Slots are recycled through the list, and `env_free` pushes
the threads of a process on it before the process itself; every action of the kernel keeps both
facts, so they also hold in the middle of a stay in the kernel.
-/

namespace JosSched

variable {c : Cpu} {s s₀ s₁ s' : Kernel} {a : Act} {ev : Event} {e t : Slot} {L : Act → Prop}

/-- The list of free environments is the set of free slots, and ids name their slots. -/
structure TableInv (s : Kernel) : Prop where
  freeList : ∃ l, Chain (fun e => (s.envs e).envLink) s.envFreeList l ∧ l.Nodup ∧
    ∀ e, e ∈ l ↔ (s.envs e).envStatus = .free
  ids : ∀ e, (s.envs e).envStatus ≠ .free →
    0 < (s.envs e).envId.toInt ∧ envx (s.envs e).envId = e

/-- What CPU `c` relies on inside the kernel: its current environment is not free. -/
structure Tabled (c : Cpu) (s : Kernel) : Prop extends TableInv s where
  own : ∀ e, s.curenv c = some e → (s.envs e).envStatus ≠ .free

/-! ## Ids -/

/-- The ids that `env_alloc` issues are positive: a generation that would not be starts over. -/
theorem nextEnvId_pos (e : Slot) (old : Word) : 0 < (nextEnvId e old).toInt := by
  have he : e.val < 1024 := e.isLt
  have hslot : (BitVec.ofNat 32 e.val).toNat = e.val := by
    rw [BitVec.toNat_ofNat]
    omega
  have hpos : ∀ g : Word, 0 < g.toInt → 0 < (g ||| BitVec.ofNat 32 e.val).toInt := by
    intro g hg
    have hglt := g.isLt
    rw [BitVec.toInt_eq_toNat_cond] at hg
    split at hg
    · have hle : g.toNat ≤ g.toNat ||| e.val := Nat.left_le_or
      have hlt : g.toNat ||| e.val < 2 ^ 31 := Nat.or_lt_two_pow (by omega) (by omega)
      rw [BitVec.toInt_eq_toNat_cond, BitVec.toNat_or, hslot]
      split <;> omega
    · omega
  unfold nextEnvId
  dsimp only
  split
  · exact hpos _ (by decide)
  · next hgen => exact hpos _ (not_le.mp hgen)

namespace TableInv

/-- No two environments share an id. -/
theorem id_inj (h : TableInv s) (he : (s.envs e).envStatus ≠ .free)
    (ht : (s.envs t).envStatus ≠ .free) (hid : (s.envs e).envId = (s.envs t).envId) : e = t := by
  rw [← (h.ids e he).2, ← (h.ids t ht).2, hid]

/-- Without the permission check, `envid2env` finds the environment with that id. -/
theorem envid2env_iff (h : TableInv s) {envid : Word} (hne : envid ≠ 0) :
    envid2env c s envid false = .ok e ↔
      (s.envs e).envStatus ≠ .free ∧ (s.envs e).envId = envid := by
  have hlookup : envid2env c s envid false =
      if (s.envs (envx envid)).envStatus = .free ∨ (s.envs (envx envid)).envId ≠ envid then
        .error (-E_BAD_ENV)
      else .ok (envx envid) := by
    unfold envid2env
    rw [if_neg hne]
    dsimp only
    cases s.curenv c <;> simp
  rw [hlookup]
  constructor
  · intro hok
    split at hok
    · cases hok
    · next hfree =>
        rw [not_or, not_not] at hfree
        obtain rfl := Except.ok.inj hok
        exact hfree
  · rintro ⟨halive, rfl⟩
    rw [(h.ids e halive).2, if_neg (not_or.mpr ⟨halive, not_not.mpr rfl⟩)]

/-- `env_alloc` runs out of slots exactly when none is free. -/
theorem envAlloc_noFreeEnv_iff (h : TableInv s) (parentId : Word) :
    (∃ s', envAlloc s parentId = .ok (.error (-E_NO_FREE_ENV), s')) ↔
      ∀ e, (s.envs e).envStatus ≠ .free := by
  obtain ⟨l, hchain, -, hall⟩ := h.freeList
  cases hlist : s.envFreeList with
  | none =>
      rw [hlist] at hchain
      obtain rfl := hchain.unique .nil
      refine ⟨fun _ e he => (List.not_mem_nil ((hall e).mpr he)), fun _ => ⟨s, ?_⟩⟩
      unfold envAlloc
      rw [hlist]
      rfl
  | some e =>
      rw [hlist] at hchain
      obtain ⟨rest, rfl, -⟩ := hchain.exists_cons
      have hfree : (s.envs e).envStatus = .free := (hall e).mp (List.mem_cons_self ..)
      refine ⟨fun ⟨s', halloc⟩ => ?_, fun hnone => absurd hfree (hnone e)⟩
      -- with a slot at hand it can only be the memory that is missing
      unfold envAlloc at halloc
      rw [hlist] at halloc
      obtain ⟨⟨r, s₁⟩, hvm, hret⟩ := Except.bind_eq_ok.mp halloc
      dsimp only at hret
      rcases envSetupVm_eq_ok hvm with ⟨rfl, rfl⟩ | ⟨p, m, rfl, -, rfl⟩
      · cases (Prod.mk.inj (Except.ok.inj hret)).1
      · cases (Prod.mk.inj (Except.ok.inj hret)).1

end TableInv

/-! ## Inside the kernel -/

namespace Tabled

/-- Neither the links, nor the ids, nor who is free changes. -/
theorem of_eq (h : Tabled c s) (hlist : s'.envFreeList = s.envFreeList)
    (hcurenv : ∀ e, s'.curenv c = some e → s.curenv c = some e ∨ (s.envs e).envStatus ≠ .free)
    (hlink : ∀ e, (s'.envs e).envLink = (s.envs e).envLink)
    (hid : ∀ e, (s'.envs e).envId = (s.envs e).envId)
    (hfree : ∀ e, (s'.envs e).envStatus = .free ↔ (s.envs e).envStatus = .free) : Tabled c s' where
  freeList := by
    obtain ⟨l, hchain, hnodup, hall⟩ := h.freeList
    rw [hlist]
    exact ⟨l, hchain.congr fun e _ => hlink e, hnodup, fun e => (hall e).trans (hfree e).symm⟩
  ids e he := by
    rw [hid]
    exact h.ids e fun hst => he ((hfree e).mpr hst)
  own e he hst := (hcurenv e he).elim (fun hcur => h.own e hcur ((hfree e).mp hst))
    fun halive => halive ((hfree e).mp hst)

/-- Changing one environment that is not free. -/
theorem modEnv (h : Tabled c s) {f : Env → Env}
    (hlink : ∀ env, (f env).envLink = env.envLink) (hid : ∀ env, (f env).envId = env.envId)
    (hstatus : (f (s.envs t)).envStatus = (s.envs t).envStatus ∨
      (f (s.envs t)).envStatus ≠ .free ∧ (s.envs t).envStatus ≠ .free) :
    Tabled c (s.modEnv t f) := by
  refine h.of_eq rfl (fun e he => .inl he) (fun e => modEnv_proj Env.envLink hlink)
    (fun e => modEnv_proj Env.envId hid) fun e => ?_
  by_cases het : e = t
  · rw [het, Kernel.modEnv_self]
    rcases hstatus with heq | ⟨hne, hne'⟩
    · rw [heq]
    · exact ⟨fun hst => absurd hst hne, fun hst => absurd hst hne'⟩
  · rw [Kernel.modEnv_ne _ _ het]

theorem ne_free_of_target (h : Tabled c s) (ht : Target c s t) : (s.envs t).envStatus ≠ .free :=
  ht.elim (h.own t) id

/-- The slot that is handed out comes off the list, with an id that names it. -/
theorem takes (h : Tabled c s) (hm : Micro c a s s') (ha : a.Takes e) : Tabled c s' := by
  obtain ⟨henvs, hcurenv⟩ := hm.frame_of_takes ha
  obtain ⟨hhead, htail, halive⟩ := hm.list_of_takes ha
  obtain ⟨l, hchain, hnodup, hall⟩ := h.freeList
  rw [hhead] at hchain
  obtain ⟨rest, rfl, hrest⟩ := hchain.exists_cons
  obtain ⟨hnotin, hnodup⟩ := List.nodup_cons.mp hnodup
  have hne : ∀ t ∈ rest, t ≠ e := fun t ht heq => hnotin (heq ▸ ht)
  refine ⟨⟨⟨rest, ?_, hnodup, fun t => ?_⟩, fun t ht => ?_⟩, fun t ht => ?_⟩
  · rw [htail]
    exact hrest.congr fun t ht => by rw [henvs t (hne t ht)]
  · by_cases hte : t = e
    · rw [hte]
      exact ⟨fun hin => absurd hin hnotin, fun hst => absurd hst halive⟩
    · rw [henvs t hte, ← hall t, List.mem_cons]
      exact ⟨.inr, fun hin => hin.resolve_left hte⟩
  · by_cases hte : t = e
    · rw [hte, hm.id_of_takes ha]
      exact ⟨nextEnvId_pos e _, envx_nextEnvId e _⟩
    · rw [henvs t hte] at ht ⊢
      exact h.ids t ht
  · by_cases hte : t = e
    · rw [hte]
      exact halive
    · rw [henvs t hte]
      exact h.own t (hcurenv c ▸ ht)

/-- A slot that is freed goes to the head of the list. -/
theorem freed (h : Tabled c s) {m : Mem} (halive : (s.envs t).envStatus ≠ .free) :
    Tabled c (forget c (JosSched.freed c s t m) t) := by
  obtain ⟨l, hchain, hnodup, hall⟩ := h.freeList
  have htl : t ∉ l := fun ht => halive ((hall t).mp ht)
  refine ⟨⟨?_, fun e he => ?_⟩, fun e he => ?_⟩
  · rw [forget_envs, forget_envFreeList]
    refine ⟨t :: l, (hchain.push htl).congr fun e _ => ?_, List.nodup_cons.mpr ⟨htl, hnodup⟩,
      fun e => ?_⟩
    · by_cases het : e = t
      · rw [het, freed_envs_self, Function.update_self]
      · rw [freed_envs_ne het, Function.update_of_ne het]
    · by_cases het : e = t
      · rw [het, freed_envs_self]
        exact ⟨fun _ => rfl, fun _ => List.mem_cons_self ..⟩
      · rw [freed_envs_ne het, List.mem_cons, ← hall e]
        exact ⟨fun hin => hin.resolve_left het, .inr⟩
  · rw [forget_envs] at he ⊢
    by_cases het : e = t
    · rw [het, freed_envs_self] at he
      exact absurd rfl he
    · rw [freed_envs_ne het] at he ⊢
      exact h.ids e he
  · have hcur : s.curenv c = some e := freed_curenv ▸ forget_curenv he
    have het : e ≠ t := by
      rintro rfl
      rw [forget, if_pos (freed_curenv.trans hcur), Kernel.setCurenv_curenv_self] at he
      cases he
    rw [forget_envs, freed_envs_ne het]
    exact h.own e hcur

theorem micro (h : Tabled c s) (hm : Micro c a s s') : Tabled c s' := by
  cases hm with
  | start =>
      exact h.of_eq rfl (fun e he => .inl (started_curenv.symm.trans he)) (fun _ => rfl)
        (fun _ => rfl) fun _ => Iff.rfl
  | pageNew | pageShare | pageDrop | kstore =>
      exact h.of_eq rfl (fun _ he => .inl he) (fun _ => rfl) (fun _ => rfl) fun _ => Iff.rfl
  | save | ret | redirect | ipcPerm | recving | priority | upcall | entry =>
      exact h.modEnv (fun _ => rfl) (fun _ => rfl) (.inl rfl)
  | dying hrun _ =>
      refine h.modEnv (fun _ => rfl) (fun _ => rfl) (.inr ⟨EnvStatus.noConfusion, ?_⟩)
      rw [hrun]
      exact EnvStatus.noConfusion
  | status _ htarget hst =>
      refine h.modEnv (fun _ => rfl) (fun _ => rfl) (.inr ⟨?_, h.ne_free_of_target htarget⟩)
      rcases hst with rfl | rfl <;> exact EnvStatus.noConfusion
  | deliver _ htarget _ =>
      exact h.modEnv (fun _ => rfl) (fun _ => rfl)
        (.inr ⟨EnvStatus.noConfusion, h.ne_free_of_target htarget⟩)
  | block hcur _ | sleep hcur _ =>
      exact h.modEnv (fun _ => rfl) (fun _ => rfl) (.inr ⟨EnvStatus.noConfusion, h.own _ hcur⟩)
  | tick =>
      refine h.of_eq rfl (fun _ he => .inl he) (fun _ => wakeup_proj Env.envLink fun _ => rfl)
        (fun _ => wakeup_proj Env.envId fun _ => rfl) fun _ => wakeup_free_iff
  | create halloc => exact h.takes (.create halloc) rfl
  | exofork hcur halloc => exact h.takes (.exofork hcur halloc) rfl
  | thread hcur h₁ h₂ h₃ h₄ h₅ h₆ => exact h.takes (.thread hcur h₁ h₂ h₃ h₄ h₅ h₆) rfl
  | freeThread _ htarget _ hfree =>
      obtain ⟨pgdir, m, -, -, rfl⟩ := envFreeThread_eq_ok hfree
      exact h.freed (h.ne_free_of_target htarget)
  | freeProcess _ htarget _ _ hfree =>
      obtain ⟨pgdir, m₁, m, -, -, -, rfl⟩ := envFreeProcess_eq_ok hfree
      exact h.freed (h.ne_free_of_target htarget)

/-- A CPU leaves the kernel with an environment that was not free. -/
theorem ran (h : Tabled c s) (hran : Ran c s e s') (he : (s.envs e).envStatus ≠ .free) :
    Tabled c s' := by
  refine h.of_eq hran.envFreeList (fun t ht => .inr ?_)
    (fun _ => hran.proj Env.envLink fun _ _ _ _ => rfl)
    (fun _ => hran.proj Env.envId fun _ _ _ _ => rfl) fun t => ?_
  · rw [hran.curenv] at ht
    exact Option.some.inj ht ▸ he
  · rw [hran.envs t]
    dsimp only
    split
    · next hte => exact ⟨EnvStatus.noConfusion, fun hst => absurd (hte ▸ hst) he⟩
    · split
      · next hpre =>
          rw [hpre.2]
          exact ⟨EnvStatus.noConfusion, EnvStatus.noConfusion⟩
      · exact Iff.rfl

theorem sameButWait (h : Tabled c s) (hsame : SameButWait s s') : Tabled c s' := by
  refine h.of_eq hsame.envFreeList (fun e he => .inl ?_) (fun e => ?_) (fun e => ?_) fun e => ?_
  · rwa [Kernel.curenv, hsame.cpus] at he
  all_goals rw [hsame.envs e]

theorem departs (h : Tabled c s) (hdep : Departs c L s s') : Tabled c s' := by
  rcases hdep.cases with hdec | ⟨e, hcur, hran⟩
  · cases hdec with
    | ran hsame he hran =>
        refine (h.sameButWait hsame).ran hran ?_
        rw [hsame.envs]
        rcases he with he | ⟨-, he⟩
        · rw [he]
          exact EnvStatus.noConfusion
        · rw [he]
          exact EnvStatus.noConfusion
    | halted hsame =>
        refine (h.sameButWait hsame).of_eq rfl (fun e he => ?_) (fun _ => rfl) (fun _ => rfl)
          fun _ => Iff.rfl
        rw [halted_curenv_self] at he
        cases he
  · exact h.ran hran (h.own e hcur)

theorem exit {x : Exit} (h : Tabled c s) (hpath : x.Path c L s) (hx : x = .leave s') :
    Tabled c s' :=
  hpath.invariant hx h (fun _ _ _ _ hm hs => hs.micro hm) fun _ _ hdep hs => hs.departs hdep

theorem step (h : Tabled c s) (hstep : CpuStep c s ev s') : Tabled c s' := by
  obtain ⟨⟨henabled, hexec⟩, hby⟩ := hstep
  cases ev with
  | boot binary =>
      obtain ⟨e, -, hpath⟩ := envCreate_path (c := c) (envCreate_eq_ok hexec)
      exact hpath.invariant h fun _ _ _ _ hm hs => hs.micro hm
  | start d =>
      obtain rfl := hby
      exact h.exit (mpMain_path s) hexec
  | timer d =>
      obtain rfl := hby
      exact h.exit (trapHalted_path s) hexec
  | trap d inp tf =>
      obtain rfl := hby
      exact h.exit (trap_path s inp tf) hexec
  | store d va byte =>
      obtain ⟨m, rfl⟩ := store_eq_setMem hexec
      exact h.of_eq rfl (fun _ he => .inl he) (fun _ => rfl) (fun _ => rfl) fun _ => Iff.rfl

end Tabled

/-! ## Runs -/

theorem tabled_booted (h : Booted s) : Tabled c s where
  freeList := by
    refine ⟨List.finRange NENV, ?_, List.nodup_finRange _, fun e => ?_⟩
    · have hpos : 0 < NENV := Nat.succ_pos _
      have hhead : s.envFreeList = some ⟨0, hpos⟩ := h.envFreeList
      rw [hhead]
      exact Chain.finRange hpos fun e => by rw [h.envs]
    · rw [h.envs]
      exact ⟨fun _ => rfl, fun _ => List.mem_finRange e⟩
  ids e he := by
    rw [h.envs] at he
    exact absurd rfl he
  own e he := by
    rw [Kernel.curenv, (h.cpus c).2] at he
    cases he

theorem tabled_of_run {evs : List Event} (hboot : Booted s₀) (hrun : Trace (CpuStep c) s₀ evs s) :
    Tabled c s :=
  hrun.invariant (tabled_booted hboot) fun _ _ _ hs hstep => hs.step hstep

/-- What the functions of `kern/env.c` make of the table. -/
structure TableIntegrity (s : Kernel) : Prop extends TableInv s where
  distinct : ∀ e t, (s.envs e).envStatus ≠ .free → (s.envs t).envStatus ≠ .free →
    (s.envs e).envId = (s.envs t).envId → e = t
  lookup : ∀ c envid e, envid ≠ 0 → (envid2env c s envid false = .ok e ↔
    (s.envs e).envStatus ≠ .free ∧ (s.envs e).envId = envid)
  exhausted : ∀ parentId, (∃ s', envAlloc s parentId = .ok (.error (-E_NO_FREE_ENV), s')) ↔
    ∀ e, (s.envs e).envStatus ≠ .free
  failed : ∀ parentId r s', envAlloc s parentId = .ok (.error r, s') → s' = s

/-- On one CPU the table is intact in every reachable state, and all the time in between: in
every state `s₁` that the kernel passes through from there. -/
theorem table_integrity {evs : List Event} (hboot : Booted s₀) (hrun : Trace (CpuStep c) s₀ evs s)
    (hpath : Path c (fun _ => True) s s₁) : TableIntegrity s₁ := by
  have hinv : Tabled c s₁ :=
    hpath.invariant (tabled_of_run hboot hrun) fun _ _ _ _ hm hs => hs.micro hm
  exact ⟨hinv.toTableInv, fun _ _ he ht hid => hinv.id_inj he ht hid,
    fun _ _ _ hne => hinv.envid2env_iff hne, hinv.envAlloc_noFreeEnv_iff,
    fun _ _ _ halloc => envAlloc_error halloc⟩

/-- A process creates a child and a thread, and destroys the child. -/
def childDestroyed : List Event :=
  [.boot emptyImage, .start 0, sysTrap 0 .exofork 0 0 0 0 0,
    sysTrap 0 .threadCreate 0x800020 0xeebfe000 0 0 0, sysTrap 0 .envDestroy 0x1001 0 0 0 0]

/-- After that run slot 1 heads the list, and slot 2 holds the thread. -/
theorem table_integrity_childDestroyed : ∃ s,
    Trace (CpuStep 0) (bootedMachine .priorities 64) childDestroyed s ∧
      (s.envFreeList = some 1 ∧ (s.envs 1).envLink = some 3 ∧ (s.envs 2).envId = 0x1002) ∧
      TableIntegrity s := by
  have heval : (replay (fun _ ev => ev.By 0) (bootedMachine .priorities 64) childDestroyed).any
      (fun s => decide (s.envFreeList = some 1 ∧ (s.envs 1).envLink = some 3 ∧
        (s.envs 2).envId = 0x1002)) = true := by
    decide +kernel
  obtain ⟨s, hrun, hs⟩ := exists_trace _ _ _ _ heval
  have hrun : Trace (CpuStep 0) (bootedMachine .priorities 64) childDestroyed s := hrun
  have hboot : Booted (bootedMachine .priorities 64) :=
    booted_bootedMachine .priorities (by decide) (by decide)
  have hpath : Path 0 (fun _ => True) s s := .refl
  exact ⟨s, hrun, decide_eq_true_iff.mp hs, table_integrity hboot hrun hpath⟩

end JosSched
