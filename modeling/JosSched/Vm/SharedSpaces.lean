import JosSched.Smp.Counted
import JosSched.Kern.EnvTable
import JosSched.Sched.Priority

/-!
# Address spaces with threads

`sys_thread_create` swaps the page directory of the new environment for its creator's, and
`env_free` takes the threads of a process down before the process.  On one CPU owner, type, page
directory and `pp_ref` stay in step through all of it, in every order of calls, exits and faults
(`spaces_shared`): a thread has a process with its page directory, the directory is counted once
for each of them, freeing a thread leaves the address space alone, and freeing the process gives
the directory back once.

The exceptions are a `sys_page_map` with permission bits that make the entry refer to another frame
(`shared_directory_dropped`), and a thread that destroys its own process, which it can only do when
the ids have gone round: `env_free` then frees the thread under which it runs, and never returns to
the process (`envFree_ne_ok`).
-/

open Except

namespace JosSched

variable {c : Cpu} {pool : Set Ppn} {lost : Set (Ppn × Use)} {s s₀ s₁ s' : Kernel} {a : Act}
  {ev : Event} {use : Ppn → Use} {base : Ppn → ℕ} {e o t cur : Slot} {d : Ppn} {m : Mem}
  {inp : Input} {tf : Trapframe} {L : Act → Prop}

/-- What a call that maps pages may do, allocates no environment. -/
theorem Allowed.not_allocates (h : Allowed c s tf a) (hcall : Delicate tf) : ¬ a.Allocates := by
  intro halloc
  have hno : ∀ {no}, Calls tf no → no = .pageAlloc ∨ no = .pageMap ∨ no = .ipcTrySend ∨
      no = .envSetStatus := fun hno => by
    rcases hcall with h | h | h | h
    · exact .inl (hno.unique h)
    · exact .inr (.inl (hno.unique h))
    · exact .inr (.inr (.inl (hno.unique h)))
    · exact .inr (.inr (.inr (hno.unique h)))
  cases h with
  | destroy _ hdestroy => cases a <;> first | exact hdestroy | exact halloc
  | exofork hcall => simpa using hno hcall
  | thread hcall => simpa using hno hcall
  | _ => exact halloc

/-- No trap makes the first environments. -/
theorem Allowed.ne_entry {eip : Word} (h : Allowed c s tf a) : a ≠ .entry e eip := by
  rintro rfl
  cases h with
  | destroy _ hdestroy => exact hdestroy

/-! ## Processes do not share page directories -/

/-- No two processes have one page directory. -/
def OwnSpaces (s : Kernel) : Prop :=
  ∀ e t d, s.dirs e = some d → s.dirs t = some d → (s.envs e).envType = .user →
    (s.envs t).envType = .user → e = t

namespace OwnSpaces

/-- No environment becomes a process with a page directory. -/
theorem mono (h : OwnSpaces s) (hold : ∀ e d, s'.dirs e = some d → (s'.envs e).envType = .user →
    s.dirs e = some d ∧ (s.envs e).envType = .user) : OwnSpaces s' := by
  intro e t d he ht heuser htuser
  obtain ⟨he', heuser'⟩ := hold e d he heuser
  obtain ⟨ht', htuser'⟩ := hold t d ht htuser
  exact h e t d he' ht' heuser' htuser'

theorem of_eq (h : OwnSpaces s) (hdirs : ∀ e, (s'.envs e).envPgdir = (s.envs e).envPgdir)
    (htype : ∀ e, (s'.envs e).envType = (s.envs e).envType) : OwnSpaces s' :=
  h.mono fun e _ hd huser => ⟨(hdirs e).symm.trans hd, (htype e).symm.trans huser⟩

theorem modEnv (h : OwnSpaces s) {f : Env → Env}
    (hf : (f (s.envs t)).envPgdir = (s.envs t).envPgdir)
    (htype : (f (s.envs t)).envType = (s.envs t).envType) : OwnSpaces (s.modEnv t f) := by
  refine h.of_eq (fun e => ?_) fun e => ?_ <;> by_cases het : e = t
  · rw [het, Kernel.modEnv_self, hf]
  · rw [Kernel.modEnv_ne _ _ het]
  · rw [het, Kernel.modEnv_self, htype]
  · rw [Kernel.modEnv_ne _ _ het]

/-- The page directory of a new environment was a free frame. -/
theorem envAlloc {parentId : Word} (h : OwnSpaces s) (hm : Mapped pool lost s use)
    (hfree : (s.envs e).envStatus = .free)
    (halloc : JosSched.envAlloc s parentId = .ok (.ok e, s₁)) : OwnSpaces s₁ := by
  obtain ⟨p, hp, -, hdirs, -, -⟩ := hm.envAlloc hfree halloc
  have hnot : ∀ t, s.dirs t ≠ some p := fun t ht => by
    have hdir := hm.layout.holders t p ht
    rw [hp] at hdir
    cases hdir
  have hself : s₁.dirs e = some p := by rw [hdirs, Function.update_self]
  have hother : ∀ {t}, t ≠ e → s₁.dirs t = s.dirs t := fun ht => by
    rw [hdirs, Function.update_of_ne ht]
  intro x y d hx hy hxuser hyuser
  by_cases hxe : x = e
  · by_cases hye : y = e
    · rw [hxe, hye]
    · rw [hxe, hself] at hx
      rw [hother hye, ← hx] at hy
      exact absurd hy (hnot y)
  · by_cases hye : y = e
    · rw [hye, hself] at hy
      rw [hother hxe, ← hy] at hx
      exact absurd hx (hnot x)
    · rw [hother hxe] at hx
      rw [hother hye] at hy
      rw [envAlloc_envs_ne halloc hxe] at hxuser
      rw [envAlloc_envs_ne halloc hye] at hyuser
      exact h x y d hx hy hxuser hyuser

theorem freed (h : OwnSpaces s) : OwnSpaces (forget c (JosSched.freed c s t m) t) := by
  refine h.mono fun e d hd huser => ?_
  rw [Mapped.dirs_freed] at hd
  by_cases het : e = t
  · rw [het, Function.update_self] at hd
    cases hd
  · rw [Function.update_of_ne het] at hd
    rw [forget_envs, freed_envs_ne het] at huser
    exact ⟨hd, huser⟩

/-- Only allocation gives out page directories. -/
theorem quiet (h : OwnSpaces s) (hm : Micro c a s s') (ha : ¬ a.Allocates) : OwnSpaces s' := by
  cases hm with
  | start | pageNew | pageShare | pageDrop | kstore => exact h.of_eq (fun _ => rfl) fun _ => rfl
  | save | ret | redirect | dying | status | deliver | ipcPerm | recving | block | sleep | priority
  | upcall => exact h.modEnv rfl rfl
  | tick =>
      exact h.of_eq (fun _ => wakeup_proj Env.envPgdir fun _ => rfl)
        fun _ => wakeup_proj Env.envType fun _ => rfl
  | freeThread _ _ _ hfree =>
      obtain ⟨pgdir, m, -, -, rfl⟩ := envFreeThread_eq_ok hfree
      exact h.freed
  | freeProcess _ _ _ _ hfree =>
      obtain ⟨pgdir, m₁, m, -, -, -, rfl⟩ := envFreeProcess_eq_ok hfree
      exact h.freed
  | create | exofork | thread | entry => exact absurd trivial ha

theorem micro (h : OwnSpaces s) (hm : Mapped pool lost s use) (hslots : FreeSlots s)
    (hstep : Micro c a s s') (ha : ∀ e eip, a ≠ .entry e eip) : OwnSpaces s' := by
  by_cases halloc : a.Allocates
  · cases hstep with
    | create halloc =>
        obtain ⟨p, m, hfree, -⟩ := envAlloc_eq_ok halloc
        exact h.envAlloc hm (hslots.head hfree) halloc
    | exofork _ halloc =>
        obtain ⟨p, m, hfree, -⟩ := envAlloc_eq_ok halloc
        exact (h.envAlloc hm (hslots.head hfree) halloc).modEnv rfl rfl
    | @thread _ _ s₂ t _ _ _ _ _ _ _ _ halloc _ hdrop _ =>
        obtain ⟨m, -, rfl⟩ := dropPgdir_eq_ok hdrop
        -- the new environment is no process
        refine h.mono fun e d hd huser => ?_
        by_cases het : e = t
        · rw [het, Kernel.modEnv_self] at huser
          cases huser
        · rw [Kernel.dirs] at hd
          rw [Kernel.modEnv_ne _ _ het, Kernel.setMem_envs, Kernel.setMem_envs,
            Kernel.modEnv_ne _ _ het, envAlloc_envs_ne halloc het] at hd huser
          exact ⟨hd, huser⟩
    | entry => exact absurd rfl (ha _ _)
    | _ => exact absurd halloc id
  · exact h.quiet hstep halloc

theorem departs (h : OwnSpaces s) (hdep : Departs c L s s') : OwnSpaces s' :=
  h.of_eq (fun _ => hdep.departed.proj Env.envPgdir fun _ _ _ _ _ => rfl)
    fun _ => hdep.departed.proj Env.envType fun _ _ _ _ _ => rfl

/-! ### Steps -/

theorem trap (h : OwnSpaces s) (hm : Mapped pool lost s use) (hex : Exclusive s)
    (hcur : s.curenv c = some cur) (hyg : (Event.trap c inp tf).Hygienic s)
    (htrap : JosSched.trap c s inp tf = .leave s') : OwnSpaces s' := by
  by_cases hcall : (s.envs cur).envStatus ≠ .dying ∧ Delicate tf
  · refine (trap_path s inp tf).invariant htrap h (fun a s₁ s₂ ha hstep h₁ => ?_)
      fun _ _ hdep h₁ => h₁.departs hdep
    exact h₁.quiet hstep (ha.not_allocates hcall.2)
  · obtain ⟨s₁, use', h₁, hdep, -, -⟩ := hm.trap_invariant (J := OwnSpaces) hex hcur hyg
      (not_and.mp hcall) h (fun ha _ hstep hcustody hm₁ h₁ =>
        h₁.micro hm₁ hcustody.freeSlots hstep fun _ _ => ha.ne_entry) htrap
    exact h₁.departs hdep

theorem envCreate {binary : Image} (h : OwnSpaces s) (hm : Mapped pool lost s use)
    (hslots : FreeSlots s) (hcreate : JosSched.envCreate s binary = .ok s') : OwnSpaces s' := by
  obtain ⟨use', -, h'⟩ := hm.envCreate_invariant (I := OwnSpaces) hslots hcreate
    (fun hfree halloc => h.envAlloc hm hfree halloc)
    (fun _ => ⟨fun _ _ _ _ h₁ => h₁, fun _ _ _ h₁ => h₁⟩)
    fun hf htype h₁ => h₁.modEnv (hf _) htype
  exact h'

theorem step (h : OwnSpaces s) (hs : Resting pool lost s) (hstep : Step s ev s')
    (hyg : ev.Hygienic s) : OwnSpaces s' := by
  obtain ⟨use, hm⟩ := hs.mapped
  obtain ⟨henabled, hexec⟩ := hstep
  cases ev with
  | boot binary => exact h.envCreate hm hs.exclusive.freeSlots (envCreate_eq_ok hexec)
  | start c =>
      exact (mpMain_path s).invariant hexec h
        (fun _ _ _ ha hstep h₁ => h₁.quiet hstep ha.neutral.1) fun _ _ hdep h₁ => h₁.departs hdep
  | timer c =>
      exact (trapHalted_path s).invariant hexec h
        (fun _ _ _ ha hstep h₁ => h₁.quiet hstep ha.neutral.1) fun _ _ hdep h₁ => h₁.departs hdep
  | trap c inp tf =>
      obtain ⟨cur, hcur⟩ := Option.isSome_iff_exists.mp henabled.1.2
      exact h.trap hm hs.exclusive hcur hyg hexec
  | store c va byte =>
      obtain ⟨m, rfl⟩ := store_eq_setMem hexec
      exact h

end OwnSpaces

/-! ## Processes and their threads -/

/-- Every thread belongs to a process in use and has its page directory; no two processes have one
page directory. -/
structure Families (s : Kernel) : Prop where
  owned : ∀ t, (s.envs t).envType = .thread → (s.envs t).envStatus ≠ .free → ∃ o, Owns s o t
  apart : OwnSpaces s
  distinct : ∀ e t, (s.envs e).envStatus ≠ .free → (s.envs t).envStatus ≠ .free →
    (s.envs e).envId = (s.envs t).envId → e = t
  unused : ∀ e, (s.envs e).envStatus = .free → s.dirs e = none

namespace Families

theorem inUse (h : Families s) (hd : s.dirs e = some d) : (s.envs e).envStatus ≠ .free := by
  intro hst
  rw [h.unused e hst] at hd
  cases hd

/-- The page directory of a process is that of its threads, and of nobody else. -/
theorem dirs_iff (h : Families s) (huser : (s.envs o).envType = .user) (hd : s.dirs o = some d) :
    s.dirs e = some d ↔ e = o ∨ isThreadOf s o e = true := by
  have hlive := h.inUse hd
  constructor
  · intro he
    cases htype : (s.envs e).envType with
    | user => exact .inl (h.apart e o d he hd htype huser)
    | thread =>
        obtain ⟨o', ho'⟩ := h.owned e htype (h.inUse he)
        obtain rfl := h.apart o' o d (ho'.shared.trans he) hd ho'.user huser
        refine .inr (isThreadOf_iff.mpr ⟨fun heq => ?_, htype, h.inUse he, ho'.parent.symm⟩)
        rw [heq, huser] at htype
        cases htype
  · rintro (rfl | hthread)
    · exact hd
    · obtain ⟨-, htype, hst, hparent⟩ := isThreadOf_iff.mp hthread
      obtain ⟨o', ho'⟩ := h.owned e htype hst
      obtain rfl := h.distinct o' o ho'.inUse hlive (ho'.parent.trans hparent)
      exact ho'.shared.symm.trans hd

/-- The environments that use the page directory of a process. -/
theorem refCount_dirs (h : Families s) (huser : (s.envs o).envType = .user)
    (hd : s.dirs o = some d) : refCount s.dirs d = 1 + {t | isThreadOf s o t = true}.ncard := by
  have hset : {t | s.dirs t = some d} = insert o {t | isThreadOf s o t = true} :=
    Set.ext fun e => h.dirs_iff huser hd
  have hnot : o ∉ {t | isThreadOf s o t = true} := fun hin => (isThreadOf_iff.mp hin).1 rfl
  rw [refCount, hset, Set.ncard_insert_of_notMem hnot (Set.toFinite _), Nat.add_comm]

end Families

/-! ## `env_free` on a thread -/

/-- An owner drops its reference to a page that somebody else owns as well. -/
theorem Accurate.letGo {owned : Ppn → ℕ} {pp : Ppn} (h : Accurate m (holding owned pp) use)
    (hpos : 0 < owned pp) : Accurate (decref m pp) owned use := by
  have hself := h.counted pp
  have hone : (1 : BitVec 16).toNat = 1 := rfl
  rw [holding, if_pos rfl] at hself
  have hne : m.ref pp ≠ 1 := fun heq => by
    rw [heq, hone] at hself
    omega
  have hlinks : links (decref m pp) use = links m use := by
    funext x
    simp only [links, load_decref]
  refine h.change ?_ npages_decref (fun q hq => (link_decref_shared hne).trans (h.unlinked q hq))
    (fun _ => .inl rfl) (fun q hdata hfree => ?_) (fun y => .inl load_decref) (fun q hq _ => ?_)
    (fun q => ?_) fun q hq => ?_
  · obtain ⟨l, hl, hnodup, hmem⟩ := h.freeList
    refine ⟨l, ?_, hnodup, hmem⟩
    have hsame : SameList m (decref m pp) := by
      unfold decref
      rw [if_neg hne]
      exact .setRef
    exact hl.congr hsame
  · rw [hdata] at hfree
    cases hfree
  · refine hq.congr npages_decref id fun hq => ?_
    by_cases hqp : q = pp
    · rwa [hqp]
    · rwa [holding, if_neg hqp, Nat.add_zero] at hq
  · rw [hlinks]
    by_cases hqp : q = pp
    · rw [hqp, ref_decref_self, BitVec.toNat_sub_of_le (by rw [BitVec.le_def, hone]; omega), hone]
      omega
    · have hcount := h.counted q
      rw [holding, if_neg hqp, Nat.add_zero] at hcount
      rw [ref_decref_ne hqp, hcount]
  · have hzero := h.unowned q hq
    rw [holding] at hzero
    omega

theorem freed_dirs {t : Slot} : (freed c s t m).dirs = Function.update s.dirs t none := by
  have hdirs : (forget c (freed c s t m) t).dirs = Function.update s.dirs t none :=
    Mapped.dirs_freed
  rw [← hdirs]
  funext e
  rw [Kernel.dirs, Kernel.dirs, forget_envs]

namespace RightCounts

/-- A thread is freed: its process keeps the address space. -/
theorem freeThread (h : RightCounts s base use) (hd : s.dirs t = some d) (ho : s.dirs o = some d)
    (hne : o ≠ t) : envFreeThread c s t = .ok (freed c s t (decref s.mem d)) ∧
      RightCounts (freed c s t (decref s.mem d)) base use := by
  obtain ⟨hdir, hbase⟩ := h.dirs t d hd
  have hunlinked := h.accurate.unlinked d (by rw [hdir]; decide)
  have hold : ∀ q, base q + refCount s.dirs q =
      holding (fun q => base q + refCount (freed c s t (decref s.mem d)).dirs q) d q := fun q => by
    have hcount := refCount_update s.dirs t none q
    rw [hd, if_neg (Option.some_ne_none q).symm, Nat.add_zero] at hcount
    rw [freed_dirs, holding, ← hcount, Nat.add_assoc]
    simp only [Option.some.injEq, eq_comm]
  have hpos : 0 < base d + refCount (freed c s t (decref s.mem d)).dirs d := by
    refine Nat.lt_of_lt_of_le (refCount_pos (a := o) ?_) (Nat.le_add_left ..)
    rw [freed_dirs, Function.update_of_ne hne, ho]
  have haccurate := h.accurate
  rw [funext hold] at haccurate
  refine ⟨envFreeThread_eq hd (pageDecref_eq hunlinked), ?_, fun e d' hd' => ?_, h.tables, ?_⟩
  · exact haccurate.letGo hpos
  · rw [freed_dirs] at hd'
    by_cases het : e = t
    · rw [het, Function.update_self] at hd'
      cases hd'
    · rw [Function.update_of_ne het] at hd'
      exact h.dirs e d' hd'
  · intro x q hx hlink
    refine h.pages x q hx ?_
    rwa [links, freed_mem, load_decref] at hlink

end RightCounts

/-! ## `env_free` on a process -/

theorem freed_dirs_ne {t : Slot} (hne : e ≠ t) : (freed c s t m).dirs e = s.dirs e := by
  rw [freed_dirs, Function.update_of_ne hne]

/-- `env_free(o)` is sweeping the table, with `rest` still to be visited. -/
structure Reaping (c : Cpu) (s : Kernel) (base : Ppn → ℕ) (use : Ppn → Use) (o : Slot)
    (rest : List Slot) (s₁ : Kernel) : Prop where
  counts : RightCounts s₁ base use
  curenv : s₁.curenv c = s.curenv c
  nodup : rest.Nodup
  kept : ∀ t, t ∈ rest ∨ isThreadOf s o t = false → s₁.envs t = s.envs t
  gone : ∀ t, t ∉ rest → isThreadOf s o t = true →
    (s₁.envs t).envStatus = .free ∧ s₁.dirs t = none

theorem isThreadOf_self : isThreadOf s o o = false := by
  simp [isThreadOf]

theorem isThreadOf_congr (ho : s₁.envs o = s.envs o) (ht : s₁.envs t = s.envs t) :
    isThreadOf s₁ o t = isThreadOf s o t := by
  unfold isThreadOf
  rw [ho, ht]

/-- `env_free` on a process frees its threads and gives back its page directory. -/
structure ProcessGone (s : Kernel) (o : Slot) (d : Ppn) (s' : Kernel) : Prop where
  freed : ∀ t, t = o ∨ isThreadOf s o t = true → (s'.envs t).envStatus = .free
  others : ∀ t, t ≠ o → isThreadOf s o t = false → s'.envs t = s.envs t
  unused : ∀ t, s'.dirs t ≠ some d
  before : ∀ l, FreeList s.mem l → d ∉ l
  after : ∃ l, FreeList s'.mem l ∧ l.count d = 1

namespace Families

variable (h : Families s) (hcounts : RightCounts s base use)
  (huser : (s.envs o).envType = .user) (hd : s.dirs o = some d)
  (hrun : ∀ t, isThreadOf s o t = true → (s.envs t).envStatus ≠ .running ∧ s.curenv c ≠ some t)

include h huser hd hrun in
theorem sweep_step {rest : List Slot} (hs : Reaping c s base use o (t :: rest) s₁) :
    (if isThreadOf s₁ o t then envDestroyThread c s₁ t else .ok s₁ : Except Exit Kernel).Ensures
      (Reaping c s base use o rest) fun _ => False := by
  obtain ⟨hnot, hnodup⟩ := List.nodup_cons.mp hs.nodup
  have howner := hs.kept o (.inr isThreadOf_self)
  have hself := hs.kept t (.inl List.mem_cons_self)
  rw [isThreadOf_congr howner hself]
  refine ensures_ite.mpr ⟨fun hthread => ?_, fun hthread => ?_⟩
  · obtain ⟨hstatus, hcur⟩ := hrun t hthread
    have hto : o ≠ t := (isThreadOf_iff.mp hthread).1.symm
    have hdo : s₁.dirs o = some d := (congrArg Env.envPgdir howner).trans hd
    have hdt : s₁.dirs t = some d :=
      (congrArg Env.envPgdir hself).trans ((h.dirs_iff huser hd).mpr (.inr hthread))
    -- the thread gives up its reference and keeps the directory of the owner in place
    obtain ⟨hfree, hcounts'⟩ := hs.counts.freeThread (c := c) hdt hdo hto
    unfold envDestroyThread
    rw [hself, if_neg fun hand => hstatus hand.1, hfree]
    dsimp only [bind, Except.bind]
    rw [freed_curenv, hs.curenv, if_neg hcur]
    refine ensures_ok.mpr ⟨hcounts', freed_curenv.trans hs.curenv, hnodup, fun e he => ?_,
      fun e he hthread' => ?_⟩
    · have het : e ≠ t := by
        rintro rfl
        rcases he with he | he
        · exact hnot he
        · rw [hthread] at he
          cases he
      rw [freed_envs_ne het]
      exact hs.kept e (he.imp_left (List.mem_cons_of_mem _))
    · by_cases het : e = t
      · rw [het, freed_envs_self, freed_dirs, Function.update_self]
        exact ⟨rfl, rfl⟩
      · rw [freed_envs_ne het, freed_dirs_ne het]
        exact hs.gone e (fun hin => he ((List.mem_cons.mp hin).resolve_left het)) hthread'
  · refine ensures_ok.mpr ⟨hs.counts, hs.curenv, hnodup, fun e he => ?_, fun e he hthread' => ?_⟩
    · exact hs.kept e (he.imp_left (List.mem_cons_of_mem _))
    · have het : e ≠ t := fun heq => hthread (heq ▸ hthread')
      exact hs.gone e (fun hin => he ((List.mem_cons.mp hin).resolve_left het)) hthread'

include h hcounts huser hd hrun in
theorem sweep : ∃ s₁, envFreeThreads c s o = .ok s₁ ∧ Reaping c s base use o [] s₁ := by
  refine Ensures.exists_ok ?_
  unfold envFreeThreads
  refine Ensures.foldlM_rest (I := Reaping c s base use o)
    (fun t rest s₁ hs => h.sweep_step huser hd hrun hs) _ s ?_
  exact ⟨hcounts, rfl, List.nodup_finRange _, fun _ _ => rfl,
    fun t ht => absurd (List.mem_finRange t) ht⟩

include h hcounts huser hd hrun in
theorem freeProcess : ∃ s', envFree c s o = .ok s' ∧ ProcessGone s o d s' := by
  obtain ⟨s₁, hsweep, hs₁⟩ := h.sweep hcounts huser hd hrun
  have howner := hs₁.kept o (.inr isThreadOf_self)
  have hd₁ : s₁.dirs o = some d := (congrArg Env.envPgdir howner).trans hd
  have hkept : ∀ {t}, isThreadOf s o t = false → s₁.envs t = s.envs t :=
    fun ht => hs₁.kept _ (.inr ht)
  have hgone : ∀ {t}, isThreadOf s o t = true → (s₁.envs t).envStatus = .free ∧ s₁.dirs t = none :=
    fun ht => hs₁.gone _ List.not_mem_nil ht
  -- the threads are gone, so the owner is the last that uses the directory
  have halone : ∀ t, s₁.dirs t = some d → t = o := fun t ht => by
    cases hthread : isThreadOf s o t with
    | true =>
        rw [(hgone hthread).2] at ht
        cases ht
    | false =>
        have hdt : s.dirs t = some d := (congrArg Env.envPgdir (hkept hthread)).symm.trans ht
        refine ((h.dirs_iff huser hd).mp hdt).resolve_right ?_
        rw [hthread]
        exact Bool.false_ne_true
  obtain ⟨m₁, m', hunmap, hdec, hfreed⟩ := hs₁.counts.space_freed hd₁ halone
  have hdir := (hcounts.dirs o d hd).1
  refine ⟨freed c s₁ o m', ?_, fun t ht => ?_, fun t hto ht => ?_, fun t ht => ?_, fun l hl => ?_,
    ?_⟩
  · unfold envFree
    rw [if_neg (by rw [huser]; decide), hsweep]
    exact envFreeProcess_eq hd₁ hunmap hdec
  · by_cases hto : t = o
    · rw [hto, freed_envs_self]
    · rw [freed_envs_ne hto]
      exact (hgone (ht.resolve_left hto)).1
  · rw [freed_envs_ne hto]
    exact hkept ht
  · rw [freed_dirs] at ht
    by_cases hto : t = o
    · rw [hto, Function.update_self] at ht
      cases ht
    · rw [Function.update_of_ne hto] at ht
      exact hto (halone t ht)
  · exact hcounts.accurate.not_mem_of_use hl (by rw [hdir]; decide)
  · obtain ⟨l, hl, -⟩ := hs₁.counts.accurate.freeList
    obtain ⟨l', hl', hnodup, hmem⟩ := hfreed.freeList l hl
    exact ⟨l', hl', List.count_eq_one_of_mem hnodup ((hmem d).mpr (.inr (.inl rfl)))⟩

end Families

/-- The thread that executes `env_free` on its own process is freed itself, and the sweep never goes
on. -/
theorem envFreeThreads_ne_ok (hthread : isThreadOf s o t = true) (hcur : s.curenv c = some t) :
    envFreeThreads c s o ≠ .ok s' := by
  have hfold : ∀ (l : List Slot) (s₁ : Kernel), t ∈ l → s₁.envs t = s.envs t →
      s₁.envs o = s.envs o → s₁.curenv c = some t → l.foldlM (fun s t =>
        if isThreadOf s o t then envDestroyThread c s t else .ok s) s₁ ≠ .ok s' := by
    intro l
    induction l with
    | nil => exact fun _ hin => absurd hin List.not_mem_nil
    | cons x l ih =>
        intro s₁ hin hself howner hcur₁ hok
        rw [List.foldlM_cons] at hok
        obtain ⟨s₂, hstep, hok⟩ := bind_eq_ok.mp hok
        by_cases hxt : x = t
        · subst hxt
          rw [isThreadOf_congr howner hself, if_pos hthread] at hstep
          unfold envDestroyThread at hstep
          rw [if_neg fun hand => hand.2 hcur₁] at hstep
          obtain ⟨s₃, hfree, hstep⟩ := bind_eq_ok.mp hstep
          obtain ⟨pgdir, m, -, -, rfl⟩ := envFreeThread_eq_ok hfree
          rw [if_pos (freed_curenv.trans hcur₁)] at hstep
          cases hstep
        · have hin' := (List.mem_cons.mp hin).resolve_left fun heq => hxt heq.symm
          split at hstep
          · next hx =>
              obtain ⟨hxo, htype, hst, -⟩ := isThreadOf_iff.mp hx
              obtain ⟨-, hsame, hothers, -⟩ := (envDestroyThread_path (c := c) (L := fun _ => True)
                htype hst trivial trivial).of_ok s₂ hstep
              refine ih s₂ hin' ?_ ?_ (hsame.curenv.trans hcur₁) hok
              · rw [hothers t fun heq => hxt heq.symm, hself]
              · rw [hothers o hxo.symm, howner]
          · obtain rfl := Except.ok.inj hstep
            exact ih s₁ hin' hself howner hcur₁ hok
  exact hfold _ s (List.mem_finRange t) rfl rfl hcur

theorem envFree_ne_ok (huser : (s.envs o).envType = .user) (hthread : isThreadOf s o t = true)
    (hcur : s.curenv c = some t) : envFree c s o ≠ .ok s' := by
  intro hok
  unfold envFree at hok
  rw [if_neg (by rw [huser]; decide)] at hok
  obtain ⟨s₁, hsweep, -⟩ := bind_eq_ok.mp hok
  exact envFreeThreads_ne_ok hthread hcur hsweep

/-- `env_free` on a thread leaves the address space to its process. -/
structure ThreadGone (s : Kernel) (t : Slot) (d : Ppn) (s' : Kernel) : Prop where
  freed : (s'.envs t).envStatus = .free ∧ s'.dirs t = none
  others : ∀ e, e ≠ t → s'.envs e = s.envs e
  translations : ∀ d' va, mmu s'.mem d' va = mmu s.mem d' va
  counted : (s'.mem.ref d).toNat + 1 = (s.mem.ref d).toNat
  freeList : ∀ l, FreeList s.mem l → FreeList s'.mem l

theorem Families.freeThread (h : Families s) (hcounts : RightCounts s base use)
    (htype : (s.envs t).envType = .thread) (hd : s.dirs t = some d) :
    ∃ s', envFree c s t = .ok s' ∧ ThreadGone s t d s' := by
  obtain ⟨o, ho⟩ := h.owned t htype (h.inUse hd)
  have hdo : s.dirs o = some d := ho.shared.trans hd
  have hne : o ≠ t := fun heq => by
    rw [← heq, ho.user] at htype
    cases htype
  obtain ⟨hfree, hcounts'⟩ := hcounts.freeThread (c := c) hd hdo hne
  have hdir := (hcounts.dirs t d hd).1
  have hcard := h.refCount_dirs ho.user hdo
  have hthread : {t | isThreadOf s o t = true}.Nonempty :=
    ⟨t, isThreadOf_iff.mpr ⟨hne.symm, htype, h.inUse hd, ho.parent.symm⟩⟩
  have hpos := (Set.ncard_pos (Set.toFinite _)).mpr hthread
  have href := hcounts.ref_eq hd
  have hone : (1 : BitVec 16).toNat = 1 := rfl
  refine ⟨_, (if_pos htype).trans hfree, ⟨?_, ?_⟩, fun e he => freed_envs_ne he, fun d' va => ?_,
    ?_, fun l hl => ?_⟩
  · rw [freed_envs_self]
  · rw [freed_dirs, Function.update_self]
  · exact mmu_congr load_decref fun _ => load_decref
  · have hle : 1 ≤ s.mem.ref d := by
      rw [BitVec.le_def, hone]
      omega
    rw [freed_mem, ref_decref_self, BitVec.toNat_sub_of_le hle, hone]
    omega
  · have hnot : d ∉ l := hcounts.accurate.not_mem_of_use hl (by rw [hdir]; decide)
    have hne1 : s.mem.ref d ≠ 1 := fun heq => by
      rw [heq, hone] at href
      omega
    have hl' := hl.decref hnot
    rwa [if_neg hne1] at hl'

/-! ## Runs -/

/-- The address spaces of a kernel with one CPU. -/
structure SharedSpaces (c : Cpu) (s : Kernel) : Prop where
  owner : ∀ t, (s.envs t).envType = .thread → (s.envs t).envStatus ≠ .free → ∃ o, Owns s o t
  counted : ∀ o d, (s.envs o).envType = .user → s.dirs o = some d →
    (s.mem.ref d).toNat = 1 + {t | isThreadOf s o t = true}.ncard
  thread : ∀ t d, (s.envs t).envType = .thread → s.dirs t = some d →
    ∃ s', envFree c s t = .ok s' ∧ ThreadGone s t d s'
  process : ∀ o d, (s.envs o).envType = .user → s.dirs o = some d →
    ((∃ s', envFree c s o = .ok s' ∧ ProcessGone s o d s') ↔
      ∀ t, isThreadOf s o t = true → s.curenv c ≠ some t)

theorem Families.sharedSpaces (h : Families s) (hcounts : RightCounts s base use)
    (hrun : ∀ t, (s.envs t).envStatus = .running → s.curenv c = some t) : SharedSpaces c s where
  owner := h.owned
  counted _ _ huser hd := (hcounts.ref_eq hd).trans (h.refCount_dirs huser hd)
  thread _ _ htype hd := h.freeThread hcounts htype hd
  process o _ huser hd := by
    constructor
    · rintro ⟨s', hok, -⟩ t hthread hcur
      exact envFree_ne_ok huser hthread hcur hok
    · intro hcur
      exact h.freeProcess hcounts huser hd fun t ht =>
        ⟨fun hst => hcur t ht (hrun t hst), hcur t ht⟩

/-- What the frame pushed by a trap does not touch. -/
theorem Families.saved (h : Families s) : Families (saved c s cur tf) where
  owned t htype hst := by
    rw [saved_envs] at htype hst
    obtain ⟨o, ho⟩ := h.owned t htype hst
    exact ⟨o, owns_saved ho⟩
  apart := h.apart.of_eq (fun e => by rw [saved_envs]) fun e => by rw [saved_envs]
  distinct e t he ht hid := by
    rw [saved_envs] at he ht
    rw [saved_envs, saved_envs] at hid
    exact h.distinct e t he ht hid
  unused e hst := by
    rw [saved_envs] at hst
    rw [dirs_saved]
    exact h.unused e hst

theorem RightCounts.saved (h : RightCounts s base use) :
    RightCounts (saved c s cur tf) base use where
  accurate := by
    rw [dirs_saved]
    exact h.accurate
  dirs e d hd := h.dirs e d (by rwa [dirs_saved] at hd)
  tables := h.tables
  pages := h.pages

/-- A step of a machine with one CPU whose call is orderly. -/
def OrderlyCpuStep (c : Cpu) (s : Kernel) (ev : Event) (s' : Kernel) : Prop :=
  Step s ev s' ∧ ev.By c ∧ ev.Orderly s

theorem orderly_of_run {evs : List Event} (hboot : Booted s₀)
    (hrun : Trace (OrderlyCpuStep c) s₀ evs s) : Trace OrderlyStep s₀ evs s := by
  induction hrun with
  | nil => exact .nil
  | snoc hrun hstep ih =>
      have hsolo := solo_of_run hboot (hrun.mono fun _ _ _ h => ⟨h.1, h.2.1⟩)
      exact ih.snoc ⟨hstep.1, hsolo.hygienic hstep.2.1, hstep.2.2⟩

theorem ownSpaces_of_run {evs : List Event} (hboot : Booted s₀)
    (hrun : Trace OrderlyStep s₀ evs s) : OwnSpaces s := by
  have hbegin : OwnSpaces s₀ := fun e t d hd => by
    rw [Kernel.dirs, hboot.envs] at hd
    cases hd
  have hinv := hrun.invariant (I := fun s => OwnSpaces s ∧ Resting (freeFrames s₀.mem) leaks s)
    ⟨hbegin, resting_of_run hboot .nil⟩ fun s ev s' hs hstep =>
      ⟨hs.1.step hs.2 hstep.1 hstep.2.1, hs.2.step hstep.1 hstep.2.1 hstep.2.2 (.inr subset_rfl)⟩
  exact hinv.1

theorem families_of_run {evs : List Event} (hboot : Booted s₀)
    (hrun : Trace (OrderlyCpuStep c) s₀ evs s) : Families s := by
  have horderly := orderly_of_run hboot hrun
  have hone : Trace (CpuStep c) s₀ evs s := hrun.mono fun _ _ _ h => ⟨h.1, h.2.1⟩
  obtain ⟨use, hmapped⟩ := (resting_of_run hboot horderly).mapped
  have hsolo := solo_of_run hboot hone
  have htable := (tabled_of_run hboot hone).toTableInv
  exact ⟨fun t htype hst => hmapped.threads t htype hst (hsolo.undying t),
    ownSpaces_of_run hboot horderly, fun _ _ he ht hid => htable.id_inj he ht hid, hmapped.unused⟩

/-- In every state of an orderly run on one CPU, and when the frame of a trap has just been saved,
threads and their processes share their address spaces as they should. -/
theorem spaces_shared {evs : List Event} (hboot : Booted s₀) (hmem : KernelMemory s₀.mem)
    (hrun : Trace (OrderlyCpuStep c) s₀ evs s) : SharedSpaces c s ∧ ∀ cur tf,
      s.curenv c = some cur → SharedSpaces c (saved c s cur tf) := by
  have hfamilies := families_of_run hboot hrun
  have hsolo := solo_of_run hboot (hrun.mono fun _ _ _ h => ⟨h.1, h.2.1⟩)
  obtain ⟨use, -, hcounts⟩ := rightCounts_of_run hboot hmem (orderly_of_run hboot hrun)
  refine ⟨hfamilies.sharedSpaces hcounts hsolo.running, fun cur tf _ => ?_⟩
  refine hfamilies.saved.sharedSpaces hcounts.saved fun t hst => ?_
  rw [saved_envs] at hst
  rw [saved_curenv]
  exact hsolo.running t hst

/-- The second process creates a thread, and the first one gets its turn again. -/
def threadOfSecond : List Event :=
  [.boot emptyImage, .boot emptyImage, .start 0, sysTrap 0 .yield 0 0 0 0 0,
    sysTrap 0 .threadCreate 0x800020 0xeebfe000 0 0 0, sysTrap 0 .yield 0 0 0 0 0,
    sysTrap 0 .yield 0 0 0 0 0]

theorem spaces_shared_threadOfSecond : ∃ s,
    Trace (OrderlyCpuStep 0) (bootedMachine .roundRobin 64) threadOfSecond s ∧
      (isThreadOf s 1 2 = true ∧ s.mem.ref 11 = 2) ∧ SharedSpaces 0 s ∧
        ∀ cur tf, s.curenv 0 = some cur → SharedSpaces 0 (saved 0 s cur tf) := by
  obtain ⟨s, hrun, hs⟩ := exists_trace (fun s ev => ev.By 0 ∧ ev.Orderly s)
    (bootedMachine .roundRobin 64) threadOfSecond
    (fun s => decide (isThreadOf s 1 2 = true ∧ s.mem.ref 11 = 2)) (by decide +kernel)
  exact ⟨s, hrun, of_decide_eq_true hs, spaces_shared
    (booted_bootedMachine .roundRobin (n := 64) (by decide) (by decide))
    (kernelMemory_bootedMem (by decide) (by decide)) hrun⟩

/-- A bit above the flags makes the first process map the page directory of the second one.  When
it unmaps the page again, the directory loses a reference. -/
def droppedDirectory : List Event :=
  threadOfSecond ++ [sysTrap 0 .pageMap 0 0xeebfd000 0 0x800000 0x2007,
    sysTrap 0 .pageUnmap 0 0x800000 0 0 0]

theorem shared_directory_dropped : ¬ ∀ (s₀ s : Kernel) (evs : List Event) (c : Cpu), Booted s₀ →
    KernelMemory s₀.mem → Trace (CpuStep c) s₀ evs s → ∀ o d, (s.envs o).envType = .user →
      s.dirs o = some d → (s.mem.ref d).toNat = 1 + {t | isThreadOf s o t = true}.ncard := by
  intro hclaim
  obtain ⟨s, hrun, hs⟩ := exists_trace (fun _ ev => ev.By 0) (bootedMachine .roundRobin 64)
    droppedDirectory (fun s => decide (isThreadOf s 1 2 = true ∧ (s.envs 1).envType = .user ∧
      s.dirs 1 = some 11 ∧ s.mem.ref 11 = 1)) (by decide +kernel)
  obtain ⟨hthread, huser, hdir, href⟩ := of_decide_eq_true hs
  have hcount := hclaim _ s _ 0
    (booted_bootedMachine .roundRobin (n := 64) (by decide) (by decide))
    (kernelMemory_bootedMem (by decide) (by decide)) hrun 1 11 huser hdir
  have hpos : 0 < {t | isThreadOf s 1 t = true}.ncard :=
    (Set.ncard_pos (Set.toFinite _)).mpr ⟨2, hthread⟩
  have hone : (1 : BitVec 16).toNat = 1 := rfl
  rw [href, hone] at hcount
  omega

end JosSched
