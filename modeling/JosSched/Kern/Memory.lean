import JosSched.Vm.Space
import JosSched.Smp.Zombies

/-!
# The memory of a running kernel

`Layout` describes memory for given page directories of the environments.  `Mapped` says that
it holds of a kernel: the environments own their page directories, and a thread that is no
zombie has the directory of its process.  So the directories that are freed are empty by then:
`env_free` empties the one of a process, and the threads that still refer to it are zombies.

The actions inside the kernel keep `Mapped`, as long as no page is mapped into the address space
of an orphan, a zombie thread that has outlived its process.
-/

open Except

namespace JosSched

variable {c : Cpu} {pool : Set Ppn} {lost : Set (Ppn × Use)} {s s' s₁ : Kernel}
  {use use' : Ppn → Use} {e t o : Slot}
  {d p : Ppn} {m : Mem}

/-- The page directories of the environments. -/
def Kernel.dirs (s : Kernel) (e : Slot) : Option Ppn := (s.envs e).envPgdir

/-- A thread that was destroyed while another CPU executed it. -/
def Kernel.ZombieThread (s : Kernel) (t : Slot) : Prop :=
  (s.envs t).envType = .thread ∧ (s.envs t).envStatus = .dying

instance (s : Kernel) (t : Slot) : Decidable (s.ZombieThread t) :=
  inferInstanceAs (Decidable (_ ∧ _))

/-- Process `o` has created thread `t`, which runs in its address space. -/
structure Owns (s : Kernel) (o t : Slot) : Prop where
  user : (s.envs o).envType = .user
  inUse : (s.envs o).envStatus ≠ .free
  parent : (s.envs o).envId = (s.envs t).envParentId
  shared : s.dirs o = s.dirs t

instance (s : Kernel) (o t : Slot) : Decidable (Owns s o t) :=
  decidable_of_iff ((s.envs o).envType = .user ∧ (s.envs o).envStatus ≠ .free ∧
      (s.envs o).envId = (s.envs t).envParentId ∧ s.dirs o = s.dirs t)
    ⟨fun h => ⟨h.1, h.2.1, h.2.2.1, h.2.2.2⟩, fun h => ⟨h.user, h.inUse, h.parent, h.shared⟩⟩

/-- A zombie thread whose process is gone. -/
def Kernel.Orphan (s : Kernel) (t : Slot) : Prop := s.ZombieThread t ∧ ∀ o, ¬ Owns s o t

instance (s : Kernel) (t : Slot) : Decidable (s.Orphan t) := inferInstanceAs (Decidable (_ ∧ _))

/-- A process refers to the page directory, or no user page is mapped in it. -/
def Held (s : Kernel) (m : Mem) (d : Ppn) : Prop :=
  (∃ e, s.dirs e = some d ∧ (s.envs e).envType = .user) ∨ Vacant m d

/-- `use` describes the memory of the kernel. -/
structure Mapped (pool : Set Ppn) (lost : Set (Ppn × Use)) (s : Kernel) (use : Ppn → Use) :
    Prop where
  layout : Layout pool lost s.mem s.dirs none use
  held : ∀ d, use d = .pgdir → Held s s.mem d
  unused : ∀ e, (s.envs e).envStatus = .free → s.dirs e = none
  inUse : ∀ e, (s.envs e).envStatus ≠ .free → s.dirs e ≠ none
  threads : ∀ t, (s.envs t).envType = .thread → (s.envs t).envStatus ≠ .free →
    (s.envs t).envStatus ≠ .dying → ∃ o, Owns s o t
  dstva : ∀ e, UserPage (s.envs e).envIpcDstva

/-- Frame `p` is the only one on the free list. -/
def LastFrame (m : Mem) (p : Ppn) : Prop := m.pageFreeList = some p ∧ (m.pages p).ppLink = none

/-- In the memory `m` that is left, page `pp` is mapped at `va` of page directory `d`.  The other
translations and the pages mapped before are as they were. -/
structure PageMapped (pool : Set Ppn) (lost : Set (Ppn × Use)) (s : Kernel) (use : Ppn → Use)
    (d : Ppn) (va : Word) (pp : Ppn) (perm : Word) (m : Mem) : Prop where
  mapped : ∃ use', Mapped pool lost (s.setMem m) use'
  leaf : leaf m d va = userEntry pp perm
  onlyAt : OnlyAt use s.mem m d va
  data : ∀ x, use x.1 = .data → m.load x = s.mem.load x
  ref : ∀ q, use q ≠ .free ∨ q = pp →
    (m.ref q).toNat ≤ (s.mem.ref q).toNat + if q = pp then 1 else 0

theorem orphan_setMem : (s.setMem m).Orphan t ↔ s.Orphan t :=
  and_congr_right fun _ => forall_congr' fun _ => not_congr
    ⟨fun h => ⟨h.user, h.inUse, h.parent, h.shared⟩, fun h => ⟨h.user, h.inUse, h.parent, h.shared⟩⟩

/-! ## Fields that memory does not depend on -/

/-- What `Mapped` reads of an environment is the same; a zombie thread stays one. -/
structure Env.Kept (env env' : Env) : Prop where
  pgdir : env'.envPgdir = env.envPgdir
  ids : env'.envId = env.envId ∧ env'.envParentId = env.envParentId
  type : env'.envType = env.envType ∨ env'.envType = .user
  free : env'.envStatus = .free ↔ env.envStatus = .free
  dying : env'.envType = .thread → env.envStatus = .dying → env'.envStatus = .dying
  dstva : UserPage env.envIpcDstva → UserPage env'.envIpcDstva

theorem Env.Kept.refl (env : Env) : env.Kept env :=
  ⟨rfl, ⟨rfl, rfl⟩, .inl rfl, .rfl, fun _ h => h, id⟩

theorem Env.Kept.user {env env' : Env} (h : env.Kept env') (huser : env.envType = .user) :
    env'.envType = .user :=
  h.type.elim (fun heq => heq.trans huser) id

namespace Mapped

theorem of_kept (h : Mapped pool lost s use) (hmem : s'.mem = s.mem)
    (hkept : ∀ e, (s.envs e).Kept (s'.envs e)) : Mapped pool lost s' use := by
  have hdirs : s'.dirs = s.dirs := funext fun e => (hkept e).pgdir
  refine ⟨by rw [hmem, hdirs]; exact h.layout, fun d hd => ?_, fun e he => ?_, fun e he => ?_,
    fun t ht hfree hdying => ?_, fun e => (hkept e).dstva (h.dstva e)⟩
  · rw [hmem, Held, hdirs]
    exact (h.held d hd).imp_left fun ⟨e, he, huser⟩ => ⟨e, he, (hkept e).user huser⟩
  · rw [hdirs]
    exact h.unused e ((hkept e).free.mp he)
  · rw [hdirs]
    exact h.inUse e fun hst => he ((hkept e).free.mpr hst)
  · have hthread : (s.envs t).envType = .thread := (hkept t).type.elim (fun heq => heq ▸ ht)
      fun huser => by
        rw [ht] at huser
        cases huser
    obtain ⟨o, ho⟩ := h.threads t hthread (fun hst => hfree ((hkept t).free.mpr hst))
      fun hst => hdying ((hkept t).dying ht hst)
    refine ⟨o, (hkept o).user ho.user, fun hst => ho.inUse ((hkept o).free.mp hst), ?_, ?_⟩
    · rw [(hkept o).ids.1, (hkept t).ids.2, ho.parent]
    · rw [hdirs, ho.shared]

theorem modEnv (h : Mapped pool lost s use) {f : Env → Env}
    (hkept : (s.envs e).Kept (f (s.envs e))) : Mapped pool lost (s.modEnv e f) use := by
  refine h.of_kept rfl fun t => ?_
  by_cases hte : t = e
  · rw [hte, Kernel.modEnv_self]
    exact hkept
  · rw [Kernel.modEnv_ne _ _ hte]
    exact .refl _

/-! ## Memory -/

/-- Of the page directories, memory may change those that a process refers to. -/
theorem setMem {lost' : Set (Ppn × Use)} (h : Mapped pool lost s use)
    (hlayout : Layout pool lost' m s.dirs none use')
    (hpgdir : ∀ d, use' d = .pgdir → use d = .pgdir)
    (hvacant : ∀ d, use d = .pgdir → Vacant s.mem d → Held s m d) :
    Mapped pool lost' (s.setMem m) use' :=
  { layout := hlayout
    held := fun d hd => (h.held d (hpgdir d hd)).elim .inl (hvacant d (hpgdir d hd))
    unused := h.unused
    inUse := h.inUse
    threads := fun t ht hst hdying =>
      (h.threads t ht hst hdying).imp fun _ ho => ⟨ho.user, ho.inUse, ho.parent, ho.shared⟩
    dstva := h.dstva }

/-- A process refers to the page directory of an environment that is no orphan. -/
theorem held_of_target (h : Mapped pool lost s use) (ht : ¬ s.Orphan t)
    (hd : s.dirs t = some d) : Held s m d := by
  cases htype : (s.envs t).envType with
  | user => exact .inl ⟨t, hd, htype⟩
  | thread =>
      have hfree : (s.envs t).envStatus ≠ .free := fun hst => by
        rw [h.unused t hst] at hd
        cases hd
      have howner : ∃ o, Owns s o t := by
        by_cases hst : (s.envs t).envStatus = .dying
        · by_contra hno
          exact ht ⟨⟨htype, hst⟩, not_exists.mp hno⟩
        · exact h.threads t htype hfree hst
      obtain ⟨o, ho⟩ := howner
      exact .inl ⟨o, ho.shared.trans hd, ho.user⟩

/-- A page is mapped in the page directory of an environment, after a fresh one may have been
taken off the free list. -/
theorem inserted {use₀ : Ppn → Use} {m₀ : Mem} {va perm : Word} {pp : Ppn}
    (h : Mapped pool lost s use) (ht : ¬ s.Orphan t) (hd : s.dirs t = some d)
    (huse : ∀ q, use q ≠ .free → use₀ q = use q) (huse' : ∀ q, use₀ q = .pgdir → use q = .pgdir)
    (hload : ∀ x, use x.1 ≠ .free → m₀.load x = s.mem.load x)
    (href : ∀ q, m₀.ref q = s.mem.ref q) (hpp : use₀ pp ≠ .free)
    (hins : Inserted pool lost s.dirs use₀ m₀ m d va pp perm) :
    PageMapped pool lost s use d va pp perm m := by
  have hpgdir : ∀ {d'}, use d' = .pgdir → use₀ d' = .pgdir := fun hd' =>
    (huse _ (by rw [hd']; decide)).trans hd'
  refine ⟨?_, hins.leaf, fun d' va' hd' hva' hne => ?_, fun x hx => ?_, fun q hq => ?_⟩
  · obtain ⟨use', hlayout, hremaps⟩ := hins.layout
    refine ⟨use', h.setMem hlayout (fun d' hd' => huse' d' (hremaps.of_pgdir hd'))
      fun d' hd' hvacant => ?_⟩
    by_cases heq : d' = d
    · rw [heq]
      exact h.held_of_target ht hd
    · refine .inr fun k hk => ?_
      rw [hins.load (d', k) (.inr (hpgdir hd')) fun h => heq (Prod.mk.inj h).1,
        hload (d', k) (by rw [hd']; decide)]
      exact hvacant k hk
  · refine (hins.onlyAt d' va' (hpgdir hd') hva' hne).trans ?_
    refine leaf_congr (hload _ (by rw [hd']; decide)) fun hpde => hload _ ?_
    have htable := (h.layout.table_of_pde hd' hva' hpde).1
    rw [cell, htable]
    decide
  · have hx₀ : use₀ x.1 = .data := (huse _ (by rw [hx]; decide)).trans hx
    refine (hins.load x (.inl hx₀) ?_).trans (hload x (by rw [hx]; decide))
    rintro rfl
    rw [h.layout.holders t d hd] at hx
    cases hx
  · rw [← href]
    refine hins.ref q ?_
    rcases hq with hq | rfl
    · rwa [huse q hq]
    · exact hpp

/-- A fresh page is mapped; it is lost when there is no frame left for the page table. -/
theorem pageNew {va perm : Word} {zero : Bool} {m₁ : Mem} {r : ℤ} (h : Mapped pool lost s use)
    (ht : ¬ s.Orphan t) (hd : s.dirs t = some d) (hva : va < UTOP)
    (hperm : perm &&& ~~~PTE_SYSCALL = 0) (halloc : pageAlloc s.mem zero = .ok (some p, m₁))
    (hins : pageInsert m₁ d p va perm = .ok (r, m)) :
    use p = .free ∧ ((r = -E_NO_MEM ∧ LastFrame s.mem p ∧ s.mem.load (d, pdx va) = 0 ∧
        (∃ use', Mapped pool (insert (p, .data) lost) (s.setMem m) use') ∧
        ∀ x, x.1 ≠ p → m.load x = s.mem.load x) ∨
      r = 0 ∧ PageMapped pool lost s use d va p perm m) := by
  have hdir := h.layout.holders t d hd
  obtain ⟨hfree, href, hload, hlist, hhead, h₁⟩ := h.layout.pageAllocData halloc
  have hne : ∀ {q}, use q ≠ .free → q ≠ p := fun hq heq => hq (heq ▸ hfree)
  have huse : ∀ q, use q ≠ .free → Function.update use p .data q = use q :=
    fun q hq => Function.update_of_ne (hne hq) ..
  have huse' : ∀ d', Function.update use p .data d' = .pgdir → use d' = .pgdir := fun d' hd' => by
    by_cases heq : d' = p
    · rw [heq, Function.update_self] at hd'
      cases hd'
    · rwa [Function.update_of_ne heq] at hd'
  have hdir₁ : Function.update use p .data d = .pgdir :=
    (huse d (by rw [hdir]; decide)).trans hdir
  have hp₁ : Function.update use p .data p = .data := Function.update_self ..
  have hfit : (m₁.ref p).toNat + 1 < 2 ^ 16 := by
    rw [href, h.layout.ref_eq_zero hfree]
    decide
  refine ⟨hfree, ?_⟩
  rcases h₁.pageInsert hdir₁ hva hp₁ hperm hfit hins with ⟨rfl, rfl, hnone, hpde⟩ | ⟨rfl, hinserted⟩
  · refine .inl ⟨rfl, ⟨hhead, hlist.symm.trans hnone⟩, ?_, ⟨_, h.setMem h₁ huse' fun d' hd' hvac =>
      .inr fun k hk => ?_⟩, hload⟩
    · rwa [hload _ (hne (by rw [hdir]; decide))] at hpde
    · rw [hload (d', k) (hne (by rw [hd']; decide))]
      exact hvac k hk
  · refine .inr ⟨rfl, h.inserted ht hd huse huse' (fun x hx => hload x (hne hx)) href ?_ hinserted⟩
    rw [hp₁]
    decide

/-- A page of user data is mapped once more. -/
theorem pageShare {va perm : Word} {pp : Ppn} {r : ℤ} (h : Mapped pool lost s use)
    (ht : ¬ s.Orphan t) (hd : s.dirs t = some d) (hva : va < UTOP) (hpp : use pp = .data)
    (hperm : perm &&& ~~~PTE_SYSCALL = 0) (hfit : (s.mem.ref pp).toNat + 1 < 2 ^ 16)
    (hins : pageInsert s.mem d pp va perm = .ok (r, m)) :
    (r = -E_NO_MEM ∧ m = s.mem ∧ s.mem.load (d, pdx va) = 0) ∨
      r = 0 ∧ PageMapped pool lost s use d va pp perm m := by
  have hdir := h.layout.holders t d hd
  have h₁ := h.layout.mono (Set.subset_insert (pp, .data) lost)
  rcases h₁.pageInsert hdir hva hpp hperm hfit hins with ⟨rfl, rfl, -, hpde⟩ | ⟨rfl, hinserted⟩
  · exact .inl ⟨rfl, rfl, hpde⟩
  · refine .inr ⟨rfl, h.inserted ht hd (fun _ _ => rfl) (fun _ hq => hq) (fun _ _ => rfl)
      (fun _ => rfl) ?_ hinserted⟩
    rw [hpp]
    decide

/-- `page_remove`. -/
theorem removed {va : Word} (h : Mapped pool lost s use) (hd : s.dirs t = some d) (hva : va < UTOP)
    (hrm : pageRemove s.mem d va = .ok m) :
    ∃ use', Mapped pool lost (s.setMem m) use' ∧ FreesData use use' := by
  have hdir := h.layout.holders t d hd
  obtain ⟨use', hlayout, hfrees, -, -, hload, -⟩ := h.layout.pageRemove hdir hva hrm
  refine ⟨use', h.setMem hlayout (fun d' hd' => hfrees.remaps.of_pgdir hd') fun d' hd' hvacant =>
    .inr fun k hk => ?_, hfrees⟩
  by_cases hleaf : leaf s.mem d va = 0
  · unfold pageRemove at hrm
    rw [h.layout.pageLookup_eq hdir hva, if_pos hleaf] at hrm
    obtain rfl := Except.ok.inj hrm
    exact hvacant k hk
  · -- the entry that is emptied is in a page table
    rw [hload (d', k) fun heq => ?_]
    · exact hvacant k hk
    · have htable := (h.layout.table_of_pde hdir hva (pde_ne_zero_of_leaf hleaf)).1
      rw [(Prod.mk.inj heq).1, htable] at hd'
      cases hd'

/-- A store to user pages. -/
theorem stored (h : Mapped pool lost s use) (hsame : SameTables pool lost s.dirs use s.mem m) :
    Mapped pool lost (s.setMem m) use :=
  h.setMem hsame.layout (fun _ hd => hd) fun d hd hvacant => .inr fun k hk => by
    rw [hsame.entries (d, k) (by rw [hd]; decide)]
    exact hvacant k hk

/-! ## Slots -/

theorem dirs_modEnv {f : Env → Env} :
    (s.modEnv e f).dirs = Function.update s.dirs e (f (s.envs e)).envPgdir := by
  funext t
  by_cases ht : t = e
  · rw [ht, Function.update_self, Kernel.dirs, Kernel.modEnv_self]
  · rw [Function.update_of_ne ht, Kernel.dirs, Kernel.modEnv_ne _ _ ht, Kernel.dirs]

/-- `env_alloc` builds an empty page directory in a free frame. -/
theorem envAlloc {parentId : Word} (h : Mapped pool lost s use)
    (hfree : (s.envs e).envStatus = .free)
    (halloc : JosSched.envAlloc s parentId = .ok (.ok e, s')) :
    ∃ p, use p = .free ∧ Mapped pool lost s' (Function.update use p .pgdir) ∧
      s'.dirs = Function.update s.dirs e (some p) ∧ Vacant s'.mem p ∧
      ∀ x, x.1 ≠ p → s'.mem.load x = s.mem.load x := by
  have hne := fun t (ht : t ≠ e) => envAlloc_envs_ne halloc ht
  obtain ⟨p, m, -, hpage, hs'⟩ := envAlloc_eq_ok halloc
  have hnone := h.unused e hfree
  obtain ⟨hp, hvacant, hload, hlayout⟩ := h.layout.newPgdir hnone hpage
  have hself : s'.envs e = initEnv e parentId { s.envs e with envPgdir := some p } := by
    rw [hs']
    simp
  have hmem : s'.mem = newPgdir m p := by rw [hs']; rfl
  have hdirs : s'.dirs = Function.update s.dirs e (some p) := by
    funext t
    by_cases ht : t = e
    · rw [ht, Function.update_self, Kernel.dirs, hself]
      rfl
    · rw [Function.update_of_ne ht, Kernel.dirs, hne t ht, Kernel.dirs]
  rw [← hmem] at hvacant hload hlayout
  refine ⟨p, hp, ⟨hdirs ▸ hlayout, fun d hd => ?_, fun t ht => ?_, fun t ht => ?_,
    fun t ht hst hdying => ?_, fun t => ?_⟩, hdirs, hvacant, hload⟩
  -- the new directory has no process yet, but it is vacant
  · by_cases hdp : d = p
    · rw [hdp]
      exact .inr hvacant
    · rw [Function.update_of_ne hdp] at hd
      rcases h.held d hd with ⟨o, ho, huser⟩ | hold
      · have hoe : o ≠ e := fun heq => by
          rw [heq, hnone] at ho
          cases ho
        refine .inl ⟨o, ?_, by rwa [hne o hoe]⟩
        rwa [hdirs, Function.update_of_ne hoe]
      · exact .inr fun k hk => (hload (d, k) hdp).trans (hold k hk)
  · have hte : t ≠ e := fun heq => by
      rw [heq, hself] at ht
      cases ht
    rw [hne t hte] at ht
    rw [hdirs, Function.update_of_ne hte]
    exact h.unused t ht
  · rw [hdirs]
    by_cases hte : t = e
    · rw [hte, Function.update_self]
      exact Option.some_ne_none p
    · rw [hne t hte] at ht
      rw [Function.update_of_ne hte]
      exact h.inUse t ht
  · have hte : t ≠ e := fun heq => by
      rw [heq, hself] at ht
      cases ht
    rw [hne t hte] at ht hst hdying
    -- the process of a thread is in use, so it is not the slot that was free
    obtain ⟨o, ho⟩ := h.threads t ht hst hdying
    have hoe : o ≠ e := fun heq => ho.inUse (heq ▸ hfree)
    refine ⟨o, ?_, ?_, ?_, ?_⟩
    · rw [hne o hoe]
      exact ho.user
    · rw [hne o hoe]
      exact ho.inUse
    · rw [hne o hoe, hne t hte]
      exact ho.parent
    · rw [hdirs, Function.update_of_ne hoe, Function.update_of_ne hte]
      exact ho.shared
  · by_cases hte : t = e
    · rw [hte, hself]
      exact h.dstva e
    · rw [hne t hte]
      exact h.dstva t

theorem dirs_freed :
    (forget c (JosSched.freed c s e m) e).dirs = Function.update s.dirs e none := by
  funext t
  rw [Kernel.dirs, forget_envs]
  by_cases ht : t = e
  · rw [ht, freed_envs_self, Function.update_self]
  · rw [freed_envs_ne ht, Function.update_of_ne ht, Kernel.dirs]

/-- A slot is freed, once its threads, if any, are zombies. -/
theorem freed (h : Mapped pool lost s use)
    (hlayout : Layout pool lost m (Function.update s.dirs e none) none use')
    (hheld : ∀ d, use' d = .pgdir →
      (∃ o, o ≠ e ∧ s.dirs o = some d ∧ (s.envs o).envType = .user) ∨ Vacant m d)
    (hthreads : ∀ t, isThreadOf s e t →
      (s.envs t).envStatus = .dying ∨ (s.envs e).envType ≠ .user) :
    Mapped pool lost (forget c (JosSched.freed c s e m) e) use' := by
  refine ⟨?_, fun d hd => ?_, fun t ht => ?_, fun t ht => ?_, fun t ht hst hdying => ?_,
    fun t => ?_⟩
  · rw [dirs_freed, forget_mem, freed_mem]
    exact hlayout
  · rw [Held, dirs_freed, forget_envs, forget_mem, freed_mem]
    refine (hheld d hd).imp_left fun ⟨o, hoe, ho, huser⟩ => ⟨o, ?_, ?_⟩
    · rwa [Function.update_of_ne hoe]
    · rwa [freed_envs_ne hoe]
  · rw [dirs_freed]
    by_cases hte : t = e
    · rw [hte, Function.update_self]
    · rw [forget_envs, freed_envs_ne hte] at ht
      rw [Function.update_of_ne hte]
      exact h.unused t ht
  · rw [forget_envs] at ht
    have hte : t ≠ e := fun heq => by
      rw [heq, freed_envs_self] at ht
      exact ht rfl
    rw [freed_envs_ne hte] at ht
    rw [dirs_freed, Function.update_of_ne hte]
    exact h.inUse t ht
  · rw [forget_envs] at ht hst hdying
    have hte : t ≠ e := fun heq => by
      rw [heq, freed_envs_self] at hst
      exact hst rfl
    rw [freed_envs_ne hte] at ht hst hdying
    obtain ⟨o, ho⟩ := h.threads t ht hst hdying
    -- a thread that is left has another process, because those of `e` are zombies
    have hoe : o ≠ e := fun heq => by
      have hthread : isThreadOf s e t = true :=
        isThreadOf_iff.mpr ⟨hte, ht, hst, by rw [← heq, ho.parent]⟩
      rcases hthreads t hthread with hdy | huser
      · exact hdying hdy
      · exact huser (heq ▸ ho.user)
    refine ⟨o, ?_, ?_, ?_, ?_⟩
    · rw [forget_envs, freed_envs_ne hoe]
      exact ho.user
    · rw [forget_envs, freed_envs_ne hoe]
      exact ho.inUse
    · rw [forget_envs, freed_envs_ne hoe, freed_envs_ne hte]
      exact ho.parent
    · rw [dirs_freed, Function.update_of_ne hoe, Function.update_of_ne hte]
      exact ho.shared
  · rw [forget_envs]
    by_cases hte : t = e
    · rw [hte, freed_envs_self]
      exact h.dstva e
    · rw [freed_envs_ne hte]
      exact h.dstva t

/-- `env_free` on a thread: the directory is freed with its last reference only, when no process
has it any more. -/
theorem freeThread (h : Mapped pool lost s use) (htype : (s.envs t).envType = .thread)
    (hfree : envFreeThread c s t = .ok s') : ∃ use', Mapped pool lost (forget c s' t) use' := by
  obtain ⟨d, m, hd, hdec, rfl⟩ := envFreeThread_eq_ok hfree
  have hdirs : s.dirs t = some d := hd
  have hne : ∀ o, (s.envs o).envType = .user → o ≠ t := fun o huser heq => by
    rw [heq, htype] at huser
    cases huser
  -- a process that had the directory as well would be a second reference
  have hvacant : refs s.mem s.dirs use d = 1 → Vacant s.mem d := fun hone => by
    refine (h.held d (h.layout.holders t d hdirs)).resolve_left ?_
    rintro ⟨o, ho, huser⟩
    have hcell : Sum.elim s.dirs (links s.mem use) (.inl o) = some d := ho
    have hcell' : Sum.elim s.dirs (links s.mem use) (.inl t) = some d := hdirs
    exact hne o huser (Sum.inl.inj (eq_of_refCount_le_one hone.le hcell hcell'))
  obtain ⟨use', hlayout, hreleased, hload, -⟩ := h.layout.dropDir hdirs hvacant hdec
  refine ⟨use', h.freed hlayout (fun d' hd' => ?_) fun t' _ => .inr (by rw [htype]; decide)⟩
  rcases h.held d' (hreleased.of_pgdir hd') with ⟨o, ho, huser⟩ | hold
  · exact .inl ⟨o, hne o huser, ho, huser⟩
  · exact .inr fun k hk => (hload _).trans (hold k hk)

/-- `env_free` on a process whose threads are zombies. -/
theorem freeProcess (h : Mapped pool lost s use)
    (hthreads : ∀ t, isThreadOf s e t → (s.envs t).envStatus = .dying)
    (hfree : envFreeProcess c s e = .ok s') : ∃ use', Mapped pool lost (forget c s' e) use' := by
  obtain ⟨d, m₁, m, hd, hunmap, hdec, rfl⟩ := envFreeProcess_eq_ok hfree
  have hdirs : s.dirs e = some d := hd
  obtain ⟨use₁, h₁, hfrees, hvacant, hothers⟩ :=
    h.layout.unmapUser (h.layout.holders e d hdirs) hunmap
  obtain ⟨use', hlayout, hreleased, hload, -⟩ := h₁.dropDir hdirs (fun _ => hvacant) hdec
  refine ⟨use', h.freed hlayout (fun d' hd' => ?_) fun t ht => .inl (hthreads t ht)⟩
  by_cases heq : d' = d
  · rw [heq]
    exact .inr fun k hk => (hload _).trans (hvacant k hk)
  · have hold := hfrees.of_pgdir (hreleased.of_pgdir hd')
    rcases h.held d' hold with ⟨o, ho, huser⟩ | hvac
    · refine .inl ⟨o, fun hoe => ?_, ho, huser⟩
      rw [hoe, hdirs] at ho
      exact heq (Option.some.inj ho).symm
    · refine .inr fun k hk => ?_
      rw [hload, hothers.entries d' k hold heq]
      exact hvac k hk

/-- `sys_thread_create`: the directory that `env_alloc` built is given back, and the one of the
creator shared. -/
theorem createThread {s₂ : Kernel} {cur : Slot} {own shared : Ppn} {f : Env → Env}
    (h : Mapped pool lost s use) (hfree : (s.envs t).envStatus = .free)
    (hcur : (s.envs cur).envStatus ≠ .free) (hlive : ¬ s.ZombieThread cur)
    (halloc : JosSched.envAlloc s (if (s.envs cur).envType = .thread then (s.envs cur).envParentId
      else (s.envs cur).envId) = .ok (.ok t, s₁))
    (hown : (s₁.envs t).envPgdir = some own) (hdrop : dropPgdir s₁ t own = .ok s₂)
    (hshared : (s₂.envs cur).envPgdir = some shared)
    (hs' : s' = (s₂.setMem (s₂.mem.setRef shared (s₂.mem.ref shared + 1))).modEnv t f)
    (hf : ∀ env, (f env).envPgdir = some shared ∧ (f env).envStatus = env.envStatus ∧
      (f env).envType = .thread ∧ (f env).envParentId = env.envParentId ∧
      (f env).envIpcDstva = env.envIpcDstva) :
    ∃ use', Mapped pool lost s' use' := by
  have hne := fun t' (ht' : t' ≠ t) => envAlloc_envs_ne halloc ht'
  have hnone := h.unused t hfree
  have hct : cur ≠ t := fun heq => hcur (heq ▸ hfree)
  obtain ⟨p, hp, h₁, hdirs₁, hvacant, hload⟩ := h.envAlloc hfree halloc
  have hdirs : s₁.dirs t = some own := hown
  obtain rfl : p = own := by
    rw [hdirs₁, Function.update_self] at hdirs
    exact Option.some.inj hdirs
  obtain ⟨m, hdec, rfl⟩ := dropPgdir_eq_ok hdrop
  -- first the new directory is given back, which restores the address spaces of `s`
  obtain ⟨use₂, h₂, hreleased, hload₂, -⟩ := h₁.layout.dropDir hdirs (fun _ => hvacant) hdec
  have hdirs₂ : Function.update s₁.dirs t none = s.dirs := by
    rw [hdirs₁, Function.update_idem, ← hnone, Function.update_eq_self]
  rw [hdirs₂] at h₂
  have hcurdir : s.dirs cur = some shared := by
    rw [Kernel.setMem_envs, Kernel.modEnv_ne _ _ hct, hne cur hct] at hshared
    exact hshared
  -- then the directory of the creator gets one more user
  have hlayout := h₂.share (h₂.holders cur shared hcurdir) hnone
  have hmem : s'.mem = m.setRef shared (m.ref shared + 1) := by rw [hs']; rfl
  have henvs : ∀ t', t' ≠ t → s'.envs t' = s.envs t' := fun t' ht' => by
    rw [hs', Kernel.modEnv_ne _ _ ht', Kernel.setMem_envs, Kernel.setMem_envs,
      Kernel.modEnv_ne _ _ ht', hne t' ht']
  have hself : s'.envs t = f { s₁.envs t with envPgdir := none } := by
    rw [hs', Kernel.modEnv_self, Kernel.setMem_envs, Kernel.setMem_envs, Kernel.modEnv_self]
  obtain ⟨hpgdir, hstatus, htype, hparent, hdstva⟩ := hf { s₁.envs t with envPgdir := none }
  rw [← hself] at hpgdir hstatus htype hparent hdstva
  have hdirs' : s'.dirs = Function.update s.dirs t (some shared) := by
    funext t'
    by_cases ht' : t' = t
    · rw [ht', Function.update_self]
      exact hpgdir
    · rw [Function.update_of_ne ht', Kernel.dirs, henvs t' ht', Kernel.dirs]
  obtain ⟨p', m', -, -, hs₁⟩ := envAlloc_eq_ok halloc
  have hself₁ : s₁.envs t = initEnv t (if (s.envs cur).envType = .thread then
      (s.envs cur).envParentId else (s.envs cur).envId)
        { s.envs t with envPgdir := some p' } := by
    rw [hs₁]
    simp
  refine ⟨use₂, by rw [hmem, hdirs']; exact hlayout, fun d hd => ?_, fun t' ht' => ?_,
    fun t' ht' => ?_, fun t' ht' hst hdying => ?_, fun t' => ?_⟩
  · rw [Held, hdirs', hmem]
    by_cases hdp : d = p
    · rw [hdp]
      exact .inr fun k hk => (hload₂ _).trans (hvacant k hk)
    · have hold := hreleased.of_pgdir hd
      rw [Function.update_of_ne hdp] at hold
      rcases h.held d hold with ⟨o, ho, huser⟩ | hvac
      · have hot : o ≠ t := fun heq => by
          rw [heq, hnone] at ho
          cases ho
        refine .inl ⟨o, ?_, ?_⟩
        · rwa [Function.update_of_ne hot]
        · rwa [henvs o hot]
      · exact .inr fun k hk => (hload₂ _).trans ((hload (d, k) hdp).trans (hvac k hk))
  · have hne' : t' ≠ t := fun heq => by
      rw [heq, hstatus] at ht'
      simp [hself₁, initEnv] at ht'
    rw [henvs t' hne'] at ht'
    rw [hdirs', Function.update_of_ne hne']
    exact h.unused t' ht'
  · rw [hdirs']
    by_cases heq : t' = t
    · rw [heq, Function.update_self]
      exact Option.some_ne_none shared
    · rw [henvs t' heq] at ht'
      rw [Function.update_of_ne heq]
      exact h.inUse t' ht'
  · by_cases heq : t' = t
    · -- the new thread has the process of its creator, or the creator
      have hparent' : (s'.envs t).envParentId = if (s.envs cur).envType = .thread then
          (s.envs cur).envParentId else (s.envs cur).envId := by
        rw [hparent]
        simp [hself₁, initEnv]
      have howner : ∃ o, o ≠ t ∧ (s.envs o).envType = .user ∧ (s.envs o).envStatus ≠ .free ∧
          (s.envs o).envId = (s'.envs t).envParentId ∧ s.dirs o = some shared := by
        rw [hparent']
        cases hcurtype : (s.envs cur).envType with
        | user => exact ⟨cur, hct, hcurtype, hcur, by simp, hcurdir⟩
        | thread =>
            obtain ⟨o, ho⟩ := h.threads cur hcurtype hcur fun hst => hlive ⟨hcurtype, hst⟩
            refine ⟨o, fun hot => ho.inUse (hot ▸ hfree), ho.user, ho.inUse, ?_,
              ho.shared.trans hcurdir⟩
            simp [ho.parent]
      obtain ⟨o, hot, huser, hinUse, hid, hodir⟩ := howner
      refine ⟨o, ?_, ?_, ?_, ?_⟩
      · rwa [henvs o hot]
      · rwa [henvs o hot]
      · rw [heq, henvs o hot, hid]
      · rw [hdirs', heq, Function.update_self, Function.update_of_ne hot, hodir]
    · rw [henvs t' heq] at ht' hst hdying
      obtain ⟨o, ho⟩ := h.threads t' ht' hst hdying
      have hot : o ≠ t := fun heq => ho.inUse (heq ▸ hfree)
      refine ⟨o, ?_, ?_, ?_, ?_⟩
      · rw [henvs o hot]
        exact ho.user
      · rw [henvs o hot]
        exact ho.inUse
      · rw [henvs o hot, henvs t' heq]
        exact ho.parent
      · rw [hdirs', Function.update_of_ne hot, Function.update_of_ne heq]
        exact ho.shared
  · by_cases heq : t' = t
    · rw [heq, hdstva]
      show UserPage (s₁.envs t).envIpcDstva
      rw [hself₁]
      exact h.dstva t
    · rw [henvs t' heq]
      exact h.dstva t'

end Mapped

theorem dirs_modEnv_eq {f : Env → Env} (hf : ∀ env, (f env).envPgdir = env.envPgdir) :
    (s.modEnv e f).dirs = s.dirs := by
  rw [Mapped.dirs_modEnv, hf]
  exact Function.update_eq_self ..

end JosSched
