import JosSched.Smp.Reach
import JosSched.Smp.Counted
import JosSched.Vm.SameSpace

/-!
# Address spaces out of reach

In an orderly run, a system call leaves the translations of an address space alone when none of
the environments in its reach lives in it (`spaces_undisturbed`): nothing that the MMU reads for
them is written.  A receiver that is sent a page gets the page, and the window of its own page
tables shows the table if it is new, but no other translation of its address space changes either.
-/

open Except

namespace JosSched

variable {c : Cpu} {pool : Set Ppn} {lost : Set (Ppn × Use)} {s s' s₁ s₂ s₀ : Kernel}
  {use : Ppn → Use} {e t cur : Slot} {d d' p pp : Ppn} {m m' m₁ : Mem} {va va' perm : Word} {r : ℤ}
  {inp : Input} {tf : Trapframe} {a : Act}

/-! ## Actions -/

/-- What remains of environment `e` and of its address space, that of page directory `d`. -/
structure Aloof (s : Kernel) (e : Slot) (d : Ppn) (s₁ : Kernel) : Prop where
  owner : s₁.dirs e = some d
  space : SameSpace s.mem s₁.mem d
  sharers : ∀ t, s₁.dirs t = some d → s.dirs t = some d

/-- The action works on no environment that lives in page directory `d`. -/
def Act.KeepsOff (s : Kernel) (d : Ppn) : Act → Prop
  | .pageDrop t _ | .freeProcess t _ | .thread t _ => s.dirs t ≠ some d
  | .kstore _ => False
  | _ => True

namespace Aloof

theorem refl (hd : s.dirs e = some d) : Aloof s e d s := ⟨hd, .refl, fun _ h => h⟩

theorem trans (h : Aloof s e d s₁) (h' : Aloof s₁ e d s₂) : Aloof s e d s₂ :=
  ⟨h'.owner, h.space.trans h'.space, fun t ht => h.sharers t (h'.sharers t ht)⟩

theorem of_eq (hd : s.dirs e = some d) (hmem : s₁.mem = s.mem) (hdirs : s₁.dirs = s.dirs) :
    Aloof s e d s₁ := by
  refine ⟨by rw [hdirs, hd], ?_, fun t ht => by rwa [hdirs] at ht⟩
  rw [hmem]
  exact .refl

theorem setMem (hd : s.dirs e = some d) (hsame : SameSpace s.mem m d) :
    Aloof s e d (s.setMem m) :=
  ⟨hd, hsame, fun _ ht => ht⟩

/-- A new address space is in a frame that was free. -/
theorem envAlloc {parentId : Word} (hm : Mapped pool lost s use) (hk : KernelPart pool s.mem d)
    (hd : s.dirs e = some d) (hfree : (s.envs t).envStatus = .free)
    (halloc : JosSched.envAlloc s parentId = .ok (.ok t, s₁)) (hne : e ≠ t) :
    Aloof s e d s₁ := by
  obtain ⟨p, hp, -, hdirs, -, hload⟩ := hm.envAlloc hfree halloc
  have hdir := hm.layout.holders e d hd
  refine ⟨?_, hm.layout.sameSpace_fresh hdir hk hp hload, fun u hu => ?_⟩
  · rw [hdirs, Function.update_of_ne hne, hd]
  · rw [hdirs] at hu
    by_cases hut : u = t
    · rw [hut, Function.update_self] at hu
      rw [Option.some.inj hu, hdir] at hp
      cases hp
    · rwa [Function.update_of_ne hut] at hu

/-- A new thread lives with its creator. -/
theorem thread {own shared : Ppn} {f : Env → Env} (hd : s.dirs e = some d) (hne : e ≠ t)
    (hcur : s.dirs cur ≠ some d) (hdrop : dropPgdir s t own = .ok s₂)
    (hshared : (s₂.envs cur).envPgdir = some shared)
    (hf : ∀ env, (f env).envPgdir = some shared) :
    Aloof s e d ((s₂.setMem (s₂.mem.setRef shared (s₂.mem.ref shared + 1))).modEnv t f) := by
  obtain ⟨m, hdec, rfl⟩ := dropPgdir_eq_ok hdrop
  have hother : ∀ u, u ≠ t → ((((s.modEnv t fun env => { env with envPgdir := none }).setMem
      m).setMem (m.setRef shared (m.ref shared + 1))).modEnv t f).dirs u = s.dirs u :=
    fun u hu => by
    rw [Kernel.dirs, Kernel.modEnv_ne _ _ hu, Kernel.setMem_envs, Kernel.setMem_envs,
      Kernel.modEnv_ne _ _ hu, Kernel.dirs]
  have hload : ∀ x, m.load x = s.mem.load x := load_of_pageDecref hdec
  refine ⟨(hother e hne).trans hd, .of_load hload, fun u hu => ?_⟩
  by_cases hut : u = t
  · rw [hut, Kernel.dirs, Kernel.modEnv_self, hf] at hu
    rw [Kernel.setMem_envs] at hshared
    by_cases hct : cur = t
    · rw [hct, Kernel.modEnv_self] at hshared
      cases hshared
    · rw [Kernel.modEnv_ne _ _ hct] at hshared
      exact absurd (hshared.trans hu) hcur
  · exact (hother u hut).symm.trans hu

/-- A slot has been freed, and its page directory dropped. -/
theorem freed {q : Ppn} (hd : s.dirs e = some d) (hne : e ≠ t) (hsame : SameSpace s.mem m₁ d)
    (hdec : pageDecref m₁ q = .ok m) : Aloof s e d (forget c (JosSched.freed c s t m) t) := by
  refine ⟨?_, ?_, fun u hu => Mapped.dirs_of_freed hu⟩
  · rw [Mapped.dirs_freed, Function.update_of_ne hne, hd]
  · rw [forget_mem, freed_mem]
    exact hsame.trans (.of_load (load_of_pageDecref hdec))

theorem micro (hm : Mapped pool lost s use) (hcustody : Custody c s₀ s)
    (hk : KernelPart pool s.mem d) (hd : s.dirs e = some d) (ha : ¬ a.Touches e)
    (htame : a.Tame s) (hoff : a.KeepsOff s d) (h : Micro c a s s₁) : Aloof s e d s₁ := by
  have hdir := hm.layout.holders e d hd
  have hslot : ∀ {t}, s.envFreeList = some t → (s.envs t).envStatus = .free :=
    fun hfree => hcustody.freeSlots.head hfree
  cases h with
  | start => exact of_eq hd rfl rfl
  | save | ret | redirect | dying | status | deliver | ipcPerm | recving | block | sleep | priority
  | upcall | entry => exact of_eq hd rfl (dirs_modEnv_eq fun _ => rfl)
  | tick => exact absurd trivial ha
  | create halloc =>
      obtain ⟨p, m, hfree, -⟩ := envAlloc_eq_ok halloc
      exact envAlloc hm hk hd (hslot hfree) halloc ha
  | exofork _ halloc =>
      obtain ⟨p, m, hfree, -⟩ := envAlloc_eq_ok halloc
      have halloc := envAlloc hm hk hd (hslot hfree) halloc ha
      exact halloc.trans (of_eq halloc.owner rfl (dirs_modEnv_eq fun _ => rfl))
  | @thread _ s₂ _ t cur _ _ _ _ hcur _ _ halloc _ hdrop hshared =>
      obtain ⟨p, m, hfree, -⟩ := envAlloc_eq_ok halloc
      have hspace := envAlloc hm hk hd (hslot hfree) halloc ha
      exact hspace.trans (thread hspace.owner ha (fun hcur₂ => hoff (hspace.sharers _ hcur₂))
        hdrop hshared fun _ => rfl)
  | freeThread _ _ _ hfree =>
      obtain ⟨q, m, -, hdec, rfl⟩ := envFreeThread_eq_ok hfree
      exact freed hd ha .refl hdec
  | freeProcess _ _ _ _ hfree =>
      obtain ⟨q, m₁, m, hq, hunmap, hdec, rfl⟩ := envFreeProcess_eq_ok hfree
      have hqdir := hm.layout.holders _ q hq
      refine freed hd ha (hm.layout.sameSpace_unmapUser hdir hk hqdir (fun heq => ?_) hunmap) hdec
      exact hoff (heq ▸ hq)
  | pageNew | pageShare => exact absurd htame id
  | @pageDrop _ _ _ q _ _ hva hq hrm =>
      have hqdir := hm.layout.holders _ q hq
      refine setMem hd (hm.layout.sameSpace_pageRemove hdir hk hqdir (fun heq => ?_) hva.1 hrm)
      exact hoff (heq ▸ hq)
  | kstore => exact absurd hoff id

end Aloof

/-! ## Calls that map pages -/

/-- The translations of page directory `d`, but for those of the addresses in `written`. -/
structure Spared (pool : Set Ppn) (m m' : Mem) (d : Ppn) (written : Word → Prop) : Prop where
  kernelPart : KernelPart pool m' d
  mmu : ∀ va, ¬ written va → mmu m' d va = mmu m d va

namespace Spared

variable {written : Word → Prop}

theorem refl (h : KernelPart pool m d) : Spared pool m m d written := ⟨h, fun _ _ => rfl⟩

theorem trans (h : Spared pool m m₁ d written) (h' : Spared pool m₁ m' d written) :
    Spared pool m m' d written :=
  ⟨h'.kernelPart, fun va hva => (h'.mmu va hva).trans (h.mmu va hva)⟩

theorem of_space (h : SameSpace m m' d) (hk : KernelPart pool m d) : Spared pool m m' d written :=
  ⟨h.kernelPart hk, fun va _ => h.mmu va⟩

/-- `page_insert` at `va` of page directory `d'`. -/
theorem pageInsert {held : Option Ppn} {dirs : Slot → Option Ppn}
    (h : Layout pool lost m dirs held use) (hd : use d = .pgdir) (hk : KernelPart pool m d)
    (hd' : use d' = .pgdir) (hva : va < UTOP)
    (hins : JosSched.pageInsert m d' pp va perm = .ok (r, m'))
    (hwritten : ∀ va', d = d' → SamePage va va' ∨ OnWindow va va' ∧ m.load (d', pdx va) = 0 →
      written va') :
    Spared pool m m' d written where
  kernelPart := hk.sameUpper hd (.pageInsert h hd' hva hins)
  mmu va' hva' := h.mmu_pageInsert hd' hva hd hk hins fun hand => hva' (hwritten va' hand.1 hand.2)

end Spared

/-- The pages of page directory `d` that mapping a page at `va` for environment `t` writes: that
of `va`, and that of the window where the page table shows if it is new. -/
def WrittenAt (s : Kernel) (d : Ppn) (t : Slot) (va va' : Word) : Prop :=
  s.dirs t = some d ∧ (SamePage va va' ∨ OnWindow va va' ∧ s.mem.load (d, pdx va) = 0)

/-- The page table for `va`, if there was one, is still there. -/
def TableStays (s : Kernel) (d : Ppn) (t : Slot) (va : Word) (m : Mem) : Prop :=
  s.dirs t = some d → s.mem.load (d, pdx va) ≠ 0 → m.load (d, pdx va) ≠ 0

theorem WrittenAt.of_stays (h : WrittenAt s₁ d t va va') (hdirs : s₁.dirs = s.dirs)
    (hstays : TableStays s d t va s₁.mem) : WrittenAt s d t va va' := by
  obtain ⟨hd, hor⟩ := h
  rw [hdirs] at hd
  refine ⟨hd, hor.imp_right fun hand => ⟨hand.1, ?_⟩⟩
  by_contra hpde
  exact hstays hd hpde hand.2

namespace Mapped

/-- A fresh page is mapped. -/
theorem spared_fresh {zero : Bool} (h : Mapped pool lost s use) (hk : KernelPart pool s.mem d)
    (hd : s.dirs e = some d) (hd' : s.dirs t = some d') (hva : va < UTOP)
    (halloc : JosSched.pageAlloc s.mem zero = .ok (some p, m₁))
    (hins : JosSched.pageInsert m₁ d' p va perm = .ok (r, m)) :
    Spared pool s.mem m d (WrittenAt s d t va) ∧ TableStays s d t va m := by
  obtain ⟨hfree, -, hload, -, -, h₁⟩ := h.layout.pageAllocData halloc
  have hkeeps : ∀ {q}, use q = .pgdir → Function.update use p .data q = .pgdir := fun hq => by
    rw [Function.update_of_ne (fun heq => ?_), hq]
    rw [heq, hfree] at hq
    cases hq
  have hdir := h.layout.holders e d hd
  have hdir' := h.layout.holders t d' hd'
  have hspace : SameSpace s.mem m₁ d := h.layout.sameSpace_fresh hdir hk hfree hload
  refine ⟨(Spared.of_space hspace hk).trans (.pageInsert h₁ (hkeeps hdir) (hspace.kernelPart hk)
    (hkeeps hdir') hva hins fun va' heq hor => ?_), fun hd₁ hpde => ?_⟩
  · obtain rfl := heq
    exact ⟨hd', hor.imp_right fun hand => ⟨hand.1, (hspace.dir _).symm.trans hand.2⟩⟩
  · obtain rfl := Option.some.inj (hd'.symm.trans hd₁)
    rw [h₁.pde_pageInsert (hkeeps hdir') hva hins (by rwa [hspace.dir]), hspace.dir]
    exact hpde

theorem keptByMap_spared (hd : s.dirs e = some d) (hva : va < UTOP) :
    KeptByMap pool lost (fun s₁ => s₁.dirs = s.dirs ∧ TableStays s d t va s₁.mem ∧
      Spared pool s.mem s₁.mem d (WrittenAt s d t va)) t va where
  congr h hmem hdirs := by
    rw [hmem]
    exact ⟨hdirs.trans h.1, h.2⟩
  fresh {s₁ _ _ d' _ _ _ _ _} hm hd' halloc hins h := by
    obtain ⟨hdirs, hstays, hspared⟩ := h
    obtain ⟨hspared₁, hstays₁⟩ :=
      hm.spared_fresh hspared.kernelPart (hdirs ▸ hd) hd' hva halloc hins
    refine ⟨hdirs, fun hd₁ hpde => hstays₁ (hdirs ▸ hd₁) (hstays hd₁ hpde), hspared.trans ?_⟩
    exact ⟨hspared₁.kernelPart, fun va' hva' =>
      hspared₁.mmu va' fun hwritten => hva' (hwritten.of_stays hdirs hstays)⟩
  shared {s₁ _ _ _ _ _ _} hm hd' hins h := by
    obtain ⟨hdirs, hstays, hspared⟩ := h
    have hdir := hm.layout.holders t _ hd'
    refine ⟨hdirs, fun hd₁ hpde => ?_,
      hspared.trans (.pageInsert hm.layout (hm.layout.holders e d (hdirs ▸ hd))
        hspared.kernelPart hdir hva hins fun va' heq hor => ?_)⟩
    · obtain rfl := Option.some.inj (hd'.symm.trans (hdirs ▸ hd₁))
      rw [Kernel.setMem_mem, hm.layout.pde_pageInsert hdir hva hins (hstays hd₁ hpde)]
      exact hstays hd₁ hpde
    · obtain rfl := heq
      exact WrittenAt.of_stays ⟨hd', hor⟩ hdirs hstays

theorem spared_envPageAlloc (h : Mapped pool lost s use) (hk : KernelPart pool s.mem d)
    (hd : s.dirs e = some d) (hva : va < UTOP)
    (hcall : JosSched.envPageAlloc s t va perm = .ok (r, s')) :
    Spared pool s.mem s'.mem d (WrittenAt s d t va) :=
  ((keptByMap_spared hd hva).envPageAlloc h ⟨rfl, fun _ => id, .refl hk⟩ hcall).2.2

theorem spared_envPageMap {src dst : Slot} {srcva dstva : Word} (h : Mapped pool lost s use)
    (hk : KernelPart pool s.mem d) (hd : s.dirs e = some d) (hdstva : dstva < UTOP)
    (hcall : JosSched.envPageMap s src srcva dst dstva perm = .ok (r, s')) :
    Spared pool s.mem s'.mem d (WrittenAt s d dst dstva) :=
  ((keptByMap_spared hd hdstva).envPageMap h ⟨rfl, fun _ => id, .refl hk⟩ hcall).2.2

theorem spared_ipcSendPage {dst : Slot} {srcva : Word} (h : Mapped pool lost s use)
    (hk : KernelPart pool s.mem d) (hd : s.dirs e = some d) (ht : ¬ s.Orphan dst)
    (hcall : JosSched.ipcSendPage s inp cur dst srcva perm = .ok (r, s')) :
    Spared pool s.mem s'.mem d (WrittenAt s d dst (s.envs dst).envIpcDstva) :=
  ((keptByMap_spared hd (h.dstva dst).1).ipcSendPage h ht ⟨rfl, fun _ => id, .refl hk⟩ hcall).2.2

end Mapped

/-! ## System calls -/

/-- Nobody in reach lives in page directory `d`. -/
def OutOfReach (c : Cpu) (s : Kernel) (tf : Trapframe) (cur : Slot) (d : Ppn) : Prop :=
  ∀ t, Reached c s tf cur t → s.dirs t ≠ some d

theorem OutOfReach.not_reached (h : OutOfReach c s tf cur d) (hd : s.dirs e = some d) :
    ¬ Reached c s tf cur e := fun he => h e he hd

/-- An allowed action works on nobody out of reach. -/
theorem Allowed.keepsOff (h : Allowed c s tf a) (hcur : s.curenv c = some cur)
    (htrap : tf.tfTrapno = T_SYSCALL) (hreach : OutOfReach c s tf cur d)
    (hsharers : ∀ t, s₁.dirs t = some d → s.dirs t = some d) : a.KeepsOff s₁ d := by
  have hspare : ∀ {t}, Reached c s tf cur t → s₁.dirs t ≠ some d :=
    fun ht hdir => hreach _ ht (hsharers _ hdir)
  cases h with
  | kstore _ hfault =>
      rw [htrap] at hfault
      exact absurd hfault (by decide)
  | destroy hroot ha =>
      cases a with
      | freeProcess t st =>
          obtain ⟨-, rfl, -⟩ := ha
          exact hspare ((hroot.destroys hcur htrap).reached hcur)
      | dying | freeThread => exact trivial
      | _ => exact absurd ha id
  | thread _ hcur' _ =>
      obtain rfl := Option.some.inj (hcur.symm.trans hcur')
      exact hspare .self
  | pageUnmap _ henv => exact hspare (.target hcur henv)
  | _ => exact trivial

namespace Aloof

theorem departs {L : Act → Prop} (h : Aloof s e d s₁) (hdep : Departs c L s₁ s') :
    Aloof s e d s' :=
  h.trans (of_eq h.owner hdep.departed.mem (dirs_departed hdep.departed))

/-- A call that maps no page. -/
theorem of_trap (hm : Mapped pool lost s use) (hex : Exclusive s) (hcur : s.curenv c = some cur)
    (hyg : (Event.trap c inp tf).Hygienic s) (htrap : tf.tfTrapno = T_SYSCALL)
    (hcall : (s.envs cur).envStatus ≠ .dying → ¬ Delicate tf) (hsend : ¬ Calls tf .ipcTrySend)
    (hk : KernelPart pool s.mem d) (hd : s.dirs e = some d) (hreach : OutOfReach c s tf cur d)
    (hleave : trap c s inp tf = .leave s') : Aloof s e d s' := by
  have he := hreach.not_reached hd
  obtain ⟨s₁, use₁, h₁, hdep, -⟩ :=
    hm.trap_invariant (J := Aloof s e d) hex hcur hyg hcall (refl hd)
    (fun ha htame hmicro hcustody hm₁ h₁ => h₁.trans (micro hm₁ hcustody
      (h₁.space.kernelPart hk) h₁.owner (ha.untouched hcur htrap hsend he) htame
      (ha.keepsOff hcur htrap hreach h₁.sharers) hmicro)) hleave
  exact h₁.departs hdep

/-- The frame of a zombie that traps does not matter. -/
theorem trap_of_zombie (hcur : s.curenv c = some cur) (hdying : (s.envs cur).envStatus = .dying)
    (tf' : Trapframe) : trap c s inp tf = trap c s inp tf' := by
  have hcur' : (started c s).curenv c = some cur := started_curenv.trans hcur
  unfold trap
  simp only [hcur']
  rw [started_envs, if_pos hdying, if_pos hdying]

/-- A zombie that traps is freed. -/
theorem of_zombie (hm : Mapped pool lost s use) (hex : Exclusive s) (hcur : s.curenv c = some cur)
    (hyg : (Event.trap c inp tf).Hygienic s) (hdying : (s.envs cur).envStatus = .dying)
    (hk : KernelPart pool s.mem d) (hd : s.dirs e = some d) (hreach : OutOfReach c s tf cur d)
    (hleave : trap c s inp tf = .leave s') : Aloof s e d s' := by
  rw [trap_of_zombie hcur hdying (sysFrame {} .getenvid 0 0 0 0 0)] at hleave
  have hdestroys : ∀ {t}, Destroys c s (sysFrame {} .getenvid 0 0 0 0 0) cur t → t = cur := by
    intro t ht
    cases ht with
    | zombie | cputs => rfl
    | call hcalls _ | upcall hcalls _ _ => exact absurd hcalls (by decide)
  refine of_trap hm hex hcur ⟨fun _ hcalls => absurd hcalls (by decide),
    fun _ hcalls => absurd hcalls (by decide), fun t ht => ?_⟩ rfl (fun h => absurd hdying h)
    (by decide) hk hd (fun t ht => hreach t ?_) hleave
  · obtain rfl := hdestroys (ht.destroys hcur rfl)
    exact hyg.2.2 t (.zombie hcur hdying)
  · cases ht with
    | self => exact .self
    | child hfree hparent => exact .child hfree hparent
    | thread ht hthread =>
        rw [hdestroys ht] at hthread
        exact .thread (.zombie hdying) hthread
    | created hcalls _ => exact absurd hcalls (by decide)

end Aloof

/-- Page directory `d` is what it was, for the same environments, and no address outside `written`
is translated in another way. -/
structure SpaceKept (pool : Set Ppn) (s : Kernel) (e : Slot) (d : Ppn) (s' : Kernel)
    (written : Word → Prop) : Prop where
  owner : s'.dirs e = some d
  sharers : ∀ t, s'.dirs t = some d → s.dirs t = some d
  spared : Spared pool s.mem s'.mem d written

theorem Aloof.kept {written : Word → Prop} (h : Aloof s e d s') (hk : KernelPart pool s.mem d) :
    SpaceKept pool s e d s' written :=
  ⟨h.owner, h.sharers, .of_space h.space hk⟩

/-- A call that returns to its caller. -/
theorem SpaceKept.of_returned {written : Word → Prop}
    (hleave : trapReturn c (returned s₁ cur r) = .leave s') (hd : s.dirs e = some d)
    (hspared : Spared pool s.mem s₁.mem d written) (hdirs : s₁.dirs = s.dirs) :
    SpaceKept pool s e d s' written := by
  have hreturned : (returned s₁ cur r).dirs = s₁.dirs := dirs_modEnv_eq fun _ => rfl
  have hdep : Departs c (fun _ => True) (returned s₁ cur r) s' := trapReturn_departs hleave
  have hdirs' : s'.dirs = s.dirs := (dirs_departed hdep.departed).trans (hreturned.trans hdirs)
  have hmem : s'.mem = s₁.mem := hdep.departed.mem
  exact ⟨hdirs' ▸ hd, fun t ht => hdirs' ▸ ht, hmem ▸ hspared⟩

/-- The pages that a send writes into the address space of page directory `d`, where the receiver
lives: the one that it asked for, and that of the window where a new page table shows. -/
def SentPage (c : Cpu) (s : Kernel) (tf : Trapframe) (d : Ppn) (va : Word) : Prop :=
  ∃ t, Receives c s tf t ∧ WrittenAt s d t (s.envs t).envIpcDstva va

namespace SpaceKept

variable (hm : Mapped pool lost s use) (hcur : s.curenv c = some cur)
  (hdying : (s.envs cur).envStatus ≠ .dying) (hk : KernelPart pool s.mem d)
  (hd : s.dirs e = some d) (hreach : OutOfReach c s tf cur d)
  (hleave : trap c s inp tf = .leave s')
include hm hcur hdying hk hd hreach hleave

theorem sysPageAlloc {written : Word → Prop} (hcall : Calls tf .pageAlloc) :
    SpaceKept pool s e d s' written := by
  have hsaved : Mapped pool lost (saved c s cur tf) use := hm.saved
  have hd' : (saved c s cur tf).dirs e = some d := (congrFun dirs_saved e).trans hd
  rcases trap_syscall hcur hdying hcall hleave with ⟨r, s₁, hret, hback⟩ | herr
  · obtain ⟨-, rfl⟩ | ⟨t, henv, ⟨hva, -⟩, halloc⟩ := sysPageAlloc_eq_ok hret
    · exact of_returned hback hd (.refl hk) dirs_saved
    · rw [envid2env_saved] at henv
      have hspared := hsaved.spared_envPageAlloc hk hd' hva halloc
      obtain ⟨m, rfl⟩ := envPageAlloc_setMem halloc
      refine of_returned hback hd
        ⟨hspared.kernelPart, fun va _ => hspared.mmu va fun hwritten => ?_⟩ dirs_saved
      exact hreach t (.target hcur henv) (dirs_saved ▸ hwritten.1)
  · exact absurd rfl ((sysPageAlloc_stays.of_error _ herr) s')

theorem sysPageMap {written : Word → Prop} (hcall : Calls tf .pageMap) :
    SpaceKept pool s e d s' written := by
  have hsaved : Mapped pool lost (saved c s cur tf) use := hm.saved
  have hd' : (saved c s cur tf).dirs e = some d := (congrFun dirs_saved e).trans hd
  rcases trap_syscall hcur hdying hcall hleave with ⟨r, s₁, hret, hback⟩ | herr
  · obtain ⟨-, rfl⟩ | ⟨src, dst, -, hdst, -, hdstva, hmap⟩ := sysPageMap_eq_ok hret
    · exact of_returned hback hd (.refl hk) dirs_saved
    · rw [envid2env_saved] at hdst
      have hspared := hsaved.spared_envPageMap hk hd' hdstva hmap
      obtain ⟨m, rfl⟩ := envPageMap_setMem hmap
      refine of_returned hback hd
        ⟨hspared.kernelPart, fun va _ => hspared.mmu va fun hwritten => ?_⟩ dirs_saved
      exact hreach dst (.target hcur hdst) (dirs_saved ▸ hwritten.1)
  · exact absurd rfl ((sysPageMap_stays.of_error _ herr) s')

omit hreach in
theorem sysIpcTrySend (hcall : Calls tf .ipcTrySend)
    (hliving : ∀ t, Receives c s tf t → ¬ s.Orphan t) :
    SpaceKept pool s e d s' (SentPage c s tf d) := by
  have hsaved : Mapped pool lost (saved c s cur tf) use := hm.saved
  have hd' : (saved c s cur tf).dirs e = some d := (congrFun dirs_saved e).trans hd
  -- what the page transfer writes, stated of the state before the trap
  have hsent : ∀ {dst s₁ r}, envid2env c (saved c s cur tf) tf.tfRegs.regEdx false = .ok dst →
      ((saved c s cur tf).envs dst).envIpcRecving = true → tf.tfRegs.regEbx < UTOP →
      ipcSendPage (saved c s cur tf) inp cur dst tf.tfRegs.regEbx tf.tfRegs.regEdi = .ok (r, s₁) →
      Spared pool s.mem s₁.mem d (SentPage c s tf d) ∧ s₁.dirs = s.dirs := by
    intro dst s₁ r henv hrecv hlt hsend
    rw [envid2env_saved] at henv
    rw [saved_envs] at hrecv
    have hreceives : Receives c s tf dst := ⟨hcall, henv, hrecv⟩
    have hspared := hsaved.spared_ipcSendPage hk hd'
      (fun ho => hliving dst hreceives (orphan_of_saved ho)) hsend
    rw [saved_envs] at hspared
    refine ⟨⟨hspared.kernelPart, fun va hva => hspared.mmu va fun hwritten => hva ?_⟩, ?_⟩
    · exact ⟨dst, hreceives, dirs_saved ▸ hwritten.1, hwritten.2⟩
    · rcases ipcSendPage_eq_ok (BitVec.not_le.mpr hlt) hsend with ⟨-, m, rfl⟩ | ⟨-, m, rfl⟩
      · exact dirs_saved
      · have hperm : (setIpcPerm ((saved c s cur tf).setMem m) dst (ipcPermAfter
            ((saved c s cur tf).envs dst) tf.tfRegs.regEbx tf.tfRegs.regEdi)).dirs =
            (saved c s cur tf).dirs := dirs_modEnv_eq fun _ => rfl
        exact hperm.trans dirs_saved
  have hdelivered : ∀ {dst : Slot} {s₁ : Kernel} {value : Word},
      (ipcDeliver s₁ cur dst value).dirs = s₁.dirs := dirs_modEnv_eq fun _ => rfl
  rcases trap_syscall hcur hdying hcall hleave with ⟨r, s₁, hret, hback⟩ | herr
  · cases sysIpcTrySend_ends hret with
    | refused => exact of_returned hback hd (.refl hk) dirs_saved
    | @noPage dst =>
        have hperm : (setIpcPerm (saved c s cur tf) dst 0).dirs = (saved c s cur tf).dirs :=
          dirs_modEnv_eq fun _ => rfl
        exact of_returned hback hd (.refl hk) (hdelivered.trans (hperm.trans dirs_saved))
    | failed henv hrecv hlt hsend =>
        obtain ⟨hspared, hdirs⟩ := hsent henv hrecv hlt hsend
        exact of_returned hback hd hspared hdirs
    | delivered henv hrecv hlt hsend =>
        obtain ⟨hspared, hdirs⟩ := hsent henv hrecv hlt hsend
        exact of_returned hback hd hspared (hdelivered.trans hdirs)
  · exact absurd rfl ((sysIpcTrySend_stays.of_error _ herr) s')

omit hm hreach in
theorem sysEnvSetStatus {written : Word → Prop} (hcall : Calls tf .envSetStatus) :
    SpaceKept pool s e d s' written := by
  rcases trap_syscall hcur hdying hcall hleave with ⟨r, s₁, hret, hback⟩ | herr
  · have hs₁ : (JosSched.sysEnvSetStatus c (saved c s cur tf) tf.tfRegs.regEdx
        tf.tfRegs.regEcx).2 = s₁ := congrArg Prod.snd (Except.ok.inj hret)
    have hsame : s₁.mem = s.mem ∧ s₁.dirs = (saved c s cur tf).dirs := by
      rw [← hs₁]
      unfold JosSched.sysEnvSetStatus
      split
      · exact ⟨rfl, rfl⟩
      split
      · exact ⟨rfl, rfl⟩
      next st _ _ t _ =>
        exact ⟨rfl, dirs_modEnv_eq (f := fun env => { env with envStatus := st }) fun _ => rfl⟩
    refine of_returned hback hd ?_ (hsame.2.trans dirs_saved)
    rw [hsame.1]
    exact .refl hk
  · cases herr

end SpaceKept

theorem spaceKept_of_run {evs : List Event} (hboot : Booted s₀) (hmem : KernelMemory s₀.mem)
    (hrun : Trace OrderlyStep s₀ evs s) (hstep : OrderlyStep s (.trap c inp tf) s')
    (hcur : s.curenv c = some cur) (htrap : tf.tfTrapno = T_SYSCALL) (hd : s.dirs e = some d)
    (hreach : OutOfReach c s tf cur d) :
    SpaceKept (freeFrames s₀.mem) s e d s' (SentPage c s tf d) := by
  obtain ⟨hwindow, hs⟩ := windowed_of_run hboot hrun
  obtain ⟨use, hm⟩ := hs.mapped
  have hk : KernelPart (freeFrames s₀.mem) s.mem d :=
    fun k hk hpresent => hwindow.kernelPart hd hmem hk hpresent
  obtain ⟨⟨-, hleave⟩, hyg, hord⟩ := hstep
  have hleave : trap c s inp tf = .leave s' := hleave
  by_cases hdying : (s.envs cur).envStatus = .dying
  · exact (Aloof.of_zombie hm hs.exclusive hcur hyg hdying hk hd hreach hleave).kept hk
  by_cases hcall : Delicate tf
  · rcases hcall with hcall | hcall | hcall | hcall
    · exact .sysPageAlloc hm hcur hdying hk hd hreach hleave hcall
    · exact .sysPageMap hm hcur hdying hk hd hreach hleave hcall
    · refine .sysIpcTrySend hm hcur hdying hk hd hleave hcall fun t ht horphan => ?_
      exact (hord.2.2 hcall t ht.2.1 ht.2.2).1 horphan.1
    · exact .sysEnvSetStatus hcur hdying hk hd hleave hcall
  exact (Aloof.of_trap hm hs.exclusive hcur hyg htrap (fun _ => hcall)
    (fun hsend => hcall (.inr (.inr (.inl hsend)))) hk hd hreach hleave).kept hk

/-- In an orderly run, an address space in which nobody lives whom the call reaches keeps its
environments and its translations, but for the page that is sent to a receiver in it. -/
theorem spaces_undisturbed {evs : List Event} (hboot : Booted s₀) (hmem : KernelMemory s₀.mem)
    (hrun : Trace OrderlyStep s₀ evs s) (hstep : OrderlyStep s (.trap c inp tf) s')
    (hcur : s.curenv c = some cur) (htrap : tf.tfTrapno = T_SYSCALL) (hd : s.dirs e = some d)
    (hreach : OutOfReach c s tf cur d) :
    s'.dirs e = some d ∧ (∀ t, s'.dirs t = some d → s.dirs t = some d) ∧
      ∀ va, ¬ SentPage c s tf d va → mmu s'.mem d va = mmu s.mem d va := by
  have hkept := spaceKept_of_run hboot hmem hrun hstep hcur htrap hd hreach
  exact ⟨hkept.owner, hkept.sharers, fun va hva => hkept.spared.mmu va hva⟩

/-- The first of two processes maps a page, and the second one keeps its stack. -/
theorem spaces_undisturbed_pageAlloc : ∃ s s',
    Trace OrderlyStep (bootedMachine .roundRobin 64) bothBooted s ∧
    OrderlyStep s (sysTrap 0 .pageAlloc 0 0x800000 7 0 0) s' ∧
    (mmu s.mem 11 0xeebfd000).isSome ∧ mmu s'.mem 11 0xeebfd000 = mmu s.mem 11 0xeebfd000 := by
  have heval : (replay (fun s ev => ev.Hygienic s ∧ ev.Orderly s) (bootedMachine .roundRobin 64)
      bothBooted).any (fun s => decide (s.curenv 0 = some 0 ∧ (s.envs 1).envType = .user ∧
        (s.envs 1).envParentId ≠ (s.envs 0).envId ∧ s.dirs 1 = some 11 ∧
        (∀ t, s.dirs t = some 11 → t = 1) ∧ (mmu s.mem 11 0xeebfd000).isSome) &&
        decide ((sysTrap 0 .pageAlloc 0 0x800000 7 0 0).Hygienic s ∧
          (sysTrap 0 .pageAlloc 0 0x800000 7 0 0).Orderly s) &&
        ((sysTrap 0 .pageAlloc 0 0x800000 7 0 0).next s).isSome) = true := by
    decide +kernel
  obtain ⟨s, hrun, hs⟩ := exists_trace _ _ _ _ heval
  simp only [Bool.and_eq_true, decide_eq_true_iff] at hs
  obtain ⟨⟨⟨hcur, huser, hparent, hdir, honly, hstack⟩, hplain⟩, hnext⟩ := hs
  obtain ⟨s', hnext⟩ := Option.isSome_iff_exists.mp hnext
  have hstep : OrderlyStep s (sysTrap 0 .pageAlloc 0 0x800000 7 0 0) s' :=
    ⟨step_of_next hnext, hplain⟩
  have hboot := booted_bootedMachine .roundRobin (n := 64) (by decide) (by decide)
  obtain ⟨-, -, hkept⟩ := spaces_undisturbed hboot (kernelMemory_bootedMem (by decide) (by decide))
    hrun hstep hcur rfl hdir fun t ht hlives => by
      obtain rfl := honly t hlives
      rcases ht with _ | ⟨-, hchild⟩ | ⟨-, hthread⟩ | ⟨hcalls, -⟩
      · exact hparent hchild
      · rw [isThreadOf_iff, huser] at hthread
        exact EnvType.noConfusion hthread.2.1
      · exact absurd hcalls (by decide)
  refine ⟨s, s', hrun, hstep, hstack, hkept _ ?_⟩
  rintro ⟨t, ⟨hcalls, -⟩, -⟩
  exact absurd hcalls (by decide)

end JosSched
