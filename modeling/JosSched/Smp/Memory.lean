import JosSched.Kern.MemoryActs
import JosSched.Kern.MapCalls

/-!
# Memory of a running machine

`Mapped` holds in every reachable state, as long as three things that the code does not check
stay out of the run: permission bits of `sys_page_map` outside `PTE_SYSCALL`, a page mapped so
often that the 16 bits of `pp_ref` overflow, and calls for zombie threads, which may outlive
their process (`Event.Orderly`).  A page may still be lost, when `env_page_alloc` takes the last
free frame and finds no page table; in runs without that (`Event.Thrifty`), none is.
-/

open Except

namespace JosSched

variable {c : Cpu} {pool : Set Ppn} {lost : Set (Ppn × Use)} {s s' s₁ s₀ : Kernel}
  {use : Ppn → Use} {e t cur : Slot}
  {d p srcdir : Ppn} {m m' : Mem} {va srcva perm : Word} {r : ℤ} {inp : Input} {tf : Trapframe}
  {ev : Event}

/-! ## Booting -/

/-- What `load_icode` does to page directory `d` keeps `J`: it maps fresh pages, and stores bytes
in them. -/
structure LoadKeeps (pool : Set Ppn) (lost : Set (Ppn × Use)) (s : Kernel) (d : Ppn)
    (J : Mem → Prop) : Prop where
  page : ∀ {use m m₁ m₂ p va r}, Mapped pool lost (s.setMem m) use → va < UTOP →
    pageAlloc m false = .ok (some p, m₁) →
    pageInsert m₁ d p va (PTE_U ||| PTE_W) = .ok (r, m₂) → J m → J m₂
  store : ∀ {use m m' va bytes}, Mapped pool lost (s.setMem m) use →
    va.toNat + bytes.length ≤ UTOP.toNat → kernStore m d va bytes = .ok m' → J m → J m'

variable {J : Mem → Prop}

theorem Mapped.regionAllocFrom (hd : s.dirs e = some d) (he : ¬ s.ZombieThread e)
    (hJ : LoadKeeps pool lost s d J) (n : ℕ) :
    ∀ {use : Ppn → Use} {m : Mem} {va : Word}, Mapped pool lost (s.setMem m) use → J m →
      (∀ k < n, va.toNat + k * 4096 < UTOP.toNat) → JosSched.regionAllocFrom m d n va = .ok m' →
      ∃ use', Mapped pool lost (s.setMem m') use' ∧ J m' := by
  induction n with
  | zero =>
      intro use m va h h₀ _ halloc
      rw [← Except.ok.inj halloc]
      exact ⟨use, h, h₀⟩
  -- one page is mapped, and the rest of the region starts at the next one
  | succ n ih =>
      intro use m va h h₀ hbelow hregion
      unfold JosSched.regionAllocFrom at hregion
      obtain ⟨⟨page, m₁⟩, halloc, hregion⟩ := bind_eq_ok.mp hregion
      have hva : va.toNat < UTOP.toNat := by simpa using hbelow 0 (Nat.succ_pos n)
      cases page with
      | none => cases hregion
      | some p =>
          obtain ⟨⟨r, m₂⟩, hins, hregion⟩ := bind_eq_ok.mp hregion
          dsimp only at hregion
          split at hregion
          · cases hregion
          · next hr =>
              rw [not_not] at hr
              have h₂' := hJ.page h hva halloc hins h₀
              obtain ⟨-, ⟨hneg, -⟩ | ⟨-, hpage⟩⟩ :=
                h.pageNew (t := e) (fun ho => he ho.1) hd hva (by decide) halloc hins
              · rw [hr] at hneg
                exact absurd hneg (by decide)
              · obtain ⟨use₂, h₂⟩ := hpage.mapped
                by_cases hn : n = 0
                · subst hn
                  rw [← Except.ok.inj hregion]
                  exact ⟨use₂, h₂, h₂'⟩
                · have hnext : (va + PGSIZE).toNat = va.toNat + 4096 := by
                    have hlt := hbelow 1 (by omega)
                    have htop : UTOP.toNat = 4005560320 := by decide
                    rw [BitVec.toNat_add, show PGSIZE.toNat = 4096 from rfl]
                    omega
                  refine ih h₂ h₂' (fun k hk => ?_) hregion
                  have hlt := hbelow (k + 1) (by omega)
                  omega

theorem Mapped.regionAlloc {len : Word} (h : Mapped pool lost (s.setMem m) use)
    (hd : s.dirs e = some d) (he : ¬ s.ZombieThread e) (hJ : LoadKeeps pool lost s d J)
    (h₀ : J m) (hregion : JosSched.regionAlloc m d va len = .ok m') :
    ∃ use', Mapped pool lost (s.setMem m') use' ∧ J m' := by
  unfold JosSched.regionAlloc at hregion
  dsimp only at hregion
  split at hregion
  · cases hregion
  · next hutop =>
      refine Mapped.regionAllocFrom hd he hJ _ h h₀ (fun k hk => ?_) hregion
      have hle : (roundup (va + len)).toNat ≤ UTOP.toNat := by
        rw [BitVec.not_lt] at hutop
        exact hutop
      omega

theorem Mapped.kernStore {bytes : List (BitVec 8)} (h : Mapped pool lost (s.setMem m) use)
    (hd : s.dirs e = some d) (hva : va.toNat + bytes.length ≤ UTOP.toNat)
    (hstore : JosSched.kernStore m d va bytes = .ok m') :
    Mapped pool lost (s.setMem m') use :=
  h.stored (h.layout.kernStore (h.layout.holders e d hd) hva hstore)

/-- `load_icode`, in the page directory of the new environment. -/
theorem Mapped.loadIcode {binary : Image} (h : Mapped pool lost (s.setMem m) use)
    (hd : s.dirs e = some d) (he : ¬ s.ZombieThread e) (hJ : LoadKeeps pool lost s d J)
    (h₀ : J m) (hload : JosSched.loadIcode m d binary = .ok m') :
    ∃ use', Mapped pool lost (s.setMem m') use' ∧ J m' := by
  unfold JosSched.loadIcode at hload
  obtain ⟨m₁, hsegments, hstack⟩ := bind_eq_ok.mp hload
  have hloaded : ∃ use', Mapped pool lost (s.setMem m₁) use' ∧ J m₁ := by
    refine (Ensures.foldlM (E := fun _ => True)
      (I := fun m => ∃ use', Mapped pool lost (s.setMem m) use' ∧ J m) binary.segments
      ⟨_, h, h₀⟩ fun m ph _ hm => ⟨fun m' hm' => ?_, fun _ _ => trivial⟩).of_ok m₁ hsegments
    obtain ⟨use', h', h₁⟩ := hm
    unfold loadSegment at hm'
    obtain ⟨m₂, hregion, hm'⟩ := bind_eq_ok.mp hm'
    obtain ⟨m₃, hzero, hbytes⟩ := bind_eq_ok.mp hm'
    have hfits := ph.fits
    have hbelow := ph.below
    have hzeroed : ph.va.toNat + (List.replicate ph.memsz.toNat (0 : BitVec 8)).length ≤
        UTOP.toNat := by rwa [List.length_replicate]
    have hcopied : ph.va.toNat + ph.bytes.length ≤ UTOP.toNat := by omega
    obtain ⟨use₂, h₂, hJ₂⟩ := h'.regionAlloc hd he hJ h₁ hregion
    have h₃ := h₂.kernStore hd hzeroed hzero
    exact ⟨use₂, h₃.kernStore hd hcopied hbytes,
      hJ.store h₃ hcopied hbytes (hJ.store h₂ hzeroed hzero hJ₂)⟩
  obtain ⟨use₁, h₁, hJ₁⟩ := hloaded
  exact h₁.regionAlloc hd he hJ hJ₁ hstack

/-- The invariant rule for `env_create`.  It panics when it runs out of memory, and so loses
nothing. -/
theorem Mapped.envCreate_invariant {I : Kernel → Prop} {binary : Image}
    (h : Mapped pool lost s use) (hslots : FreeSlots s)
    (hcreate : JosSched.envCreate s binary = .ok s')
    (halloc : ∀ {e s₁}, (s.envs e).envStatus = .free →
      JosSched.envAlloc s 0 = .ok (.ok e, s₁) → I s₁)
    (hload : ∀ {e s₁ d}, s₁.dirs e = some d → LoadKeeps pool lost s₁ d fun m => I (s₁.setMem m))
    (hentry : ∀ {e s₁ f}, (∀ env : Env, (f env).envPgdir = env.envPgdir) →
      (f (s₁.envs e)).envType = (s₁.envs e).envType → I s₁ → I (s₁.modEnv e f)) :
    ∃ use', Mapped pool lost s' use' ∧ I s' := by
  unfold JosSched.envCreate at hcreate
  obtain ⟨⟨r, s₁⟩, hslot, hcreate⟩ := bind_eq_ok.mp hcreate
  cases r with
  | error r => cases hcreate
  | ok e =>
      obtain ⟨p', m', hhead, -, hs₁⟩ := envAlloc_eq_ok hslot
      have hfree := hslots.head hhead
      obtain ⟨p, -, h₁, -⟩ := h.envAlloc hfree hslot
      have he : ¬ s₁.ZombieThread e := fun hz => by
        have hst := hz.2
        simp [hs₁, initEnv] at hst
      obtain ⟨d, hpgdir, hcreate⟩ := bind_eq_ok.mp hcreate
      have hd : s₁.dirs e = some d := envPgdirOf_eq_ok hpgdir
      obtain ⟨⟨_, s₂⟩, hloaded, hcreate⟩ := bind_eq_ok.mp hcreate
      obtain ⟨m₂, hmap, rfl⟩ := withMem_eq_ok hloaded
      obtain ⟨m₃, hicode, hpair⟩ := map_eq_ok.mp hmap
      obtain ⟨-, rfl⟩ := Prod.mk.inj hpair
      obtain ⟨use₃, h₃, hI₃⟩ := h₁.loadIcode hd he (hload hd) (halloc hfree hslot) hicode
      have huser : (s₁.envs e).envType = .user := by simp [hs₁, initEnv]
      rw [← Except.ok.inj hcreate]
      exact ⟨use₃, h₃.modEnv ⟨rfl, ⟨rfl, rfl⟩, .inr rfl, .rfl, fun _ hst => hst, fun hva => hva⟩,
        hentry (fun _ => rfl) huser.symm hI₃⟩

theorem Mapped.envCreate {binary : Image} (h : Mapped pool lost s use) (hslots : FreeSlots s)
    (hcreate : JosSched.envCreate s binary = .ok s') : ∃ use', Mapped pool lost s' use' := by
  obtain ⟨use', h', -⟩ := h.envCreate_invariant (I := fun _ => True) hslots hcreate
    (fun _ _ => trivial) (fun _ => ⟨fun _ _ _ _ _ => trivial, fun _ _ _ _ => trivial⟩)
    fun _ _ _ => trivial
  exact ⟨use', h'⟩

/-! ## What the code does not check -/

/-- The reference count of the page mapped at `va` has room for one more. -/
def Countable (s : Kernel) (e : Slot) (va : Word) : Prop :=
  ∀ d, s.dirs e = some d → leaf s.mem d va ≠ 0 →
    (s.mem.ref (pgnum (leaf s.mem d va))).toNat + 1 < 2 ^ 16

/-- If a page is mapped at `va`, the permissions it is shared with are bits of `PTE_SYSCALL`. -/
def Permitted (s : Kernel) (e : Slot) (va perm : Word) : Prop :=
  ∀ d, s.dirs e = some d → leaf s.mem d va ≠ 0 → perm &&& ~~~PTE_SYSCALL = 0

/-- A fresh page can be mapped at `va`: there is a page table, or more than one free frame. -/
def Affords (s : Kernel) (e : Slot) (va : Word) : Prop :=
  ∀ d p, s.dirs e = some d → LastFrame s.mem p → s.mem.load (d, pdx va) ≠ 0

instance (s : Kernel) (e : Slot) (va : Word) : Decidable (Countable s e va) :=
  decidableForallSome (s.dirs e) _

instance (s : Kernel) (e : Slot) (va perm : Word) : Decidable (Permitted s e va perm) :=
  decidableForallSome (s.dirs e) _

/-- `sys_page_alloc` is not called on an orphan, `sys_env_set_status` on no zombie thread. -/
def LivingTarget (c : Cpu) (s : Kernel) (tf : Trapframe) : Prop :=
  ∀ t, envid2env c s tf.tfRegs.regEdx true = .ok t →
    (Calls tf .pageAlloc → ¬ s.Orphan t) ∧ (Calls tf .envSetStatus → ¬ s.ZombieThread t)

/-- `sys_page_map` maps no page for an orphan, gets permission bits only, and overflows no
reference count. -/
def PlainMap (c : Cpu) (s : Kernel) (tf : Trapframe) : Prop :=
  Calls tf .pageMap → ∀ src, envid2env c s tf.tfRegs.regEdx true = .ok src →
    ∀ dst, envid2env c s tf.tfRegs.regEbx true = .ok dst →
      ¬ s.Orphan dst ∧ (tf.tfRegs.regEcx < UTOP →
        Permitted s src tf.tfRegs.regEcx tf.tfRegs.regEsi ∧ Countable s src tf.tfRegs.regEcx)

/-- `sys_ipc_try_send` wakes no zombie thread up, and overflows no reference count. -/
def PlainSend (c : Cpu) (s : Kernel) (tf : Trapframe) : Prop :=
  Calls tf .ipcTrySend → ∀ t, envid2env c s tf.tfRegs.regEdx false = .ok t →
    (s.envs t).envIpcRecving = true →
    ¬ s.ZombieThread t ∧ ∀ cur, s.curenv c = some cur → tf.tfRegs.regEbx < UTOP →
      Countable s cur tf.tfRegs.regEbx

/-- What is asked of the calls of a run. -/
def Event.Orderly (s : Kernel) : Event → Prop
  | .trap c _ tf => LivingTarget c s tf ∧ PlainMap c s tf ∧ PlainSend c s tf
  | _ => True

instance (c : Cpu) (s : Kernel) (tf : Trapframe) : Decidable (LivingTarget c s tf) :=
  inferInstanceAs (Decidable (∀ _, _))

instance (c : Cpu) (s : Kernel) (tf : Trapframe) : Decidable (PlainMap c s tf) :=
  inferInstanceAs (Decidable (_ → _))

instance (c : Cpu) (s : Kernel) (tf : Trapframe) : Decidable (PlainSend c s tf) :=
  inferInstanceAs (Decidable (_ → _))

/-- `sys_page_alloc` can map the page that it takes. -/
def ThriftyAlloc (c : Cpu) (s : Kernel) (envid va perm : Word) : Prop :=
  UserPage va → granted perm &&& ~~~PTE_SYSCALL = 0 →
    ∀ t, envid2env c s envid true = .ok t → Affords s t va

/-- `sys_ipc_try_send` can map the page that it takes, when one is offered and wanted. -/
def ThriftySend (c : Cpu) (s : Kernel) (envid srcva perm : Word) : Prop :=
  ∀ t, envid2env c s envid false = .ok t → (s.envs t).envIpcRecving = true →
    Offered s t srcva perm → Affords s t (s.envs t).envIpcDstva

/-- The call does not take the last free frame for a page that needs a page table too. -/
def Event.Thrifty (s : Kernel) : Event → Prop
  | .trap c _ tf =>
      (Calls tf .pageAlloc →
        ThriftyAlloc c s tf.tfRegs.regEdx tf.tfRegs.regEcx tf.tfRegs.regEbx) ∧
      (Calls tf .ipcTrySend →
        ThriftySend c s tf.tfRegs.regEdx tf.tfRegs.regEbx tf.tfRegs.regEdi)
  | _ => True

instance (s : Kernel) (ev : Event) : Decidable (ev.Orderly s) :=
  match ev with
  | .trap c _ tf =>
      inferInstanceAs (Decidable (LivingTarget c s tf ∧ PlainMap c s tf ∧ PlainSend c s tf))
  | .boot _ | .start _ | .timer _ | .store _ _ _ => inferInstanceAs (Decidable True)

/-! ## Calls -/

/-- Pages for user data may be lost. -/
def leaks : Set (Ppn × Use) := { x | x.2 = .data }

theorem Mapped.of_leaked (h : Mapped pool (insert (p, .data) lost) s use) (hlost : leaks ⊆ lost) :
    Mapped pool lost s use := by
  have hmem : (p, Use.data) ∈ lost := hlost rfl
  rw [Set.insert_eq_of_mem hmem] at h
  exact h

/-- The source of a send has not been counted once more while the fresh page was mapped. -/
theorem Mapped.countable {m₁ : Mem} (h : Mapped pool lost s use) (hp : use p = .free)
    (hperm : perm &&& ~~~PTE_SYSCALL = 0) (hpage : PageMapped pool lost s use d va p perm m₁)
    (hd : s.dirs cur = some srcdir) (hsrcva : srcva < UTOP) (hleaf : leaf m₁ srcdir srcva ≠ 0)
    (hcount : Countable s cur srcva) :
    (m₁.ref (pgnum (leaf m₁ srcdir srcva))).toNat + 1 < 2 ^ 16 := by
  by_cases halias : srcdir = d ∧ SamePage va srcva
  · obtain ⟨rfl, hsame⟩ := halias
    have hnew : pgnum (leaf m₁ srcdir srcva) = p := by
      rw [← leaf_samePage hsame, hpage.leaf, pgnum_userEntry hperm]
    have hle := hpage.ref p (.inr rfl)
    rw [h.layout.ref_eq_zero hp, if_pos rfl] at hle
    rw [hnew]
    have hone : (m₁.ref p).toNat ≤ 1 := hle
    omega
  · have hsame := hpage.onlyAt srcdir srcva (h.layout.holders cur srcdir hd) hsrcva halias
    rw [hsame] at hleaf ⊢
    have hdata := h.data_of_leaf hd hsrcva hleaf
    have hne : pgnum (leaf s.mem srcdir srcva) ≠ p := fun heq => by
      rw [heq, hp] at hdata
      cases hdata
    have hle := hpage.ref (pgnum (leaf s.mem srcdir srcva)) (.inl (by rw [hdata]; decide))
    rw [if_neg hne, Nat.add_zero] at hle
    exact (Nat.add_le_add_right hle 1).trans_lt (hcount srcdir hd hleaf)

theorem Mapped.sysPageAlloc {envid : Word} (h : Mapped pool lost s use)
    (ht : ∀ t, envid2env c s envid true = .ok t → ¬ s.Orphan t)
    (hlost : ThriftyAlloc c s envid va perm ∨ leaks ⊆ lost)
    (hcall : JosSched.sysPageAlloc c s envid va perm = .ok (r, s')) :
    ∃ use', Mapped pool lost s' use' := by
  obtain ⟨-, rfl⟩ | ⟨t, henv, hva, halloc⟩ := sysPageAlloc_eq_ok hcall
  · exact ⟨use, h⟩
  cases h.envPageAlloc (ht t henv) hva.1 halloc with
  | refused => exact ⟨use, h⟩
  | leaked hd _ hlast hpde hmapped _ hperm =>
      rcases hlost with hthrifty | hlost
      · exact absurd hpde (hthrifty hva hperm t henv _ _ hd hlast)
      · obtain ⟨use', h'⟩ := hmapped
        exact ⟨use', h'.of_leaked hlost⟩
  | mapped _ _ _ hpage => exact hpage.mapped

/-- The permissions with which `sys_page_map` maps the page. -/
theorem shared_syscall (hperm : perm &&& ~~~PTE_SYSCALL = 0) :
    (PTE_P ||| PTE_U ||| perm) &&& ~~~PTE_SYSCALL = 0 := by
  have hfixed : (PTE_P ||| PTE_U) &&& ~~~PTE_SYSCALL = 0 := by decide
  have hzero : (0 : Word) ||| 0 = 0 := by decide
  rw [BitVec.or_comm, BitVec.and_comm, BitVec.and_or_distrib_left, BitVec.and_comm _ perm,
    hperm, BitVec.and_comm, hfixed, hzero]

theorem Mapped.sysPageMap {srcenvid dstenvid dstva : Word} (h : Mapped pool lost s use)
    (hcond : ∀ src dst, envid2env c s srcenvid true = .ok src →
      envid2env c s dstenvid true = .ok dst →
      ¬ s.Orphan dst ∧ (srcva < UTOP → Permitted s src srcva perm ∧ Countable s src srcva))
    (hcall : JosSched.sysPageMap c s srcenvid srcva dstenvid dstva perm = .ok (r, s')) :
    ∃ use', Mapped pool lost s' use' := by
  obtain ⟨-, rfl⟩ | ⟨src, dst, hsrc, hdst, hsrcva, hdstva, hmap⟩ := sysPageMap_eq_ok hcall
  · exact ⟨use, h⟩
  obtain ⟨horphan, hplain⟩ := hcond src dst hsrc hdst
  obtain ⟨hpermitted, hcount⟩ := hplain hsrcva
  cases h.envPageMap horphan hsrcva hdstva hmap with
  | refused | noTable => exact ⟨use, h⟩
  | mapped hsrcdir _ hleaf _ _ hshare =>
      have hperm := shared_syscall (hpermitted _ hsrcdir hleaf)
      exact (hshare (hcount _ hsrcdir hleaf) hperm).mapped

theorem Mapped.sysIpcTrySend {envid value : Word} (h : Mapped pool lost s use)
    (hfree : ∀ t, envid2env c s envid false = .ok t → (s.envs t).envStatus ≠ .free)
    (hcond : ∀ t, envid2env c s envid false = .ok t → (s.envs t).envIpcRecving = true →
      ¬ s.ZombieThread t ∧ (srcva < UTOP → Countable s cur srcva))
    (hlost : ThriftySend c s envid srcva perm ∨ leaks ⊆ lost)
    (hcall : JosSched.sysIpcTrySend c s inp cur envid value srcva perm = .ok (r, s')) :
    ∃ use', Mapped pool lost s' use' := by
  -- delivery writes fields of the receiver that say nothing about memory
  have hdelivered : ∀ (t : Slot) (m : Mem) (perm : Word) {use' : Ppn → Use},
      envid2env c s envid false = .ok t → ¬ s.ZombieThread t →
      Mapped pool lost (s.setMem m) use' →
      Mapped pool lost (ipcDeliver (setIpcPerm (s.setMem m) t perm) cur t value) use' := by
    intro t m perm use' henv hzombie h'
    have hperm : Mapped pool lost (setIpcPerm (s.setMem m) t perm) use' :=
      h'.modEnv ⟨rfl, ⟨rfl, rfl⟩, .inl rfl, .rfl, fun _ hst => hst, fun hva => hva⟩
    have henvs : (setIpcPerm (s.setMem m) t perm).envs t =
        { s.envs t with envIpcPerm := perm } := Kernel.modEnv_self ..
    refine hperm.modEnv (.of_status rfl rfl (fun hva => hva) ?_ EnvStatus.noConfusion ?_)
    · rw [henvs]
      exact hfree t henv
    · rw [henvs]
      exact hzombie
  cases sysIpcTrySend_ends hcall with
  | refused => exact ⟨use, h⟩
  | noPage henv hrecv => exact ⟨use, hdelivered _ s.mem 0 henv (hcond _ henv hrecv).1 h⟩
  | failed henv hrecv hsrcva hsend hneg =>
      cases h.ipcSendPage (fun ho => (hcond _ henv hrecv).1 ho.1) hsrcva hsend with
      | refused => exact ⟨use, h⟩
      -- the page of the receiver that is lost with its table: excluded, or in `lost`
      | leaked hd _ hlast hpde hmapped _ hoffered =>
          rcases hlost with hthrifty | hlost
          · exact absurd hpde (hthrifty _ henv hrecv hoffered _ _ hd hlast)
          · obtain ⟨use', h'⟩ := hmapped
            exact ⟨use', h'.of_leaked hlost⟩
      | dropped _ _ _ _ _ _ hpage => exact hpage.mapped
      | unwanted | sent => exact absurd hneg (by decide)
  | @delivered dst _ _ henv hrecv hsrcva hsend hneg =>
      obtain ⟨hzombie, hcount⟩ := hcond dst henv hrecv
      cases h.ipcSendPage (fun ho => hzombie ho.1) hsrcva hsend with
      | refused hneg' => exact absurd hneg' hneg
      | leaked | dropped => exact absurd (by decide) hneg
      | unwanted _ =>
          have hself : setIpcPerm (s.setMem s.mem) dst (s.envs dst).envIpcPerm = s :=
            setIpcPerm_self
          have h' := hdelivered dst s.mem (s.envs dst).envIpcPerm henv hzombie h
          rw [hself] at h'
          exact ⟨use, h'⟩
      | sent _ hsrcdir hd hp hperm hpage h₁ hleaf _ hshare =>
          have hfit := h.countable hp hperm hpage hsrcdir hsrcva hleaf (hcount hsrcva)
          obtain ⟨use', h'⟩ := (hshare hfit).mapped
          exact ⟨use', hdelivered _ _ _ henv hzombie h'⟩

theorem Mapped.sysEnvSetStatus {envid : Word} (h : Mapped pool lost s use) (status : Word)
    (hfree : ∀ t, envid2env c s envid true = .ok t → (s.envs t).envStatus ≠ .free)
    (ht : ∀ t, envid2env c s envid true = .ok t → ¬ s.ZombieThread t) :
    Mapped pool lost (JosSched.sysEnvSetStatus c s envid status).2 use := by
  unfold JosSched.sysEnvSetStatus
  split
  · exact h
  next st hst =>
  split
  · exact h
  next t henv =>
  have hset : st ≠ .free := by
    unfold settableStatus at hst
    rintro rfl
    split at hst
    · cases hst
    · split at hst <;> cases hst
  have hkept : (s.envs t).Kept { s.envs t with envStatus := st } :=
    .of_status rfl rfl (fun hva => hva) (hfree t henv) hset (ht t henv)
  exact h.modEnv (f := fun env => { env with envStatus := st }) hkept

theorem sysPageAlloc_stays {envid : Word} :
    (sysPageAlloc c s envid va perm).Ensures (fun _ => True) Exit.Stays := by
  unfold sysPageAlloc
  split
  · exact ensures_ok.mpr trivial
  · split
    · exact ensures_ok.mpr trivial
    · exact envPageAlloc_stays

theorem sysPageMap_stays {srcenvid dstenvid dstva : Word} :
    (sysPageMap c s srcenvid srcva dstenvid dstva perm).Ensures (fun _ => True) Exit.Stays := by
  unfold sysPageMap
  split
  · exact ensures_ok.mpr trivial
  · split
    · exact ensures_ok.mpr trivial
    · split
      · exact ensures_ok.mpr trivial
      · split
        · exact ensures_ok.mpr trivial
        · exact envPageMap_stays

/-! ## Traps -/

theorem zombieThread_saved : (saved c s cur tf).ZombieThread t ↔ s.ZombieThread t := by
  rw [Kernel.ZombieThread, saved_envs, Kernel.ZombieThread]

theorem dirs_saved : (saved c s cur tf).dirs = s.dirs := by
  funext t
  rw [Kernel.dirs, saved_envs, Kernel.dirs]

theorem owns_saved {o : Slot} (h : Owns s o t) : Owns (saved c s cur tf) o t := by
  refine ⟨?_, ?_, ?_, by rw [dirs_saved, h.shared]⟩
  · rw [saved_envs]
    exact h.user
  · rw [saved_envs]
    exact h.inUse
  · rw [saved_envs, saved_envs]
    exact h.parent

theorem orphan_of_saved (h : (saved c s cur tf).Orphan t) : s.Orphan t :=
  ⟨zombieThread_saved.mp h.1, fun o ho => h.2 o (owns_saved ho)⟩

theorem permitted_saved : Permitted (saved c s cur tf) e va perm ↔ Permitted s e va perm := by
  rw [Permitted, dirs_saved]
  exact Iff.rfl

theorem countable_saved : Countable (saved c s cur tf) e va ↔ Countable s e va := by
  rw [Countable, dirs_saved]
  exact Iff.rfl

theorem affords_saved : Affords (saved c s cur tf) e va ↔ Affords s e va := by
  rw [Affords, dirs_saved]
  exact Iff.rfl

theorem ThriftyAlloc.saved {envid : Word} (h : ThriftyAlloc c s envid va perm) :
    ThriftyAlloc c (saved c s cur tf) envid va perm := by
  intro hva hperm t henv
  rw [envid2env_saved] at henv
  exact affords_saved.mpr (h hva hperm t henv)

theorem ThriftySend.saved {envid : Word} (h : ThriftySend c s envid srcva perm) :
    ThriftySend c (saved c s cur tf) envid srcva perm := by
  intro t henv hrecv hoffered
  have hwanted := hoffered.wanted
  rw [envid2env_saved] at henv
  rw [saved_envs] at hrecv hwanted ⊢
  exact affords_saved.mpr (h t henv hrecv ⟨hoffered.source, hwanted, hoffered.permitted⟩)

theorem Mapped.saved (h : Mapped pool lost s use) : Mapped pool lost (saved c s cur tf) use := by
  refine h.of_kept rfl fun e => ?_
  rw [saved_envs]
  exact ⟨rfl, ⟨rfl, rfl⟩, .inl rfl, .rfl, fun _ hst => hst, fun hva => hva⟩

theorem dirs_departed (h : Departed c s s') : s'.dirs = s.dirs := by
  funext t
  rw [Kernel.dirs, h.envs t]
  rfl

/-- The result is stored and the CPU goes on. -/
theorem Mapped.trapReturn (h : Mapped pool lost s₁ use)
    (hleave : JosSched.trapReturn c (returned s₁ cur r) = .leave s') : Mapped pool lost s' use := by
  have h' : Mapped pool lost (returned s₁ cur r) use :=
    h.modEnv ⟨rfl, ⟨rfl, rfl⟩, .inl rfl, .rfl, fun _ hst => hst, fun hva => hva⟩
  exact h'.decided (trapReturn_decided hleave)

/-- The calls of which more is asked than of an action alone. -/
def Delicate (tf : Trapframe) : Prop :=
  Calls tf .pageAlloc ∨ Calls tf .pageMap ∨ Calls tf .ipcTrySend ∨ Calls tf .envSetStatus

theorem Mapped.delicate (h : Mapped pool lost s use) (hex : Exclusive s)
    (hcur : s.curenv c = some cur) (hdying : (s.envs cur).envStatus ≠ .dying)
    (hord : (Event.trap c inp tf).Orderly s)
    (hlost : (Event.trap c inp tf).Thrifty s ∨ leaks ⊆ lost) (hcall : Delicate tf)
    (htrap : trap c s inp tf = .leave s') : ∃ use', Mapped pool lost s' use' := by
  obtain ⟨hzombie, hmap, hsend⟩ := hord
  have hsaved : Mapped pool lost (JosSched.saved c s cur tf) use := h.saved
  have hfree : ∀ {envid checkperm} t,
      envid2env c (JosSched.saved c s cur tf) envid checkperm = .ok t →
      ((JosSched.saved c s cur tf).envs t).envStatus ≠ .free := by
    intro envid checkperm t henv
    rw [envid2env_saved] at henv
    rw [saved_envs]
    exact hex.custody.ne_free_of_target (target_of_envid2env henv)
  -- one call each: what it asks for is stated of `s`, and it runs in `saved c s cur tf`
  rcases hcall with hcall | hcall | hcall | hcall
  · rcases trap_syscall hcur hdying hcall htrap with ⟨r, s₁, hret, hleave⟩ | herr
    · obtain ⟨use', h'⟩ := hsaved.sysPageAlloc (fun t henv horphan =>
        (hzombie t (by rwa [envid2env_saved] at henv)).1 hcall (orphan_of_saved horphan))
        (hlost.imp_left fun hthrifty => (hthrifty.1 hcall).saved) hret
      exact ⟨use', h'.trapReturn hleave⟩
    · exact absurd rfl ((sysPageAlloc_stays.of_error _ herr) s')
  · rcases trap_syscall hcur hdying hcall htrap with ⟨r, s₁, hret, hleave⟩ | herr
    · obtain ⟨use', h'⟩ := hsaved.sysPageMap (fun src dst hsrc hdst => by
        rw [envid2env_saved] at hsrc hdst
        rw [permitted_saved, countable_saved]
        obtain ⟨horphan, hplain⟩ := hmap hcall src hsrc dst hdst
        exact ⟨fun ho => horphan (orphan_of_saved ho), hplain⟩) hret
      exact ⟨use', h'.trapReturn hleave⟩
    · exact absurd rfl ((sysPageMap_stays.of_error _ herr) s')
  · rcases trap_syscall hcur hdying hcall htrap with ⟨r, s₁, hret, hleave⟩ | herr
    · obtain ⟨use', h'⟩ := hsaved.sysIpcTrySend hfree (fun t henv hrecv => by
        rw [envid2env_saved] at henv
        rw [saved_envs] at hrecv
        rw [zombieThread_saved, countable_saved]
        obtain ⟨hz, hcount⟩ := hsend hcall t henv hrecv
        exact ⟨hz, hcount cur hcur⟩) (hlost.imp_left fun hthrifty => (hthrifty.2 hcall).saved) hret
      exact ⟨use', h'.trapReturn hleave⟩
    · exact absurd rfl ((sysIpcTrySend_stays.of_error _ herr) s')
  · rcases trap_syscall hcur hdying hcall htrap with ⟨r, s₁, hret, hleave⟩ | herr
    · have h' := hsaved.sysEnvSetStatus tf.tfRegs.regEcx hfree
        fun t henv => zombieThread_saved.not.mpr
          ((hzombie t (by rwa [envid2env_saved] at henv)).2 hcall)
      have hs₁ : (JosSched.sysEnvSetStatus c (JosSched.saved c s cur tf) tf.tfRegs.regEdx
          tf.tfRegs.regEcx).2 = s₁ := congrArg Prod.snd (Except.ok.inj hret)
      exact ⟨use, (hs₁ ▸ h').trapReturn hleave⟩
    · cases herr

/-- What mapping a page keeps, these calls keep. -/
theorem Mapped.delicate_invariant {I : Kernel → Prop}
    (hI : ∀ t va, va < UTOP → KeptByMap pool lost I t va) (hm : Mapped pool lost s use)
    (hcur : s.curenv c = some cur) (hdying : (s.envs cur).envStatus ≠ .dying)
    (hord : (Event.trap c inp tf).Orderly s) (hcall : Delicate tf) (h : I s)
    (htrap : JosSched.trap c s inp tf = .leave s') : I s' := by
  obtain ⟨-, -, hsend⟩ := hord
  have hread : ∀ {s₁ s₂ : Kernel}, I s₁ → s₂.mem = s₁.mem → s₂.dirs = s₁.dirs → I s₂ :=
    (hI cur 0 (by decide)).congr
  have hm' : Mapped pool lost (JosSched.saved c s cur tf) use := hm.saved
  have hsaved : I (JosSched.saved c s cur tf) := hread h rfl dirs_saved
  -- the way back to user mode writes neither
  have hback : ∀ {s₁ : Kernel} {r : ℤ}, I s₁ →
      JosSched.trapReturn c (returned s₁ cur r) = .leave s' → I s' := fun {s₁} {r} h₁ hleave => by
    have hdep : Departs c (fun _ => True) (returned s₁ cur r) s' := trapReturn_departs hleave
    have hreturned : I (returned s₁ cur r) := hread h₁ rfl (dirs_modEnv_eq fun _ => rfl)
    exact hread hreturned hdep.departed.mem (dirs_departed hdep.departed)
  rcases hcall with hcall | hcall | hcall | hcall
  · rcases trap_syscall hcur hdying hcall htrap with ⟨r, s₁, hret, hleave⟩ | herr
    · obtain ⟨-, rfl⟩ | ⟨t, -, ⟨hva, -⟩, halloc⟩ := sysPageAlloc_eq_ok hret
      · exact hback hsaved hleave
      · exact hback ((hI t _ hva).envPageAlloc hm' hsaved halloc) hleave
    · exact absurd rfl ((sysPageAlloc_stays.of_error _ herr) s')
  · rcases trap_syscall hcur hdying hcall htrap with ⟨r, s₁, hret, hleave⟩ | herr
    · obtain ⟨-, rfl⟩ | ⟨src, dst, -, -, -, hdstva, hmap⟩ := sysPageMap_eq_ok hret
      · exact hback hsaved hleave
      · exact hback ((hI dst _ hdstva).envPageMap hm' hsaved hmap) hleave
    · exact absurd rfl ((sysPageMap_stays.of_error _ herr) s')
  · rcases trap_syscall hcur hdying hcall htrap with ⟨r, s₁, hret, hleave⟩ | herr
    · refine hback (KeptByMap.sysIpcTrySend hI hm' (fun t henv hrecv horphan => ?_) hsaved hret)
        hleave
      rw [envid2env_saved] at henv
      rw [saved_envs] at hrecv
      exact (hsend hcall t henv hrecv).1 (orphan_of_saved horphan).1
    · exact absurd rfl ((sysIpcTrySend_stays.of_error _ herr) s')
  · rcases trap_syscall hcur hdying hcall htrap with ⟨r, s₁, hret, hleave⟩ | herr
    · have hs₁ : (JosSched.sysEnvSetStatus c (JosSched.saved c s cur tf) tf.tfRegs.regEdx
          tf.tfRegs.regEcx).2 = s₁ := congrArg Prod.snd (Except.ok.inj hret)
      refine hback ?_ hleave
      rw [← hs₁]
      unfold JosSched.sysEnvSetStatus
      split
      · exact hsaved
      split
      · exact hsaved
      next st _ _ t _ =>
      exact hread hsaved rfl
        (dirs_modEnv_eq (f := fun env => { env with envStatus := st }) fun _ => rfl)
    · cases herr

/-- A zombie that traps is freed. -/
theorem Mapped.zombie {J : Kernel → Prop} (h : Mapped pool lost s use) (hex : Exclusive s)
    (hcur : s.curenv c = some cur) (hdying : (s.envs cur).envStatus = .dying)
    (hyg : (Event.trap c inp tf).Hygienic s) (h₀ : J s)
    (hJ : ∀ {a s₁ s₂ use₁}, Allowed c s tf a → a.Tame s₁ → Micro c a s₁ s₂ → Custody c s s₁ →
      Mapped pool lost s₁ use₁ → J s₁ → J s₂) (htrap : trap c s inp tf = .leave s') :
    ∃ s₁ use₁, J s₁ ∧ Departs c (fun _ => True) s₁ s' ∧ Mapped pool lost s₁ use₁ ∧
      Mapped pool lost s' use₁ := by
  have hcur' : (started c s).curenv c = some cur := started_curenv.trans hcur
  have hcustody : Custody c s (started c s) := hex.custody.micro .start trivial
  have hstarted : Mapped pool lost (started c s) use := h.of_kept rfl fun _ => .refl _
  have hJstarted : J (started c s) := hJ .start trivial .start hex.custody h h₀
  unfold trap at htrap
  simp only [hcur'] at htrap
  rw [started_envs, if_pos hdying] at htrap
  cases hfree : envFree c (started c s) cur with
  | error x =>
      rw [hfree] at htrap
      exact absurd htrap ((envFree_self_panics hcur').of_error x hfree).ne_leave
  | ok s₁ =>
      rw [hfree] at htrap
      obtain ⟨hcurenv, hpath⟩ := (envFree_path (L := fun a => a.OfDestroy c (started c s) cur)
        (.inl hcur') (fun _ => hcur') fun _ ha => ha).of_ok s₁ hfree
      rw [forget, if_pos (hcurenv.trans hcur')] at hpath
      -- everything on the way is part of destroying the zombie itself
      have hinv := hpath.invariant
        (I := fun s₁ => Custody c s s₁ ∧ (∃ use', Mapped pool lost s₁ use') ∧ J s₁)
        ⟨hcustody, ⟨use, hstarted⟩, hJstarted⟩ fun a s₁ s₂ ha hm hs₁ => by
          obtain ⟨hcust, ⟨use₁, h₁⟩, hJ₁⟩ := hs₁
          have hallowed : Allowed c s tf a := .destroy (.zombie hcur hdying) (ofDestroy_started ha)
          have htame : a.Tame s₁ := by cases a <;> first | exact absurd ha id | exact trivial
          exact ⟨hcust.micro hm (safe_of_allowed hyg hallowed), h₁.micro hcust hm htame,
            hJ hallowed htame hm hcust h₁ hJ₁⟩
      obtain ⟨-, ⟨use', h'⟩, hJ'⟩ := hinv
      have hyield : schedYield c (s₁.setCurenv c none) = .leave s' := htrap
      refine ⟨_, use', hJ', .idle (fun e he => ?_) hyield, h',
        h'.decided (schedYield_decided hyield)⟩
      rw [Kernel.setCurenv_curenv_self] at he
      cases he

/-- The invariant rule for a trap that maps no page: what every action keeps, in a kernel whose
memory is in order, holds when the CPU leaves the kernel. -/
theorem Mapped.trap_invariant {J : Kernel → Prop} (h : Mapped pool lost s use) (hex : Exclusive s)
    (hcur : s.curenv c = some cur) (hyg : (Event.trap c inp tf).Hygienic s)
    (hcall : (s.envs cur).envStatus ≠ .dying → ¬ Delicate tf) (h₀ : J s)
    (hJ : ∀ {a s₁ s₂ use₁}, Allowed c s tf a → a.Tame s₁ → Micro c a s₁ s₂ → Custody c s s₁ →
      Mapped pool lost s₁ use₁ → J s₁ → J s₂) (htrap : trap c s inp tf = .leave s') :
    ∃ s₁ use₁, J s₁ ∧ Departs c (fun _ => True) s₁ s' ∧ Mapped pool lost s₁ use₁ ∧
      Mapped pool lost s' use₁ := by
  by_cases hdying : (s.envs cur).envStatus = .dying
  · exact h.zombie hex hcur hdying hyg h₀ hJ htrap
  have hcall := hcall hdying
  have hstart : NoZombie c s := fun e he hz => by
    obtain rfl := Option.some.inj (hcur.symm.trans he)
    exact hdying hz.2
  have hexit := trap_path (c := c) s inp tf
  rw [htrap] at hexit
  obtain ⟨s₁, hpath, hdep⟩ := Exit.path_leave.mp hexit
  have hinv := hpath.invariant
    (I := fun s₁ => Custody c s s₁ ∧ NoZombie c s₁ ∧ (∃ use', Mapped pool lost s₁ use') ∧ J s₁)
    ⟨hex.custody, hstart, ⟨use, h⟩, h₀⟩ fun a s₁ s₂ ha hm hs₁ => by
      obtain ⟨hcust, hlive, ⟨use₁, h₁⟩, hJ₁⟩ := hs₁
      -- the actions of delicate calls are excluded; those of the caller itself are tame, since it
      -- is not a zombie
      have htame : a.Tame s₁ := by
        cases ha with
        | status hno => exact absurd (.inr (.inr (.inr hno))) hcall
        | deliver hno => exact absurd (.inr (.inr (.inl hno))) hcall
        | pageAlloc hno => exact absurd (.inl hno) hcall
        | pageMap hno => exact absurd (.inr (.inl hno)) hcall
        | ipcPage hno => exact absurd (.inr (.inr (.inl hno))) hcall
        | ipcShare hno => exact absurd (.inr (.inr (.inl hno))) hcall
        | block =>
            cases hm with
            | block hcur _ => exact hlive _ hcur
        | sleep =>
            cases hm with
            | sleep hcur _ => exact hlive _ hcur
        | thread =>
            cases hm with
            | thread hcur => exact hlive _ hcur
        | destroy _ hdestroy => cases a <;> first | exact absurd hdestroy id | exact trivial
        | _ => exact trivial
      exact ⟨hcust.micro hm (safe_of_allowed hyg ha), hlive.micro hm, h₁.micro hcust hm htame,
        hJ ha htame hm hcust h₁ hJ₁⟩
  obtain ⟨hcust, hlive, ⟨use', h'⟩, hJ'⟩ := hinv
  exact ⟨s₁, use', hJ', hdep.mono fun _ _ => trivial, h', h'.departs hcust hlive hdep⟩

theorem Mapped.trap (h : Mapped pool lost s use) (hex : Exclusive s) (hcur : s.curenv c = some cur)
    (hyg : (Event.trap c inp tf).Hygienic s) (hord : (Event.trap c inp tf).Orderly s)
    (hlost : (Event.trap c inp tf).Thrifty s ∨ leaks ⊆ lost)
    (htrap : JosSched.trap c s inp tf = .leave s') : ∃ use', Mapped pool lost s' use' := by
  by_cases hcall : (s.envs cur).envStatus ≠ .dying ∧ Delicate tf
  · exact h.delicate hex hcur hcall.1 hord hlost hcall.2 htrap
  · obtain ⟨s₁, use', -, -, -, h'⟩ := h.trap_invariant (J := fun _ => True) hex hcur hyg
      (not_and.mp hcall) trivial (fun _ _ _ _ _ _ => trivial) htrap
    exact ⟨use', h'⟩

/-! ## Steps -/

theorem Exit.Path.cpus_ne {L : Act → Prop} {x : Exit} {d : Cpu} (h : x.Path c L s)
    (hx : x = .leave s') (hd : d ≠ c) : s'.cpus d = s.cpus d :=
  h.invariant (I := fun s₁ => s₁.cpus d = s.cpus d) hx rfl
    (fun _ _ _ _ hm hs => (hm.cpus_ne hd).trans hs)
    fun _ _ hdep hs => (hdep.departed.frame d hd).trans hs

/-- A step writes the `struct CpuInfo` of the CPU that enters the kernel, and of no other. -/
theorem Step.cpus_ne {d : Cpu} (hstep : Step s ev s') (hd : ¬ ev.Enters d) :
    s'.cpus d = s.cpus d := by
  obtain ⟨-, hexec⟩ := hstep
  cases ev with
  | boot binary =>
      obtain ⟨c, hdc⟩ : ∃ c : Cpu, d ≠ c := (by decide : ∀ d : Cpu, ∃ c, d ≠ c) d
      obtain ⟨e, -, hpath⟩ := envCreate_path (c := c) (envCreate_eq_ok hexec)
      exact hpath.invariant (I := fun s₁ => s₁.cpus d = s.cpus d) rfl
        fun _ _ _ _ hm hs => (hm.cpus_ne hdc).trans hs
  | start c => exact (mpMain_path s).cpus_ne hexec fun heq => hd heq.symm
  | timer c => exact (trapHalted_path s).cpus_ne hexec fun heq => hd heq.symm
  | trap c inp tf => exact (trap_path s inp tf).cpus_ne hexec fun heq => hd heq.symm
  | store c va byte =>
      obtain ⟨m, rfl⟩ := store_eq_setMem hexec
      rfl

theorem Exit.Path.settled {L : Act → Prop} {x : Exit} (h : x.Path c L s) (hx : x = .leave s') :
    Settled c s' := by
  subst hx
  obtain ⟨s₁, -, hdep⟩ := path_leave.mp h
  exact hdep.settled

/-- A CPU leaves the kernel in the address space of its environment. -/
theorem Step.settled (hstep : Step s ev s') (hc : ev.Enters c) : Settled c s' := by
  obtain ⟨-, hexec⟩ := hstep
  cases ev with
  | start d =>
      obtain rfl : d = c := hc
      exact (mpMain_path s).settled hexec
  | timer d =>
      obtain rfl : d = c := hc
      exact (trapHalted_path s).settled hexec
  | trap d inp tf =>
      obtain rfl : d = c := hc
      exact (trap_path s inp tf).settled hexec
  | boot | store => exact absurd hc id

/-- Between two kernel entries, the page tables of every CPU are those of its environment. -/
structure Resting (pool : Set Ppn) (lost : Set (Ppn × Use)) (s : Kernel) : Prop where
  exclusive : Exclusive s
  mapped : ∃ use, Mapped pool lost s use
  cr3 : ∀ c e, s.curenv c = some e → s.dirs e = some (s.cpus c).cpuCr3

theorem Resting.step (h : Resting pool lost s) (hstep : Step s ev s') (hyg : ev.Hygienic s)
    (hord : ev.Orderly s) (hlost : ev.Thrifty s ∨ leaks ⊆ lost) : Resting pool lost s' := by
  obtain ⟨hexclusive, hundisturbed⟩ := exclusive_step h.exclusive hstep hyg
  obtain ⟨use, hmapped⟩ := h.mapped
  refine ⟨hexclusive, ?_, fun c e hcur => ?_⟩
  · obtain ⟨henabled, hexec⟩ := hstep
    cases ev with
    | boot binary => exact hmapped.envCreate h.exclusive.freeSlots (envCreate_eq_ok hexec)
    | start c =>
        have hstarted : Mapped pool lost (started c s) use := hmapped.of_kept rfl fun _ => .refl _
        have hyield : schedYield c (started c s) = .leave s' := hexec
        exact ⟨use, hstarted.decided (schedYield_decided hyield)⟩
    | timer c =>
        have hstarted : Mapped pool lost (started c s) use := hmapped.of_kept rfl fun _ => .refl _
        have hcustody : Custody c s (started c s) := h.exclusive.custody.micro .start trivial
        obtain ⟨use', h'⟩ := hstarted.micro hcustody .tick trivial
        have hyield : schedYield c (tick (started c s)) = .leave s' := hexec
        exact ⟨use', h'.decided (schedYield_decided hyield)⟩
    | trap c inp tf =>
        obtain ⟨⟨-, hsome⟩, -⟩ : s.inUser c ∧ tf.tfCs &&& 3 = 3 := henabled
        obtain ⟨cur, hcur⟩ := Option.isSome_iff_exists.mp hsome
        exact hmapped.trap h.exclusive hcur hyg hord hlost hexec
    | store c va byte =>
        obtain ⟨⟨-, hsome⟩, hva⟩ : s.inUser c ∧ va < UTOP := henabled
        obtain ⟨cur, hcur⟩ := Option.isSome_iff_exists.mp hsome
        have hdir := hmapped.layout.holders cur _ (h.cr3 c cur hcur)
        unfold Event.exec at hexec
        dsimp only at hexec
        split at hexec
        · next m hstore =>
            obtain rfl := Exit.leave.inj hexec
            exact ⟨use, hmapped.stored (hmapped.layout.storeByte hdir hva hstore)⟩
        · obtain rfl := Exit.leave.inj hexec
          exact ⟨use, hmapped⟩
  -- a CPU that enters loads `cr3` on its way out; for the others nothing has changed
  · by_cases hc : ev.Enters c
    · exact (hstep.settled hc).cr3 e hcur
    · have hund := hundisturbed c hc
      rw [hund.curenv] at hcur
      rw [hstep.cpus_ne hc, ← h.cr3 c e hcur]
      exact (hund.same e hcur).2

/-! ## Runs -/

/-- The frames on the free list. -/
def freeFrames (m : Mem) : Set Ppn :=
  { pp | ∃ l, Chain (fun pp => (m.pages pp).ppLink) m.pageFreeList l ∧ pp ∈ l }

theorem resting_booted (h : Booted s) : Resting (freeFrames s.mem) ∅ s := by
  classical
  obtain ⟨free, hchain, hnodup, hkern, hframes⟩ := h.freePages
  have hmem : ∀ pp, pp ∈ freeFrames s.mem ↔ pp ∈ free := fun pp =>
    ⟨fun ⟨l, hl, hpp⟩ => hl.unique hchain ▸ hpp, fun hpp => ⟨free, hchain, hpp⟩⟩
  -- no frame has a use yet: it is free or belongs to the kernel
  let use : Ppn → Use := fun pp => if pp ∈ free then .free else .kernel
  have huse : ∀ pp, use pp = .free ∨ use pp = .kernel := fun pp => by
    by_cases hpp : pp ∈ free
    · exact .inl (if_pos hpp)
    · exact .inr (if_neg hpp)
  -- so there are no page tables, and no references at all
  have hentry : ∀ x, ¬ IsEntry use x := by
    rintro x (⟨hx, -⟩ | hx) <;> rcases huse x.1 with hu | hu <;> rw [hu] at hx <;> cases hx
  have hdirs : ∀ e, s.dirs e = none := fun e => by rw [Kernel.dirs, h.envs]
  have hrefs : ∀ pp, refs s.mem s.dirs use pp = 0 := fun pp => by
    refine refCount_eq_zero.mpr fun a ha => ?_
    cases a with
    | inl e =>
        have hdir : s.dirs e = some pp := ha
        rw [hdirs] at hdir
        cases hdir
    | inr x => exact hentry x (links_eq_some.mp ha).1
  refine ⟨exclusive_booted h, ⟨use, ?_, fun d hd => ?_, fun e _ => hdirs e, fun e he => ?_,
    fun t ht => ?_, fun e => ?_⟩, fun c e hcur => ?_⟩
  · refine ⟨fun pp => ?_, fun pp hpp => (hframes pp ((hmem pp).mp hpp)).1,
      fun hk => hkern ((hmem _).mp hk), h.kernPgdir, ⟨free, hchain, hnodup, fun pp => ?_⟩,
      fun e pp he => ?_, fun x hx => absurd hx (hentry x), fun pp hpp => (by cases hpp),
      fun pp hpp => ?_, fun t ht => ?_, fun pp hpp hfree => ?_⟩
    · rw [hmem]
      by_cases hpp : pp ∈ free
      · simp [use, hpp]
      · simp [use, hpp]
    · by_cases hpp : pp ∈ free
      · simp [use, hpp]
      · simp [use, hpp]
    · rw [hdirs] at he
      cases he
    · rw [(hframes pp ((hmem pp).mp hpp)).2, hrefs]
      rfl
    · rw [hrefs]
      exact Nat.zero_le 1
    · exact absurd (if_pos ((hmem pp).mp hpp)) hfree
  · rcases huse d with hu | hu <;> rw [hu] at hd <;> cases hd
  · rw [h.envs] at he
    exact absurd rfl he
  · rw [h.envs] at ht
    cases ht
  · rw [h.envs]
    exact (by decide : UserPage 0)
  · rw [Kernel.curenv, (h.cpus c).2] at hcur
    cases hcur

/-- A step of the machine whose call is hygienic and orderly. -/
def OrderlyStep (s : Kernel) (ev : Event) (s' : Kernel) : Prop :=
  Step s ev s' ∧ ev.Hygienic s ∧ ev.Orderly s

/-- Memory is in order in every state of an orderly run. -/
theorem resting_of_run {evs : List Event} (hboot : Booted s₀) (h : Trace OrderlyStep s₀ evs s) :
    Resting (freeFrames s₀.mem) leaks s := by
  have hstart := resting_booted hboot
  obtain ⟨use, hmapped⟩ := hstart.mapped
  refine h.invariant ⟨hstart.exclusive, ⟨use, ?_⟩, hstart.cr3⟩ fun s ev s' hs hstep =>
    hs.step hstep.1 hstep.2.1 hstep.2.2 (.inr subset_rfl)
  exact { hmapped with layout := hmapped.layout.mono (Set.empty_subset _) }

end JosSched
