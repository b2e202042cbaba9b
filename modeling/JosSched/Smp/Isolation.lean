import JosSched.Smp.Frames
import JosSched.Kern.Translations

/-!
# Isolation of physical memory

What the pages of a process are, and where they come from.  A page that is mapped below `UTOP`
is a frame that `page_alloc` has handed out for user data, and its flags are among those that a
process may set.  After a system call, each mapping is as it was, or its frame was free before
the call, or it is the frame at the source address of the call, writable only if it was
writable there.

`sys_page_map` relies on the process for the first part: it does not look at the bits of the
permissions outside `PTE_SYSCALL`, which `page_insert` puts into the entry.
-/

open Except

namespace JosSched

variable {c : Cpu} {pool : Set Ppn} {lost : Set (Ppn × Use)} {s s' s₁ s₀ : Kernel}
  {use : Ppn → Use} {e t cur : Slot} {d p pp : Ppn} {m : Mem} {va perm pte : Word} {r : ℤ}
  {inp : Input} {tf : Trapframe}

/-! ## The pages of a process -/

/-- The entry maps a frame for user data, with flags that a process may set. -/
structure UserMapping (s₀ s : Kernel) (pte : Word) : Prop where
  pooled : pgnum pte ∈ freeFrames s₀.mem
  notFree : pgnum pte ∉ freeFrames s.mem
  notDir : ¬ Live s (pgnum pte)
  notTable : ∀ d k, Live s d → k.val < PDX_UTOP → s.mem.load (d, k) &&& PTE_P ≠ 0 →
    pgnum (s.mem.load (d, k)) ≠ pgnum pte
  flags : pte &&& 0xfff &&& ~~~PTE_SYSCALL = 0

/-- Address spaces map frames for user data only. -/
def Isolated (s₀ s : Kernel) : Prop :=
  ∀ d va, Live s d → va < UTOP → leaf s.mem d va &&& PTE_P ≠ 0 → UserMapping s₀ s (leaf s.mem d va)

theorem or_and (v w mask : Word) : (v ||| w) &&& mask = v &&& mask ||| w &&& mask := by
  rw [BitVec.and_comm, BitVec.and_or_distrib_left, BitVec.and_comm mask v, BitVec.and_comm mask w]

theorem page2pa_flags (pp : Ppn) : page2pa pp &&& 0xfff = 0 := by
  apply BitVec.eq_of_getLsbD_eq
  intro i hi
  rw [BitVec.getLsbD_and, page2pa, BitVec.getLsbD_append]
  by_cases hlow : i < 12
  · simp [hlow]
  · have hmask : ∀ i : Fin 32, 12 ≤ i.val → (0xfff : Word).getLsbD i = false := by decide
    rw [hmask ⟨i, hi⟩ (not_lt.mp hlow), Bool.and_false]
    exact BitVec.getLsbD_zero.symm

theorem userEntry_flags (h : perm &&& ~~~PTE_SYSCALL = 0) (pp : Ppn) :
    userEntry pp perm &&& 0xfff &&& ~~~PTE_SYSCALL = 0 := by
  have hpresent : PTE_P &&& ~~~PTE_SYSCALL = 0 := by decide
  have hzero : ∀ w : Word, 0 ||| w = w := fun w => BitVec.zero_or
  calc userEntry pp perm &&& 0xfff &&& ~~~PTE_SYSCALL
      = (page2pa pp &&& 0xfff ||| (perm ||| PTE_P) &&& 0xfff) &&& ~~~PTE_SYSCALL := by
        rw [userEntry, BitVec.or_assoc, or_and]
    _ = (perm ||| PTE_P) &&& ~~~PTE_SYSCALL &&& 0xfff := by
        rw [page2pa_flags, hzero, BitVec.and_assoc, BitVec.and_comm 0xfff, BitVec.and_assoc]
    _ = 0 := by
        rw [or_and, h, hpresent, hzero]
        exact BitVec.zero_and

theorem userEntry_writable (h : userEntry pp perm &&& PTE_W ≠ 0) : perm &&& PTE_W ≠ 0 := by
  have hpage : page2pa pp &&& PTE_W = 0 := by
    have hsub : (0xfff : Word) &&& PTE_W = PTE_W := by decide
    rw [← hsub, ← BitVec.and_assoc, page2pa_flags]
    exact BitVec.zero_and
  have hpresent : PTE_P &&& PTE_W = 0 := by decide
  intro hperm
  refine h ?_
  rw [userEntry, or_and, or_and, hpage, hperm, hpresent]
  rfl

namespace Mapped

theorem dir_of_live (h : Mapped pool lost s use) (hd : Live s d) : use d = .pgdir := by
  obtain ⟨e, -, he⟩ := hd
  exact h.layout.holders e d he

theorem isolated (h : Mapped (freeFrames s₀.mem) lost s use) : Isolated s₀ s := by
  intro d va hlive hva hpresent
  obtain ⟨pp, perm, hdata, hperm, heq⟩ :=
    h.layout.data_of_leaf (h.dir_of_live hlive) hva (ne_zero_of_and hpresent)
  rw [heq]
  have hpgnum : pgnum (userEntry pp perm) = pp := pgnum_userEntry hperm
  refine ⟨?_, ?_, fun hdir => ?_, fun d' k hlive' hk hpresent' htable => ?_,
    userEntry_flags hperm pp⟩
  · rw [hpgnum]
    exact h.layout.mem_pool (by rw [hdata]; decide)
  · rw [hpgnum, h.mem_freeFrames, hdata]
    exact Use.noConfusion
  · have hpgdir := h.dir_of_live hdir
    rw [hpgnum, hdata] at hpgdir
    cases hpgdir
  · have hdir' := h.dir_of_live hlive'
    obtain ⟨t, ht, heq'⟩ :=
      (h.layout.entries _ (.inl ⟨hdir', hk⟩)).of_pgdir hdir' (ne_zero_of_and hpresent')
    rw [heq', pgnum_tableEntry, hpgnum] at htable
    rw [htable, hdata] at ht
    cases ht

end Mapped

/-! ## Where a page comes from -/

/-- The address from which the call maps a page. -/
inductive Source (c : Cpu) (s : Kernel) (tf : Trapframe) : Slot → Word → Prop
  | pageMap {src : Slot} : Calls tf .pageMap → envid2env c s tf.tfRegs.regEdx true = .ok src →
      Source c s tf src tf.tfRegs.regEcx
  | ipcTrySend {cur : Slot} : Calls tf .ipcTrySend → s.curenv c = some cur →
      Source c s tf cur tf.tfRegs.regEbx

/-- Where the page comes from that `pte` maps at `va` of page directory `d` after the trap. -/
inductive Origin (c : Cpu) (s : Kernel) (tf : Trapframe) (d : Ppn) (va pte : Word) : Prop
  | kept : Live s d → leaf s.mem d va = pte → Origin c s tf d va pte
  | fresh : Calls tf .pageAlloc ∨ Calls tf .ipcTrySend → pgnum pte ∈ freeFrames s.mem →
      Origin c s tf d va pte
  | shared {src : Slot} {srcdir : Ppn} {srcva : Word} : Source c s tf src srcva →
      s.dirs src = some srcdir → leaf s.mem srcdir srcva &&& PTE_P ≠ 0 →
      pgnum pte = pgnum (leaf s.mem srcdir srcva) →
      (pte &&& PTE_W ≠ 0 → leaf s.mem srcdir srcva &&& PTE_W ≠ 0) → Origin c s tf d va pte

/-- Every page mapped in `s₁` has an origin. -/
def Origins (c : Cpu) (s : Kernel) (tf : Trapframe) (s₁ : Kernel) : Prop :=
  ∀ e d va, s₁.dirs e = some d → va < UTOP → leaf s₁.mem d va ≠ 0 →
    Origin c s tf d va (leaf s₁.mem d va)

theorem Origins.congr (h : Origins c s tf s₁) (hmem : s'.mem = s₁.mem) (hdirs : s'.dirs = s₁.dirs) :
    Origins c s tf s' := by
  intro e d va hd hva hleaf
  rw [hdirs] at hd
  rw [hmem] at hleaf ⊢
  exact h e d va hd hva hleaf

theorem LeavesKept.origins {dropped : Ppn → Prop} (h : LeavesKept s s' dropped)
    (hold : Origins c s₀ tf s) : Origins c s₀ tf s' := fun e d va hd hva hleaf => by
  obtain ⟨⟨e', he'⟩, heq⟩ := h.mapped_before hd hva hleaf
  rw [heq] at hleaf ⊢
  exact hold e' d va he' hva hleaf

namespace Mapped

theorem origins (h : Mapped pool lost s use) : Origins c s tf s := fun _ _ _ hd _ _ =>
  .kept (h.live hd) rfl

/-- A page has been mapped. -/
theorem origins_pageMapped (h : Mapped pool lost s use)
    (hpage : PageMapped pool lost s use d va pp perm m)
    (horigin : ∀ va', Origin c s tf d va' (userEntry pp perm)) :
    Origins c s tf (s.setMem m) := by
  intro e d' va' hd' hva' hleaf
  rw [Kernel.setMem_mem] at hleaf ⊢
  have hdir : s.dirs e = some d' := hd'
  by_cases hsame : d' = d ∧ SamePage va va'
  · obtain ⟨rfl, hsame⟩ := hsame
    rw [← leaf_samePage hsame, hpage.leaf]
    exact horigin va'
  · have heq := hpage.onlyAt d' va' (h.layout.holders e d' hdir) hva' hsame
    rw [heq]
    exact .kept (h.live hdir) rfl

theorem origins_leaked (h : Mapped pool lost s use) (hp : use p = .free)
    (hload : ∀ x, x.1 ≠ p → m.load x = s.mem.load x) : Origins c s tf (s.setMem m) := by
  intro e d va hd hva _
  have hdir : s.dirs e = some d := hd
  rw [Kernel.setMem_mem, h.leaf_of_load_ne hp hload hdir hva]
  exact .kept (h.live hdir) rfl

theorem origin_fresh {va' : Word} (h : Mapped pool lost s use) (hp : use p = .free)
    (hperm : perm &&& ~~~PTE_SYSCALL = 0) (hcall : Calls tf .pageAlloc ∨ Calls tf .ipcTrySend) :
    Origin c s tf d va' (userEntry p perm) :=
  .fresh hcall (by rw [pgnum_userEntry hperm]; exact h.mem_freeFrames.mpr hp)

theorem origins_sysPageAlloc {envid : Word} (h : Mapped pool lost s use)
    (hcalls : Calls tf .pageAlloc) (ht : ∀ t, envid2env c s envid true = .ok t → ¬ s.Orphan t)
    (hcall : JosSched.sysPageAlloc c s envid va perm = .ok (r, s')) : Origins c s tf s' := by
  obtain ⟨-, rfl⟩ | ⟨t, henv, ⟨hva, -⟩, halloc⟩ := sysPageAlloc_eq_ok hcall
  · exact h.origins
  cases h.envPageAlloc (ht t henv) hva halloc with
  | refused => exact h.origins
  | leaked _ hp _ _ _ hload => exact h.origins_leaked hp hload
  | mapped _ hp hperm hpage =>
      exact h.origins_pageMapped hpage fun _ => h.origin_fresh hp hperm (.inl hcalls)

/-- The frame at the source of the call is mapped. -/
theorem origin_shared {src : Slot} {srcdir : Ppn} {srcva va' : Word} (h : Mapped pool lost s use)
    (hsource : Source c s tf src srcva) (hsrcva : srcva < UTOP) (hsrcdir : s.dirs src = some srcdir)
    (hleaf : leaf s.mem srcdir srcva ≠ 0) (hperm : perm &&& ~~~PTE_SYSCALL = 0)
    (hwrite : perm &&& PTE_W ≠ 0 → leaf s.mem srcdir srcva &&& PTE_W ≠ 0) :
    Origin c s tf d va' (userEntry (pgnum (leaf s.mem srcdir srcva)) perm) := by
  obtain ⟨pp, perm', -, -, heq⟩ :=
    h.layout.data_of_leaf (h.layout.holders src srcdir hsrcdir) hsrcva hleaf
  refine .shared hsource hsrcdir ?_ (pgnum_userEntry hperm) fun hw =>
    hwrite (userEntry_writable hw)
  rw [heq]
  exact userEntry_present pp perm'

theorem origins_sysPageMap {srcenvid srcva dstenvid dstva : Word} (h : Mapped pool lost s use)
    (hsource : ∀ src, envid2env c s srcenvid true = .ok src → Source c s tf src srcva)
    (hcond : ∀ src dst, envid2env c s srcenvid true = .ok src →
      envid2env c s dstenvid true = .ok dst →
      ¬ s.Orphan dst ∧ (srcva < UTOP → Permitted s src srcva perm ∧ Countable s src srcva))
    (hcall : JosSched.sysPageMap c s srcenvid srcva dstenvid dstva perm = .ok (r, s')) :
    Origins c s tf s' := by
  obtain ⟨-, rfl⟩ | ⟨src, dst, hsrc, hdst, hsrcva, hdstva, hmap⟩ := sysPageMap_eq_ok hcall
  · exact h.origins
  obtain ⟨horphan, hplain⟩ := hcond src dst hsrc hdst
  obtain ⟨hpermitted, hcount⟩ := hplain hsrcva
  cases h.envPageMap horphan hsrcva hdstva hmap with
  | refused | noTable => exact h.origins
  | mapped hsrcdir _ hleaf _ hwrite hshare =>
      have hperm := shared_syscall (hpermitted _ hsrcdir hleaf)
      refine h.origins_pageMapped (hshare (hcount _ hsrcdir hleaf) hperm) fun _ => ?_
      exact h.origin_shared (hsource src hsrc) hsrcva hsrcdir hleaf hperm fun hw =>
        hwrite hw

theorem origins_ipcSendPage {dst : Slot} {srcva : Word} (h : Mapped pool lost s use)
    (hsource : Source c s tf cur srcva) (hcalls : Calls tf .ipcTrySend)
    (ht : ¬ s.Orphan dst) (hsrcva : srcva < UTOP) (hcount : Countable s cur srcva)
    (hcall : JosSched.ipcSendPage s inp cur dst srcva perm = .ok (r, s')) :
    Origins c s tf s' := by
  cases h.ipcSendPage ht hsrcva hcall with
  | refused | unwanted => exact h.origins
  | leaked _ hp _ _ _ hload => exact h.origins_leaked hp hload
  | dropped _ _ _ _ hp hperm hpage =>
      exact h.origins_pageMapped hpage fun _ => h.origin_fresh hp hperm (.inr hcalls)
  | @sent srcdir d p m₁ m use₁ _ hsrcdir hd hp hperm hpage h₁ hleaf hwrite hshare =>
      have hfit := h.countable hp hperm hpage hsrcdir hsrcva hleaf hcount
      have hpage₂ := hshare hfit
      -- the page of the sender replaces the fresh one
      have horigin : ∀ va', Origin c s tf d va' (userEntry (pgnum (leaf m₁ srcdir srcva))
          (granted perm)) := fun va' => by
        by_cases halias : srcdir = d ∧ SamePage (s.envs dst).envIpcDstva srcva
        · -- the lookup finds the fresh page
          obtain ⟨rfl, hsame⟩ := halias
          have hnew : pgnum (leaf m₁ srcdir srcva) = p := by
            rw [← leaf_samePage hsame, hpage.leaf, pgnum_userEntry hperm]
          rw [hnew]
          exact h.origin_fresh hp hperm (.inr hcalls)
        · have hkept := hpage.onlyAt srcdir srcva (h.layout.holders cur srcdir hsrcdir)
            hsrcva halias
          rw [hkept] at hleaf hwrite ⊢
          refine h.origin_shared hsource hsrcva hsrcdir hleaf hperm fun hw => hwrite ?_
          rwa [granted_write] at hw
      have horigins : Origins c s tf (s.setMem m) := by
        intro e d' va' hd' hva' hleaf'
        have hdir : s.dirs e = some d' := hd'
        have hdir' : use d' = .pgdir := h.layout.holders e d' hdir
        have hdir₁ : use₁ d' = .pgdir := h₁.layout.holders e d' hdir
        rw [Kernel.setMem_mem] at hleaf' ⊢
        by_cases hsame : d' = d ∧ SamePage (s.envs dst).envIpcDstva va'
        · obtain ⟨rfl, hsame⟩ := hsame
          rw [← leaf_samePage hsame, hpage₂.leaf]
          exact horigin va'
        · have hsame₂ := hpage₂.onlyAt d' va' hdir₁ hva' hsame
          have hsame₁ := hpage.onlyAt d' va' hdir' hva' hsame
          rw [hsame₂.trans hsame₁]
          exact .kept (h.live hdir) rfl
      exact horigins.congr rfl (dirs_modEnv_eq fun _ => rfl)

theorem origins_sysIpcTrySend {envid value srcva : Word} (h : Mapped pool lost s use)
    (hsource : Source c s tf cur srcva) (hcalls : Calls tf .ipcTrySend)
    (hcond : ∀ t, envid2env c s envid false = .ok t → (s.envs t).envIpcRecving = true →
      ¬ s.Orphan t ∧ (srcva < UTOP → Countable s cur srcva))
    (hcall : JosSched.sysIpcTrySend c s inp cur envid value srcva perm = .ok (r, s')) :
    Origins c s tf s' := by
  have hdelivered : ∀ {dst s₁}, Origins c s tf s₁ → Origins c s tf (ipcDeliver s₁ cur dst value) :=
    fun h₁ => h₁.congr rfl (dirs_modEnv_eq fun _ => rfl)
  cases sysIpcTrySend_ends hcall with
  | refused => exact h.origins
  | noPage => exact hdelivered (h.origins.congr rfl (dirs_modEnv_eq fun _ => rfl))
  | failed henv hrecv hsrcva hsend =>
      obtain ⟨horphan, hcount⟩ := hcond _ henv hrecv
      exact h.origins_ipcSendPage hsource hcalls horphan hsrcva (hcount hsrcva) hsend
  | delivered henv hrecv hsrcva hsend =>
      obtain ⟨horphan, hcount⟩ := hcond _ henv hrecv
      exact hdelivered
        (h.origins_ipcSendPage hsource hcalls horphan hsrcva (hcount hsrcva) hsend)

end Mapped

/-! ## Traps -/

theorem live_saved : Live (saved c s cur tf) d ↔ Live s d := by
  simp only [Live, dirs_saved, saved_envs]

theorem source_of_saved {src : Slot} {srcva : Word} (h : Source c (saved c s cur tf) tf src srcva) :
    Source c s tf src srcva := by
  cases h with
  | pageMap hcalls hsrc =>
      rw [envid2env_saved] at hsrc
      exact .pageMap hcalls hsrc
  | ipcTrySend hcalls hcur =>
      rw [saved_curenv] at hcur
      exact .ipcTrySend hcalls hcur

theorem origin_of_saved (h : Origin c (saved c s cur tf) tf d va pte) : Origin c s tf d va pte := by
  cases h with
  | kept hlive heq => exact .kept (live_saved.mp hlive) heq
  | fresh hcalls hfree => exact .fresh hcalls hfree
  | shared hsource hdir hleaf hframe hwrite =>
      rw [dirs_saved] at hdir
      exact .shared (source_of_saved hsource) hdir hleaf hframe hwrite

theorem Origins.departs {L : Act → Prop} (h : Origins c s₀ tf s) (hdep : Departs c L s s') :
    Origins c s₀ tf s' :=
  h.congr hdep.departed.mem (dirs_departed hdep.departed)

theorem Origins.trapReturn (h : Origins c (saved c s cur tf) tf s₁)
    (hleave : trapReturn c (returned s₁ cur r) = .leave s') : Origins c s tf s' := by
  have hsaved : Origins c s tf s₁ :=
    fun e d va hd hva hleaf => origin_of_saved (h e d va hd hva hleaf)
  have hreturned : Origins c s tf (returned s₁ cur r) :=
    hsaved.congr rfl (dirs_modEnv_eq fun _ => rfl)
  have hdep : Departs c (fun _ => True) (returned s₁ cur r) s' := trapReturn_departs hleave
  exact hreturned.departs hdep

namespace Mapped

theorem origins_delicate (h : Mapped pool lost s use) (hcur : s.curenv c = some cur)
    (hdying : (s.envs cur).envStatus ≠ .dying) (hord : (Event.trap c inp tf).Orderly s)
    (hcall : Delicate tf) (htrap : JosSched.trap c s inp tf = .leave s') : Origins c s tf s' := by
  obtain ⟨hliving, hmap, hsend⟩ := hord
  -- saving the frame changes no mapping
  have hsaved : Mapped pool lost (JosSched.saved c s cur tf) use := h.saved
  rcases hcall with hcall | hcall | hcall | hcall
  · rcases trap_syscall hcur hdying hcall htrap with ⟨r, s₁, hret, hleave⟩ | herr
    · have horigins := hsaved.origins_sysPageAlloc hcall (fun t henv horphan => by
        rw [envid2env_saved] at henv
        exact (hliving t henv).1 hcall (orphan_of_saved horphan)) hret
      exact horigins.trapReturn hleave
    · exact absurd rfl ((sysPageAlloc_stays.of_error _ herr) s')
  · rcases trap_syscall hcur hdying hcall htrap with ⟨r, s₁, hret, hleave⟩ | herr
    · have horigins := hsaved.origins_sysPageMap (fun src hsrc => .pageMap hcall hsrc)
        (fun src dst hsrc hdst => by
          rw [envid2env_saved] at hsrc hdst
          rw [permitted_saved, countable_saved]
          obtain ⟨horphan, hplain⟩ := hmap hcall src hsrc dst hdst
          exact ⟨fun ho => horphan (orphan_of_saved ho), hplain⟩) hret
      exact horigins.trapReturn hleave
    · exact absurd rfl ((sysPageMap_stays.of_error _ herr) s')
  · rcases trap_syscall hcur hdying hcall htrap with ⟨r, s₁, hret, hleave⟩ | herr
    · have horigins := hsaved.origins_sysIpcTrySend
        (.ipcTrySend hcall (saved_curenv.trans hcur)) hcall (fun t henv hrecv => by
          rw [envid2env_saved] at henv
          rw [saved_envs] at hrecv
          rw [countable_saved]
          obtain ⟨hzombie, hcount⟩ := hsend hcall t henv hrecv
          exact ⟨fun ho => hzombie (zombieThread_saved.mp ho.1), hcount cur hcur⟩) hret
      exact horigins.trapReturn hleave
    · exact absurd rfl ((sysIpcTrySend_stays.of_error _ herr) s')
  · rcases trap_syscall hcur hdying hcall htrap with ⟨r, s₁, hret, hleave⟩ | herr
    · have hs₁ : (JosSched.sysEnvSetStatus c (JosSched.saved c s cur tf) tf.tfRegs.regEdx
          tf.tfRegs.regEcx).2 = s₁ := congrArg Prod.snd (Except.ok.inj hret)
      -- `sys_env_set_status` writes the status alone
      have horigins : Origins c (JosSched.saved c s cur tf) tf s₁ := by
        rw [← hs₁]
        unfold JosSched.sysEnvSetStatus
        split
        · exact hsaved.origins
        split
        · exact hsaved.origins
        next st _ _ t _ =>
        exact hsaved.origins.congr rfl
          (dirs_modEnv_eq (f := fun env => { env with envStatus := st }) fun _ => rfl)
      exact horigins.trapReturn hleave
    · cases herr

theorem origins_trap (h : Mapped pool lost s use) (hex : Exclusive s) (hcur : s.curenv c = some cur)
    (hyg : (Event.trap c inp tf).Hygienic s) (hord : (Event.trap c inp tf).Orderly s)
    (htrap : JosSched.trap c s inp tf = .leave s') : Origins c s tf s' := by
  by_cases hcall : (s.envs cur).envStatus ≠ .dying ∧ Delicate tf
  · exact h.origins_delicate hcur hcall.1 hord hcall.2 htrap
  · obtain ⟨s₁, use', horigins, hdep, -, -⟩ :=
      h.trap_invariant (J := Origins c s tf) hex hcur hyg (not_and.mp hcall) h.origins
        (fun _ htame hm hcustody h₁ horigins => (h₁.leavesKept hcustody hm htame).origins horigins)
        htrap
    exact horigins.departs hdep

end Mapped

/-! ## Permissions -/

/-- Permissions outside `PTE_SYSCALL` are rejected, and nothing is mapped. -/
structure RejectsPerms (c : Cpu) (s : Kernel) (cur : Slot) (tf : Trapframe) : Prop where
  pageAlloc : Calls tf .pageAlloc → tf.tfRegs.regEbx &&& ~~~PTE_SYSCALL ≠ 0 → ∃ r < 0,
    sysPageAlloc c (saved c s cur tf) tf.tfRegs.regEdx tf.tfRegs.regEcx tf.tfRegs.regEbx =
      .ok (r, saved c s cur tf)
  pageMap : Calls tf .pageMap → tf.tfRegs.regEsi &&& ~~~PTE_SYSCALL ≠ 0 → ∃ r < 0,
    sysPageMap c (saved c s cur tf) tf.tfRegs.regEdx tf.tfRegs.regEcx tf.tfRegs.regEbx
      tf.tfRegs.regEdi tf.tfRegs.regEsi = .ok (r, saved c s cur tf)

theorem granted_syscall (perm : Word) :
    granted perm &&& ~~~PTE_SYSCALL = perm &&& ~~~PTE_SYSCALL := by
  have huser : PTE_U &&& ~~~PTE_SYSCALL = 0 := by decide
  have hpresent : PTE_P &&& ~~~PTE_SYSCALL = 0 := by decide
  have hzero : ∀ w : Word, w ||| 0 = w := fun w => BitVec.or_zero
  rw [granted, or_and, or_and, huser, hpresent, hzero, hzero]

theorem sysPageAlloc_rejects {envid : Word} (hperm : perm &&& ~~~PTE_SYSCALL ≠ 0) :
    ∃ r < 0, sysPageAlloc c s envid va perm = .ok (r, s) := by
  have hgranted : checkPerm (perm ||| PTE_U ||| PTE_P) = -E_INVAL := by
    refine if_pos ?_
    have heq := granted_syscall perm
    unfold granted at heq
    rwa [heq]
  unfold sysPageAlloc
  split
  · exact ⟨_, by decide, rfl⟩
  split
  · next henv => exact ⟨_, by rw [envid2env_error henv]; decide, rfl⟩
  · refine ⟨-E_INVAL, by decide, ?_⟩
    unfold envPageAlloc
    rw [hgranted]
    rfl

/-- Nothing is mapped at the source: `sys_page_map` fails. -/
theorem Mapped.envPageMap_unmapped {src dst : Slot} {srcva dstva : Word}
    (h : Mapped pool lost s use) (hd : s.dirs src = some d) (hsrcva : srcva < UTOP)
    (hleaf : leaf s.mem d srcva = 0) :
    JosSched.envPageMap s src srcva dst dstva perm = .ok (-E_INVAL, s) := by
  have hpgdir : envPgdirOf s src = .ok d := by
    have hdir : (s.envs src).envPgdir = some d := hd
    rw [envPgdirOf, hdir]
  unfold JosSched.envPageMap
  rw [hpgdir]
  dsimp only [bind, Except.bind]
  rw [h.layout.pageLookup_eq (h.layout.holders src d hd) hsrcva, if_pos hleaf]
  rfl

theorem Mapped.sysPageMap_rejects {srcenvid srcva dstenvid dstva : Word}
    (h : Mapped pool lost s use) (hperm : perm &&& ~~~PTE_SYSCALL ≠ 0)
    (hfree : ∀ src, envid2env c s srcenvid true = .ok src → (s.envs src).envStatus ≠ .free)
    (hcond : ∀ src dst, envid2env c s srcenvid true = .ok src →
      envid2env c s dstenvid true = .ok dst → srcva < UTOP → Permitted s src srcva perm) :
    ∃ r < 0, JosSched.sysPageMap c s srcenvid srcva dstenvid dstva perm = .ok (r, s) := by
  unfold JosSched.sysPageMap
  split
  · exact ⟨_, by decide, rfl⟩
  next hsrcva =>
  rw [not_or, BitVec.not_le] at hsrcva
  split
  · exact ⟨_, by decide, rfl⟩
  split
  · next henv => exact ⟨_, by rw [envid2env_error henv]; decide, rfl⟩
  next src hsrc =>
  split
  · next henv => exact ⟨_, by rw [envid2env_error henv]; decide, rfl⟩
  next dst hdst =>
  obtain ⟨d, hd⟩ := Option.ne_none_iff_exists'.mp (h.inUse src (hfree src hsrc))
  refine ⟨-E_INVAL, by decide, h.envPageMap_unmapped hd hsrcva.1 ?_⟩
  by_contra hleaf
  exact hperm (hcond src dst hsrc hdst hsrcva.1 d hd hleaf)

theorem Mapped.rejectsPerms (h : Mapped pool lost s use) (hex : Exclusive s)
    (hord : (Event.trap c inp tf).Orderly s) : RejectsPerms c s cur tf := by
  refine ⟨fun _ hperm => sysPageAlloc_rejects hperm, fun hcall hperm => ?_⟩
  have hsaved : Mapped pool lost (JosSched.saved c s cur tf) use := h.saved
  refine hsaved.sysPageMap_rejects hperm (fun src hsrc => ?_) fun src dst hsrc hdst hsrcva => ?_
  · rw [envid2env_saved] at hsrc
    rw [saved_envs]
    exact hex.custody.ne_free_of_target (target_of_envid2env hsrc)
  · rw [envid2env_saved] at hsrc hdst
    rw [permitted_saved]
    exact ((hord.2.1 hcall src hsrc dst hdst).2 hsrcva).1

/-! ## Isolation -/

/-- Memory is isolated in state `s` of a run from `s₀`, and orderly calls keep it so. -/
structure MemoryIsolated (s₀ s : Kernel) : Prop where
  isolated : Isolated s₀ s
  origins : ∀ c inp tf s', (Event.trap c inp tf).Hygienic s → (Event.trap c inp tf).Orderly s →
    Step s (.trap c inp tf) s' → Origins c s tf s'
  rejects : ∀ c inp tf cur, (Event.trap c inp tf).Orderly s → RejectsPerms c s cur tf

/-- In an orderly run, memory is isolated in every state. -/
theorem memory_isolated {evs : List Event} (hboot : Booted s₀) (hrun : Trace OrderlyStep s₀ evs s) :
    MemoryIsolated s₀ s := by
  have hresting := resting_of_run hboot hrun
  obtain ⟨use, hmapped⟩ := hresting.mapped
  refine ⟨hmapped.isolated, fun c inp tf s' hyg hord hstep => ?_,
    fun c inp tf cur hord => hmapped.rejectsPerms hresting.exclusive hord⟩
  obtain ⟨⟨⟨-, hsome⟩, -⟩, hexec⟩ := hstep
  obtain ⟨cur, hcur⟩ := Option.isSome_iff_exists.mp hsome
  exact hmapped.origins_trap hresting.exclusive hcur hyg hord hexec

/-- A process maps the page of its stack once more, with permissions `perm`. -/
def mapStack (perm : Word) : List Event :=
  [.boot emptyImage, .boot emptyImage, .start 0,
    sysTrap 0 .pageMap 0 0xeebfd000 0 0x800000 perm]

theorem memory_isolated_mapStack : ∃ s, Trace OrderlyStep (bootedMachine .roundRobin 64)
    (mapStack 5) s ∧ MemoryIsolated (bootedMachine .roundRobin 64) s := by
  obtain ⟨s, hrun, -⟩ := exists_trace (fun s ev => ev.Hygienic s ∧ ev.Orderly s)
    (bootedMachine .roundRobin 64) (mapStack 5) (fun _ => true) (by decide +kernel)
  exact ⟨s, hrun, memory_isolated
    (booted_bootedMachine .roundRobin (n := 64) (by decide) (by decide)) hrun⟩

/-- A process has mapped the page directory of the other one. -/
def mapsDirectory (s : Kernel) : Bool :=
  match s.dirs 0, s.dirs 1 with
  | some d, some d' => decide (leaf s.mem d 0x800000 &&& PTE_P ≠ 0 ∧
      pgnum (leaf s.mem d 0x800000) = d')
  | _, _ => false

/-- A bit above the flags makes the entry map another frame, which is the page directory of
the other process. -/
theorem page_directory_mapped : ¬ ∀ (s₀ s : Kernel) (evs : List Event), Booted s₀ →
    Trace Step s₀ evs s → Isolated s₀ s := by
  intro hclaim
  obtain ⟨s, hrun, hs⟩ := exists_trace (fun _ _ => True) (bootedMachine .roundRobin 64)
    (mapStack 0x2007)
    (fun s => decide ((s.envs 0).envStatus ≠ .free ∧ (s.envs 1).envStatus ≠ .free) &&
      mapsDirectory s) (by decide +kernel)
  rw [Bool.and_eq_true, decide_eq_true_iff] at hs
  obtain ⟨⟨hst, hst'⟩, hs⟩ := hs
  unfold mapsDirectory at hs
  split at hs
  · next d d' hd hd' =>
      obtain ⟨hpresent, hpage⟩ := of_decide_eq_true hs
      have hisolated := hclaim _ s _
        (booted_bootedMachine .roundRobin (n := 64) (by decide) (by decide))
        (hrun.mono fun _ _ _ h => h.1)
      have hframe := hisolated d 0x800000 ⟨0, hst, hd⟩ (by decide) hpresent
      refine hframe.notDir ⟨1, hst', ?_⟩
      rw [hpage]
      exact hd'
  · cases hs

end JosSched
