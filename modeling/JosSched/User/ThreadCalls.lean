import JosSched.User.Thread

/-!
# What `thread_create` leaves behind

The system calls of `thread_create` are told by what they do to the entries of the page
directories and page tables in use: `sys_page_alloc` maps a frame that was free or changes none
of them, `sys_thread_create` changes none, and `sys_page_unmap` clears the one of the stack.
Between two of them the machine is in order, as it is in every state of an orderly run.  From
this the call as a whole is put together (`createsThread`), and from the calls a run
(`stacks_apart`).
-/

open Bytes Except

namespace JosSched

variable {c : Cpu} {s s' s₁ s₂ s₀ : Kernel} {call : ThreadCall} {pool : Set Ppn}
  {lost : Set (Ppn × Use)} {use use' : Ppn → Use} {d p : Ppn} {va w sp entry a1 a2 a3 : Word}
  {no : Sysno} {m m' : Mem} {tf : Trapframe} {r : ℤ} {cur e t : Slot}

/-! ## The caller -/

namespace ThreadCall

theorem Running.saved (h : call.Running s) : call.Running (saved call.c s call.cur tf) where
  started := saved_cpuStatus
  curenv := saved_curenv.trans h.curenv
  status := by
    rw [saved_envs]
    exact h.status

theorem Running.setMem (h : call.Running s) : call.Running (s.setMem m) :=
  ⟨h.started, h.curenv, h.status⟩

theorem Running.not_orphan (h : call.Running s) : ¬ s.Orphan call.cur := by
  intro horphan
  have hdying := horphan.1.2
  rw [h.status] at hdying
  cases hdying

end ThreadCall

/-- The entries of the frames in use are as they were. -/
def SameEntries (use : Ppn → Use) (m m' : Mem) : Prop :=
  ∀ x : PteRef, use x.1 ≠ .free → m'.load x = m.load x

theorem SameEntries.refl : SameEntries use m m := fun _ _ => rfl

theorem SameEntries.leaf (hsame : SameEntries use s.mem m') (h : Mapped pool lost s use)
    (hd : s.dirs e = some d) (hva : va < UTOP) : leaf m' d va = leaf s.mem d va := by
  have hdir := h.layout.holders e d hd
  apply leaf_congr (hsame _ (by rw [hdir]; decide))
  intro hpde
  apply hsame
  rw [cell, (h.layout.table_of_pde hdir hva hpde).1]
  decide

theorem SameEntries.mmu (hsame : SameEntries use s.mem m') (h : Mapped pool lost s use)
    (hd : s.dirs e = some d) (hva : va < UTOP) : mmu m' d va = mmu s.mem d va := by
  have hdir := h.layout.holders e d hd
  apply mmu_congr (hsame _ (by rw [hdir]; decide))
  intro hpde
  apply hsame
  rw [(h.layout.table_of_pde hdir hva (ne_zero_of_and hpde)).1]
  decide

/-! ## Results -/

/-- A result below zero is negative for the caller. -/
theorem slt_ofInt (hsmall : -8 < r) (hneg : r < 0) : (BitVec.ofInt 32 r).slt 0 = true := by
  have hor : r = -1 ∨ r = -2 ∨ r = -3 ∨ r = -4 ∨ r = -5 ∨ r = -6 ∨ r = -7 := by omega
  rcases hor with rfl | rfl | rfl | rfl | rfl | rfl | rfl <;> decide

theorem slt_of_pos (hpos : 0 < w.toInt) : w.slt 0 = false := by
  rw [BitVec.slt, decide_eq_false_iff_not, not_lt]
  exact hpos.le

/-- A system call that changes memory alone. -/
theorem ThreadCall.sys_setMem (hrun : call.Running s)
    (hsys : call.sys s no a1 a2 a3 = some (w, s'))
    (hmem : ∀ r s₁, syscall call.c (call.entered s no a1 a2 a3) {} call.cur (some no) a1 a2 a3 0 0 =
      .ok (r, s₁) → ∃ m, s₁ = (call.entered s no a1 a2 a3).setMem m)
    (hstay : (syscall call.c (call.entered s no a1 a2 a3) {} call.cur (some no)
      a1 a2 a3 0 0).Ensures (fun _ => True) Exit.Stays) :
    ∃ r, syscall call.c (call.entered s no a1 a2 a3) {} call.cur (some no) a1 a2 a3 0 0 =
        .ok (r, (call.entered s no a1 a2 a3).setMem s'.mem) ∧
      w = BitVec.ofInt 32 r ∧ call.Running s' ∧ s'.dirs = s.dirs := by
  have hcalled : (syscall call.c (call.entered s no a1 a2 a3) {} call.cur (some no)
      a1 a2 a3 0 0).Ensures (fun out => call.Running out.2) Exit.Stays := by
    refine ⟨fun out hcall => ?_, hstay.of_error⟩
    obtain ⟨m, hm⟩ := hmem out.1 out.2 hcall
    rw [hm]
    exact hrun.saved.setMem
  obtain ⟨r, s₁, hcall, hw, hans⟩ := ThreadCall.sys_answered hrun hcalled hsys
  obtain ⟨m, rfl⟩ := hmem r s₁ hcall
  have hmem' : s'.mem = m := hans.mem
  exact ⟨r, hmem'.symm ▸ hcall, hw, hans.running, hans.dirs.trans dirs_saved⟩

/-! ## `sys_page_alloc` -/

/-- The permissions of a stack. -/
abbrev stackPerm : Word := PTE_P ||| PTE_U ||| PTE_W

theorem sysPageAlloc_small {envid perm : Word}
    (hcall : sysPageAlloc c s envid va perm = .ok (r, s')) : -8 < r ∧ r ≤ 0 := by
  unfold sysPageAlloc at hcall
  split at hcall
  · obtain ⟨rfl, -⟩ := Prod.mk.inj (Except.ok.inj hcall)
    decide
  split at hcall
  · next r' henv =>
      obtain ⟨rfl, -⟩ := Prod.mk.inj (Except.ok.inj hcall)
      rw [envid2env_error henv]
      decide
  · exact envPageAlloc_small _ _ hcall

/-- Frame `p`, which was free, is mapped at `va` of directory `d`, and nothing else. -/
structure StackMapped (use : Ppn → Use) (d p : Ppn) (va : Word) (m m' : Mem) : Prop where
  fresh : use p = .free
  leaf : leaf m' d va = userEntry p stackPerm
  only : OnlyAt use m m' d va

theorem Mapped.stackAlloc (h : Mapped pool lost s use) (hcur : s.curenv c = some cur)
    (horphan : ¬ s.Orphan cur) (hcall : JosSched.sysPageAlloc c s 0 va stackPerm = .ok (r, s')) :
    ∃ m, s' = s.setMem m ∧ (r < 0 ∧ SameEntries use s.mem m ∨
      r = 0 ∧ va < UTOP ∧ ∃ d p, s.dirs cur = some d ∧ StackMapped use d p va s.mem m) := by
  have hperm : granted stackPerm = stackPerm := by decide
  rcases sysPageAlloc_eq_ok hcall with ⟨hneg, rfl⟩ | ⟨t, henv, ⟨hva, -⟩, halloc⟩
  · exact ⟨s'.mem, rfl, .inl ⟨hneg, .refl⟩⟩
  rw [envid2env_zero hcur] at henv
  obtain rfl := Except.ok.inj henv
  rw [hperm] at halloc
  cases h.envPageAlloc horphan hva halloc with
  | refused hneg => exact ⟨s.mem, rfl, .inl ⟨hneg, .refl⟩⟩
  | @leaked d p m _ hfree _ _ _ hload =>
      refine ⟨m, rfl, .inl ⟨by decide, fun x hx => hload x fun heq => ?_⟩⟩
      rw [heq] at hx
      exact hx hfree
  | @mapped d p m hd hfree _ hpage =>
      exact ⟨m, rfl, .inr ⟨rfl, hva, d, p, hd, hfree, hpage.leaf, hpage.onlyAt⟩⟩

theorem ThreadCall.sys_pageAlloc (h : Mapped pool lost s use) (hrun : call.Running s)
    (hsys : call.sys s .pageAlloc 0 va stackPerm = some (w, s')) :
    call.Running s' ∧ s'.dirs = s.dirs ∧ (w.slt 0 = true ∧ SameEntries use s.mem s'.mem ∨
      w.slt 0 = false ∧ va < UTOP ∧
        ∃ d p, s.dirs call.cur = some d ∧ StackMapped use d p va s.mem s'.mem) := by
  have hsaved : Mapped pool lost (call.entered s .pageAlloc 0 va stackPerm) use := h.saved
  have hrun' : call.Running (call.entered s .pageAlloc 0 va stackPerm) := hrun.saved
  obtain ⟨r, hcall, rfl, hback, hdirs⟩ := ThreadCall.sys_setMem hrun hsys
    (fun r s₁ hcall => (hsaved.stackAlloc hrun'.curenv hrun'.not_orphan hcall).imp fun _ hm => hm.1)
    sysPageAlloc_stays
  obtain ⟨m, heq, hor⟩ := hsaved.stackAlloc hrun'.curenv hrun'.not_orphan hcall
  obtain rfl : s'.mem = m := congrArg Kernel.mem heq
  refine ⟨hback, hdirs, ?_⟩
  rcases hor with ⟨hneg, hsame⟩ | ⟨rfl, hva, d, p, hd, hmapped⟩
  · exact .inl ⟨slt_ofInt (sysPageAlloc_small hcall).1 hneg, hsame⟩
  · rw [dirs_saved] at hd
    exact .inr ⟨by decide, hva, d, p, hd, hmapped⟩

/-! ## `sys_page_unmap` -/

theorem sysPageUnmap_eq_ok (hcur : s.curenv c = some cur) (hva : va < UTOP) (hoff : pgoff va = 0)
    (hcall : sysPageUnmap c s 0 va = .ok (r, s')) :
    ∃ d m, s.dirs cur = some d ∧ pageRemove s.mem d va = .ok m ∧ s' = s.setMem m := by
  unfold sysPageUnmap at hcall
  rw [if_neg (not_or.mpr ⟨BitVec.not_le.mpr hva, not_not.mpr hoff⟩), envid2env_zero hcur] at hcall
  obtain ⟨d, hd, hcall⟩ := bind_eq_ok.mp hcall
  obtain ⟨m, hremove, rfl⟩ := withMem_eq_ok hcall
  obtain ⟨m', hm, heq⟩ := map_eq_ok.mp hremove
  obtain ⟨-, rfl⟩ := Prod.mk.inj heq
  exact ⟨d, m', envPgdirOf_eq_ok hd, hm, rfl⟩

theorem sysPageUnmap_stays {envid : Word} :
    (sysPageUnmap c s envid va).Ensures (fun _ => True) Exit.Stays := by
  unfold sysPageUnmap
  split
  · exact ensures_ok.mpr trivial
  · split
    · exact ensures_ok.mpr trivial
    · exact envPgdirOf_stays.bind fun _ _ => Kernel.withMem_stays

theorem ThreadCall.sys_pageUnmap (h : Mapped pool lost s use) (hrun : call.Running s)
    (hd : s.dirs call.cur = some d) (hva : va < UTOP) (hoff : pgoff va = 0)
    (hsys : call.sys s .pageUnmap 0 va 0 = some (w, s')) :
    call.Running s' ∧ s'.dirs = s.dirs ∧ leaf s'.mem d va = 0 ∧ OnlyAt use s.mem s'.mem d va := by
  have hrun' : call.Running (call.entered s .pageUnmap 0 va 0) := hrun.saved
  have hends : ∀ r s₁, sysPageUnmap call.c (call.entered s .pageUnmap 0 va 0) 0 va = .ok (r, s₁) →
      _ := fun r s₁ hcall => sysPageUnmap_eq_ok hrun'.curenv hva hoff hcall
  obtain ⟨r, hcall, -, hback, hdirs⟩ := ThreadCall.sys_setMem hrun hsys
    (fun r s₁ hcall => (hends r s₁ hcall).elim fun _ hm => hm.imp fun _ hm => hm.2.2)
    sysPageUnmap_stays
  obtain ⟨d', m, hd', hremove, heq⟩ := hends r _ hcall
  obtain rfl : s'.mem = m := congrArg Kernel.mem heq
  rw [dirs_saved] at hd'
  obtain rfl := Option.some.inj (hd.symm.trans hd')
  obtain ⟨-, -, -, hleaf, -, -, honly⟩ :=
    h.layout.pageRemove (h.layout.holders call.cur d hd) hva hremove
  exact ⟨hback, hdirs, hleaf, honly⟩

/-! ## `sys_thread_create` -/

theorem envAlloc_small {parentId : Word} (h : envAlloc s parentId = .ok (.error r, s')) :
    -8 < r ∧ r < 0 := by
  unfold envAlloc at h
  split at h
  · obtain rfl := Except.error.inj (Prod.mk.inj (Except.ok.inj h)).1
    decide
  · next t ht =>
      obtain ⟨⟨r', s₁⟩, hvm, hret⟩ := bind_eq_ok.mp h
      rcases envSetupVm_eq_ok hvm with ⟨rfl, rfl⟩ | ⟨p, m, rfl, halloc, rfl⟩
      · obtain rfl := Except.error.inj (Prod.mk.inj (Except.ok.inj hret)).1
        decide
      · cases (Prod.mk.inj (Except.ok.inj hret)).1

/-- Slot `t`, which is not the one of `cur`, is a thread in the address space `d` of `cur`. -/
structure ThreadMade (use : Ppn → Use) (cur : Slot) (d : Ppn) (entry sp : Word) (t : Slot)
    (s s' : Kernel) : Prop where
  other : t ≠ cur
  id : 0 < (s'.envs t).envId.toInt
  type : (s'.envs t).envType = .thread
  eip : (s'.envs t).envTf.tfEip = entry
  esp : (s'.envs t).envTf.tfEsp = sp
  dirs : s'.dirs = Function.update s.dirs t (some d)
  entries : SameEntries use s.mem s'.mem

theorem Mapped.threadCreate (h : Mapped pool lost s use)
    (hhead : ∀ t, s.envFreeList = some t → (s.envs t).envStatus = .free)
    (hcur : (s.envs cur).envStatus ≠ .free) (hd : s.dirs cur = some d)
    (hcall : sysThreadCreate s cur entry sp = .ok (r, s')) :
    (-8 < r ∧ r < 0 ∧ s' = s) ∨ ∃ t, ThreadMade use cur d entry sp t s s' ∧
      r = (s'.envs t).envId.toInt ∧ (s'.envs cur).envStatus = (s.envs cur).envStatus ∧
      s'.cpus = s.cpus := by
  unfold sysThreadCreate at hcall
  split at hcall
  · obtain ⟨rfl, rfl⟩ := Prod.mk.inj (Except.ok.inj hcall)
    exact .inl ⟨by decide, by decide, rfl⟩
  obtain ⟨⟨res, s₁⟩, halloc, hcall⟩ := bind_eq_ok.mp hcall
  dsimp only at hcall
  split at hcall
  · next r' =>
      obtain ⟨rfl, rfl⟩ := Prod.mk.inj (Except.ok.inj hcall)
      obtain rfl := envAlloc_error halloc
      exact .inl ⟨(envAlloc_small halloc).1, (envAlloc_small halloc).2, rfl⟩
  next t =>
  obtain ⟨own, hown, hcall⟩ := bind_eq_ok.mp hcall
  obtain ⟨s₂, hdrop, hcall⟩ := bind_eq_ok.mp hcall
  obtain ⟨shared, hshared, hcall⟩ := bind_eq_ok.mp hcall
  obtain ⟨rfl, rfl⟩ := Prod.mk.inj (Except.ok.inj hcall)
  have hne := fun e (he : e ≠ t) => envAlloc_envs_ne halloc he
  obtain ⟨p₁, m₁, hlist, -, hs₁⟩ := envAlloc_eq_ok halloc
  have hfree := hhead t hlist
  have hid : (s₁.envs t).envId = nextEnvId t (s.envs t).envId := by
    rw [hs₁]
    simp [initEnv]
  have hcpus : s₁.cpus = s.cpus := by
    rw [hs₁]
    rfl
  have htcur : t ≠ cur := fun heq => hcur (heq ▸ hfree)
  obtain ⟨p, hp, -, hdirs, -, hload⟩ := h.envAlloc hfree halloc
  obtain ⟨m, hdec, rfl⟩ := dropPgdir_eq_ok hdrop
  have hdir : s.dirs cur = some shared := by
    have hshared := envPgdirOf_eq_ok hshared
    rw [Kernel.setMem_envs, Kernel.modEnv_ne _ _ htcur.symm, hne cur htcur.symm] at hshared
    exact hshared
  obtain rfl := Option.some.inj (hd.symm.trans hdir)
  refine .inr ⟨t, ⟨htcur, ?_, ?_, ?_, ?_, ?_, fun x hx => ?_⟩, ?_, ?_, hcpus⟩
  · simp [hid, nextEnvId_pos]
  · simp
  · simp
  · simp
  · funext e
    by_cases he : e = t
    · simp [he, Kernel.dirs]
    · simp [he, Kernel.dirs, Kernel.modEnv_ne _ _ he, hne e he]
  · -- the frame of the page directory that was given back
    have hxp : x.1 ≠ p := fun heq => hx (heq ▸ hp)
    exact (load_of_pageDecref hdec x).trans (hload x hxp)
  · simp
  · simp [Kernel.modEnv_ne _ _ htcur.symm, hne cur htcur.symm]

theorem ThreadCall.sys_threadCreate (h : Mapped pool lost s use) (hslots : FreeSlots s)
    (hrun : call.Running s) (hd : s.dirs call.cur = some d)
    (hsys : call.sys s .threadCreate entry sp 0 = some (w, s')) :
    call.Running s' ∧ (w.slt 0 = true ∧ s'.dirs = s.dirs ∧ s'.mem = s.mem ∨
      w.slt 0 = false ∧
        ∃ t, ThreadMade use call.cur d entry sp t s s' ∧ (s'.envs t).envId = w) := by
  -- the call starts from the frame that the trap has saved
  have hsaved : Mapped pool lost (call.entered s .threadCreate entry sp 0) use := h.saved
  have hhead : ∀ t, (call.entered s .threadCreate entry sp 0).envFreeList = some t →
      ((call.entered s .threadCreate entry sp 0).envs t).envStatus = .free := by
    intro t ht
    rw [saved_envs]
    exact hslots.head ht
  have hrun' : call.Running (call.entered s .threadCreate entry sp 0) := hrun.saved
  have hd' : (call.entered s .threadCreate entry sp 0).dirs call.cur = some d := by
    rw [dirs_saved, hd]
  have hfree : ((call.entered s .threadCreate entry sp 0).envs call.cur).envStatus ≠ .free := by
    rw [hrun'.status]
    decide
  have hends : ∀ r s₁, sysThreadCreate (call.entered s .threadCreate entry sp 0) call.cur entry sp =
      .ok (r, s₁) → _ := fun r s₁ hcall => hsaved.threadCreate hhead hfree hd' hcall
  -- the caller goes on running, whether a slot was found or not
  have hcalled : (syscall call.c (call.entered s .threadCreate entry sp 0) {}
      call.cur (some .threadCreate) entry sp 0 0 0).Ensures (fun out => call.Running out.2)
      Exit.Stays := by
    refine ⟨fun out hcall => ?_, fun exit hexit s' heq => ?_⟩
    · rcases hends out.1 out.2 hcall with ⟨-, -, heq⟩ | ⟨t, -, -, hstatus, hcpus⟩
      · rw [heq]
        exact hrun'
      · refine ⟨?_, ?_, hstatus.trans hrun'.status⟩
        · rw [hcpus]
          exact hrun'.started
        · rw [Kernel.curenv, hcpus]
          exact hrun'.curenv
    -- no error path of the call leaves the kernel
    · obtain ⟨why, s₁, hstuck, -⟩ := (sysThreadCreate_creates hrun'.curenv).of_error exit hexit
      rw [hstuck] at heq
      cases heq
  obtain ⟨r, s₁, hcall, rfl, hans⟩ := ThreadCall.sys_answered hrun hcalled hsys
  refine ⟨hans.running, ?_⟩
  rcases hends r s₁ hcall with ⟨hsmall, hneg, rfl⟩ | ⟨t, hmade, rfl, -, -⟩
  · exact .inl ⟨slt_ofInt hsmall hneg, hans.dirs.trans dirs_saved, hans.mem⟩
  · obtain ⟨hid, htype, htf⟩ := hans.others t hmade.other
    rw [BitVec.ofInt_toInt]
    refine .inr ⟨slt_of_pos hmade.id, t, ⟨hmade.other, ?_, ?_, ?_, ?_, ?_, ?_⟩, hid⟩
    · rw [hid]
      exact hmade.id
    · rw [htype]
      exact hmade.type
    · rw [htf]
      exact hmade.eip
    · rw [htf]
      exact hmade.esp
    · rw [hans.dirs, hmade.dirs, dirs_saved]
    · rw [hans.mem]
      exact hmade.entries

/-! ## The words on the stack -/

theorem SameEntries.readUser (hsame : SameEntries use s.mem m') (h : Mapped pool lost s use)
    (hd : s.dirs e = some d) (hva : va < UTOP) : readUser m' d va = readUser s.mem d va := by
  have hdir := h.layout.holders e d hd
  unfold JosSched.readUser userWord
  rw [hsame.mmu h hd hva]
  cases hmmu : JosSched.mmu s.mem d va with
  | none => rfl
  | some out =>
      obtain ⟨pp, flags⟩ := out
      have hdata : use pp = .data := h.layout.mmu_data hdir hva hmmu
      dsimp only
      split
      · rfl
      · refine congrArg some (hsame _ ?_)
        rw [hdata]
        decide

/-- A word has been pushed. -/
theorem ThreadCall.push_eq_some (hpush : call.push s sp w = some s') :
    ∃ m, storeWord s.mem (s.cpus call.c).cpuCr3 sp w = some m ∧ s' = s.setMem m := by
  obtain ⟨m, hstore, rfl⟩ := Option.map_eq_some_iff.mp hpush
  exact ⟨m, hstore, rfl⟩

/-- Two words, in different places of a page, have been stored and are read back. -/
theorem Layout.readUser_stores {dirs : Slot → Option Ppn} {va' w' : Word} {m₁ : Mem}
    (h : Layout pool lost m dirs none use) (hd : use d = .pgdir) (hva : va < UTOP)
    (hva' : va' < UTOP) (hidx : wordIdx va ≠ wordIdx va')
    (hstore : JosSched.storeWord m d va w = some m₁)
    (hstore' : JosSched.storeWord m₁ d va' w' = some m') :
    readUser m' d va = some w ∧ readUser m' d va' = some w' := by
  have hsame := h.storeWord hd hva hstore
  obtain ⟨pp, flags, hmmu, hflags, rfl⟩ := storeWord_eq_some.mp hstore
  obtain ⟨pp', flags', hmmu', hflags', rfl⟩ := storeWord_eq_some.mp hstore'
  have huser : ∀ {fl : Word}, fl &&& (PTE_U ||| PTE_W) = PTE_U ||| PTE_W → fl &&& PTE_U ≠ 0 := by
    intro fl hfl hzero
    have hand : (PTE_U ||| PTE_W) &&& PTE_U = PTE_U := by decide
    have hu : fl &&& PTE_U = PTE_U := by
      calc fl &&& PTE_U = fl &&& (PTE_U ||| PTE_W) &&& PTE_U := by rw [BitVec.and_assoc, hand]
        _ = PTE_U := by rw [hfl, hand]
    rw [hu] at hzero
    cases hzero
  have hdata := h.mmu_data hd hva hmmu
  have hdata' := hsame.layout.mmu_data hd hva' hmmu'
  have hkeep : ∀ {a}, a < UTOP →
      JosSched.mmu ((m.store (pp, wordIdx va) w).store (pp', wordIdx va') w') d a =
        JosSched.mmu (m.store (pp, wordIdx va) w) d a := fun ha =>
    hsame.layout.mmu_store hd ha hdata'
  constructor
  · have hmmu₂ := (hkeep hva).trans ((h.mmu_store hd hva hdata).trans hmmu)
    rw [readUser_store hmmu₂ (huser hflags), Mem.load_store_ne fun heq => hidx (Prod.mk.inj heq).2,
      Mem.load_store_self]
  · rw [readUser_store ((hkeep hva').trans hmmu') (huser hflags'), Mem.load_store_self]

/-! ## The call -/

/-- How `thread_create` ends. -/
inductive Creation (call : ThreadCall) (L : ThreadLib) : Word → ThreadLib → Prop
  | noStack {r : Word} {s₁ : Kernel} :
      call.sys L.kernel .pageAlloc 0 (threadStackBase L.nthreads) stackPerm = some (r, s₁) →
      r.slt 0 = true → Creation call L r { L with kernel := s₁ }
  | noThread {r w w' : Word} {s₁ s₂ s₃ s₄ s₅ : Kernel} :
      call.sys L.kernel .pageAlloc 0 (threadStackBase L.nthreads) stackPerm = some (r, s₁) →
      r.slt 0 = false → call.push s₁ (threadStackTop L.nthreads - 4) call.arg = some s₂ →
      call.push s₂ (threadStackTop L.nthreads - 8) call.exit = some s₃ →
      call.sys s₃ .threadCreate call.func (threadStackTop L.nthreads - 8) 0 = some (w, s₄) →
      w.slt 0 = true → call.sys s₄ .pageUnmap 0 (threadStackBase L.nthreads) 0 = some (w', s₅) →
      Creation call L w { L with kernel := s₅ }
  | created {r w : Word} {s₁ s₂ s₃ s₄ : Kernel} :
      call.sys L.kernel .pageAlloc 0 (threadStackBase L.nthreads) stackPerm = some (r, s₁) →
      r.slt 0 = false → call.push s₁ (threadStackTop L.nthreads - 4) call.arg = some s₂ →
      call.push s₂ (threadStackTop L.nthreads - 8) call.exit = some s₃ →
      call.sys s₃ .threadCreate call.func (threadStackTop L.nthreads - 8) 0 = some (w, s₄) →
      w.slt 0 = false →
      Creation call L w ⟨s₄, L.nthreads + 1, threadStackBase L.nthreads :: L.given⟩

theorem threadCreate_creation {L L' : ThreadLib} {tid : Word}
    (h : threadCreate call L = some (tid, L')) : Creation call L tid L' := by
  have hpages : THREAD_STACK_PAGES = 1 := by decide
  have hbase : threadStackBase L.nthreads + BitVec.ofNat 32 0 * PGSIZE =
      threadStackBase L.nthreads := by simp
  have hsp : threadStackTop L.nthreads - 4 - 4 = threadStackTop L.nthreads - 8 := by
    bv_omega
  unfold threadCreate at h
  rw [hpages] at h
  -- the stack is one page, so the loop of `thread_create` runs once
  obtain ⟨⟨r, s⟩, halloc, h⟩ := Option.bind_eq_some_iff.mp h
  unfold ThreadCall.allocStack at halloc
  obtain ⟨⟨r₁, s₁⟩, hsys, halloc⟩ := Option.bind_eq_some_iff.mp halloc
  rw [hbase] at hsys
  dsimp only at halloc h
  split at halloc
  · next hneg =>
      obtain ⟨rfl, rfl⟩ := Prod.mk.inj (Option.some.inj halloc)
      rw [if_pos hneg] at h
      obtain ⟨rfl, rfl⟩ := Prod.mk.inj (Option.some.inj h)
      exact .noStack hsys hneg
  · next hneg =>
      obtain ⟨rfl, rfl⟩ := Prod.mk.inj (Option.some.inj halloc)
      rw [if_neg (by decide)] at h
      obtain ⟨s₂, hpush, h⟩ := Option.bind_eq_some_iff.mp h
      obtain ⟨s₃, hpush', h⟩ := Option.bind_eq_some_iff.mp h
      rw [hsp] at hpush' h
      obtain ⟨⟨w, s₄⟩, hthread, h⟩ := Option.bind_eq_some_iff.mp h
      have hok : r₁.slt 0 = false := by simpa using hneg
      dsimp only at h
      split at h
      · next hfail =>
          -- `sys_thread_create` has failed: the page is unmapped again
          obtain ⟨s₅, hfold, h⟩ := Option.bind_eq_some_iff.mp h
          obtain ⟨rfl, rfl⟩ := Prod.mk.inj (Option.some.inj h)
          have hrange : List.range 1 = [0] := rfl
          unfold ThreadCall.unmapStack at hfold
          rw [hrange, List.foldlM_cons] at hfold
          obtain ⟨s₆, hmap, hlast⟩ := Option.bind_eq_some_iff.mp hfold
          obtain rfl := Option.some.inj hlast
          rw [hbase] at hmap
          obtain ⟨⟨w', s₇⟩, hunmap, rfl⟩ := Option.map_eq_some_iff.mp hmap
          exact .noThread hsys hok hpush hpush' hthread hfail hunmap
      · next hfail =>
          obtain ⟨rfl, rfl⟩ := Prod.mk.inj (Option.some.inj h)
          exact .created hsys hok hpush hpush' hthread (by simpa using hfail)

/-! ## Between the calls -/

namespace Resting

theorem orderly {ev : Event} (h : Resting pool leaks s) (hstep : OrderlyStep s ev s') :
    Resting pool leaks s' := h.step hstep.1 hstep.2.1 hstep.2.2 (.inr subset_rfl)

/-- The user writes to his pages. -/
theorem stored (h : Resting pool lost s) (hm : Mapped pool lost s use)
    (hsame : SameTables pool lost s.dirs use s.mem m) : Resting pool lost (s.setMem m) :=
  ⟨⟨h.exclusive.inj, h.exclusive.executing, h.exclusive.freeSlots⟩, ⟨use, hm.stored hsame⟩, h.cr3⟩

/-- The two words of the call are on the stack. -/
theorem pushed {sp' w' : Word} (h : Resting pool lost s) (hrun : call.Running s)
    (hd : s.dirs call.cur = some d) (hsp : sp < UTOP) (hsp' : sp' < UTOP)
    (hidx : wordIdx sp ≠ wordIdx sp') (hpush : call.push s sp w = some s₁)
    (hpush' : call.push s₁ sp' w' = some s₂) : ∃ m, s₂ = s.setMem m ∧
      Resting pool lost (s.setMem m) ∧ readUser m d sp = some w ∧ readUser m d sp' = some w' ∧
      ∀ e d' va, s.dirs e = some d' → va < UTOP → leaf m d' va = leaf s.mem d' va := by
  obtain ⟨use, hm⟩ := h.mapped
  have hcr3 : (s.cpus call.c).cpuCr3 = d :=
    Option.some.inj ((h.cr3 call.c call.cur hrun.curenv).symm.trans hd)
  have hdir := hm.layout.holders call.cur d hd
  obtain ⟨m₁, hstore, rfl⟩ := ThreadCall.push_eq_some hpush
  obtain ⟨m, hstore', rfl⟩ := ThreadCall.push_eq_some hpush'
  rw [hcr3] at hstore
  have hstore' : storeWord m₁ d sp' w' = some m := hcr3 ▸ hstore'
  have hsame := hm.layout.storeWord hdir hsp hstore
  have hboth := hsame.trans (hsame.layout.storeWord hdir hsp' hstore')
  obtain ⟨hread, hread'⟩ := hm.layout.readUser_stores hdir hsp hsp' hidx hstore hstore'
  exact ⟨m, rfl, h.stored hm hboth, hread, hread', fun e d' va hd' hva =>
    hboth.leaf hm.layout (hm.layout.holders e d' hd') hva⟩

end Resting

/-! ## The addresses of a stack -/

section

variable {n : Word}

/-- The words of the call lie in the stack, at the top. -/
theorem stackWords (hn : n.toNat ≤ 0x775fd) :
    (threadStackTop n - 4).toNat = 0xeebfbffc - n.toNat * 8192 ∧
      (threadStackTop n - 8).toNat = 0xeebfbff8 - n.toNat * 8192 := by
  have htop := toNat_threadStackTop hn
  have h4 : (4 : Word).toNat = 4 := rfl
  have h8 : (8 : Word).toNat = 8 := rfl
  constructor
  · rw [BitVec.toNat_sub_of_le (by rw [BitVec.le_def, htop, h4]; omega), htop, h4]
    omega
  · rw [BitVec.toNat_sub_of_le (by rw [BitVec.le_def, htop, h8]; omega), htop, h8]
    omega

theorem stackWords_lt (hn : n.toNat ≤ 0x775fd) :
    threadStackTop n - 4 < UTOP ∧ threadStackTop n - 8 < UTOP := by
  obtain ⟨h4, h8⟩ := stackWords hn
  have htop : UTOP.toNat = 0xeec00000 := rfl
  constructor
  · rw [BitVec.lt_def, h4, htop]
    omega
  · rw [BitVec.lt_def, h8, htop]
    omega

theorem stackWords_apart (hn : n.toNat ≤ 0x775fd) :
    wordIdx (threadStackTop n - 4) ≠ wordIdx (threadStackTop n - 8) := by
  obtain ⟨h4, h8⟩ := stackWords hn
  have hidx : ∀ a : Word, (wordIdx a).val = a.toNat >>> 2 % 1024 := fun _ => rfl
  rw [Ne, Fin.ext_iff, hidx, hidx, h4, h8, Nat.shiftRight_eq_div_pow, Nat.shiftRight_eq_div_pow]
  omega

theorem stackPointer_mem (hn : n.toNat ≤ 0x775fd) :
    threadStackBase n ≤ threadStackTop n - 8 ∧ threadStackTop n - 8 < threadStackTop n := by
  obtain ⟨-, h8⟩ := stackWords hn
  constructor
  · rw [BitVec.le_def, h8, toNat_threadStackBase hn]
    omega
  · rw [BitVec.lt_def, h8, toNat_threadStackTop hn]
    omega

theorem pgoff_threadStackBase (hn : n.toNat ≤ 0x775fd) : pgoff (threadStackBase n) = 0 := by
  rw [pgoff_eq_zero_iff, toNat_threadStackBase hn]
  omega

theorem mainStack_off (hn : n.toNat ≤ 0x775fd) :
    PageOff (threadStackBase n).toNat (USTACKTOP - PGSIZE).toNat USTACKTOP.toNat := by
  have hlow : (USTACKTOP - PGSIZE).toNat = 0xeebfd000 := rfl
  refine .inr ?_
  rw [toNat_threadStackBase hn, hlow]
  omega

/-- A stack that could be given has a number below the last one. -/
theorem Counted.lt_of_base {L : ThreadLib} (h : Counted L)
    (hva : threadStackBase L.nthreads < UTOP) : L.nthreads.toNat ≤ 0x775fd := by
  by_contra hlt
  have hbound := h.bounded
  have hexhausted : L.nthreads.toNat = 0x775fe := by omega
  exact absurd (threadStackBase_exhausted hexhausted) (BitVec.not_le.mpr hva)

theorem Counted.next {L : ThreadLib} (h : Counted L) (hn : L.nthreads.toNat ≤ 0x775fd)
    (s : Kernel) : Counted ⟨s, L.nthreads + 1, threadStackBase L.nthreads :: L.given⟩ := by
  have hone : (1 : Word).toNat = 1 := rfl
  have hnext : (L.nthreads + 1).toNat = L.nthreads.toNat + 1 := by
    rw [BitVec.toNat_add, hone]
    omega
  refine ⟨?_, fun b hb => ?_⟩ <;> dsimp only <;> rw [hnext]
  · omega
  · rcases List.mem_cons.mp hb with rfl | hb
    · exact ⟨L.nthreads, by omega, rfl⟩
    · obtain ⟨k, hk, rfl⟩ := h.numbered b hb
      exact ⟨k, by omega, rfl⟩

/-- No stack is in the page below that of the next call, nor in the page above. -/
theorem Counted.guards {L : ThreadLib} {b : Word} (h : Counted L) (hn : L.nthreads.toNat ≤ 0x775fd)
    (hb : b ∈ threadStackBase L.nthreads :: L.given) :
    b ≠ threadStackBase L.nthreads - PGSIZE ∧ b ≠ threadStackTop L.nthreads := by
  have hbase := toNat_threadStackBase hn
  have htop := toNat_threadStackTop hn
  have hsize : PGSIZE.toNat = 4096 := rfl
  have hbelow : (threadStackBase L.nthreads - PGSIZE).toNat =
      0xeebfa000 - L.nthreads.toNat * 8192 := by
    rw [BitVec.toNat_sub_of_le (by rw [BitVec.le_def, hbase, hsize]; omega), hbase, hsize]
    omega
  rcases List.mem_cons.mp hb with rfl | hb
  · exact ⟨BitVec.toNat_ne.mpr (by omega), BitVec.toNat_ne.mpr (by omega)⟩
  · have hapart := h.apart hn hb
    exact ⟨BitVec.toNat_ne.mpr (by omega), BitVec.toNat_ne.mpr (by omega)⟩

end

/-! ## The call as a whole -/

variable {L L' : ThreadLib} {tid : Word} {binary : Image}

/-- The stack of the next thread, at frame `p`, is mapped and holds the two words. -/
structure Furnished (pool : Set Ppn) (call : ThreadCall) (L : ThreadLib) (d p : Ppn) (s : Kernel) :
    Prop where
  resting : Resting pool leaks s
  running : call.Running s
  dirs : s.dirs = L.kernel.dirs
  bound : L.nthreads.toNat ≤ 0x775fd
  leaf : leaf s.mem d (threadStackBase L.nthreads) = userEntry p stackPerm
  only : ∀ e d' va, L.kernel.dirs e = some d' → va < UTOP →
    ¬ (d' = d ∧ SamePage (threadStackBase L.nthreads) va) →
    JosSched.leaf s.mem d' va = JosSched.leaf L.kernel.mem d' va
  argWord : readUser s.mem d (threadStackTop L.nthreads - 4) = some call.arg
  exitWord : readUser s.mem d (threadStackTop L.nthreads - 8) = some call.exit

theorem furnished (hL : Resting pool leaks L.kernel) (hcount : Counted L)
    (hrun : call.Running L.kernel) (hd : L.kernel.dirs call.cur = some d)
    (hm : Mapped pool leaks L.kernel use)
    (halloc : call.sys L.kernel .pageAlloc 0 (threadStackBase L.nthreads) stackPerm = some (w, s₁))
    (hok : w.slt 0 = false)
    (hpush : call.push s₁ (threadStackTop L.nthreads - 4) call.arg = some s₂)
    (hpush' : call.push s₂ (threadStackTop L.nthreads - 8) call.exit = some s) :
    ∃ p, use p = .free ∧ Furnished pool call L d p s := by
  have hstep := ThreadCall.sys_orderly hrun (.inl rfl) (fun _ => rfl) halloc
  have hs₁ := hL.orderly hstep
  obtain ⟨hrun₁, hdirs, hends⟩ := ThreadCall.sys_pageAlloc hm hrun halloc
  rcases hends with ⟨hneg, -⟩ | ⟨-, hva, d', p, hd', hmapped⟩
  · rw [hok] at hneg
    cases hneg
  obtain rfl := Option.some.inj (hd.symm.trans hd')
  have hn := hcount.lt_of_base hva
  have hd₁ : s₁.dirs call.cur = some d := hdirs ▸ hd
  obtain ⟨hlt, hlt'⟩ := stackWords_lt hn
  obtain ⟨m, rfl, hs, harg, hexit, hleaf⟩ :=
    hs₁.pushed hrun₁ hd₁ hlt hlt' (stackWords_apart hn) hpush hpush'
  refine ⟨p, hmapped.fresh, hs, hrun₁.setMem, hdirs, hn, ?_, fun e d' va he hva' hnot => ?_, harg,
    hexit⟩
  · exact (hleaf call.cur d _ hd₁ hva).trans hmapped.leaf
  · have he₁ : s₁.dirs e = some d' := hdirs ▸ he
    exact (hleaf e d' va he₁ hva').trans
      (hmapped.only d' va (hm.layout.holders e d' he) hva' hnot)

theorem Creation.refused (h : Creation call L tid L') (hL : Resting pool leaks L.kernel)
    (hcount : Counted L) (hrun : call.Running L.kernel) (hneg : tid.slt 0 = true) :
    StackRefused call L L' ∧ Resting pool leaks L'.kernel := by
  obtain ⟨use, hm⟩ := hL.mapped
  have hd := hL.cr3 call.c call.cur hrun.curenv
  cases h with
  | noStack halloc _ =>
      have hstep := ThreadCall.sys_orderly hrun (.inl rfl) (fun _ => rfl) halloc
      obtain ⟨-, -, hends⟩ := ThreadCall.sys_pageAlloc hm hrun halloc
      rcases hends with ⟨-, hsame⟩ | ⟨hpos, -⟩
      · exact ⟨⟨rfl, rfl, fun e d va he hva => .inl (hsame.leaf hm he hva)⟩, hL.orderly hstep⟩
      · rw [hneg] at hpos
        cases hpos
  | @noThread r w w' s₁ s₂ s₃ s₄ s₅ halloc hok hpush hpush' hthread _ hunmap =>
      obtain ⟨p, -, hs₃⟩ := furnished hL hcount hrun hd hm halloc hok hpush hpush'
      obtain ⟨use₃, hm₃⟩ := hs₃.resting.mapped
      have hd₃ := (congrFun hs₃.dirs call.cur).trans hd
      have hstep := ThreadCall.sys_orderly hs₃.running (.inr (.inr rfl)) nofun hthread
      obtain ⟨hrun₄, hfailed⟩ := ThreadCall.sys_threadCreate hm₃ hs₃.resting.exclusive.freeSlots
        hs₃.running hd₃ hthread
      rcases hfailed with ⟨-, hdirs₄, hmem⟩ | ⟨hpos, -⟩
      · have hs₄ := hs₃.resting.orderly hstep
        obtain ⟨use₄, hm₄⟩ := hs₄.mapped
        have hbase : threadStackBase L.nthreads < UTOP := by
          have htop : UTOP.toNat = 0xeec00000 := rfl
          rw [BitVec.lt_def, toNat_threadStackBase hs₃.bound, htop]
          omega
        have hd₄ : s₄.dirs call.cur = some _ := hdirs₄ ▸ hd₃
        have hstep' := ThreadCall.sys_orderly hrun₄ (.inr (.inl rfl)) nofun hunmap
        obtain ⟨-, -, hzero, honly⟩ := ThreadCall.sys_pageUnmap hm₄ hrun₄ hd₄ hbase
          (pgoff_threadStackBase hs₃.bound) hunmap
        refine ⟨⟨rfl, rfl, fun e d va he hva => ?_⟩, hs₄.orderly hstep'⟩
        -- the call has unmapped what it had mapped
        by_cases hat : d = (L.kernel.cpus call.c).cpuCr3 ∧ SamePage (threadStackBase L.nthreads) va
        · obtain ⟨rfl, hsame⟩ := hat
          exact .inr ⟨hd, hsame, (leaf_samePage hsame).symm.trans hzero⟩
        · have he₄ : s₄.dirs e = some d := (congrFun (hdirs₄.trans hs₃.dirs) e).trans he
          have hleaf := honly d va (hm₄.layout.holders e d he₄) hva hat
          rw [hmem] at hleaf
          exact .inl (hleaf.trans (hs₃.only e d va he hva hat))
      · rw [hneg] at hpos
        cases hpos
  | created _ _ _ _ _ hpos =>
      rw [hneg] at hpos
      cases hpos

/-- A stack that has been given is one of its own if it lies off the program, and only then. -/
theorem Creation.given_iff (h : Creation call L tid L') (hL : Resting pool leaks L.kernel)
    (hcount : Counted L) (hrun : call.Running L.kernel) (hpos : tid.slt 0 = false)
    (hd : L.kernel.dirs call.cur = some d) :
    (∀ binary, StackGiven binary call d L L' tid ↔ OffImage binary L.nthreads) ∧
      Resting pool leaks L'.kernel ∧ Counted L' := by
  obtain ⟨use, hm⟩ := hL.mapped
  cases h with
  | noStack _ hneg =>
      rw [hpos] at hneg
      cases hneg
  | noThread _ _ _ _ _ hneg _ =>
      rw [hpos] at hneg
      cases hneg
  | @created r w s₁ s₂ s₃ s₄ halloc hok hpush hpush' hthread _ =>
      obtain ⟨p, hfresh, hs₃⟩ := furnished hL hcount hrun hd hm halloc hok hpush hpush'
      have hn := hs₃.bound
      obtain ⟨use₃, hm₃⟩ := hs₃.resting.mapped
      have hd₃ := (congrFun hs₃.dirs call.cur).trans hd
      have hstep := ThreadCall.sys_orderly hs₃.running (.inr (.inr rfl)) nofun hthread
      obtain ⟨-, hended⟩ := ThreadCall.sys_threadCreate hm₃ hs₃.resting.exclusive.freeSlots
        hs₃.running hd₃ hthread
      refine ⟨fun binary => ⟨fun hgiven => (offImage_iff hn).mpr hgiven.image, fun hoff => ?_⟩,
        hs₃.resting.orderly hstep, hcount.next hn s₄⟩
      rcases hended with ⟨hneg, -⟩ | ⟨-, t, hmade, hid⟩
      · rw [hpos] at hneg
        cases hneg
      -- the new thread disturbs no translation, so the page stays where it was mapped
      obtain ⟨hlt, hlt'⟩ := stackWords_lt hn
      have hkept : ∀ e d' va, L.kernel.dirs e = some d' → va < UTOP →
          leaf s₄.mem d' va = leaf s₃.mem d' va := fun e d' va he hva =>
        hmade.entries.leaf hm₃ ((congrFun hs₃.dirs e).trans he) hva
      have hbase : threadStackBase L.nthreads < UTOP := by
        have htop : UTOP.toNat = 0xeec00000 := rfl
        rw [BitVec.lt_def, toNat_threadStackBase hn, htop]
        omega
      exact
        { mainStack := mainStack_off hn
          others := fun b hb => .inr (le_trans (by omega) (hcount.apart hn hb))
          image := (offImage_iff hn).mp hoff
          guards := fun b hb => hcount.guards hn hb
          mapped := by
            refine ⟨p, (hkept call.cur d _ hd hbase).trans hs₃.leaf, ?_⟩
            intro e d' va he hva hleaf heq
            have hdata := hm.data_of_leaf he hva hleaf
            rw [heq, hfresh] at hdata
            cases hdata
          only := fun e d' va he hva hnot =>
            (hkept e d' va he hva).trans (hs₃.only e d' va he hva hnot)
          thread := by
            refine ⟨t, hid, hmade.type, ?_, hmade.eip, hmade.esp⟩
            rw [hmade.dirs, Function.update_self]
          sp := stackPointer_mem hn
          exitWord := (hmade.entries.readUser hm₃ hd₃ hlt').trans hs₃.exitWord
          argWord := (hmade.entries.readUser hm₃ hd₃ hlt).trans hs₃.argWord }

/-! ## Runs -/

/-- A call, whether it succeeds or fails, leaves the machine in order. -/
theorem Creation.ordered (h : Creation call L tid L') (hL : Resting pool leaks L.kernel)
    (hcount : Counted L) (hrun : call.Running L.kernel) :
    Resting pool leaks L'.kernel ∧ Counted L' := by
  cases hsign : tid.slt 0 with
  | true =>
      obtain ⟨hrefused, hL'⟩ := h.refused hL hcount hrun hsign
      refine ⟨hL', ?_, ?_⟩
      · rw [hrefused.nthreads]
        exact hcount.bounded
      · rw [hrefused.given, hrefused.nthreads]
        exact hcount.numbered
  | false =>
      have hd := hL.cr3 call.c call.cur hrun.curenv
      exact (h.given_iff hL hcount hrun hsign hd).2

theorem ordered_of_run {evs : List ThreadEvent} (hboot : Booted s₀)
    (hrun : Trace ThreadStep ⟨s₀, 0, []⟩ evs L) :
    Resting (freeFrames s₀.mem) leaks L.kernel ∧ Counted L := by
  refine hrun.invariant (I := fun L => Resting (freeFrames s₀.mem) leaks L.kernel ∧ Counted L)
    ⟨resting_of_run hboot .nil, Nat.zero_le _, nofun⟩ fun L ev L' hL hstep => ?_
  cases hstep with
  | machine hstep => exact ⟨hL.1.orderly hstep, hL.2.bounded, hL.2.numbered⟩
  | create hcall hcreate => exact (threadCreate_creation hcreate).ordered hL.1 hL.2 hcall

/-- In every run of the machine and the process, a call of `thread_create` does what it is for
where the next stack lies off the program, and a call that gives a stack does so only there. -/
theorem createsThread {evs : List ThreadEvent} (hboot : Booted s₀)
    (hrun : Trace ThreadStep ⟨s₀, 0, []⟩ evs L) (hcall : call.Running L.kernel) :
    (OffImage binary L.nthreads → CreatesThread binary call L) ∧
      ∀ tid L', threadCreate call L = some (tid, L') → tid.slt 0 = false →
        CreatesThread binary call L → OffImage binary L.nthreads := by
  obtain ⟨hL, hcount⟩ := ordered_of_run hboot hrun
  constructor
  · intro hoff tid L' hcreate
    have h := threadCreate_creation hcreate
    exact ⟨fun hneg => (h.refused hL hcount hcall hneg).1,
      fun hpos d hd => ((h.given_iff hL hcount hcall hpos hd).1 binary).mpr hoff⟩
  · intro tid L' hcreate hpos hcreates
    have hd := hL.cr3 call.c call.cur hcall.curenv
    exact (((threadCreate_creation hcreate).given_iff hL hcount hcall hpos hd).1 binary).mp
      ((hcreates tid L' hcreate).2 hpos _ hd)

/-- A run of the machine alone. -/
theorem threadTrace {evs : List Event} {k : Word} {given : List Word}
    (hrun : Trace OrderlyStep s evs s') :
    Trace ThreadStep ⟨s, k, given⟩ (evs.map .machine) ⟨s', k, given⟩ := by
  induction hrun with
  | nil => exact .nil
  | snoc _ hstep ih =>
      rw [List.map_append]
      exact ih.snoc (.machine hstep)

instance (call : ThreadCall) (s : Kernel) : Decidable (call.Running s) :=
  decidable_of_iff ((s.cpus call.c).cpuStatus = .started ∧ s.curenv call.c = some call.cur ∧
    (s.envs call.cur).envStatus = .running) ⟨fun h => ⟨h.1, h.2.1, h.2.2⟩, fun h => ⟨h.1, h.2, h.3⟩⟩

instance (binary : Image) (n : Word) : Decidable (OffImage binary n) :=
  inferInstanceAs (Decidable (∀ ph ∈ binary.segments, _ ∨ _))

/-- A program of a few bytes at the address where programs are linked. -/
def smallImage : Image where
  segments := [{ va := 0x800020, memsz := 4, bytes := [], fits := by decide, below := by decide }]
  entry := 0x800020

/-- It has a second segment, in the page of the first stack. -/
def stackImage : Image where
  segments := smallImage.segments ++
    [{ va := 0xeebfb000, memsz := 4, bytes := [], fits := by decide, below := by decide }]
  entry := 0x800020

/-- The first process creates a thread. -/
def firstCall : ThreadCall where
  c := 0
  cur := 0
  func := 0x800020
  arg := 7
  exit := 0x800022

/-- It creates two, and both get a stack: the second one is off the program and off the first. -/
theorem createsThread_second : ∃ L tid L' d, firstCall.Running L.kernel ∧
    L.given = [threadStackBase 0] ∧ threadCreate firstCall L = some (tid, L') ∧
    L'.given = [threadStackBase 1, threadStackBase 0] ∧ L.kernel.dirs 0 = some d ∧
    StackGiven smallImage firstCall d L L' tid := by
  obtain ⟨s, hrun, hs⟩ := exists_trace (fun s ev => ev.Hygienic s ∧ ev.Orderly s)
    (bootedMachine .roundRobin 64) [.boot smallImage, .start 0]
    (fun s => decide (firstCall.Running s) &&
      (threadCreate firstCall ⟨s, 0, []⟩).any fun (out : Word × ThreadLib) =>
        decide (firstCall.Running out.2.kernel ∧ out.2.given = [threadStackBase 0] ∧
          OffImage smallImage out.2.nthreads ∧ out.2.kernel.dirs 0 = some 8) &&
        (threadCreate firstCall out.2).any fun (out' : Word × ThreadLib) =>
          decide (out'.1.slt 0 = false ∧ out'.2.given = [threadStackBase 1, threadStackBase 0]))
    (by decide +kernel)
  rw [Bool.and_eq_true, decide_eq_true_iff] at hs
  obtain ⟨⟨tid₁, L⟩, hfirst, hL⟩ := (Option.any_eq_true _ _).mp hs.2
  rw [Bool.and_eq_true, decide_eq_true_iff] at hL
  obtain ⟨⟨hcall, hgiven, hoff, hdir⟩, hL'⟩ := hL
  obtain ⟨⟨tid, L'⟩, hsecond, hout⟩ := (Option.any_eq_true _ _).mp hL'
  obtain ⟨hpos, hgiven'⟩ := of_decide_eq_true hout
  have hboot := booted_bootedMachine .roundRobin (n := 64) (by decide) (by decide)
  have htrace : Trace ThreadStep ⟨bootedMachine .roundRobin 64, 0, []⟩ _ L :=
    (threadTrace hrun).snoc (.create hs.1 hfirst)
  have hcreates : CreatesThread smallImage firstCall L :=
    (createsThread hboot htrace hcall).1 hoff
  exact ⟨L, tid, L', 8, hcall, hgiven, hsecond, hgiven', hdir,
    (hcreates tid L' hsecond).2 hpos 8 hdir⟩

/-- The first stack of a process takes the place of a page of its program. -/
theorem image_replaced : ¬ ∀ (s₀ : Kernel) (binary : Image) (evs : List ThreadEvent) (L : ThreadLib)
    (call : ThreadCall), Booted s₀ →
    Trace ThreadStep ⟨s₀, 0, []⟩ (.machine (.boot binary) :: evs) L → call.cur = 0 →
    call.Running L.kernel → CreatesThread binary call L := by
  intro hclaim
  have hboot := booted_bootedMachine .roundRobin (n := 64) (by decide) (by decide)
  obtain ⟨s, hrun, hs⟩ := exists_trace (fun s ev => ev.Hygienic s ∧ ev.Orderly s)
    (bootedMachine .roundRobin 64) [.boot stackImage, .start 0]
    (fun s => decide (firstCall.Running s ∧
      ((threadCreate firstCall ⟨s, 0, []⟩).map fun out => out.1.slt 0) = some false))
    (by decide +kernel)
  obtain ⟨hcall, hsome⟩ := of_decide_eq_true hs
  obtain ⟨⟨tid, L'⟩, hcreate, hpos⟩ := Option.map_eq_some_iff.mp hsome
  have htrace : Trace ThreadStep ⟨bootedMachine .roundRobin 64, 0, []⟩ _ ⟨s, 0, []⟩ :=
    threadTrace hrun
  have hcreates := hclaim _ stackImage [.machine (.start 0)] _ firstCall hboot htrace rfl hcall
  have hoff : OffImage stackImage 0 :=
    (createsThread hboot htrace hcall).2 tid L' hcreate hpos hcreates
  exact absurd hoff (by decide)

end JosSched
