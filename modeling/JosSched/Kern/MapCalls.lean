import JosSched.Kern.Memory
import JosSched.Ipc.TrySend

/-!
# Calls that map pages

`env_page_alloc` and `env_page_map` serve `sys_page_alloc`, `sys_page_map` and the page transfer
of `sys_ipc_try_send`, which maps a fresh page at the destination and then replaces it by the
page of the sender.  What each of them leaves behind is told by the way it ends.  The calls
themselves check their arguments, and leave the rest to these two.
-/

open Except

namespace JosSched

variable {c : Cpu} {pool : Set Ppn} {lost : Set (Ppn × Use)} {s s' s₁ : Kernel}
  {use : Ppn → Use} {e t cur : Slot} {d p srcdir : Ppn} {m : Mem}
  {envid value va srcva dstva perm : Word} {r : ℤ} {inp : Input}

/-! ## The checks of the calls -/

/-- The permissions that `sys_page_alloc` and a send grant. -/
def granted (perm : Word) : Word := perm ||| PTE_U ||| PTE_P

theorem sysPageAlloc_eq_ok (hcall : sysPageAlloc c s envid va perm = .ok (r, s')) :
    (r < 0 ∧ s' = s) ∨ ∃ t, envid2env c s envid true = .ok t ∧ UserPage va ∧
      envPageAlloc s t va (granted perm) = .ok (r, s') := by
  unfold sysPageAlloc at hcall
  split at hcall
  · obtain ⟨rfl, rfl⟩ := Prod.mk.inj (Except.ok.inj hcall)
    exact .inl ⟨by decide, rfl⟩
  next hva =>
  rw [not_or, BitVec.not_le, not_not] at hva
  split at hcall
  · next r' henv =>
      obtain ⟨rfl, rfl⟩ := Prod.mk.inj (Except.ok.inj hcall)
      rw [envid2env_error henv]
      exact .inl ⟨by decide, rfl⟩
  · next t henv => exact .inr ⟨t, henv, hva, hcall⟩

theorem sysPageMap_eq_ok {srcenvid dstenvid : Word}
    (hcall : sysPageMap c s srcenvid srcva dstenvid dstva perm = .ok (r, s')) :
    (r < 0 ∧ s' = s) ∨ ∃ src dst, envid2env c s srcenvid true = .ok src ∧
      envid2env c s dstenvid true = .ok dst ∧ srcva < UTOP ∧ dstva < UTOP ∧
      envPageMap s src srcva dst dstva (PTE_P ||| PTE_U ||| perm) = .ok (r, s') := by
  have hinval : (.ok (-E_INVAL, s) : Except Exit (ℤ × Kernel)) = .ok (r, s') → r < 0 ∧ s' = s :=
    fun heq => by
      obtain ⟨rfl, rfl⟩ := Prod.mk.inj (Except.ok.inj heq)
      exact ⟨by decide, rfl⟩
  have hbad : ∀ {envid : Word} {r' : ℤ}, envid2env c s envid true = .error r' →
      (.ok (r', s) : Except Exit (ℤ × Kernel)) = .ok (r, s') → r < 0 ∧ s' = s :=
    fun henv heq => by
      obtain ⟨rfl, rfl⟩ := Prod.mk.inj (Except.ok.inj heq)
      rw [envid2env_error henv]
      exact ⟨by decide, rfl⟩
  unfold sysPageMap at hcall
  split at hcall
  · exact .inl (hinval hcall)
  next hsrcva =>
  rw [not_or, BitVec.not_le] at hsrcva
  split at hcall
  · exact .inl (hinval hcall)
  next hdstva =>
  rw [not_or, BitVec.not_le] at hdstva
  split at hcall
  · next hsrc => exact .inl (hbad hsrc hcall)
  next src hsrc =>
  split at hcall
  · next hdst => exact .inl (hbad hdst hcall)
  · next dst hdst => exact .inr ⟨src, dst, hsrc, hdst, hsrcva.1, hdstva.1, hcall⟩

/-- How `sys_ipc_try_send` ends.  A page transfer that fails may have mapped a page. -/
inductive SendEnds (c : Cpu) (s : Kernel) (inp : Input) (cur : Slot)
    (envid value srcva perm : Word) : ℤ → Kernel → Prop
  | refused {r : ℤ} : r < 0 → SendEnds c s inp cur envid value srcva perm r s
  | noPage {dst : Slot} : envid2env c s envid false = .ok dst →
      (s.envs dst).envIpcRecving = true → UTOP ≤ srcva →
      SendEnds c s inp cur envid value srcva perm 0
        (ipcDeliver (setIpcPerm s dst 0) cur dst value)
  | failed {dst : Slot} {r : ℤ} {s₁ : Kernel} : envid2env c s envid false = .ok dst →
      (s.envs dst).envIpcRecving = true → srcva < UTOP →
      ipcSendPage s inp cur dst srcva perm = .ok (r, s₁) → r < 0 →
      SendEnds c s inp cur envid value srcva perm r s₁
  | delivered {dst : Slot} {r : ℤ} {s₁ : Kernel} : envid2env c s envid false = .ok dst →
      (s.envs dst).envIpcRecving = true → srcva < UTOP →
      ipcSendPage s inp cur dst srcva perm = .ok (r, s₁) → ¬ r < 0 →
      SendEnds c s inp cur envid value srcva perm 0 (ipcDeliver s₁ cur dst value)

theorem sysIpcTrySend_ends
    (hcall : sysIpcTrySend c s inp cur envid value srcva perm = .ok (r, s')) :
    SendEnds c s inp cur envid value srcva perm r s' := by
  unfold sysIpcTrySend at hcall
  split at hcall
  · next r' henv =>
      obtain ⟨rfl, rfl⟩ := Prod.mk.inj (Except.ok.inj hcall)
      refine .refused ?_
      rw [envid2env_error henv]
      decide
  next dst hdst =>
  dsimp only at hcall
  split at hcall
  · obtain ⟨rfl, rfl⟩ := Prod.mk.inj (Except.ok.inj hcall)
    exact .refused (by decide)
  next hrecv =>
  rw [Bool.not_eq_false] at hrecv
  split at hcall
  · next hsrcva =>
      obtain ⟨rfl, rfl⟩ := Prod.mk.inj (Except.ok.inj hcall)
      exact .noPage hdst hrecv hsrcva
  next hsrcva =>
  rw [BitVec.not_le] at hsrcva
  obtain ⟨⟨r₁, s₁⟩, hsend, hcall⟩ := bind_eq_ok.mp hcall
  dsimp only at hcall
  split at hcall
  · next hneg =>
      obtain ⟨rfl, rfl⟩ := Prod.mk.inj (Except.ok.inj hcall)
      exact .failed hdst hrecv hsrcva hsend hneg
  · next hneg =>
      obtain ⟨rfl, rfl⟩ := Prod.mk.inj (Except.ok.inj hcall)
      exact .delivered hdst hrecv hsrcva hsend hneg

/-! ## `env_page_alloc` -/

/-- How `env_page_alloc` ends. -/
inductive PageAlloced (pool : Set Ppn) (lost : Set (Ppn × Use)) (s : Kernel) (use : Ppn → Use)
    (t : Slot) (va perm : Word) : ℤ → Kernel → Prop
  | refused {r : ℤ} : r < 0 → PageAlloced pool lost s use t va perm r s
  /-- The fresh page was the last free frame, and a page table was needed too. -/
  | leaked {d p : Ppn} {m : Mem} : s.dirs t = some d → use p = .free → LastFrame s.mem p →
      s.mem.load (d, pdx va) = 0 →
        (∃ use', Mapped pool (insert (p, .data) lost) (s.setMem m) use') →
      (∀ x, x.1 ≠ p → m.load x = s.mem.load x) → perm &&& ~~~PTE_SYSCALL = 0 →
      PageAlloced pool lost s use t va perm (-E_NO_MEM) (s.setMem m)
  | mapped {d p : Ppn} {m : Mem} : s.dirs t = some d → use p = .free →
      perm &&& ~~~PTE_SYSCALL = 0 → PageMapped pool lost s use d va p perm m →
      PageAlloced pool lost s use t va perm 0 (s.setMem m)

theorem Mapped.envPageAlloc (h : Mapped pool lost s use) (ht : ¬ s.Orphan t) (hva : va < UTOP)
    (hcall : JosSched.envPageAlloc s t va perm = .ok (r, s')) :
    PageAlloced pool lost s use t va perm r s' := by
  unfold JosSched.envPageAlloc at hcall
  dsimp only at hcall
  split at hcall
  · next hneg =>
      obtain ⟨rfl, rfl⟩ := Prod.mk.inj (Except.ok.inj hcall)
      exact .refused hneg
  · next hneg =>
      have hperm := le_of_checkPerm hneg
      obtain ⟨⟨page, s₁⟩, hpage, hcall⟩ := bind_eq_ok.mp hcall
      obtain ⟨m₁, halloc, rfl⟩ := withMem_eq_ok hpage
      cases page with
      | none =>
          obtain ⟨rfl, rfl⟩ := Prod.mk.inj (Except.ok.inj hcall)
          rcases pageAlloc_eq_ok halloc with ⟨-, -, rfl⟩ | ⟨pp, hpp, -⟩
          · exact .refused (by decide)
          · cases hpp
      | some p =>
          dsimp only at hcall
          obtain ⟨d, hd, hcall⟩ := bind_eq_ok.mp hcall
          obtain ⟨m, hins, rfl⟩ := withMem_eq_ok hcall
          have hdir := envPgdirOf_eq_ok hd
          have hd : s.dirs t = some d := hdir
          obtain ⟨hfree, hleak | hmap⟩ := h.pageNew ht hd hva hperm halloc hins
          · obtain ⟨rfl, hlast, hpde, hmapped, hload⟩ := hleak
            exact .leaked hd hfree hlast hpde hmapped hload hperm
          · obtain ⟨rfl, hmap⟩ := hmap
            exact .mapped hd hfree hperm hmap

/-! ## `env_page_map` -/

/-- How `env_page_map` ends.  It maps the page of the source; that no count overflows is up to
the caller. -/
inductive PageShared (pool : Set Ppn) (lost : Set (Ppn × Use)) (s : Kernel) (use : Ppn → Use)
    (src : Slot) (srcva : Word) (dst : Slot) (dstva perm : Word) : ℤ → Kernel → Prop
  | refused {srcdir : Ppn} : s.dirs src = some srcdir → leaf s.mem srcdir srcva = 0 ∨
      perm &&& PTE_W &&& ~~~(PTE_W &&& leaf s.mem srcdir srcva) ≠ 0 →
      PageShared pool lost s use src srcva dst dstva perm (-E_INVAL) s
  | noTable {dstdir : Ppn} : s.dirs dst = some dstdir → s.mem.load (dstdir, pdx dstva) = 0 →
      PageShared pool lost s use src srcva dst dstva perm (-E_NO_MEM) s
  | mapped {srcdir dstdir : Ppn} {m : Mem} : s.dirs src = some srcdir → s.dirs dst = some dstdir →
      leaf s.mem srcdir srcva ≠ 0 → use (pgnum (leaf s.mem srcdir srcva)) = .data →
      (perm &&& PTE_W ≠ 0 → leaf s.mem srcdir srcva &&& PTE_W ≠ 0) →
      ((s.mem.ref (pgnum (leaf s.mem srcdir srcva))).toNat + 1 < 2 ^ 16 →
        perm &&& ~~~PTE_SYSCALL = 0 →
        PageMapped pool lost s use dstdir dstva (pgnum (leaf s.mem srcdir srcva)) perm m) →
      PageShared pool lost s use src srcva dst dstva perm 0 (s.setMem m)

/-- A mapped page is user data. -/
theorem Mapped.data_of_leaf (h : Mapped pool lost s use) (hd : s.dirs t = some d) (hva : va < UTOP)
    (hleaf : leaf s.mem d va ≠ 0) : use (pgnum (leaf s.mem d va)) = .data := by
  obtain ⟨pp, perm, hdata, hperm, heq⟩ :=
    h.layout.data_of_leaf (h.layout.holders t d hd) hva hleaf
  rw [heq, pgnum_userEntry hperm, hdata]

theorem Mapped.envPageMap {src dst : Slot} (h : Mapped pool lost s use)
    (ht : ¬ s.Orphan dst) (hsrcva : srcva < UTOP) (hdstva : dstva < UTOP)
    (hcall : JosSched.envPageMap s src srcva dst dstva perm = .ok (r, s')) :
    PageShared pool lost s use src srcva dst dstva perm r s' := by
  unfold JosSched.envPageMap at hcall
  obtain ⟨srcdir, hsrcdir, hcall⟩ := bind_eq_ok.mp hcall
  have hsrcdir : s.dirs src = some srcdir := envPgdirOf_eq_ok hsrcdir
  have hsrc := h.layout.holders src srcdir hsrcdir
  rw [h.layout.pageLookup_eq hsrc hsrcva] at hcall
  obtain ⟨⟨found, s₁⟩, hfound, hcall⟩ := bind_eq_ok.mp hcall
  obtain ⟨m₁, hmap, rfl⟩ := withMem_eq_ok hfound
  obtain ⟨hpair, rfl⟩ := Prod.mk.inj (Except.ok.inj hmap)
  rw [setMem_self] at hcall
  -- `page_lookup` fails where nothing is mapped
  by_cases hleaf : leaf s.mem srcdir srcva = 0
  · rw [if_pos hleaf] at hpair
    subst hpair
    obtain ⟨rfl, rfl⟩ := Prod.mk.inj (Except.ok.inj hcall)
    exact .refused hsrcdir (.inl hleaf)
  · rw [if_neg hleaf] at hpair
    subst hpair
    dsimp only at hcall
    rw [← leaf_of_pde (pde_ne_zero_of_leaf hleaf)] at hcall
    split at hcall
    · next hw =>
        obtain ⟨rfl, rfl⟩ := Prod.mk.inj (Except.ok.inj hcall)
        exact .refused hsrcdir (.inr hw)
    · next hw =>
        obtain ⟨dstdir, hdstdir, hcall⟩ := bind_eq_ok.mp hcall
        obtain ⟨m, hins, rfl⟩ := withMem_eq_ok hcall
        have hdstdir : s.dirs dst = some dstdir := envPgdirOf_eq_ok hdstdir
        have hdst := h.layout.holders dst dstdir hdstdir
        have hdata := h.data_of_leaf hsrcdir hsrcva hleaf
        -- `page_insert` fails for want of a page table only
        rcases h.layout.pageInsert_result hdst hdstva hins with ⟨rfl, rfl, hpde⟩ | rfl
        · exact .noTable hdstdir hpde
        · refine .mapped hsrcdir hdstdir hleaf hdata (writable_of_perm hw) fun hfit hperm => ?_
          refine ((h.pageShare ht hdstdir hdstva hdata hperm hfit hins).resolve_left ?_).2
          rintro ⟨hneg, -⟩
          exact absurd hneg (by decide)

/-! ## The page transfer of `sys_ipc_try_send` -/

/-- What the send reads through `srcpte`. -/
theorem Mapped.readSrcpte (h : Mapped pool lost s use) (hcur : s.dirs cur = some srcdir)
    (hsrcva : srcva < UTOP) (hleaf : leaf s.mem srcdir srcva ≠ 0) :
    JosSched.readSrcpte s inp cur srcva = .ok (leaf s.mem srcdir srcva) := by
  have hpgdir : envPgdirOf s cur = .ok srcdir := by
    have hdir : (s.envs cur).envPgdir = some srcdir := hcur
    rw [envPgdirOf, hdir]
  unfold JosSched.readSrcpte
  rw [hpgdir]
  dsimp only [bind, Except.bind]
  rw [h.layout.pageLookup_eq (h.layout.holders cur srcdir hcur) hsrcva, if_neg hleaf,
    leaf_of_pde (pde_ne_zero_of_leaf hleaf)]
  rfl

/-- Nothing is mapped: it reads through a pointer that was never stored. -/
theorem Mapped.readSrcpte_unmapped (h : Mapped pool lost s use) (hcur : s.dirs cur = some srcdir)
    (hsrcva : srcva < UTOP) (hleaf : leaf s.mem srcdir srcva = 0) :
    JosSched.readSrcpte s inp cur srcva =
      (inp.undef.map .ok).getD (.error (.stuck .kernelPageFault s)) := by
  have hpgdir : envPgdirOf s cur = .ok srcdir := by
    have hdir : (s.envs cur).envPgdir = some srcdir := hcur
    rw [envPgdirOf, hdir]
  unfold JosSched.readSrcpte
  rw [hpgdir]
  dsimp only [bind, Except.bind]
  rw [h.layout.pageLookup_eq (h.layout.holders cur srcdir hcur) hsrcva, if_pos hleaf]
  dsimp only
  cases inp.undef <;> rfl

/-- A page is offered to `dst` and wanted by it, with permissions that `env_page_alloc` accepts. -/
structure Offered (s : Kernel) (dst : Slot) (srcva perm : Word) : Prop where
  source : UserPage srcva
  wanted : (s.envs dst).envIpcDstva ≠ 0
  permitted : granted perm &&& ~~~PTE_SYSCALL = 0

instance (s : Kernel) (dst : Slot) (srcva perm : Word) : Decidable (Offered s dst srcva perm) :=
  decidable_of_iff (_ ∧ _ ∧ _) ⟨fun h => ⟨h.1, h.2.1, h.2.2⟩,
    fun h => ⟨h.source, h.wanted, h.permitted⟩⟩

/-- How the page transfer ends.  The page that `dropped` has mapped at the destination is the
zeroed one, which no page of the sender replaced. -/
inductive PageSent (pool : Set Ppn) (lost : Set (Ppn × Use)) (s : Kernel) (use : Ppn → Use)
    (cur dst : Slot) (srcva perm : Word) : ℤ → Kernel → Prop
  | refused {r : ℤ} : r < 0 → PageSent pool lost s use cur dst srcva perm r s
  | leaked {d p : Ppn} {m : Mem} : s.dirs dst = some d → use p = .free → LastFrame s.mem p →
      s.mem.load (d, pdx (s.envs dst).envIpcDstva) = 0 →
      (∃ use', Mapped pool (insert (p, .data) lost) (s.setMem m) use') →
      (∀ x, x.1 ≠ p → m.load x = s.mem.load x) → Offered s dst srcva perm →
      PageSent pool lost s use cur dst srcva perm (-E_NO_MEM) (s.setMem m)
  | dropped {srcdir d p : Ppn} {m : Mem} : pgoff srcva = 0 → s.dirs cur = some srcdir →
      leaf s.mem srcdir srcva = 0 → s.dirs dst = some d → use p = .free →
      granted perm &&& ~~~PTE_SYSCALL = 0 →
      PageMapped pool lost s use d (s.envs dst).envIpcDstva p (granted perm) m →
      PageSent pool lost s use cur dst srcva perm (-E_INVAL) (s.setMem m)
  | unwanted : (s.envs dst).envIpcDstva = 0 → PageSent pool lost s use cur dst srcva perm 0 s
  | sent {srcdir d p : Ppn} {m₁ m : Mem} {use₁ : Ppn → Use} : (s.envs dst).envIpcDstva ≠ 0 →
      s.dirs cur = some srcdir → s.dirs dst = some d → use p = .free →
      granted perm &&& ~~~PTE_SYSCALL = 0 →
      PageMapped pool lost s use d (s.envs dst).envIpcDstva p (granted perm) m₁ →
      Mapped pool lost (s.setMem m₁) use₁ → leaf m₁ srcdir srcva ≠ 0 →
      (perm &&& PTE_W ≠ 0 → leaf m₁ srcdir srcva &&& PTE_W ≠ 0) →
      ((m₁.ref (pgnum (leaf m₁ srcdir srcva))).toNat + 1 < 2 ^ 16 →
        PageMapped pool lost (s.setMem m₁) use₁ d (s.envs dst).envIpcDstva
          (pgnum (leaf m₁ srcdir srcva)) (granted perm) m) →
      PageSent pool lost s use cur dst srcva perm 0 (setIpcPerm (s.setMem m) dst (granted perm))

theorem granted_write (perm : Word) : granted perm &&& PTE_W = perm &&& PTE_W := by
  have hu : PTE_U &&& PTE_W = 0 := by decide
  have hp : PTE_P &&& PTE_W = 0 := by decide
  have hzero : ∀ w : Word, w ||| 0 = w := fun w => BitVec.or_zero
  unfold granted
  rw [BitVec.and_comm, BitVec.and_or_distrib_left, BitVec.and_or_distrib_left,
    BitVec.and_comm PTE_W PTE_U, BitVec.and_comm PTE_W PTE_P, hu, hp, BitVec.and_comm PTE_W perm,
    hzero, hzero]

/-- A page that is mapped with these permissions grants them. -/
theorem userEntry_write (pp : Ppn) (perm : Word) :
    perm &&& PTE_W &&& ~~~(PTE_W &&& userEntry pp perm) = 0 := by
  have hsub : perm &&& PTE_W &&& (PTE_W &&& userEntry pp perm) = perm &&& PTE_W := by
    apply BitVec.eq_of_getLsbD_eq
    intro i _
    simp only [userEntry, BitVec.getLsbD_and, BitVec.getLsbD_or]
    cases perm.getLsbD i <;> cases PTE_W.getLsbD i <;> simp
  calc perm &&& PTE_W &&& ~~~(PTE_W &&& userEntry pp perm)
      = perm &&& PTE_W &&& (PTE_W &&& userEntry pp perm) &&&
          ~~~(PTE_W &&& userEntry pp perm) := by rw [hsub]
    _ = 0 := by
      rw [BitVec.and_assoc, BitVec.and_not_self]
      exact BitVec.and_zero

/-- The test of `env_page_map` for a write permission that the source lacks, as the send makes it
beforehand. -/
theorem refused_write {perm pte : Word} (h : perm &&& PTE_W &&& ~~~(PTE_W &&& pte) ≠ 0) :
    perm &&& PTE_W ≠ 0 ∧ pte &&& PTE_W = 0 := by
  have hbit : ∀ w : Word, w &&& PTE_W = 0 ∨ w &&& PTE_W = PTE_W := fun w => by
    have hpow : PTE_W = BitVec.twoPow 32 1 := by decide
    rw [hpow, BitVec.and_twoPow]
    split
    · exact .inr rfl
    · exact .inl rfl
  refine ⟨fun hperm => h ?_, (hbit pte).resolve_right fun hpte => h ?_⟩
  · rw [hperm]
    exact BitVec.zero_and
  · rw [BitVec.and_comm PTE_W pte, hpte, BitVec.and_assoc, BitVec.and_not_self]
    exact BitVec.and_zero

theorem Mapped.ipcSendPage {dst : Slot} (h : Mapped pool lost s use) (ht : ¬ s.Orphan dst)
    (hsrcva : srcva < UTOP) (hcall : JosSched.ipcSendPage s inp cur dst srcva perm = .ok (r, s')) :
    PageSent pool lost s use cur dst srcva perm r s' := by
  have hinval : ∀ {x : ℤ × Kernel}, (pure (-E_INVAL, s) : Except Exit _) = .ok x → x = (r, s') →
      PageSent pool lost s use cur dst srcva perm r s' := by
    rintro _ hx rfl
    obtain ⟨rfl, rfl⟩ := Prod.mk.inj (Except.ok.inj hx)
    exact .refused (by decide)
  have hdstva := (h.dstva dst).1
  unfold JosSched.ipcSendPage at hcall
  split at hcall
  · exact hinval hcall rfl
  next hoff =>
  rw [not_not] at hoff
  obtain ⟨srcpte, hread, hcall⟩ := bind_eq_ok.mp hcall
  split at hcall
  · exact hinval hcall rfl
  split at hcall
  · exact hinval hcall rfl
  next hwrite =>
  dsimp only at hcall
  split at hcall
  · next hzero =>
      obtain ⟨rfl, rfl⟩ := Prod.mk.inj (Except.ok.inj hcall)
      exact .unwanted hzero
  next hwanted =>
  have hgranted : perm ||| PTE_U ||| PTE_P = granted perm := rfl
  rw [hgranted] at hcall
  obtain ⟨⟨r₁, s₁⟩, halloc, hcall⟩ := bind_eq_ok.mp hcall
  dsimp only at hcall
  -- first a fresh page is mapped at the receiver, then the page of the sender in its place
  cases h.envPageAlloc ht hdstva halloc with
  | refused hneg =>
      rw [if_pos hneg] at hcall
      obtain ⟨rfl, rfl⟩ := Prod.mk.inj (Except.ok.inj hcall)
      exact .refused hneg
  | leaked hd hfree hlast hpde hmapped hload hperm =>
      rw [if_pos (by decide)] at hcall
      obtain ⟨rfl, rfl⟩ := Prod.mk.inj (Except.ok.inj hcall)
      exact .leaked hd hfree hlast hpde hmapped hload ⟨⟨hsrcva, hoff⟩, hwanted, hperm⟩
  | @mapped d p m₁ hd hfree hperm hpage =>
      rw [if_neg (by decide)] at hcall
      obtain ⟨⟨r₂, s₂⟩, hmap, hcall⟩ := bind_eq_ok.mp hcall
      dsimp only at hcall
      obtain ⟨use₁, h₁⟩ := hpage.mapped
      cases h₁.envPageMap (orphan_setMem.not.mpr ht) hsrcva hdstva hmap with
      | @refused srcdir hsrcdir hwhy =>
          rw [if_pos (by decide)] at hcall
          obtain ⟨rfl, rfl⟩ := Prod.mk.inj (Except.ok.inj hcall)
          have hsrcdir : s.dirs cur = some srcdir := hsrcdir
          refine .dropped hoff hsrcdir ?_ hd hfree hperm hpage
          by_cases halias : srcdir = d ∧ SamePage (s.envs dst).envIpcDstva srcva
          · -- the lookup finds the fresh page, which has the permissions of the send
            exfalso
            have hleaf : leaf m₁ srcdir srcva = userEntry p (granted perm) := by
              rw [← hpage.leaf, halias.1]
              exact (leaf_samePage halias.2).symm
            rcases hwhy with hzero | hw
            · rw [Kernel.setMem_mem, hleaf] at hzero
              exact ne_zero_of_and (userEntry_present p (granted perm)) hzero
            · rw [Kernel.setMem_mem, hleaf] at hw
              exact hw (userEntry_write p (granted perm))
          · have hsame := hpage.onlyAt srcdir srcva (h.layout.holders cur srcdir hsrcdir) hsrcva
              halias
            by_contra hleaf
            rw [h.readSrcpte hsrcdir hsrcva hleaf] at hread
            rw [Kernel.setMem_mem, hsame] at hwhy
            refine hwhy.elim hleaf fun hw => ?_
            have hread := Except.ok.inj hread
            rw [granted_write, hread] at hw
            exact hwrite (refused_write hw)
      | noTable hd' hpde =>
          -- the fresh page has been mapped through that table
          obtain rfl : d = _ := Option.some.inj (hd.symm.trans hd')
          have hleaf : leaf m₁ d (s.envs dst).envIpcDstva ≠ 0 := by
            rw [hpage.leaf]
            exact ne_zero_of_and (userEntry_present p (granted perm))
          exact absurd hpde (pde_ne_zero_of_leaf hleaf)
      | @mapped srcdir d' m hsrcdir hd' hleaf hdata hw hshare =>
          rw [if_neg (by decide)] at hcall
          obtain ⟨rfl, rfl⟩ := Prod.mk.inj (Except.ok.inj hcall)
          have hsrcdir : s.dirs cur = some srcdir := hsrcdir
          obtain rfl : d = d' := Option.some.inj (hd.symm.trans hd')
          rw [granted_write] at hw
          exact .sent hwanted hsrcdir hd hfree hperm hpage h₁ hleaf hw fun hfit => hshare hfit hperm

/-! ## What the calls keep -/

/-- `I` depends on the memory and on the page directories only, and mapping a page at `va` for
environment `t` keeps it. -/
structure KeptByMap (pool : Set Ppn) (lost : Set (Ppn × Use)) (I : Kernel → Prop) (t : Slot)
    (va : Word) : Prop where
  congr : ∀ {s s' : Kernel}, I s → s'.mem = s.mem → s'.dirs = s.dirs → I s'
  /-- a page that `page_alloc` has just given out -/
  fresh : ∀ {s : Kernel} {use : Ppn → Use} {zero : Bool} {d p : Ppn} {m₁ m : Mem} {perm : Word}
    {r : ℤ}, Mapped pool lost s use → s.dirs t = some d →
    pageAlloc s.mem zero = .ok (some p, m₁) → pageInsert m₁ d p va perm = .ok (r, m) →
    I s → I (s.setMem m)
  /-- a page that is in use -/
  shared : ∀ {s : Kernel} {use : Ppn → Use} {d pp : Ppn} {m : Mem} {perm : Word} {r : ℤ},
    Mapped pool lost s use → s.dirs t = some d → pageInsert s.mem d pp va perm = .ok (r, m) →
    I s → I (s.setMem m)

namespace KeptByMap

variable {I : Kernel → Prop}

theorem envPageAlloc (hI : KeptByMap pool lost I t va) (hm : Mapped pool lost s use) (h : I s)
    (hcall : JosSched.envPageAlloc s t va perm = .ok (r, s')) : I s' := by
  unfold JosSched.envPageAlloc at hcall
  dsimp only at hcall
  split at hcall
  · obtain ⟨-, rfl⟩ := Prod.mk.inj (Except.ok.inj hcall)
    exact h
  obtain ⟨⟨page, s₁⟩, hpage, hcall⟩ := bind_eq_ok.mp hcall
  obtain ⟨m₁, halloc, rfl⟩ := withMem_eq_ok hpage
  cases page with
  | none =>
      obtain ⟨-, rfl⟩ := Prod.mk.inj (Except.ok.inj hcall)
      rcases pageAlloc_eq_ok halloc with ⟨-, -, rfl⟩ | ⟨pp, hpp, -⟩
      · exact h
      · cases hpp
  | some p =>
      dsimp only at hcall
      obtain ⟨d, hd, hcall⟩ := bind_eq_ok.mp hcall
      obtain ⟨m, hins, rfl⟩ := withMem_eq_ok hcall
      have hdir := envPgdirOf_eq_ok hd
      have hmapped : I (s.setMem m) := hI.fresh hm hdir halloc hins h
      exact hmapped

theorem envPageMap {src : Slot} (hI : KeptByMap pool lost I t va) (hm : Mapped pool lost s use)
    (h : I s) (hcall : JosSched.envPageMap s src srcva t va perm = .ok (r, s')) : I s' := by
  unfold JosSched.envPageMap at hcall
  obtain ⟨srcdir, -, hcall⟩ := bind_eq_ok.mp hcall
  obtain ⟨⟨found, s₁⟩, hfound, hcall⟩ := bind_eq_ok.mp hcall
  -- looking up the source writes nothing
  obtain ⟨m₁, hmap, rfl⟩ := withMem_eq_ok hfound
  obtain ⟨found', -, hpair⟩ := map_eq_ok.mp hmap
  obtain ⟨rfl, rfl⟩ := Prod.mk.inj hpair
  rw [setMem_self] at hcall
  cases found' with
  | none =>
      obtain ⟨-, rfl⟩ := Prod.mk.inj (Except.ok.inj hcall)
      exact h
  | some found =>
      dsimp only at hcall
      split at hcall
      · obtain ⟨-, rfl⟩ := Prod.mk.inj (Except.ok.inj hcall)
        exact h
      · obtain ⟨d, hd, hcall⟩ := bind_eq_ok.mp hcall
        obtain ⟨m, hins, rfl⟩ := withMem_eq_ok hcall
        have hdir := envPgdirOf_eq_ok hd
        exact hI.shared hm hdir hins h

/-- The page transfer maps twice at the address of the receiver. -/
theorem ipcSendPage (hI : KeptByMap pool lost I t (s.envs t).envIpcDstva)
    (hm : Mapped pool lost s use) (ht : ¬ s.Orphan t) (h : I s)
    (hcall : JosSched.ipcSendPage s inp cur t srcva perm = .ok (r, s')) : I s' := by
  have hdstva := (hm.dstva t).1
  -- the ways out that write nothing
  have hsame : ∀ {r₀ : ℤ}, (pure (r₀, s) : Except Exit (ℤ × Kernel)) = .ok (r, s') → I s' :=
    fun hx => (Prod.mk.inj (Except.ok.inj hx)).2 ▸ h
  unfold JosSched.ipcSendPage at hcall
  split at hcall
  · exact hsame hcall
  obtain ⟨srcpte, -, hcall⟩ := bind_eq_ok.mp hcall
  split at hcall
  · exact hsame hcall
  split at hcall
  · exact hsame hcall
  dsimp only at hcall
  split at hcall
  · exact hsame hcall
  obtain ⟨⟨r₁, s₁⟩, halloc, hcall⟩ := bind_eq_ok.mp hcall
  have h₁ := hI.envPageAlloc hm h halloc
  dsimp only at hcall
  split at hcall
  · obtain ⟨-, rfl⟩ := Prod.mk.inj (Except.ok.inj hcall)
    exact h₁
  next hnonneg =>
  obtain ⟨⟨r₂, s₂⟩, hmap, hcall⟩ := bind_eq_ok.mp hcall
  have h₂ : I s₂ := by
    -- without the fresh page the call would have ended
    cases hm.envPageAlloc ht hdstva halloc with
    | refused hneg => exact absurd hneg hnonneg
    | leaked => exact absurd (by decide) hnonneg
    | mapped _ _ _ hpage =>
        obtain ⟨use₁, hm₁⟩ := hpage.mapped
        exact hI.envPageMap hm₁ h₁ hmap
  dsimp only at hcall
  split at hcall
  · obtain ⟨-, rfl⟩ := Prod.mk.inj (Except.ok.inj hcall)
    exact h₂
  · obtain ⟨-, rfl⟩ := Prod.mk.inj (Except.ok.inj hcall)
    exact hI.congr h₂ rfl (dirs_modEnv_eq fun _ => rfl)

theorem sysIpcTrySend (hI : ∀ t va, va < UTOP → KeptByMap pool lost I t va)
    (hm : Mapped pool lost s use)
    (ht : ∀ t, envid2env c s envid false = .ok t → (s.envs t).envIpcRecving = true → ¬ s.Orphan t)
    (h : I s) (hcall : JosSched.sysIpcTrySend c s inp cur envid value srcva perm = .ok (r, s')) :
    I s' := by
  have hread : ∀ {s₁ s₂ : Kernel}, I s₁ → s₂.mem = s₁.mem → s₂.dirs = s₁.dirs → I s₂ :=
    (hI cur 0 (by decide)).congr
  have hsend : ∀ {dst r₁ s₁}, envid2env c s envid false = .ok dst →
      (s.envs dst).envIpcRecving = true →
      JosSched.ipcSendPage s inp cur dst srcva perm = .ok (r₁, s₁) → I s₁ :=
    fun {dst} _ _ henv hrecv hsend =>
      (hI dst _ (hm.dstva dst).1).ipcSendPage hm (ht dst henv hrecv) h hsend
  have hdelivered : ∀ {dst s₁}, I s₁ → I (ipcDeliver s₁ cur dst value) :=
    fun h₁ => hread h₁ rfl (dirs_modEnv_eq fun _ => rfl)
  cases sysIpcTrySend_ends hcall with
  | refused => exact h
  | noPage => exact hdelivered (hread h rfl (dirs_modEnv_eq fun _ => rfl))
  | failed henv hrecv _ hpage => exact hsend henv hrecv hpage
  | delivered henv hrecv _ hpage => exact hdelivered (hsend henv hrecv hpage)

end KeptByMap

end JosSched
