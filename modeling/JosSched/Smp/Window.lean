import JosSched.Smp.Isolation
import JosSched.Vm.Upper
import JosSched.Vm.UserMem

/-!
# The window onto the page tables

`env_setup_vm` enters a page directory into itself, read-only, so that the processor takes it for
a page table there: at `UVPT` a program finds all the entries of its page tables as one array,
`uvpt`, and in it those of the page directory, `uvpd`.  What the program reads there is what
`pgdir_walk` points to, as long as the part of the page directory above `UTOP` is what
`env_setup_vm` left (`Windowed`).  Actions of the kernel, and stores of programs, keep that where
memory is in order.
-/

open Except

namespace JosSched

variable {c : Cpu} {pool : Set Ppn} {lost : Set (Ppn × Use)} {s s' s₁ s₀ : Kernel}
  {use : Ppn → Use} {e t cur : Slot} {d p pp : Ppn} {m m' m₀ m₁ : Mem} {va perm : Word} {r : ℤ}
  {inp : Input} {tf : Trapframe} {x : PteRef} {n : Ppn} {k : Idx}

/-! ## What a program reads -/

/-- The word that a program reads at `va`, if its address space lets it. -/
def userWord (m : Mem) (d : Ppn) (va : Word) : Option PteRef :=
  match mmu m d va with
  | some (pp, flags) => if flags &&& PTE_U = 0 then none else some (pp, wordIdx va)
  | none => none

/-- `n << PGSHIFT`. -/
def pageVa (n : Ppn) : Word := n ++ 0#12

/-- The address of `uvpt[n]`. -/
def uvpt (n : Ppn) : Word := UVPT + 4 * n.zeroExtend 32

/-- The address of `uvpd[k]`. -/
def uvpd (k : Idx) : Word := UVPT + (UVPT >>> 12) * 4 + 4 * BitVec.ofNat 32 k

theorem toNat_pageVa : (pageVa n).toNat = n.toNat * 4096 := by
  rw [pageVa, BitVec.toNat_append, Nat.shiftLeft_eq]
  exact Nat.or_zero _

theorem toNat_uvpt : (uvpt n).toNat = 957 * 4194304 + n.toNat * 4 := by
  have hn := n.isLt
  have hwide : (n.zeroExtend 32).toNat = n.toNat := by
    rw [BitVec.toNat_setWidth]
    omega
  have hbase : UVPT.toNat = 957 * 4194304 := rfl
  have hfour : (4 : Word).toNat = 4 := rfl
  rw [uvpt, BitVec.toNat_add, BitVec.toNat_mul, hwide, hbase, hfour]
  omega

theorem pdx_uvpt : pdx (uvpt n) = pdxUvpt := by
  have hn := n.isLt
  have hself : (pdxUvpt : ℕ) = 957 := rfl
  rw [Fin.ext_iff, toNat_pdx, toNat_uvpt, hself]
  omega

/-- In the window, the page directory is one more page table. -/
theorem ptx_uvpt : ptx (uvpt n) = pdx (pageVa n) := by
  have hn := n.isLt
  rw [Fin.ext_iff, toNat_ptx, toNat_pdx, toNat_uvpt, toNat_pageVa]
  omega

theorem wordIdx_uvpt : wordIdx (uvpt n) = ptx (pageVa n) := by
  have hn := n.isLt
  have hidx : (wordIdx (uvpt n) : ℕ) = (uvpt n).toNat >>> 2 % 1024 := rfl
  rw [Fin.ext_iff, hidx, toNat_ptx, Nat.shiftRight_eq_div_pow, toNat_uvpt, toNat_pageVa]
  omega

/-- `uvpd` is the part of `uvpt` in which the window shows itself. -/
theorem uvpd_eq (k : Idx) : uvpd k = uvpt (BitVec.ofNat 20 (957 * 1024 + k.val)) := by
  have hk : k.val < 1024 := k.isLt
  have hbase : (UVPT + (UVPT >>> 12) * 4).toNat = 957 * 4194304 + 957 * 1024 * 4 := by decide
  have hfour : (4 : Word).toNat = 4 := rfl
  rw [BitVec.toNat_eq, toNat_uvpt, uvpd, BitVec.toNat_add, BitVec.toNat_mul, hbase, hfour,
    BitVec.toNat_ofNat, BitVec.toNat_ofNat]
  omega

/-- The window of page directory `d` agrees with the walk of the kernel. -/
structure WindowAgrees (m : Mem) (d : Ppn) : Prop where
  present : ∀ n, (userWord m d (uvpt n)).isSome ↔ m.load (d, pdx (pageVa n)) &&& PTE_P ≠ 0
  walk : ∀ n x, userWord m d (uvpt n) = some x → pgdirWalk m d (pageVa n) false = .ok (some x, m)
  pdes : ∀ k, userWord m d (uvpd k) = some (d, k)
  readOnly : ∀ va pp flags, pdx va = pdxUvpt → mmu m d va = some (pp, flags) → flags &&& PTE_W = 0

/-- The entry with which a page directory maps itself. -/
def selfEntry (d : Ppn) : Word := page2pa d ||| PTE_P ||| PTE_U

/-- The page directory maps itself, and page tables of the machine. -/
structure MapsItself (m : Mem) (d : Ppn) : Prop where
  frame : d.toNat < m.npages
  self : m.load (d, pdxUvpt) = selfEntry d
  tables : ∀ k, k ≠ pdxUvpt → m.load (d, k) = 0 ∨
    ∃ t, t.toNat < m.npages ∧ m.load (d, k) = tableEntry t

theorem pgnum_selfEntry (d : Ppn) : pgnum (selfEntry d) = d := by
  unfold selfEntry
  rw [pgnum_or _ _ (by decide), pgnum_or _ _ (by decide), pgnum_page2pa]

/-- A flag that both have in common is granted. -/
theorem and_ne_zero_of_bit {w flag : Word} (i : ℕ) (hflag : flag.getLsbD i = true)
    (hw : w.getLsbD i = true) : w &&& flag ≠ 0 := by
  intro hzero
  have hbit := congrArg (fun w => w.getLsbD i) hzero
  have hfalse : (0 : Word).getLsbD i = false := BitVec.getLsbD_zero
  simp only [BitVec.getLsbD_and, hflag, hw, hfalse] at hbit
  cases hbit

theorem selfEntry_present (d : Ppn) : selfEntry d &&& PTE_P ≠ 0 :=
  and_ne_zero_of_bit 0 (by decide) (by simp [selfEntry, PTE_P])

theorem selfEntry_write (d : Ppn) : selfEntry d &&& PTE_W = 0 := by
  have hpage : page2pa d &&& PTE_W = 0 := by
    have hsub : (0xfff : Word) &&& PTE_W = PTE_W := by decide
    rw [← hsub, ← BitVec.and_assoc, page2pa_flags]
    exact BitVec.zero_and
  have hpresent : PTE_P &&& PTE_W = 0 := by decide
  have huser : PTE_U &&& PTE_W = 0 := by decide
  rw [selfEntry, or_and, or_and, hpage, hpresent, huser]
  rfl

namespace MapsItself

/-- An entry of the page directory names a page table of the machine that the user may read. -/
theorem entry (h : MapsItself m d) (k : Idx) : m.load (d, k) = 0 ∨
    m.load (d, k) &&& PTE_P ≠ 0 ∧ (pgnum (m.load (d, k))).toNat < m.npages ∧
      selfEntry d &&& m.load (d, k) &&& PTE_U ≠ 0 := by
  by_cases hk : k = pdxUvpt
  · rw [hk, h.self, pgnum_selfEntry]
    refine .inr ⟨selfEntry_present d, h.frame, and_ne_zero_of_bit 2 (by decide) ?_⟩
    simp [selfEntry, PTE_U]
  · rcases h.tables k hk with hzero | ⟨t, ht, heq⟩
    · exact .inl hzero
    · rw [heq, pgnum_tableEntry]
      refine .inr ⟨tableEntry_present t, ht, and_ne_zero_of_bit 2 (by decide) ?_⟩
      simp [selfEntry, tableEntry, PTE_U]

/-- The window shows the page table of each entry. -/
theorem userWord_uvpt (h : MapsItself m d) (n : Ppn) : userWord m d (uvpt n) =
    if m.load (d, pdx (pageVa n)) = 0 then none else some (cell m d (pageVa n)) := by
  have hpte : m.load (pgnum (m.load (d, pdxUvpt)), ptx (uvpt n)) = m.load (d, pdx (pageVa n)) := by
    rw [h.self, pgnum_selfEntry, ptx_uvpt]
  unfold userWord mmu
  dsimp only
  rw [pdx_uvpt, hpte, h.self, if_neg (selfEntry_present d)]
  rcases h.entry (pdx (pageVa n)) with hzero | ⟨hpresent, -, huser⟩
  · rw [if_pos hzero, hzero, if_pos (by decide)]
  · rw [if_neg (ne_zero_of_and hpresent), if_neg hpresent]
    dsimp only
    rw [if_neg huser, wordIdx_uvpt, cell]

theorem windowAgrees (h : MapsItself m d) : WindowAgrees m d := by
  refine ⟨fun n => ?_, fun n x hx => ?_, fun k => ?_, fun va pp flags hva hmmu => ?_⟩
  · rw [h.userWord_uvpt]
    rcases h.entry (pdx (pageVa n)) with hzero | ⟨hpresent, -⟩
    · rw [if_pos hzero, hzero]
      exact iff_of_false (by simp) fun hne => hne BitVec.zero_and
    · rw [if_neg (ne_zero_of_and hpresent)]
      exact iff_of_true rfl hpresent
  · rw [h.userWord_uvpt] at hx
    split at hx
    · cases hx
    · next hpde =>
        rw [← Option.some.inj hx]
        rcases h.entry (pdx (pageVa n)) with hzero | ⟨-, htable, -⟩
        · exact absurd hzero hpde
        · exact pgdirWalk_of_pde hpde htable
  · have hk : k.val < 1024 := k.isLt
    have hn : (BitVec.ofNat 20 (957 * 1024 + k.val)).toNat = 957 * 1024 + k.val := by
      rw [BitVec.toNat_ofNat]
      omega
    have hpdx : pdx (pageVa (BitVec.ofNat 20 (957 * 1024 + k.val))) = pdxUvpt := by
      have hself : (pdxUvpt : ℕ) = 957 := rfl
      rw [Fin.ext_iff, toNat_pdx, toNat_pageVa, hn, hself]
      omega
    have hptx : ptx (pageVa (BitVec.ofNat 20 (957 * 1024 + k.val))) = k := by
      rw [Fin.ext_iff, toNat_ptx, toNat_pageVa, hn]
      omega
    have hself := ne_zero_of_and (selfEntry_present d)
    rw [uvpd_eq, h.userWord_uvpt, cell, hpdx, hptx, h.self, if_neg hself, pgnum_selfEntry]
  · unfold mmu at hmmu
    dsimp only at hmmu
    rw [hva, h.self, if_neg (selfEntry_present d)] at hmmu
    split at hmmu
    · cases hmmu
    · obtain ⟨-, rfl⟩ := Prod.mk.inj (Option.some.inj hmmu)
      rw [BitVec.and_comm (selfEntry d), BitVec.and_assoc, selfEntry_write]
      exact BitVec.and_zero

end MapsItself

/-! ## The part above `UTOP` -/

/-- What `mem_init` leaves in the page directory of the kernel above `UTOP`, where it maps its own
data: page tables, which are not among the free frames. -/
def KernelTables (m : Mem) : Prop :=
  ∀ k : Idx, PDX_UTOP ≤ k.val → k ≠ pdxUvpt → m.load (m.kernPgdir, k) = 0 ∨
    ∃ t, t.toNat < m.npages ∧ m.load (m.kernPgdir, k) = tableEntry t

/-- What `env_setup_vm` puts into entry `k` of page directory `d`, in a machine that has booted
with memory `m₀`. -/
def setupEntry (m₀ : Mem) (d : Ppn) (k : Idx) : Word :=
  if k = pdxUvpt then selfEntry d else m₀.load (m₀.kernPgdir, k)

/-- The page directories are above `UTOP` what `env_setup_vm` has made them. -/
structure Windowed (m₀ : Mem) (s : Kernel) : Prop where
  npages : s.mem.npages = m₀.npages
  kernPgdir : s.mem.kernPgdir = m₀.kernPgdir
  template : ∀ k, s.mem.load (m₀.kernPgdir, k) = m₀.load (m₀.kernPgdir, k)
  upper : ∀ e d k, s.dirs e = some d → PDX_UTOP ≤ k.val → s.mem.load (d, k) = setupEntry m₀ d k

namespace Windowed

theorem of_eq (h : Windowed m₀ s) (hmem : s'.mem = s.mem) (hdirs : s'.dirs = s.dirs) :
    Windowed m₀ s' := by
  refine ⟨hmem ▸ h.npages, hmem ▸ h.kernPgdir, hmem ▸ h.template, fun e d k hd hk => ?_⟩
  rw [hdirs] at hd
  rw [hmem]
  exact h.upper e d k hd hk

theorem modEnv {f : Env → Env} (h : Windowed m₀ s) (hf : ∀ env, (f env).envPgdir = env.envPgdir) :
    Windowed m₀ (s.modEnv e f) :=
  h.of_eq rfl (dirs_modEnv_eq hf)

/-- Memory has been written below. -/
theorem written (h : Windowed m₀ s) (hm : Mapped pool lost s use)
    (hsame : SameUpper use s.mem s'.mem)
    (hdirs : ∀ e d, s'.dirs e = some d → (∃ e', s.dirs e' = some d) ∨
      ∀ k : Idx, s'.mem.load (d, k) = setupEntry s.mem d k) : Windowed m₀ s' := by
  have hkern := (hm.layout.kernel s.mem.kernPgdir).mpr hm.layout.kernPgdir
  have htemplate : ∀ k, s'.mem.load (s.mem.kernPgdir, k) = s.mem.load (s.mem.kernPgdir, k) :=
    fun k => hsame.kernel _ hkern
  rw [h.kernPgdir] at htemplate
  refine ⟨hsame.npages.trans h.npages, hsame.kernPgdir.trans h.kernPgdir,
    fun k => (htemplate k).trans (h.template k), fun e d k hd hk => ?_⟩
  rcases hdirs e d hd with ⟨e', he'⟩ | hnew
  · exact (hsame.pgdir _ (hm.layout.holders e' d he') hk).trans (h.upper e' d k he' hk)
  · rw [hnew, setupEntry, setupEntry, h.kernPgdir, h.template]

theorem setMem (h : Windowed m₀ s) (hm : Mapped pool lost s use) (hsame : SameUpper use s.mem m) :
    Windowed m₀ (s.setMem m) :=
  h.written hm hsame fun e _ hd => .inl ⟨e, hd⟩

/-! ## Actions -/

theorem envAlloc {parentId : Word} (h : Windowed m₀ s) (hm : Mapped pool lost s use)
    (hfree : (s.envs e).envStatus = .free)
    (halloc : JosSched.envAlloc s parentId = .ok (.ok e, s₁)) : Windowed m₀ s₁ := by
  obtain ⟨p, -, -, hdirs, -⟩ := hm.envAlloc hfree halloc
  obtain ⟨p', m, -, hpage, hs₁⟩ := envAlloc_eq_ok halloc
  obtain ⟨hsame, hupper⟩ := SameUpper.newPgdir hm.layout hpage
  have hmem : s₁.mem = newPgdir m p' := by
    rw [hs₁]
    rfl
  have hself : s₁.dirs e = some p' := by
    rw [Kernel.dirs, hs₁]
    simp [initEnv]
  refine h.written hm (by rw [hmem]; exact hsame) fun t d hd => ?_
  by_cases hte : t = e
  · rw [hte, hself] at hd
    obtain rfl := Option.some.inj hd
    refine .inr fun k => ?_
    rw [hmem]
    exact hupper k
  · rw [hdirs, Function.update_of_ne hte] at hd
    exact .inl ⟨t, hd⟩

/-- A page directory has been dropped, and another one may have been taken over. -/
theorem decref {q : Ppn} (h : Windowed m₀ s) (hdec : pageDecref s.mem q = .ok m)
    (hload : ∀ x, s'.mem.load x = m.load x) (hsize : s'.mem.npages = m.npages ∧
      s'.mem.kernPgdir = m.kernPgdir)
    (hdirs : ∀ e d, s'.dirs e = some d → ∃ e', s.dirs e' = some d) : Windowed m₀ s' := by
  have hsame : SameUpper (fun _ => .kernel) s.mem m := .pageDecref hdec
  have hmem : ∀ x, s'.mem.load x = s.mem.load x := fun x => (hload x).trans (hsame.kernel x rfl)
  refine ⟨(hsize.1.trans hsame.npages).trans h.npages,
    (hsize.2.trans hsame.kernPgdir).trans h.kernPgdir,
    fun k => (hmem _).trans (h.template k), fun e d k hd hk => ?_⟩
  obtain ⟨e', he'⟩ := hdirs e d hd
  exact (hmem _).trans (h.upper e' d k he' hk)

/-- A new thread has the page directory of its creator instead of its own. -/
theorem thread {own shared : Ppn} {f : Env → Env} {s₂ : Kernel} (h : Windowed m₀ s)
    (hdrop : dropPgdir s t own = .ok s₂) (hshared : (s₂.envs cur).envPgdir = some shared)
    (hf : ∀ env, (f env).envPgdir = some shared) :
    Windowed m₀ ((s₂.setMem (s₂.mem.setRef shared (s₂.mem.ref shared + 1))).modEnv t f) := by
  obtain ⟨m, hdec, rfl⟩ := dropPgdir_eq_ok hdrop
  refine h.decref hdec (fun x => rfl) ⟨rfl, rfl⟩ fun e d hd => ?_
  have hct : cur ≠ t := by
    rintro rfl
    rw [Kernel.setMem_envs, Kernel.modEnv_self] at hshared
    cases hshared
  rw [Kernel.setMem_envs, Kernel.modEnv_ne _ _ hct] at hshared
  by_cases het : e = t
  · rw [het, Kernel.dirs, Kernel.modEnv_self, hf] at hd
    exact ⟨cur, hshared.trans hd⟩
  · rw [Kernel.dirs, Kernel.modEnv_ne _ _ het, Kernel.setMem_envs, Kernel.setMem_envs,
      Kernel.modEnv_ne _ _ het] at hd
    exact ⟨e, hd⟩

theorem fresh {zero : Bool} (h : Windowed m₀ s) (hm : Mapped pool lost s use)
    (hd : s.dirs t = some d) (hva : va < UTOP) (halloc : pageAlloc s.mem zero = .ok (some p, m₁))
    (hins : pageInsert m₁ d p va perm = .ok (r, m)) : Windowed m₀ (s.setMem m) := by
  obtain ⟨hfree, -, -, -, -, h₁⟩ := hm.layout.pageAllocData halloc
  have hdir := hm.layout.holders t d hd
  have hne : ∀ {q}, use q ≠ .free → q ≠ p := fun hq heq => hq (heq ▸ hfree)
  have hdir₁ : Function.update use p .data d = .pgdir := by
    rw [Function.update_of_ne (hne (by rw [hdir]; decide)), hdir]
  have hsame := SameUpper.pageInsert h₁ hdir₁ hva hins
  refine h.setMem hm ((SameUpper.pageAlloc halloc (lower_of_use (.inl hfree))).trans
    ⟨hsame.npages, hsame.kernPgdir, fun x hx => hsame.kernel x ?_,
      fun x hx hk => hsame.pgdir x ?_ hk⟩)
  · rw [Function.update_of_ne (hne (by rw [hx]; decide)), hx]
  · rw [Function.update_of_ne (hne (by rw [hx]; decide)), hx]

theorem shared (h : Windowed m₀ s) (hm : Mapped pool lost s use) (hd : s.dirs t = some d)
    (hva : va < UTOP) (hins : pageInsert s.mem d pp va perm = .ok (r, m)) :
    Windowed m₀ (s.setMem m) :=
  h.setMem hm (.pageInsert hm.layout (hm.layout.holders t d hd) hva hins)

theorem freed {q : Ppn} (h : Windowed m₀ s₁) (hdec : pageDecref s₁.mem q = .ok m)
    (hdirs : ∀ e d, s.dirs e = some d → s₁.dirs e = some d) :
    Windowed m₀ (forget c (JosSched.freed c s t m) t) := by
  refine h.decref hdec (fun x => ?_) ?_ fun e d hd => ⟨e, hdirs e d (Mapped.dirs_of_freed hd)⟩
  · rw [forget_mem, freed_mem]
  · rw [forget_mem, freed_mem]
    exact ⟨rfl, rfl⟩

/-- No action of the kernel touches the windows. -/
theorem micro {a : Act} (h : Windowed m₀ s) (hm : Mapped pool lost s use)
    (hcustody : Custody c s₀ s) (hstep : Micro c a s s') : Windowed m₀ s' := by
  cases hstep with
  | start => exact h.of_eq rfl rfl
  | save | ret | redirect | dying | status | deliver | ipcPerm | recving | block | sleep | priority
  | upcall | entry => exact h.modEnv fun _ => rfl
  | tick => exact h.of_eq rfl (funext fun e => wakeup_proj Env.envPgdir fun _ => rfl)
  | create halloc =>
      obtain ⟨p, m, hfree, -⟩ := envAlloc_eq_ok halloc
      exact h.envAlloc hm (hcustody.freeSlots.head hfree) halloc
  | exofork _ halloc =>
      obtain ⟨p, m, hfree, -⟩ := envAlloc_eq_ok halloc
      exact (h.envAlloc hm (hcustody.freeSlots.head hfree) halloc).modEnv fun _ => rfl
  | thread hcur _ _ halloc _ hdrop hshared =>
      obtain ⟨p, m, hfree, -⟩ := envAlloc_eq_ok halloc
      exact (h.envAlloc hm (hcustody.freeSlots.head hfree) halloc).thread hdrop hshared fun _ => rfl
  | freeThread _ _ _ hfree =>
      obtain ⟨d, m, -, hdec, rfl⟩ := envFreeThread_eq_ok hfree
      exact h.freed hdec fun e d hd => hd
  | freeProcess _ _ _ _ hfree =>
      obtain ⟨d, m₁, m, hd, hunmap, hdec, rfl⟩ := envFreeProcess_eq_ok hfree
      have hsame := SameUpper.unmapUser hm.layout (hm.layout.holders _ d hd) hunmap
      exact (h.setMem hm hsame).freed hdec fun e d hd => hd
  | pageNew _ hva _ hd halloc hins =>
      refine h.fresh hm hd ?_ halloc hins
      rcases hva with hva | rfl
      · exact hva.1
      -- the address of a receiver has been checked when it was stored
      · exact (hm.dstva _).1
  | pageShare _ _ _ hva _ hd _ _ hins =>
      refine h.shared hm hd ?_ hins
      rcases hva with hva | rfl
      · exact hva.1
      · exact (hm.dstva _).1
  | pageDrop _ hva hd hrm =>
      have hdir := hm.layout.holders _ _ hd
      exact h.setMem hm (.pageRemove (hm.layout.lowerTable hdir hva.1) hrm)
  | kstore _ hd hva hstore =>
      exact h.setMem hm (.kernStore hm.layout (hm.layout.holders _ _ hd) hva hstore)

/-! ## Calls that map pages -/

theorem keptByMap (hva : va < UTOP) : KeptByMap pool lost (Windowed m₀) t va where
  congr h hmem hdirs := h.of_eq hmem hdirs
  fresh hm hd halloc hins h := h.fresh hm hd hva halloc hins
  shared hm hd hins h := h.shared hm hd hva hins

theorem departs {L : Act → Prop} (h : Windowed m₀ s) (hdep : Departs c L s s') : Windowed m₀ s' :=
  h.of_eq hdep.departed.mem (dirs_departed hdep.departed)

/-! ## Steps -/

theorem trap (h : Windowed m₀ s) (hm : Mapped pool lost s use) (hex : Exclusive s)
    (hcur : s.curenv c = some cur) (hyg : (Event.trap c inp tf).Hygienic s)
    (hord : (Event.trap c inp tf).Orderly s) (htrap : JosSched.trap c s inp tf = .leave s') :
    Windowed m₀ s' := by
  by_cases hcall : (s.envs cur).envStatus ≠ .dying ∧ Delicate tf
  · exact hm.delicate_invariant (fun _ _ => keptByMap) hcur hcall.1 hord hcall.2 h htrap
  · obtain ⟨s₁, use', h₁, hdep, -, -⟩ := hm.trap_invariant (J := Windowed m₀) hex hcur hyg
      (not_and.mp hcall) h (fun _ _ hstep hcustody hm₁ h₁ => h₁.micro hm₁ hcustody hstep) htrap
    exact h₁.departs hdep

theorem envCreate {binary : Image} (h : Windowed m₀ s) (hm : Mapped pool lost s use)
    (hslots : FreeSlots s) (hcreate : JosSched.envCreate s binary = .ok s') : Windowed m₀ s' := by
  obtain ⟨use', -, h'⟩ := hm.envCreate_invariant (I := Windowed m₀) hslots hcreate
    (fun hfree halloc => h.envAlloc hm hfree halloc)
    (fun hd => ⟨fun hm₁ hva halloc hins h₁ => h₁.fresh hm₁ hd hva halloc hins,
      fun hm₁ hva hstore h₁ => h₁.setMem hm₁
        (.kernStore hm₁.layout (hm₁.layout.holders _ _ hd) hva hstore)⟩)
    fun hf _ h₁ => h₁.modEnv hf
  exact h'

theorem step {ev : Event} (h : Windowed m₀ s) (hs : Resting pool lost s) (hstep : Step s ev s')
    (hyg : ev.Hygienic s) (hord : ev.Orderly s) : Windowed m₀ s' := by
  obtain ⟨use, hm⟩ := hs.mapped
  obtain ⟨henabled, hexec⟩ := hstep
  cases ev with
  | boot binary => exact h.envCreate hm hs.exclusive.freeSlots (envCreate_eq_ok hexec)
  | start c =>
      have hyield : schedYield c (started c s) = .leave s' := hexec
      have hdep := (schedYield_decided hyield).departed
      have hstarted : Windowed m₀ (started c s) := h.of_eq rfl rfl
      exact hstarted.of_eq hdep.mem (dirs_departed hdep)
  | timer c =>
      have hyield : schedYield c (tick (started c s)) = .leave s' := hexec
      have hdep := (schedYield_decided hyield).departed
      have hcustody : Custody c s (started c s) := hs.exclusive.custody.micro .start trivial
      have hstarted : Mapped pool lost (started c s) use := hm.of_kept rfl fun _ => .refl _
      have h₁ : Windowed m₀ (started c s) := h.of_eq rfl rfl
      exact (h₁.micro hstarted hcustody .tick).of_eq hdep.mem (dirs_departed hdep)
  | trap c inp tf =>
      obtain ⟨⟨-, hsome⟩, -⟩ := henabled
      obtain ⟨cur, hcur⟩ := Option.isSome_iff_exists.mp hsome
      exact h.trap hm hs.exclusive hcur hyg hord hexec
  | store c va byte =>
      obtain ⟨⟨-, hsome⟩, hva⟩ := henabled
      obtain ⟨cur, hcur⟩ := Option.isSome_iff_exists.mp hsome
      have hdir := hm.layout.holders cur _ (hs.cr3 c cur hcur)
      unfold Event.exec at hexec
      dsimp only at hexec
      split at hexec
      · next m hstore =>
          obtain rfl := Exit.leave.inj hexec
          exact h.setMem hm (.storeByte hm.layout hdir hva hstore)
      · obtain rfl := Exit.leave.inj hexec
        exact h

/-! ## Runs -/

/-- With page tables of the machine below `UTOP`, the page directories map themselves. -/
theorem mapsItself (h : Windowed m₀ s) (hm : Mapped pool lost s use) (htables : KernelTables m₀)
    (hd : s.dirs e = some d) : MapsItself s.mem d := by
  have hdir := hm.layout.holders e d hd
  refine ⟨hm.layout.memory d (hm.layout.mem_pool (by rw [hdir]; decide)), ?_, fun k hk => ?_⟩
  · exact (h.upper e d pdxUvpt hd (by decide)).trans (if_pos rfl)
  · by_cases hlow : k.val < PDX_UTOP
    · by_cases hpde : s.mem.load (d, k) = 0
      · exact .inl hpde
      · obtain ⟨t, ht, heq⟩ := (hm.layout.entries _ (.inl ⟨hdir, hlow⟩)).of_pgdir hdir hpde
        exact .inr ⟨t, hm.layout.memory t (hm.layout.mem_pool (by rw [ht]; decide)), heq⟩
    · have hhigh : PDX_UTOP ≤ k.val := not_lt.mp hlow
      rw [h.upper e d k hd hhigh, setupEntry, if_neg hk, h.npages]
      exact htables k hhigh hk

end Windowed

theorem windowed_of_run {evs : List Event} (hboot : Booted s₀)
    (hrun : Trace OrderlyStep s₀ evs s) :
    Windowed s₀.mem s ∧ Resting (freeFrames s₀.mem) leaks s := by
  have hstart : Resting (freeFrames s₀.mem) leaks s₀ := resting_of_run hboot .nil
  have hbegin : Windowed s₀.mem s₀ := by
    refine ⟨rfl, rfl, fun _ => rfl, fun e d k hd => ?_⟩
    rw [Kernel.dirs, hboot.envs] at hd
    cases hd
  refine hrun.invariant (I := fun s => Windowed s₀.mem s ∧ Resting (freeFrames s₀.mem) leaks s)
    ⟨hbegin, hstart⟩ fun s ev s' hinv hstep => ?_
  obtain ⟨h, hs⟩ := hinv
  obtain ⟨hstep, hyg, hord⟩ := hstep
  exact ⟨h.step hs hstep hyg hord, hs.step hstep hyg hord (.inr subset_rfl)⟩

/-- In every state of an orderly run, what a program reads in the window of its page directory is
what `pgdir_walk` points to. -/
theorem windows_agree {evs : List Event} (hboot : Booted s₀) (htables : KernelTables s₀.mem)
    (hrun : Trace OrderlyStep s₀ evs s) : ∀ e d, s.dirs e = some d → WindowAgrees s.mem d := by
  obtain ⟨h, hs⟩ := windowed_of_run hboot hrun
  obtain ⟨use, hm⟩ := hs.mapped
  exact fun e d hd => (h.mapsItself hm htables hd).windowAgrees

theorem kernelTables_bootedMem : KernelTables (bootedMem 64) := fun _ _ _ => .inl rfl

theorem windows_agree_mapStack : ∃ s, Trace OrderlyStep (bootedMachine .roundRobin 64)
    (mapStack 5) s ∧ ∀ e d, s.dirs e = some d → WindowAgrees s.mem d := by
  obtain ⟨s, hrun, -⟩ := exists_trace (fun s ev => ev.Hygienic s ∧ ev.Orderly s)
    (bootedMachine .roundRobin 64) (mapStack 5) (fun _ => true) (by decide +kernel)
  exact ⟨s, hrun, windows_agree
    (booted_bootedMachine .roundRobin (n := 64) (by decide) (by decide))
      kernelTables_bootedMem hrun⟩

/-- A process that has mapped the page directory of the other one makes its window writable. -/
def openWindow : List Event := mapStack 0x2007 ++ [.store 0 (0x800000 + 957 * 4) 0x07]

theorem window_writable : ¬ ∀ (s₀ s : Kernel) (evs : List Event), Booted s₀ →
    KernelTables s₀.mem → Trace Step s₀ evs s →
    ∀ e d, s.dirs e = some d → WindowAgrees s.mem d := by
  intro hclaim
  obtain ⟨s, hrun, hs⟩ := exists_trace (fun _ _ => True) (bootedMachine .roundRobin 64) openWindow
    (fun s => decide (s.dirs 1 = some 11) &&
      decide ((mmu s.mem 11 (uvpd 0)).map (fun found => found.2 &&& PTE_W) = some PTE_W))
    (by decide +kernel)
  rw [Bool.and_eq_true, decide_eq_true_iff, decide_eq_true_iff] at hs
  obtain ⟨hdir, hmmu⟩ := hs
  obtain ⟨⟨pp, flags⟩, hfound, hwrite⟩ := Option.map_eq_some_iff.mp hmmu
  have hagrees := hclaim _ s _
    (booted_bootedMachine .roundRobin (n := 64) (by decide) (by decide)) kernelTables_bootedMem
    (hrun.mono fun _ _ _ h => h.1) 1 11 hdir
  have hzero := hagrees.readOnly (uvpd 0) pp flags (by decide) hfound
  rw [hzero] at hwrite
  exact absurd hwrite (by decide)

end JosSched
