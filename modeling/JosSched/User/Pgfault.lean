import JosSched.Smp.Window
import JosSched.Kern.MapCalls

/-!
# The page fault handler of `fork`

`pgfault` of `lib/fork.c` is to give the program a private copy of a copy-on-write page that it
writes to, and to panic on every other fault.  Its test combines a flag of the error code and a
truth value by `&`, and these have no bit in common: it never fails.  So every fault is repaired
like a write to a copy-on-write page, as long as there is a page to be had (`NoPage`), and the
handler faults itself where nothing is mapped.
-/

open Except

namespace JosSched

variable {c : Cpu} {pool : Set Ppn} {lost : Set (Ppn × Use)} {s s' s₁ s₀ : Kernel}
  {use : Ppn → Use} {cur : Slot} {d p pp : Ppn} {m m' : Mem} {va err dst src step : Word} {r : ℤ}
  {x : PteRef} {n : ℕ} {dirs : Slot → Option Ppn}

/-! ## `memmove` -/

/-- Stores a word at `va`, if the address space lets the program write there. -/
def storeWord (m : Mem) (d : Ppn) (va w : Word) : Option Mem :=
  match mmu m d va with
  | some (pp, flags) =>
      if flags &&& (PTE_U ||| PTE_W) = PTE_U ||| PTE_W then some (m.store (pp, wordIdx va) w)
      else none
  | none => none

/-- `movsl`: copies a word, or faults at an address. -/
def movsl (d : Ppn) (dst src : Word) (m : Mem) : Except (Word × Mem) Mem :=
  match userWord m d src with
  | none => .error (src, m)
  | some x =>
      match storeWord m d dst (m.load x) with
      | none => .error (dst, m)
      | some m => .ok m

/-- `movsb`. -/
def movsb (d : Ppn) (dst src : Word) (m : Mem) : Except (Word × Mem) Mem :=
  match userWord m d src with
  | none => .error (src, m)
  | some x =>
      match storeByte m d (PTE_U ||| PTE_W) dst
        ((m.load x >>> (8 * (src % 4).toNat)).setWidth 8) with
      | none => .error (dst, m)
      | some m => .ok m

/-- `rep movs`, with the distance from one element to the next. -/
def repMovs (movs : Word → Word → Mem → Except (Word × Mem) Mem) (step : Word) :
    ℕ → Word → Word → Mem → Except (Word × Mem) Mem
  | 0, _, _, m => .ok m
  | n + 1, dst, src, m => do
      let m ← movs dst src m
      repMovs movs step n (dst + step) (src + step) m

def memmove (m : Mem) (d : Ppn) (dst src n : Word) : Except (Word × Mem) Mem :=
  let words := src % 4 = 0 ∧ dst % 4 = 0 ∧ n % 4 = 0
  if src < dst ∧ dst < src + n then
    if words then repMovs (movsl d) (-4) (n / 4).toNat (dst + n - 4) (src + n - 4) m
    else repMovs (movsb d) (-1) n.toNat (dst + n - 1) (src + n - 1) m
  else if words then repMovs (movsl d) 4 (n / 4).toNat dst src m
  else repMovs (movsb d) 1 n.toNat dst src m

/-! ## `pgfault` -/

/-- The bit that `fork` marks copy-on-write entries with. -/
def PTE_COW : Word := 0x800

/-- The panics of `pgfault`, with the error that a call returned. -/
inductive PgfaultPanic where
  | nonCow
  | pageAlloc (r : ℤ)
  | pageMap (r : ℤ)
  | pageUnmap (r : ℤ)

/-- How `pgfault` ends if it does not return: it panics, which the program does not survive; it
faults itself, at an address; or a call to the kernel does not return. -/
inductive PgfaultEnd where
  | panicked (why : PgfaultPanic) (s : Kernel)
  | faulted (va : Word) (s : Kernel)
  | stuck (exit : Exit)

/-- `if ((r = call) < 0) panic(...)`. -/
def orPanic (why : ℤ → PgfaultPanic) : Except Exit (ℤ × Kernel) → Except PgfaultEnd Kernel
  | .error exit => .error (.stuck exit)
  | .ok (r, s) => if r < 0 then .error (.panicked (why r) s) else .ok s

/-- The call of `memmove`. -/
def copyPage (c : Cpu) (s : Kernel) (dst src : Word) : Except PgfaultEnd Kernel :=
  match memmove s.mem (s.cpus c).cpuCr3 dst src PGSIZE with
  | .ok m => .ok (s.setMem m)
  | .error (va, m) => .error (.faulted va (s.setMem m))

/-- The operator `!` of C. -/
def lnot (w : Word) : Word := if w = 0 then 1 else 0

def pgfault (c : Cpu) (s : Kernel) (faultVa err : Word) : Except PgfaultEnd Kernel :=
  match userWord s.mem (s.cpus c).cpuCr3 (uvpt (pgnum faultVa)) with
  | none => .error (.faulted (uvpt (pgnum faultVa)) s)
  | some x =>
      let faultPte := s.mem.load x
      if (err &&& FEC_WR) &&& lnot (faultPte &&& PTE_COW) ≠ 0 then .error (.panicked .nonCow s)
      else do
        let perm := PTE_P ||| PTE_U ||| PTE_W
        let s ← orPanic .pageAlloc (sysPageAlloc c s 0 PFTEMP perm)
        let addr := rounddown faultVa
        let s ← copyPage c s PFTEMP addr
        let s ← orPanic .pageMap (sysPageMap c s 0 PFTEMP 0 addr perm)
        orPanic .pageUnmap (sysPageUnmap c s 0 PFTEMP)

/-! ## What it is for -/

/-- The fault is a write to a page that is present and copy-on-write. -/
structure CowWrite (m : Mem) (d : Ppn) (va err : Word) : Prop where
  write : err &&& FEC_WR ≠ 0
  present : leaf m d va &&& PTE_P ≠ 0
  cow : leaf m d va &&& PTE_COW ≠ 0

/-- Every address space maps the same pages with the same permissions. -/
structure SameMappings (s s' : Kernel) : Prop where
  dirs : s'.dirs = s.dirs
  leaf : ∀ e d va, s.dirs e = some d → va < UTOP → leaf s'.mem d va = JosSched.leaf s.mem d va

/-- `pgfault` repairs writes to copy-on-write pages only, and panics on every other fault,
without having changed a mapping. -/
structure RepairsOnlyCow (c : Cpu) (s : Kernel) (va err : Word) : Prop where
  repairs : ∀ s', pgfault c s va err = .ok s' → CowWrite s.mem (s.cpus c).cpuCr3 va err
  panics : ¬ CowWrite s.mem (s.cpus c).cpuCr3 va err →
    ∃ why s', pgfault c s va err = .error (.panicked why s') ∧ SameMappings s s'

/-- No page can be mapped at `va`: none is free, or its page table would need the last one. -/
def NoPage (m : Mem) (d : Ppn) (va : Word) : Prop :=
  m.pageFreeList = none ∨ (∃ p, LastFrame m p) ∧ m.load (d, pdx va) = 0

/-! ## Copying -/

namespace Layout

theorem storeWord (h : Layout pool lost m dirs none use) (hd : use d = .pgdir) (hva : va < UTOP)
    {w : Word} (hstore : JosSched.storeWord m d va w = some m') :
    SameTables pool lost dirs use m m' := by
  unfold JosSched.storeWord at hstore
  split at hstore
  · next pp flags hmmu =>
      split at hstore
      · obtain rfl := Option.some.inj hstore
        exact h.storeData (h.mmu_data hd hva hmmu)
      · cases hstore
  · cases hstore

theorem movsl (h : Layout pool lost m dirs none use) (hd : use d = .pgdir) (hdst : dst < UTOP) :
    (JosSched.movsl d dst src m).Ensures (SameTables pool lost dirs use m)
      fun out => SameTables pool lost dirs use m out.2 := by
  unfold JosSched.movsl
  split
  · exact ensures_error.mpr h.sameTables_self
  · split
    · exact ensures_error.mpr h.sameTables_self
    · next m' hstore => exact ensures_ok.mpr (h.storeWord hd hdst hstore)

/-- Words are copied to user pages: by induction on their number. -/
theorem repMovsl (h : Layout pool lost m dirs none use) (hd : use d = .pgdir)
    (hdst : dst.toNat + 4 * n ≤ UTOP.toNat) :
    (repMovs (JosSched.movsl d) 4 n dst src m).Ensures (SameTables pool lost dirs use m)
      fun out => SameTables pool lost dirs use m out.2 := by
  induction n generalizing m dst src with
  | zero => exact ensures_ok.mpr h.sameTables_self
  | succ n ih =>
      have hva : dst < UTOP := by
        rw [BitVec.lt_def]
        omega
      unfold repMovs
      refine (h.movsl hd hva).bind fun m₁ hsame => ?_
      by_cases hn : n = 0
      · rw [hn]
        exact ensures_ok.mpr hsame
      · have hnext : (dst + 4).toNat = dst.toNat + 4 := by
          have htop : UTOP.toNat = 0xeec00000 := rfl
          have hfour : (4 : Word).toNat = 4 := rfl
          rw [BitVec.toNat_add, hfour]
          omega
        refine (ih hsame.layout ?_).mono (fun _ => hsame.trans) fun _ => hsame.trans
        omega

/-- The handler copies to `PFTEMP` in ascending order: no page overlaps another one. -/
theorem memmove (h : Layout pool lost m dirs none use) (hd : use d = .pgdir)
    (hsrc : pgoff src = 0) : (JosSched.memmove m d PFTEMP src PGSIZE).Ensures
      (SameTables pool lost dirs use m) fun out => SameTables pool lost dirs use m out.2 := by
  rw [pgoff_eq_zero_iff] at hsrc
  have hforward : ¬ (src < PFTEMP ∧ PFTEMP < src + PGSIZE) := by
    have htemp : PFTEMP.toNat = 2047 * 4096 := rfl
    have hsize : PGSIZE.toNat = 4096 := rfl
    rw [BitVec.lt_def, BitVec.lt_def, BitVec.toNat_add, htemp, hsize]
    omega
  have hwords : src % 4 = 0 ∧ PFTEMP % 4 = 0 ∧ PGSIZE % 4 = 0 := by
    refine ⟨?_, by decide, by decide⟩
    have hfour : (4 : Word).toNat = 4 := rfl
    have hzero : (0 : Word).toNat = 0 := rfl
    rw [BitVec.toNat_eq, BitVec.toNat_umod, hfour, hzero]
    omega
  unfold JosSched.memmove
  dsimp only
  rw [if_neg hforward, if_pos hwords]
  exact h.repMovsl hd (by decide)

end Layout

/-! ## The test -/

/-- The bit of `FEC_WR` is not that of a truth value. -/
theorem pgfault_test (err w : Word) : (err &&& FEC_WR) &&& lnot w = 0 := by
  have hbits : FEC_WR &&& lnot w = 0 := by
    unfold lnot
    split <;> decide
  rw [BitVec.and_assoc, hbits]
  exact BitVec.and_zero

theorem pgfault_of_readable (hread : userWord s.mem (s.cpus c).cpuCr3 (uvpt (pgnum va)) = some x) :
    pgfault c s va err = (do
      let perm := PTE_P ||| PTE_U ||| PTE_W
      let s ← orPanic .pageAlloc (sysPageAlloc c s 0 PFTEMP perm)
      let addr := rounddown va
      let s ← copyPage c s PFTEMP addr
      let s ← orPanic .pageMap (sysPageMap c s 0 PFTEMP 0 addr perm)
      orPanic .pageUnmap (sysPageUnmap c s 0 PFTEMP)) := by
  unfold pgfault
  rw [hread]
  dsimp only
  rw [if_neg fun hne => hne (pgfault_test err _)]

/-! ## `sys_page_alloc` at `PFTEMP` -/

theorem pageAlloc_exhausted {zero : Bool} (hnone : m.pageFreeList = none) :
    pageAlloc m zero = .ok (none, m) := by
  unfold pageAlloc
  rw [hnone]

/-- No frame is left for the page table. -/
theorem pageInsert_exhausted {perm : Word} (hnone : m.pageFreeList = none)
    (hpde : m.load (d, pdx va) = 0) : pageInsert m d p va perm = .ok (-E_NO_MEM, m) := by
  have hcreate : pgdirCreate m d va = .ok m := by
    unfold pgdirCreate
    rw [pageAlloc_exhausted hnone]
    rfl
  have hentry : pgdirEntry m d va = .ok none := by
    unfold pgdirEntry
    dsimp only
    rw [if_neg (not_not.mpr hpde)]
  have hwalk : pgdirWalk m d va true = .ok (none, m) := by
    unfold pgdirWalk
    rw [if_pos ⟨hpde, rfl⟩, hcreate]
    dsimp only [bind, Except.bind]
    rw [hentry]
    rfl
  unfold pageInsert
  rw [hwalk]
  rfl

/-- Frames that were free belong to no address space. -/
theorem SameMappings.of_load (h : Mapped pool lost s use)
    (hload : ∀ x, use x.1 ≠ .free → m.load x = s.mem.load x) : SameMappings s (s.setMem m) := by
  refine ⟨rfl, fun e d va hd hva => ?_⟩
  have hdir := h.layout.holders e d hd
  refine leaf_congr (hload _ (by rw [hdir]; decide)) fun hpde => hload _ ?_
  have htable := (h.layout.table_of_pde hdir hva hpde).1
  rw [cell, htable]
  decide

/-- The permissions that the handler asks for. -/
abbrev pftempPerm : Word := granted (PTE_P ||| PTE_U ||| PTE_W)

theorem envid2env_zero (hcur : s.curenv c = some cur) : envid2env c s 0 true = .ok cur := by
  rw [envid2env, if_pos rfl, hcur]

theorem sysPageAlloc_pftemp (hcur : s.curenv c = some cur) :
    sysPageAlloc c s 0 PFTEMP (PTE_P ||| PTE_U ||| PTE_W) =
      envPageAlloc s cur PFTEMP pftempPerm := by
  unfold sysPageAlloc
  rw [if_neg (by decide), envid2env_zero hcur]
  rfl

section

variable (h : Mapped pool lost s use) (hd : s.dirs cur = some d)
include h hd

theorem envPageAlloc_noPage (hno : NoPage s.mem d va) :
    ∃ s', envPageAlloc s cur va pftempPerm = .ok (-E_NO_MEM, s') ∧ SameMappings s s' := by
  unfold envPageAlloc
  dsimp only
  rw [if_neg (by decide)]
  rcases hno with hnone | ⟨⟨p, hhead, hlast⟩, hpde⟩
  · rw [pageAlloc_exhausted hnone]
    exact ⟨s, rfl, rfl, fun _ _ _ _ _ => rfl⟩
  · have hfree := h.layout.use_of_head hhead
    have hne : ∀ {q}, use q ≠ .free → q ≠ p := fun hq heq => hq (heq ▸ hfree)
    have hdir := h.layout.holders cur d hd
    have hload : ∀ x, use x.1 ≠ .free →
        ((takePage s.mem p).fill p fun _ => 0).load x = s.mem.load x :=
      fun x hx => load_fill_ne (hne hx)
    have hin : p.toNat < s.mem.npages :=
      h.layout.memory p (h.layout.mem_pool (by rw [hfree]; decide))
    have hgdir : envPgdirOf (s.setMem ((takePage s.mem p).fill p fun _ => 0)) cur = .ok d := by
      have hdirs : ((s.setMem ((takePage s.mem p).fill p fun _ => 0)).envs cur).envPgdir = some d :=
        hd
      rw [envPgdirOf, hdirs]
    have hins : pageInsert ((takePage s.mem p).fill p fun _ => 0) d p va pftempPerm =
        .ok (-E_NO_MEM, (takePage s.mem p).fill p fun _ => 0) :=
      pageInsert_exhausted hlast ((hload _ (by rw [hdir]; decide)).trans hpde)
    rw [pageAlloc_eq hhead hin]
    refine ⟨s.setMem ((takePage s.mem p).fill p fun _ => 0), ?_, .of_load h hload⟩
    dsimp only [Kernel.withMem, bind, Except.bind]
    rw [hgdir]
    dsimp only
    rw [Kernel.setMem_mem, hins]
    rfl

theorem envPageAlloc_page (horphan : ¬ s.Orphan cur) (hva : va < UTOP) (hno : ¬ NoPage s.mem d va)
    (hcall : envPageAlloc s cur va pftempPerm = .ok (r, s')) :
    r = 0 ∧ ∃ p m, use p = .free ∧ s' = s.setMem m ∧
      PageMapped pool lost s use d va p pftempPerm m := by
  unfold envPageAlloc at hcall
  dsimp only at hcall
  rw [if_neg (by decide)] at hcall
  obtain ⟨⟨page, s₁⟩, hpage, hcall⟩ := bind_eq_ok.mp hcall
  obtain ⟨m₁, halloc, rfl⟩ := withMem_eq_ok hpage
  cases page with
  | none =>
      rcases pageAlloc_eq_ok halloc with ⟨-, hnone, -⟩ | ⟨pp, hpp, -⟩
      · exact absurd (.inl hnone) hno
      · cases hpp
  | some p =>
      dsimp only at hcall
      obtain ⟨d', hd', hcall⟩ := bind_eq_ok.mp hcall
      obtain ⟨m, hins, rfl⟩ := withMem_eq_ok hcall
      have hdir := envPgdirOf_eq_ok hd'
      have hd' : s.dirs cur = some d' := hdir
      obtain rfl := Option.some.inj (hd.symm.trans hd')
      obtain ⟨hfree, ⟨-, hlast, hpde, -⟩ | ⟨rfl, hmap⟩⟩ :=
        h.pageNew horphan hd hva (by decide) halloc hins
      · exact absurd (.inr ⟨⟨p, hlast⟩, hpde⟩) hno
      · exact ⟨rfl, p, m, hfree, rfl, hmap⟩

end

/-! ## After `sys_page_alloc` -/

/-- If this is a panic, page `p` is mapped at `PFTEMP`. -/
inductive PgfaultEnd.AtPftemp (d p : Ppn) : PgfaultEnd → Prop
  | panicked {why : PgfaultPanic} {s : Kernel} : leaf s.mem d PFTEMP = userEntry p pftempPerm →
      PgfaultEnd.AtPftemp d p (.panicked why s)
  | faulted {va : Word} {s : Kernel} : PgfaultEnd.AtPftemp d p (.faulted va s)
  | stuck {exit : Exit} : PgfaultEnd.AtPftemp d p (.stuck exit)

theorem orPanic_ensures {why : ℤ → PgfaultPanic} {call : Except Exit (ℤ × Kernel)}
    {Q : Kernel → Prop}
    (hcall : ∀ r s', call = .ok (r, s') → (¬ r < 0 → Q s') ∧
      (r < 0 → leaf s'.mem d PFTEMP = userEntry p pftempPerm)) :
    (orPanic why call).Ensures Q (PgfaultEnd.AtPftemp d p) := by
  unfold orPanic
  split
  · exact ensures_error.mpr .stuck
  · next r s' =>
      obtain ⟨hok, hneg⟩ := hcall r s' rfl
      exact ensures_ite.mpr ⟨fun hr => ensures_error.mpr (.panicked (hneg hr)),
        fun hr => ensures_ok.mpr (hok hr)⟩

theorem copyPage_ensures (h : Mapped pool lost s use) (hd : s.dirs cur = some (s.cpus c).cpuCr3)
    (hsrc : pgoff src = 0) : (copyPage c s PFTEMP src).Ensures
    (fun s' => ∃ m, SameTables pool lost s.dirs use s.mem m ∧ s' = s.setMem m)
    (PgfaultEnd.AtPftemp d p) := by
  have hmove := h.layout.memmove (h.layout.holders cur _ hd) hsrc
  unfold copyPage
  split
  · next m heq => exact ensures_ok.mpr ⟨m, hmove.of_ok m heq, rfl⟩
  · exact ensures_error.mpr .faulted

/-- `sys_page_map` changes nothing if it fails. -/
theorem sysPageMap_ensures {srcva perm : Word} (h : Mapped pool lost s use)
    (hcur : s.curenv c = some cur) (horphan : ¬ s.Orphan cur)
    (hleaf : leaf s.mem d PFTEMP = userEntry p pftempPerm) :
    (orPanic .pageMap (sysPageMap c s 0 srcva 0 va perm)).Ensures
      (fun s' => s'.curenv c = some cur) (PgfaultEnd.AtPftemp d p) := by
  refine orPanic_ensures fun r s' hcall => ?_
  rcases sysPageMap_eq_ok hcall with ⟨-, rfl⟩ | ⟨src, dst, -, hdst, hsrcva, hdstva, hmap⟩
  · exact ⟨fun _ => hcur, fun _ => hleaf⟩
  · obtain rfl := Except.ok.inj ((envid2env_zero hcur).symm.trans hdst)
    cases h.envPageMap horphan hsrcva hdstva hmap with
    | refused => exact ⟨fun _ => hcur, fun _ => hleaf⟩
    | noTable => exact ⟨fun _ => hcur, fun _ => hleaf⟩
    | mapped => exact ⟨fun _ => hcur, fun hneg => absurd hneg (by decide)⟩

/-- `sys_page_unmap` does not fail at `PFTEMP`. -/
theorem sysPageUnmap_ensures (hcur : s.curenv c = some cur) :
    (orPanic .pageUnmap (sysPageUnmap c s 0 PFTEMP)).Ensures (fun _ => True)
      (PgfaultEnd.AtPftemp d p) := by
  refine orPanic_ensures fun r s' hcall => ⟨fun _ => trivial, fun hneg => ?_⟩
  unfold sysPageUnmap at hcall
  rw [if_neg (by decide), envid2env_zero hcur] at hcall
  obtain ⟨d', -, hcall⟩ := bind_eq_ok.mp hcall
  obtain ⟨m, hremove, -⟩ := withMem_eq_ok hcall
  obtain ⟨m', -, heq⟩ := map_eq_ok.mp hremove
  obtain ⟨rfl, -⟩ := Prod.mk.inj heq
  exact absurd hneg (by decide)

/-- A handler that has got its page does not panic without having changed `PFTEMP`. -/
theorem pgfault_ensures (h : Mapped pool lost s use) (hcur : s.curenv c = some cur)
    (hd : s.dirs cur = some (s.cpus c).cpuCr3) (horphan : ¬ s.Orphan cur)
    (hno : ¬ NoPage s.mem (s.cpus c).cpuCr3 PFTEMP)
    (hread : userWord s.mem (s.cpus c).cpuCr3 (uvpt (pgnum va)) = some x) :
    (pgfault c s va err).Ensures (fun _ => True) fun out => ∀ why s', out = .panicked why s' →
      ∃ p, use p = .free ∧ leaf s'.mem (s.cpus c).cpuCr3 PFTEMP = userEntry p pftempPerm := by
  rw [pgfault_of_readable hread]
  dsimp only
  rw [sysPageAlloc_pftemp hcur]
  cases halloc : envPageAlloc s cur PFTEMP pftempPerm with
  | error exit => exact ensures_error.mpr fun _ _ heq => by cases heq
  | ok out =>
      obtain ⟨r, s₁⟩ := out
      obtain ⟨rfl, p, m₁, hfree, rfl, hpage⟩ :=
        envPageAlloc_page h hd horphan (by decide) hno halloc
      obtain ⟨use₁, h₁⟩ := hpage.mapped
      have hrest : (do
          let s ← copyPage c (s.setMem m₁) PFTEMP (rounddown va)
          let s ← orPanic .pageMap
            (sysPageMap c s 0 PFTEMP 0 (rounddown va) (PTE_P ||| PTE_U ||| PTE_W))
          orPanic .pageUnmap (sysPageUnmap c s 0 PFTEMP)).Ensures (fun _ => True)
            (PgfaultEnd.AtPftemp (s.cpus c).cpuCr3 p) := by
        refine (copyPage_ensures h₁ hd (pgoff_rounddown va)).bind ?_
        rintro s₂ ⟨m₂, hsame, rfl⟩
        have h₂ : Mapped pool lost (s.setMem m₂) use₁ := h₁.stored hsame
        have hleaf : leaf m₂ (s.cpus c).cpuCr3 PFTEMP = userEntry p pftempPerm :=
          (hsame.leaf h₁.layout (h₁.layout.holders cur _ hd) (by decide)).trans hpage.leaf
        have horphan₂ : ¬ (s.setMem m₂).Orphan cur := fun ho => horphan (orphan_setMem.mp ho)
        exact (sysPageMap_ensures h₂ hcur horphan₂ hleaf).bind fun s₃ hcur₃ =>
          sysPageUnmap_ensures hcur₃
      refine hrest.mono (fun _ _ => trivial) fun out hout why s' heq => ?_
      rw [heq] at hout
      cases hout with
      | panicked hleaf => exact ⟨p, hfree, hleaf⟩

/-! ## When the handler does what it is for -/

/-- In memory that is in order, it does so only where it has got no page at all. -/
theorem repairsOnlyCow_iff (h : Mapped pool lost s use) (hcur : s.curenv c = some cur)
    (hd : s.dirs cur = some (s.cpus c).cpuCr3) (hdying : (s.envs cur).envStatus ≠ .dying) :
    RepairsOnlyCow c s va err ↔
    CowWrite s.mem (s.cpus c).cpuCr3 va err ∨
      (userWord s.mem (s.cpus c).cpuCr3 (uvpt (pgnum va))).isSome ∧
        NoPage s.mem (s.cpus c).cpuCr3 PFTEMP := by
  constructor
  · intro hrepairs
    by_cases hcow : CowWrite s.mem (s.cpus c).cpuCr3 va err
    · exact .inl hcow
    refine .inr ?_
    obtain ⟨why, s', hpanic, hsame⟩ := hrepairs.panics hcow
    cases hread : userWord s.mem (s.cpus c).cpuCr3 (uvpt (pgnum va)) with
    | none =>
        unfold pgfault at hpanic
        rw [hread] at hpanic
        cases hpanic
    | some x =>
        refine ⟨rfl, ?_⟩
        by_contra hno
        have horphan : ¬ s.Orphan cur := fun horphan => hdying horphan.1.2
        -- were there no page at `PFTEMP`, the fresh one would be mapped there
        obtain ⟨p, hfree, hleaf⟩ :=
          (pgfault_ensures h hcur hd horphan hno hread).of_error _ hpanic why s' rfl
        rw [hsame.leaf cur _ _ hd (by decide)] at hleaf
        have hne : leaf s.mem (s.cpus c).cpuCr3 PFTEMP ≠ 0 := by
          rw [hleaf]
          exact ne_zero_of_and (userEntry_present p _)
        -- but the trap left it as it was
        have hdata := h.data_of_leaf hd (by decide) hne
        rw [hleaf, pgnum_userEntry (by decide), hfree] at hdata
        cases hdata
  · rintro (hcow | ⟨hread, hno⟩)
    · exact ⟨fun _ _ => hcow, fun hne => absurd hcow hne⟩
    · obtain ⟨x, hread⟩ := Option.isSome_iff_exists.mp hread
      obtain ⟨s', halloc, hsame⟩ := envPageAlloc_noPage h hd hno
      have hpanic : pgfault c s va err = .error (.panicked (.pageAlloc (-E_NO_MEM)) s') := by
        rw [pgfault_of_readable hread]
        dsimp only
        rw [sysPageAlloc_pftemp hcur, halloc]
        rfl
      refine ⟨fun s₁ hreturn => ?_, fun _ => ⟨_, s', hpanic, hsame⟩⟩
      rw [hpanic] at hreturn
      cases hreturn

/-- The entry of an address in `uvpt` can be read where it has a page table. -/
theorem userWord_uvpt_iff (h : MapsItself m d) :
    (userWord m d (uvpt (pgnum va))).isSome ↔ m.load (d, pdx va) ≠ 0 := by
  have hpage : pdx (pageVa (pgnum va)) = pdx va := by
    have hva := va.isLt
    have hnum : (pgnum va).toNat = va.toNat / 4096 := by
      rw [pgnum, BitVec.extractLsb'_toNat, Nat.shiftRight_eq_div_pow]
      omega
    rw [Fin.ext_iff, toNat_pdx, toNat_pdx, toNat_pageVa, hnum]
    omega
  rw [h.userWord_uvpt, hpage]
  split
  · next hpde => exact iff_of_false (by simp) fun hne => hne hpde
  · next hpde => exact iff_of_true rfl hpde

/-- In every orderly run, the handler does what it is for on writes to copy-on-write pages, and
on the faults for which it gets no page though it can read the entry. -/
theorem pgfault_repairs_iff {evs : List Event} (hboot : Booted s₀) (htables : KernelTables s₀.mem)
    (hrun : Trace OrderlyStep s₀ evs s) (hcur : s.curenv c = some cur)
    (hdying : (s.envs cur).envStatus ≠ .dying) (va err : Word) : RepairsOnlyCow c s va err ↔
      CowWrite s.mem (s.cpus c).cpuCr3 va err ∨
        s.mem.load ((s.cpus c).cpuCr3, pdx va) ≠ 0 ∧ NoPage s.mem (s.cpus c).cpuCr3 PFTEMP := by
  obtain ⟨hwindowed, hs⟩ := windowed_of_run hboot hrun
  obtain ⟨use, h⟩ := hs.mapped
  have hd := hs.cr3 c cur hcur
  rw [repairsOnlyCow_iff h hcur hd hdying, userWord_uvpt_iff (hwindowed.mapsItself h htables hd)]

/-- A write to a copy-on-write page. -/
theorem pgfault_repairs_iff_cow : ∃ s, Trace OrderlyStep (bootedMachine .roundRobin 64)
    (mapStack 0x805) s ∧ RepairsOnlyCow 0 s 0x800000 7 := by
  obtain ⟨s, hrun, hs⟩ := exists_trace (fun s ev => ev.Hygienic s ∧ ev.Orderly s)
    (bootedMachine .roundRobin 64) (mapStack 0x805)
    (fun s => decide (s.curenv 0 = some 0 ∧ (s.envs 0).envStatus ≠ .dying ∧
      leaf s.mem (s.cpus 0).cpuCr3 0x800000 &&& PTE_P ≠ 0 ∧
      leaf s.mem (s.cpus 0).cpuCr3 0x800000 &&& PTE_COW ≠ 0)) (by decide +kernel)
  obtain ⟨hcur, hdying, hpresent, hcow⟩ := of_decide_eq_true hs
  refine ⟨s, hrun, (pgfault_repairs_iff
    (booted_bootedMachine .roundRobin (n := 64) (by decide) (by decide)) kernelTables_bootedMem hrun
    hcur hdying 0x800000 7).mpr (.inl ⟨by decide, hpresent, hcow⟩)⟩

/-- A write to a read-only page is repaired as well. -/
theorem readOnly_repaired : ¬ ∀ (s₀ s : Kernel) (evs : List Event) (c : Cpu) (cur : Slot)
    (va err : Word), Booted s₀ → KernelTables s₀.mem → Trace OrderlyStep s₀ evs s →
    s.curenv c = some cur → (s.envs cur).envStatus ≠ .dying → RepairsOnlyCow c s va err := by
  intro hclaim
  have hboot := booted_bootedMachine .roundRobin (n := 64) (by decide) (by decide)
  obtain ⟨s, hrun, hs⟩ := exists_trace (fun s ev => ev.Hygienic s ∧ ev.Orderly s)
    (bootedMachine .roundRobin 64) (mapStack 5)
    (fun s => decide (s.curenv 0 = some 0 ∧ (s.envs 0).envStatus ≠ .dying ∧
      leaf s.mem (s.cpus 0).cpuCr3 0x800000 &&& PTE_COW = 0 ∧
      (s.mem.pageFreeList.bind fun p => (s.mem.pages p).ppLink).isSome)) (by decide +kernel)
  obtain ⟨hcur, hdying, hplain, hlink⟩ := of_decide_eq_true hs
  obtain ⟨use, h⟩ := (resting_of_run hboot hrun).mapped
  have hd := (resting_of_run hboot hrun).cr3 0 0 hcur
  have hrepairs := hclaim _ s _ 0 0 0x800000 7 hboot kernelTables_bootedMem hrun hcur hdying
  rcases (repairsOnlyCow_iff h hcur hd hdying).mp hrepairs with hcow | ⟨-, hnone | ⟨⟨p, hlast⟩, -⟩⟩
  · exact hcow.cow hplain
  · rw [hnone] at hlink
    cases hlink
  · rw [hlast.1, Option.bind_some, hlast.2] at hlink
    cases hlink

end JosSched
