import JosSched.Kern.Replay
import JosSched.Vm.Tables

/-!
# Checking user memory

`user_mem_check` computes the end of the range, rounded up, with 32-bit arithmetic, and then
visits the pages below it.  Where that end does not wrap around, the answer is exact.  A range
that reaches the last page of the address space or goes beyond it has an end that wraps, and
what the check then visits is at most the page of `va`.
-/

open Except

namespace JosSched

variable {pool : Set Ppn} {lost : Set (Ppn × Use)} {m : Mem} {dirs : Slot → Option Ppn}
  {held : Option Ppn}
  {use : Ppn → Use} {d : Ppn} {va va' vaHi len perm : Word} {r : ℤ}

/-- The page tables of the user part of an address space are in memory. -/
def TablesIn (m : Mem) (d : Ppn) : Prop :=
  ∀ k : Idx, k.val < PDX_UTOP → m.load (d, k) ≠ 0 → (pgnum (m.load (d, k))).toNat < m.npages

/-- The page of `va` has an entry with these flags, and is present. -/
def Grants (m : Mem) (d : Ppn) (perm va : Word) : Prop :=
  leaf m d va &&& (perm ||| PTE_P) = perm ||| PTE_P

/-- Every byte of `[va, va + len)` is below `UTOP`, on a page with these flags. -/
def RangeOk (m : Mem) (d : Ppn) (va len perm : Word) : Prop :=
  ∀ a : ℕ, va.toNat ≤ a → a < va.toNat + len.toNat →
    a < UTOP.toNat ∧ Grants m d perm (BitVec.ofNat 32 a)

/-- `0` where the property holds, and `-E_FAULT` where it does not. -/
def Reports (r : ℤ) (P : Prop) : Prop := P ∧ r = 0 ∨ ¬ P ∧ r = -E_FAULT

theorem Layout.tablesIn (h : Layout pool lost m dirs held use) (hd : use d = .pgdir) :
    TablesIn m d := by
  intro k hk hpde
  obtain ⟨t, ht, heq⟩ := (h.entries (d, k) (.inl ⟨hd, hk⟩)).of_pgdir hd hpde
  rw [heq, pgnum_tableEntry]
  exact h.memory t (h.mem_pool (by rw [ht]; decide))

theorem Reports.congr {P Q : Prop} (h : Reports r P) (hiff : P ↔ Q) : Reports r Q := by
  rwa [Reports, ← hiff]

/-- The two answers are different. -/
theorem Reports.iff {P Q : Prop} (h : Reports r P) : Reports r Q ↔ (P ↔ Q) := by
  have hne : (0 : ℤ) ≠ -E_FAULT := by decide
  constructor
  · rintro (⟨hq, hr⟩ | ⟨hq, hr⟩) <;> rcases h with ⟨hp, hr'⟩ | ⟨hp, hr'⟩
    · exact iff_of_true hp hq
    · exact absurd (hr.symm.trans hr') hne
    · exact absurd (hr'.symm.trans hr) hne
    · exact iff_of_false hp hq
  · exact h.congr

/-! ## One page -/

theorem pdx_eq (h : va.toNat / 4096 = va'.toNat / 4096) : pdx va = pdx va' := by
  rw [Fin.ext_iff, toNat_pdx, toNat_pdx]
  omega

theorem ptx_eq (h : va.toNat / 4096 = va'.toNat / 4096) : ptx va = ptx va' := by
  rw [Fin.ext_iff, toNat_ptx, toNat_ptx, h]

/-- Addresses of one page have the same entry. -/
theorem leaf_eq_of_page (h : va.toNat / 4096 = va'.toNat / 4096) : leaf m d va = leaf m d va' := by
  rw [leaf, leaf, cell, cell, pdx_eq h, ptx_eq h]

theorem grants_iff_of_page (h : va.toNat / 4096 = va'.toNat / 4096) :
    Grants m d perm va ↔ Grants m d perm va' := by
  rw [Grants, Grants, leaf_eq_of_page h]

/-- What is not mapped grants nothing. -/
theorem leaf_ne_zero_of_grants (h : Grants m d perm va) : leaf m d va ≠ 0 := by
  intro hzero
  have hflags : (0 : Word) &&& (perm ||| PTE_P) = perm ||| PTE_P := hzero ▸ h
  have hbit := congrArg (fun w => w.getLsbD 0) hflags
  simp [PTE_P] at hbit

/-- `pgdir_walk` without `create` finds the entry wherever there is a page table. -/
theorem pgdirWalk_of_pde (hpde : m.load (d, pdx va) ≠ 0)
    (htable : (pgnum (m.load (d, pdx va))).toNat < m.npages) :
    pgdirWalk m d va false = .ok (some (cell m d va), m) := by
  unfold pgdirWalk pgdirEntry
  rw [if_neg fun hand => Bool.false_ne_true hand.2]
  dsimp only [bind, Except.bind]
  rw [if_pos hpde, kaddr_ok htable]
  rfl

theorem pgdirWalk_eq (htables : TablesIn m d) (hva : va < UTOP) : pgdirWalk m d va false =
    .ok (if m.load (d, pdx va) = 0 then none else some (cell m d va), m) := by
  by_cases hpde : m.load (d, pdx va) = 0
  · unfold pgdirWalk pgdirEntry
    rw [if_neg fun hand => Bool.false_ne_true hand.2, if_pos hpde]
    dsimp only [bind, Except.bind]
    rw [if_neg (not_not.mpr hpde)]
    rfl
  · rw [if_neg hpde]
    exact pgdirWalk_of_pde hpde (htables _ (pdx_lt hva) hpde)

/-! ## The loop -/

theorem userMemCheckFrom_spec (htables : TablesIn m d) (hhi : vaHi ≤ UTOP) (hhi' : pgoff vaHi = 0)
    (fuel : ℕ) : ∀ {va : Word}, pgoff va = 0 → vaHi.toNat ≤ va.toNat + fuel * 4096 →
      ∃ r, userMemCheckFrom m d perm vaHi fuel va = .ok r ∧ Reports r (∀ a : ℕ, va.toNat ≤ a →
        a < vaHi.toNat → Grants m d perm (BitVec.ofNat 32 a)) := by
  have htop : UTOP.toNat = 0xeec00000 := rfl
  have hhi : vaHi.toNat ≤ UTOP.toNat := hhi
  rw [pgoff_eq_zero_iff] at hhi'
  induction fuel with
  | zero =>
      intro va _ hfuel
      exact ⟨0, rfl, .inl ⟨fun a hlo hlt => by omega, rfl⟩⟩
  | succ fuel ih =>
      intro va hoff hfuel
      rw [pgoff_eq_zero_iff] at hoff
      unfold userMemCheckFrom
      by_cases hlt : va < vaHi
      · have hlt' : va.toNat < vaHi.toNat := hlt
        have hva : va < UTOP := show va.toNat < UTOP.toNat by omega
        have hself : BitVec.ofNat 32 va.toNat = va := by simp
        have hfault : ¬ Grants m d perm va → ¬ ∀ a : ℕ, va.toNat ≤ a → a < vaHi.toNat →
            Grants m d perm (BitVec.ofNat 32 a) :=
          fun hno hall => hno (hself ▸ hall va.toNat le_rfl hlt')
        rw [if_pos hlt, pgdirWalk_eq htables hva]
        dsimp only [bind, Except.bind]
        by_cases hpde : m.load (d, pdx va) = 0
        · rw [if_pos hpde]
          refine ⟨-E_FAULT, rfl, .inr ⟨hfault fun hgrants => ?_, rfl⟩⟩
          exact pde_ne_zero_of_leaf (leaf_ne_zero_of_grants hgrants) hpde
        · rw [if_neg hpde]
          dsimp only
          rw [← leaf_of_pde hpde]
          by_cases hgrants : Grants m d perm va
          · have hflags : leaf m d va &&& (perm ||| PTE_P) = perm ||| PTE_P := hgrants
            rw [if_neg (not_not.mpr hflags)]
            have hnext : (va + PGSIZE).toNat = va.toNat + 4096 := by
              rw [BitVec.toNat_add, show PGSIZE.toNat = 4096 from rfl]
              omega
            have hoff' : pgoff (va + PGSIZE) = 0 := pgoff_eq_zero_iff.mpr (by omega)
            obtain ⟨r, heq, hr⟩ := ih hoff' (by omega)
            refine ⟨r, heq, hr.congr ⟨fun hrest a hlo hlt => ?_,
              fun hall a hlo => hall a (by omega)⟩⟩
            by_cases hpage : a < va.toNat + 4096
            · -- the bytes of the page that has just been tested
              refine (grants_iff_of_page ?_).mpr hgrants
              rw [BitVec.toNat_ofNat, Nat.mod_eq_of_lt (by omega)]
              omega
            · exact hrest a (by omega) hlt
          · have hflags : leaf m d va &&& (perm ||| PTE_P) ≠ perm ||| PTE_P := hgrants
            rw [if_pos hflags]
            exact ⟨-E_FAULT, rfl, .inr ⟨hfault hgrants, rfl⟩⟩
      · rw [if_neg hlt]
        have hge : vaHi.toNat ≤ va.toNat := not_lt.mp hlt
        exact ⟨0, rfl, .inl ⟨fun a hlo hlt => by omega, rfl⟩⟩

/-- What `user_mem_check` visits: the pages from that of `va` up to the end it has computed. -/
theorem userMemCheck_spec (va len perm : Word) (htables : TablesIn m d) :
    ∃ r, userMemCheck m d va len perm = .ok r ∧ Reports r (¬ UTOP < roundup (va + len) ∧
      ∀ a : ℕ, (rounddown va).toNat ≤ a → a < (roundup (va + len)).toNat →
        Grants m d perm (BitVec.ofNat 32 a)) := by
  unfold userMemCheck
  dsimp only
  by_cases hhi : UTOP < roundup (va + len)
  · rw [if_pos hhi]
    exact ⟨-E_FAULT, rfl, .inr ⟨fun hand => hand.1 hhi, rfl⟩⟩
  · rw [if_neg hhi]
    have hfuel : (roundup (va + len)).toNat ≤ (rounddown va).toNat + 2 ^ 20 * 4096 := by
      have hlt := (roundup (va + len)).isLt
      omega
    obtain ⟨r, heq, hr⟩ := userMemCheckFrom_spec htables (BitVec.not_lt.mp hhi)
      (pgoff_rounddown _) (2 ^ 20) (pgoff_rounddown va) hfuel
    exact ⟨r, heq, hr.congr (by rw [and_iff_right hhi])⟩

/-! ## Exactness -/

/-- The answer of `user_mem_check` is the truth about the range. -/
def CheckExact (m : Mem) (d : Ppn) (va len perm : Word) : Prop :=
  ∃ r, userMemCheck m d va len perm = .ok r ∧ Reports r (RangeOk m d va len perm)

theorem toNat_roundup :
    (roundup (va + len)).toNat = (va.toNat + len.toNat + 4095) % 2 ^ 32 / 4096 * 4096 := by
  have hsum : (va + len + PGSIZE - 1).toNat = (va.toNat + len.toNat + 4095) % 2 ^ 32 := by
    have hadd : (va + len + PGSIZE).toNat = (va.toNat + len.toNat + 4096) % 2 ^ 32 := by
      rw [BitVec.toNat_add, BitVec.toNat_add, show PGSIZE.toNat = 4096 from rfl]
      omega
    rw [BitVec.toNat_sub, hadd, show (1 : Word).toNat = 1 from rfl]
    omega
  rw [roundup, toNat_rounddown, hsum]
  omega

/-- A bound that wraps around is the end of the page of `va` at most. -/
theorem roundup_le_of_wraps (h : 2 ^ 32 ≤ va.toNat + len.toNat + 4095) :
    (roundup (va + len)).toNat ≤ (rounddown va).toNat + 4096 := by
  have hva := va.isLt
  have hlen := len.isLt
  rw [toNat_roundup, toNat_rounddown]
  omega

/-- The pages that are visited are those of the range, when its end does not wrap. -/
theorem rangeOk_iff (hlen : 0 < len) (hfits : va.toNat + len.toNat + 4095 < 2 ^ 32) :
    (¬ UTOP < roundup (va + len) ∧ ∀ a : ℕ, (rounddown va).toNat ≤ a →
      a < (roundup (va + len)).toNat → Grants m d perm (BitVec.ofNat 32 a)) ↔
        RangeOk m d va len perm := by
  have htop : UTOP.toNat = 0xeec00000 := rfl
  have hpos : 0 < len.toNat := hlen
  have hhi : (roundup (va + len)).toNat = (va.toNat + len.toNat + 4095) / 4096 * 4096 := by
    rw [toNat_roundup, Nat.mod_eq_of_lt hfits]
  have hlo := toNat_rounddown va
  constructor
  · rintro ⟨hle, hall⟩ a ha hlt
    have hle : roundup (va + len) ≤ UTOP := BitVec.not_lt.mp hle
    rw [BitVec.le_def] at hle
    exact ⟨by omega, hall a (by omega) (by omega)⟩
  · intro hall
    refine ⟨fun hlt => ?_, fun a ha hlt => ?_⟩
    · have hlt : UTOP.toNat < (roundup (va + len)).toNat := hlt
      have hlast := (hall (va.toNat + len.toNat - 1) (by omega) (by omega)).1
      omega
    · -- a byte of the range on the same page
      obtain ⟨b, hb, hb', hpage⟩ : ∃ b, va.toNat ≤ b ∧ b < va.toNat + len.toNat ∧
          b / 4096 = a / 4096 := by
        by_cases hfirst : a < va.toNat
        · exact ⟨va.toNat, le_rfl, by omega, by omega⟩
        · by_cases hlast : a < va.toNat + len.toNat
          · exact ⟨a, by omega, hlast, rfl⟩
          · exact ⟨va.toNat + len.toNat - 1, by omega, by omega, by omega⟩
      refine (grants_iff_of_page ?_).mp (hall b hb hb').2
      rw [BitVec.toNat_ofNat, BitVec.toNat_ofNat, Nat.mod_eq_of_lt (by omega),
        Nat.mod_eq_of_lt (by omega)]
      exact hpage

/-- When the end wraps, the range is not below `UTOP`. -/
theorem not_rangeOk_of_wraps (hlen : 0 < len) (hwraps : 2 ^ 32 ≤ va.toNat + len.toNat + 4095) :
    ¬ RangeOk m d va len perm := by
  have htop : UTOP.toNat = 0xeec00000 := rfl
  have hpos : 0 < len.toNat := hlen
  intro hall
  have hva := va.isLt
  have hlast := (hall (va.toNat + len.toNat - 1) (by omega) (by omega)).1
  omega

/-- `user_mem_check` is exact if and only if the rounded end of the range does not wrap around,
or what remains of it is rejected all the same: the wrapped end is above `UTOP`, or it is the end
of the page of `va` and that page is not accessible. -/
theorem userMemCheck_exact_iff (htables : TablesIn m d) (hlen : 0 < len) :
    CheckExact m d va len perm ↔ va.toNat + len.toNat + 4095 < 2 ^ 32 ∨
      UTOP < roundup (va + len) ∨ rounddown va < roundup (va + len) ∧ ¬ Grants m d perm va := by
  obtain ⟨r, heq, hr⟩ := userMemCheck_spec va len perm htables
  have hexact : CheckExact m d va len perm ↔ Reports r (RangeOk m d va len perm) := by
    refine ⟨fun ⟨r', heq', hr'⟩ => ?_, fun h => ⟨r, heq, h⟩⟩
    rwa [Except.ok.inj (heq.symm.trans heq')]
  rw [hexact, hr.iff]
  by_cases hfits : va.toNat + len.toNat + 4095 < 2 ^ 32
  · exact iff_of_true (rangeOk_iff hlen hfits) (.inl hfits)
  have hwraps : 2 ^ 32 ≤ va.toNat + len.toNat + 4095 := not_lt.mp hfits
  have hva := va.isLt
  have hlt := len.isLt
  have hlo := toNat_rounddown va
  have hhi := roundup_le_of_wraps hwraps
  rw [iff_false_right (not_rangeOk_of_wraps hlen hwraps), or_iff_right hfits, not_and_or, not_not]
  refine or_congr_right ?_
  constructor
  · intro hno
    push Not at hno
    obtain ⟨a, ha, hahi, hgrants⟩ := hno
    have hsame : (BitVec.ofNat 32 a).toNat / 4096 = va.toNat / 4096 := by
      rw [BitVec.toNat_ofNat, Nat.mod_eq_of_lt (by omega)]
      omega
    exact ⟨show (rounddown va).toNat < (roundup (va + len)).toNat by omega,
      (grants_iff_of_page hsame).not.mp hgrants⟩
  · rintro ⟨hlt, hgrants⟩ hall
    have hlt : (rounddown va).toNat < (roundup (va + len)).toNat := hlt
    refine hgrants ((grants_iff_of_page ?_).mp (hall (rounddown va).toNat le_rfl hlt))
    rw [BitVec.toNat_ofNat, Nat.mod_eq_of_lt (by omega)]
    omega

instance (m : Mem) (d : Ppn) : Decidable (TablesIn m d) :=
  inferInstanceAs (Decidable (∀ _, _))

/-- A process maps three pages in a row. -/
def threeMapped : List Event :=
  [.boot emptyImage, .start 0, sysTrap 0 .pageAlloc 0 0x800000 7 0 0,
    sysTrap 0 .pageAlloc 0 0x801000 7 0 0, sysTrap 0 .pageAlloc 0 0x802000 7 0 0]

/-- A range over these pages passes the check, and one that goes on behind them does not: both
answers are exact. -/
theorem userMemCheck_exact_iff_pages :
    ∃ s, Trace Step (bootedMachine .roundRobin 64) threeMapped s ∧
    (s.envs 0).envPgdir = some 8 ∧
    (userMemCheck s.mem 8 0x800ffc 0x1008 PTE_U = .ok 0 ∧
      CheckExact s.mem 8 0x800ffc 0x1008 PTE_U) ∧
    userMemCheck s.mem 8 0x801ffc 0x1008 PTE_U = .ok (-E_FAULT) ∧
      CheckExact s.mem 8 0x801ffc 0x1008 PTE_U := by
  obtain ⟨s, hrun, hs⟩ := exists_trace (fun _ _ => True) (bootedMachine .roundRobin 64) threeMapped
    (fun s => decide ((s.envs 0).envPgdir = some 8 ∧ TablesIn s.mem 8) &&
      ((userMemCheck s.mem 8 0x800ffc 0x1008 PTE_U).toOption == some 0) &&
      ((userMemCheck s.mem 8 0x801ffc 0x1008 PTE_U).toOption == some (-E_FAULT)))
    (by decide +kernel)
  simp only [Bool.and_eq_true, decide_eq_true_iff, beq_iff_eq] at hs
  obtain ⟨⟨⟨hpgdir, htables⟩, hpasses⟩, hfails⟩ := hs
  have hok : ∀ {x : Except Panic ℤ} {r : ℤ}, x.toOption = some r → x = .ok r := by
    rintro (why | r') r h
    · cases h
    · exact congrArg _ (Option.some.inj h)
  exact ⟨s, hrun.mono fun _ _ _ hstep => hstep.1, hpgdir,
    ⟨hok hpasses, (userMemCheck_exact_iff htables (by decide)).mpr (.inl (by decide))⟩,
    hok hfails, (userMemCheck_exact_iff htables (by decide)).mpr (.inl (by decide))⟩

/-- An address space without any user page. -/
theorem tablesIn_bootedMem : TablesIn (bootedMem 64) 8 := fun _ _ h => absurd rfl h

/-- All of the kernel's addresses, from `KERNBASE` to the end, pass the check. -/
theorem kernel_range_accepted : ¬ CheckExact (bootedMem 64) 8 0xf0000000 0x10000000 PTE_U := by
  rintro ⟨r, heq, hr⟩
  obtain ⟨r', heq', hr'⟩ := userMemCheck_spec 0xf0000000 0x10000000 PTE_U
    tablesIn_bootedMem
  obtain rfl := Except.ok.inj (heq.symm.trans heq')
  have hall := (hr'.iff.mp hr).mp ⟨by decide, fun a _ hlt => ?_⟩
  · exact not_rangeOk_of_wraps (by decide) (by decide) hall
  · exact absurd hlt (Nat.not_lt_zero a)

end JosSched
