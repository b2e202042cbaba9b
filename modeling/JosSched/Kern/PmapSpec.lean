import JosSched.Kern.Pmap
import JosSched.Lib.Ensures

/-!
# What the functions of `kern/pmap.c` return

One lemma for each function that succeeds, so that the proofs above need not unfold it.
-/

open Except

namespace JosSched

/-! ## Words and counters -/

section Words

variable {m : Mem} {pp q : Ppn} {x y : PteRef} {w : Word}

@[simp] theorem Mem.load_store_self : (m.store x w).load x = w := by
  simp [Mem.load, Mem.store]

theorem Mem.load_store_ne (h : y ≠ x) : (m.store x w).load y = m.load y := by
  by_cases hf : y.1 = x.1
  · have hk : y.2 ≠ x.2 := fun hk => h (Prod.ext hf hk)
    simp [Mem.load, Mem.store, hf, hk]
  · simp [Mem.load, Mem.store, hf]

@[simp] theorem Mem.load_setRef {r : BitVec 16} : (m.setRef pp r).load x = m.load x := rfl

@[simp] theorem Mem.ref_store : (m.store x w).ref pp = m.ref pp := rfl

@[simp] theorem Mem.ref_setRef_self {r : BitVec 16} : (m.setRef pp r).ref pp = r := by
  simp [Mem.ref, Mem.setRef]

theorem Mem.ref_setRef_ne {r : BitVec 16} (h : q ≠ pp) : (m.setRef pp r).ref q = m.ref q := by
  simp [Mem.ref, Mem.setRef, h]

end Words

/-! ## Success -/

/-- The first page is taken off the free list. -/
def takePage (m : Mem) (pp : Ppn) : Mem :=
  { m with pageFreeList := (m.pages pp).ppLink }.setLink pp none

theorem pageAlloc_eq_ok {m m' : Mem} {zero : Bool} {p : Option Ppn}
    (h : pageAlloc m zero = .ok (p, m')) :
    (p = none ∧ m.pageFreeList = none ∧ m' = m) ∨
      ∃ pp, p = some pp ∧ m.pageFreeList = some pp ∧
        m' = if zero then (takePage m pp).fill pp fun _ => 0 else takePage m pp := by
  unfold pageAlloc at h
  split at h
  · next hnone =>
      obtain ⟨rfl, rfl⟩ := Prod.mk.inj (Except.ok.inj h)
      exact .inl ⟨rfl, hnone, rfl⟩
  · next pp hpp =>
      refine .inr ⟨pp, ?_⟩
      dsimp only at h
      split at h
      · next hzero =>
          obtain ⟨_, -, h⟩ := bind_eq_ok.mp h
          obtain ⟨rfl, rfl⟩ := Prod.mk.inj (Except.ok.inj h)
          exact ⟨rfl, hpp, by rw [if_pos hzero]; rfl⟩
      · next hzero =>
          obtain ⟨rfl, rfl⟩ := Prod.mk.inj (Except.ok.inj h)
          exact ⟨rfl, hpp, by rw [if_neg hzero]; rfl⟩

/-- A page of the machine that is on the free list can be had. -/
theorem pageAlloc_eq {m : Mem} {pp : Ppn} (h : m.pageFreeList = some pp)
    (hpp : pp.toNat < m.npages) :
    pageAlloc m true = .ok (some pp, (takePage m pp).fill pp fun _ => 0) := by
  have hkaddr : kaddr (takePage m pp) pp = .ok () := if_neg (not_le.mpr hpp)
  unfold pageAlloc
  rw [h]
  dsimp only
  rw [if_pos rfl]
  unfold takePage at hkaddr ⊢
  rw [hkaddr]
  rfl

/-- A page whose last reference goes is free again. -/
theorem pageDecref_last {m : Mem} {pp : Ppn} (href : m.ref pp = 1)
    (hlink : (m.pages pp).ppLink = none) :
    pageDecref m pp = .ok { (m.setRef pp 0).setLink pp m.pageFreeList with
      pageFreeList := some pp } := by
  have h0 : m.ref pp - 1 = 0 := by
    rw [href]
    rfl
  unfold pageDecref
  dsimp only
  rw [h0, if_pos (by simp [Mem.ref, Mem.setRef])]
  unfold pageFree
  rw [if_neg (by simp [Mem.ref, Mem.setRef]), if_neg (by simp [Mem.setRef, hlink])]
  rfl

/-- Any other reference is just counted. -/
theorem pageDecref_shared {m : Mem} {pp : Ppn} (href : m.ref pp ≠ 1) :
    pageDecref m pp = .ok (m.setRef pp (m.ref pp - 1)) := by
  unfold pageDecref
  dsimp only
  rw [if_neg]
  simp only [Mem.ref, Mem.setRef, Function.update_self]
  exact fun h => href (sub_eq_zero.mp h)

/-! ## Panics

What stops a function of `kern/pmap.c` is a panic, never the end of `sched_halt`. -/

/-- The function either returns or panics. -/
def OnlyPanics {α : Type} (x : Except Panic α) : Prop := ∀ why, x = .error why → why ≠ .noRunnable

namespace OnlyPanics

variable {α β σ : Type} {x : Except Panic α} {f : α → Except Panic β}

theorem ok {a : α} : OnlyPanics (.ok a) := fun _ h => by cases h

theorem pure {a : α} : OnlyPanics (Pure.pure a) := ok

theorem error {why : Panic} (h : why ≠ .noRunnable) : OnlyPanics (.error why : Except Panic α) :=
  fun _ heq => by cases heq; exact h

theorem bind (hx : OnlyPanics x) (hf : ∀ a, OnlyPanics (f a)) : OnlyPanics (x >>= f) := by
  cases x with
  | error why => exact error (hx why rfl)
  | ok a => exact hf a

theorem map {g : α → β} (hx : OnlyPanics x) : OnlyPanics (x.map g) := by
  cases x with
  | error why => exact error (hx why rfl)
  | ok a => exact ok

theorem ite {p : Prop} [Decidable p] {y : Except Panic α} (hx : OnlyPanics x) (hy : OnlyPanics y) :
    OnlyPanics (if p then x else y) := by
  split
  · exact hx
  · exact hy

theorem foldlM {g : σ → α → Except Panic σ} (l : List α) (hg : ∀ s a, OnlyPanics (g s a)) :
    ∀ s, OnlyPanics (l.foldlM g s) := by
  induction l with
  | nil => exact fun s => ok
  | cons a l ih =>
      intro s
      rw [List.foldlM_cons]
      exact (hg s a).bind ih

end OnlyPanics

variable {m : Mem} {pgdir pp : Ppn} {va : Word}

theorem onlyPanics_kaddr : OnlyPanics (kaddr m pp) :=
  .ite (.error Panic.noConfusion) .ok

theorem onlyPanics_pa2page {pa : Word} : OnlyPanics (pa2page m pa) :=
  .ite (.error Panic.noConfusion) .ok

theorem onlyPanics_pageAlloc {zero : Bool} : OnlyPanics (pageAlloc m zero) := by
  unfold pageAlloc
  split
  · exact .ok
  · exact .ite (.bind onlyPanics_kaddr fun _ => .pure) .pure

theorem onlyPanics_pageDecref : OnlyPanics (pageDecref m pp) :=
  .ite (.ite (.error Panic.noConfusion) (.ite (.error Panic.noConfusion) .ok)) .ok

theorem onlyPanics_pgdirCreate : OnlyPanics (pgdirCreate m pgdir va) := by
  unfold pgdirCreate
  refine onlyPanics_pageAlloc.bind fun r => ?_
  dsimp only
  split <;> exact .pure

theorem onlyPanics_pgdirWalk {create : Bool} : OnlyPanics (pgdirWalk m pgdir va create) :=
  .bind (.ite onlyPanics_pgdirCreate .ok) fun _ =>
    .bind (.ite (.map onlyPanics_kaddr) .ok) fun _ => .pure

theorem onlyPanics_pageLookup : OnlyPanics (pageLookup m pgdir va) := by
  unfold pageLookup
  refine onlyPanics_pgdirWalk.bind fun r => ?_
  dsimp only
  split
  · exact .pure
  · exact .ite .pure (.bind onlyPanics_pa2page fun _ => .pure)

theorem onlyPanics_pageRemove : OnlyPanics (pageRemove m pgdir va) := by
  unfold pageRemove
  refine onlyPanics_pageLookup.bind fun r => ?_
  split
  · exact .pure
  · exact onlyPanics_pageDecref.bind fun _ => .pure

theorem onlyPanics_pageInsert {perm : Word} : OnlyPanics (pageInsert m pgdir pp va perm) := by
  unfold pageInsert
  refine onlyPanics_pgdirWalk.bind fun r => ?_
  dsimp only
  split
  · exact .pure
  · exact onlyPanics_pageRemove.bind fun _ => .pure

theorem onlyPanics_userMemCheck {len perm : Word} :
    OnlyPanics (userMemCheck m pgdir va len perm) := by
  have hfrom : ∀ (perm vaHi : Word) (fuel : ℕ) (va : Word) (m : Mem),
      OnlyPanics (userMemCheckFrom m pgdir perm vaHi fuel va) := by
    intro perm vaHi fuel
    induction fuel with
    | zero => exact fun _ _ => .ok
    | succ fuel ih =>
        intro va m
        unfold userMemCheckFrom
        refine .ite (onlyPanics_pgdirWalk.bind fun r => ?_) .ok
        dsimp only
        split
        · exact .pure
        · exact .ite .pure (ih _ _)
  unfold userMemCheck
  dsimp only
  split
  · exact .ok
  · exact hfrom _ _ _ _ _

theorem onlyPanics_kernStore {bytes : List (BitVec 8)} :
    OnlyPanics (kernStore m pgdir va bytes) := by
  induction bytes generalizing m va with
  | nil => exact .ok
  | cons b rest ih =>
      unfold kernStore
      split
      · exact .error Panic.noConfusion
      · exact ih

end JosSched
