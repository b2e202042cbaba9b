import JosSched.Vm.Space

/-!
# Links of pages in use

`page_free` panics for a page whose `pp_link` is set, taking it for a page that is free already.
`page_alloc` clears the link of the page that it hands out, and `page_free` sets the link of a
page that it puts on the free list: whatever the kernel does, a page that leaves the free list has
no link, and one that stays away from it keeps its own (`Relinked`).
-/

open Except

namespace JosSched

variable {m m' m₁ : Mem} {d f p pp q : Ppn} {x : PteRef} {va vaHi perm w : Word} {r : ℤ}
  {pdeno : Idx} {zero : Bool}

/-- The page can be reached from the head of the free list. -/
def OnFreeList (m : Mem) (pp : Ppn) : Prop :=
  Linked (fun pp => (m.pages pp).ppLink) m.pageFreeList pp

/-- Between `m` and `m'` pages may have come off the free list, without a link, or back to it. -/
def Relinked (m m' : Mem) : Prop :=
  ∀ q, ¬ OnFreeList m' q →
    ¬ OnFreeList m q ∧ (m'.pages q).ppLink = (m.pages q).ppLink ∨ (m'.pages q).ppLink = none

namespace Relinked

theorem refl : Relinked m m := fun _ hq => .inl ⟨hq, rfl⟩

theorem trans (h : Relinked m m₁) (h' : Relinked m₁ m') : Relinked m m' := by
  intro q hq
  rcases h' q hq with ⟨hq₁, hlink⟩ | hnone
  · rcases h q hq₁ with ⟨hq₀, hlink₁⟩ | hnone
    · exact .inl ⟨hq₀, hlink.trans hlink₁⟩
    · exact .inr (hlink.trans hnone)
  · exact .inr hnone

theorem of_eq (hlist : m'.pageFreeList = m.pageFreeList)
    (hlink : ∀ q, (m'.pages q).ppLink = (m.pages q).ppLink) : Relinked m m' := fun q hq =>
  .inl ⟨fun hon => hq (by
    unfold OnFreeList at hon ⊢
    rw [hlist]
    exact hon.congr hlink), hlink q⟩

theorem setRef {n : BitVec 16} : Relinked m (m.setRef pp n) :=
  .of_eq rfl SameList.setRef.link

theorem store : Relinked m (m.store x w) := .of_eq rfl fun _ => rfl

/-! ## The free list -/

theorem pageAlloc {page : Option Ppn} (h : JosSched.pageAlloc m zero = .ok (page, m')) :
    Relinked m m' := by
  rcases pageAlloc_eq_ok h with ⟨-, -, rfl⟩ | ⟨q, rfl, hhead, rfl⟩
  · exact .refl
  have htake : Relinked m (takePage m q) := by
    have hlink : ∀ pp, ((takePage m q).pages pp).ppLink =
        Function.update (fun pp => (m.pages pp).ppLink) q none pp := fun pp => by
      by_cases hpp : pp = q <;> simp [takePage, Mem.setLink, hpp]
    intro pp hoff
    by_cases hpp : pp = q
    · exact .inr (by rw [hlink, hpp, Function.update_self])
    · refine .inl ⟨fun hon => ?_, by rw [hlink, Function.update_of_ne hpp]⟩
      unfold OnFreeList at hon hoff
      rw [hhead] at hon
      exact hoff ((hon.pop.resolve_left hpp).congr hlink)
  split
  · exact htake.trans (.of_eq rfl fun _ => rfl)
  · exact htake

theorem pageDecref (h : JosSched.pageDecref m pp = .ok m') : Relinked m m' := by
  rcases pageDecref_eq_ok h with ⟨-, rfl⟩ | ⟨-, hnone, rfl⟩
  · exact .setRef
  have hlink : ∀ q, ((({ (m.setRef pp 0).setLink pp m.pageFreeList with
      pageFreeList := some pp } : Mem).pages q).ppLink) =
      Function.update (fun q => (m.pages q).ppLink) pp m.pageFreeList q := fun q => by
    by_cases hq : q = pp <;> simp [Mem.setLink, Mem.setRef, hq]
  intro q hoff
  have hq : q ≠ pp := fun heq => hoff (.head (congrArg some heq.symm))
  refine .inl ⟨fun hon => hoff ((hon.push hnone).congr hlink), ?_⟩
  rw [hlink, Function.update_of_ne hq]

/-! ## Page tables -/

theorem pageRemove (h : JosSched.pageRemove m d va = .ok m') : Relinked m m' := by
  unfold JosSched.pageRemove at h
  obtain ⟨found, -, h⟩ := bind_eq_ok.mp h
  cases found with
  | none =>
      obtain rfl := Except.ok.inj h
      exact .refl
  | some found =>
      obtain ⟨m₁, hdec, hm'⟩ := bind_eq_ok.mp h
      obtain rfl := Except.ok.inj hm'
      exact (pageDecref hdec).trans .store

theorem pgdirCreate (h : JosSched.pgdirCreate m d va = .ok m') : Relinked m m' := by
  unfold JosSched.pgdirCreate at h
  obtain ⟨⟨page, m₁⟩, halloc, h⟩ := bind_eq_ok.mp h
  have htaken := pageAlloc halloc
  cases page with
  | none =>
      obtain rfl := Except.ok.inj h
      exact htaken
  | some t =>
      have hm' : (m₁.setRef t (m₁.ref t + 1)).store (d, pdx va) (tableEntry t) = m' :=
        Except.ok.inj h
      rw [← hm']
      exact htaken.trans (setRef.trans .store)

theorem pgdirWalk {pte : Option PteRef} {create : Bool}
    (h : JosSched.pgdirWalk m d va create = .ok (pte, m')) : Relinked m m' := by
  unfold JosSched.pgdirWalk at h
  obtain ⟨m₁, hcreate, h⟩ := bind_eq_ok.mp h
  obtain ⟨pte', -, h⟩ := bind_eq_ok.mp h
  obtain ⟨-, rfl⟩ := Prod.mk.inj (Except.ok.inj h)
  split at hcreate
  · exact pgdirCreate hcreate
  · obtain rfl := Except.ok.inj hcreate
    exact .refl

theorem pageInsert (h : JosSched.pageInsert m d pp va perm = .ok (r, m')) : Relinked m m' := by
  unfold JosSched.pageInsert at h
  obtain ⟨⟨pte, m₁⟩, hwalk, h⟩ := bind_eq_ok.mp h
  have hwalked := pgdirWalk hwalk
  cases pte with
  | none =>
      obtain ⟨-, rfl⟩ := Prod.mk.inj (Except.ok.inj h)
      exact hwalked
  | some pte =>
      obtain ⟨m₂, hremove, h⟩ := bind_eq_ok.mp h
      obtain ⟨-, rfl⟩ := Prod.mk.inj (Except.ok.inj h)
      exact (hwalked.trans setRef).trans ((pageRemove hremove).trans .store)

theorem unmapTable {pt : Ppn} (h : JosSched.unmapTable m d pdeno pt = .ok m') : Relinked m m' := by
  unfold JosSched.unmapTable at h
  refine (Ensures.foldlM (I := Relinked m) (E := fun _ => True) _ .refl
    fun m₁ k _ h₁ => ⟨fun m₂ hm₂ => ?_, fun _ _ => trivial⟩).of_ok m' h
  split at hm₂
  · exact h₁.trans (pageRemove hm₂)
  · obtain rfl := Except.ok.inj hm₂
    exact h₁

theorem unmapPde (h : JosSched.unmapPde d m pdeno = .ok m') : Relinked m m' := by
  unfold JosSched.unmapPde at h
  dsimp only at h
  split at h
  · obtain rfl := Except.ok.inj h
    exact .refl
  · obtain ⟨_, -, h⟩ := bind_eq_ok.mp h
    obtain ⟨m₂, htable, h⟩ := bind_eq_ok.mp h
    obtain ⟨pp, -, hdec⟩ := bind_eq_ok.mp h
    exact (unmapTable htable).trans (store.trans (pageDecref hdec))

theorem unmapUser (h : JosSched.unmapUser m d = .ok m') : Relinked m m' := by
  unfold JosSched.unmapUser at h
  exact (Ensures.foldlM (I := Relinked m) (E := fun _ => True) _ .refl
    fun m₁ k _ h₁ => ⟨fun m₂ hm₂ => h₁.trans (unmapPde hm₂), fun _ _ => trivial⟩).of_ok m' h

/-! ## Stores -/

theorem storeByte {b : BitVec 8} (h : JosSched.storeByte m d perm va b = some m') :
    Relinked m m' := by
  unfold JosSched.storeByte at h
  split at h
  · split at h
    · obtain rfl := Option.some.inj h
      exact .store
    · cases h
  · cases h

theorem kernStore {bytes : List (BitVec 8)} (h : JosSched.kernStore m d va bytes = .ok m') :
    Relinked m m' := by
  induction bytes generalizing m va with
  | nil =>
      obtain rfl := Except.ok.inj h
      exact .refl
  | cons b rest ih =>
      unfold JosSched.kernStore at h
      split at h
      · cases h
      · next m₁ hbyte => exact (storeByte hbyte).trans (ih h)

/-- The page directory that `env_setup_vm` builds. -/
theorem newPgdir (h : JosSched.pageAlloc m zero = .ok (some p, m₁)) :
    Relinked m (JosSched.newPgdir m₁ p) := by
  refine (pageAlloc h).trans (.of_eq rfl fun q => ?_)
  by_cases hq : q = p <;> simp [JosSched.newPgdir, Mem.setRef, Mem.fill, Mem.store, hq]

end Relinked

end JosSched
