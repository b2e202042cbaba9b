import JosSched.Kern.Paths

/-!
# What `env_create` does

The kernel's own environments are built by the same primitive actions: a new slot, fresh
pages, and stores of the binary into them.
-/

open Except

namespace JosSched

variable {c : Cpu} {L : Act → Prop}

/-- The actions of `env_create` on the new environment `e`. -/
def Act.IsBoot (e : Slot) : Act → Prop
  | .create e' | .kstore e' | .entry e' _ => e' = e
  | .pageNew e' _ perm => e' = e ∧ perm = PTE_U ||| PTE_W
  | _ => False

theorem regionAllocFrom_path {s : Kernel} {e : Slot} {pgdir : Ppn} (he : Target c s e)
    (hpgdir : (s.envs e).envPgdir = some pgdir) (hL : ∀ a, a.IsBoot e → L a) (n : ℕ) :
    ∀ {va : Word} {m m' : Mem}, pgoff va = 0 → (∀ k < n, va.toNat + k * 4096 < UTOP.toNat) →
      regionAllocFrom m pgdir n va = .ok m' → Path c L (s.setMem m) (s.setMem m') := by
  induction n with
  | zero =>
      intro va m m' _ _ h
      rw [Except.ok.inj h]
      exact .refl
  | succ n ih =>
      intro va m m' hoff hbelow h
      unfold regionAllocFrom at h
      obtain ⟨⟨page, m₁⟩, halloc, h⟩ := bind_eq_ok.mp h
      have hva : va.toNat < UTOP.toNat := by simpa using hbelow 0 (Nat.succ_pos n)
      cases page with
      | none => cases h
      | some p =>
          obtain ⟨⟨r, m₂⟩, hinsert, h⟩ := bind_eq_ok.mp h
          dsimp only at h
          split at h
          · cases h
          · have hnew : Micro c (.pageNew e va (PTE_U ||| PTE_W)) (s.setMem m) (s.setMem m₂) :=
              .pageNew (s := s.setMem m) he (.inl ⟨hva, hoff⟩) (by decide) hpgdir halloc hinsert
            refine (Path.single (hL (.pageNew e va _) ⟨rfl, rfl⟩) hnew).trans ?_
            by_cases hn : n = 0
            · subst hn
              rw [Except.ok.inj h]
              exact .refl
            · have hnext : (va + PGSIZE).toNat = va.toNat + 4096 := by
                have hlt := hbelow 1 (by omega)
                have hutop : UTOP.toNat = 4005560320 := by decide
                rw [BitVec.toNat_add, show PGSIZE.toNat = 4096 from rfl]
                omega
              refine ih ?_ (fun k hk => ?_) h
              · rw [pgoff_eq_zero_iff] at hoff ⊢
                omega
              · have hlt := hbelow (k + 1) (by omega)
                omega

theorem regionAlloc_path {s : Kernel} {e : Slot} {pgdir : Ppn} {va len : Word} {m m' : Mem}
    (he : Target c s e) (hpgdir : (s.envs e).envPgdir = some pgdir)
    (hL : ∀ a, a.IsBoot e → L a) (h : regionAlloc m pgdir va len = .ok m') :
    Path c L (s.setMem m) (s.setMem m') := by
  unfold regionAlloc at h
  dsimp only at h
  split at h
  · cases h
  · next hutop =>
      refine regionAllocFrom_path he hpgdir hL _ (pgoff_rounddown va) (fun k hk => ?_) h
      have hle : (roundup (va + len)).toNat ≤ UTOP.toNat := by
        rw [BitVec.not_lt] at hutop
        exact hutop
      omega

theorem kernStore_path {s : Kernel} {e : Slot} {pgdir : Ppn} {va : Word} {bytes : List (BitVec 8)}
    {m m' : Mem} (he : Target c s e) (hpgdir : (s.envs e).envPgdir = some pgdir)
    (hL : ∀ a, a.IsBoot e → L a) (hlen : va.toNat + bytes.length ≤ UTOP.toNat)
    (h : kernStore m pgdir va bytes = .ok m') : Path c L (s.setMem m) (s.setMem m') :=
  have hstore : Micro c (.kstore e) (s.setMem m) (s.setMem m') :=
    .kstore (s := s.setMem m) he hpgdir hlen h
  .single (hL (.kstore e) rfl) hstore

theorem loadSegments_path {s : Kernel} {e : Slot} {pgdir : Ppn} (he : Target c s e)
    (hpgdir : (s.envs e).envPgdir = some pgdir) (hL : ∀ a, a.IsBoot e → L a)
    (segments : List Segment) {m m' : Mem} (h : segments.foldlM (loadSegment pgdir) m = .ok m') :
    Path c L (s.setMem m) (s.setMem m') := by
  refine (Ensures.foldlM (E := fun _ => True) (I := fun m' => Path c L (s.setMem m) (s.setMem m'))
    segments .refl fun m₁ ph _ hm₁ => ⟨fun m₂ hm₂ => ?_, fun _ _ => trivial⟩).of_ok m' h
  unfold loadSegment at hm₂
  obtain ⟨m₃, halloc, hm₂⟩ := bind_eq_ok.mp hm₂
  obtain ⟨m₄, hzero, hbytes⟩ := bind_eq_ok.mp hm₂
  have hfits := ph.fits
  have hbelow := ph.below
  refine hm₁.trans ((regionAlloc_path he hpgdir hL halloc).trans
    ((kernStore_path he hpgdir hL ?_ hzero).trans (kernStore_path he hpgdir hL ?_ hbytes)))
  · rwa [List.length_replicate]
  · omega

theorem envCreate_path {s s' : Kernel} {binary : Image} (h : envCreate s binary = .ok s') :
    ∃ e, s.envFreeList = some e ∧ Path c (Act.IsBoot e) s s' := by
  unfold envCreate at h
  obtain ⟨⟨r, s₁⟩, halloc, h⟩ := bind_eq_ok.mp h
  cases r with
  | error r => cases h
  | ok e =>
      obtain ⟨pgdir, hpgdir, h⟩ := bind_eq_ok.mp h
      obtain ⟨⟨_, s₂⟩, hload, h⟩ := bind_eq_ok.mp h
      have hpgdir := envPgdirOf_eq_ok hpgdir
      obtain ⟨p, m, hfree, -, hs₁⟩ := envAlloc_eq_ok halloc
      have he : Target c s₁ e := .inr (by simp [hs₁, initEnv])
      cases hicode : loadIcode s₁.mem pgdir binary with
      | error why => simp [hicode, Kernel.withMem, Except.map] at hload
      | ok m' =>
          simp only [hicode, Kernel.withMem, Except.map, Except.ok.injEq, Prod.mk.injEq,
            true_and] at hload
          subst hload
          unfold loadIcode at hicode
          obtain ⟨m₃, hsegments, hstack⟩ := bind_eq_ok.mp hicode
          have hL : ∀ a, Act.IsBoot e a → Act.IsBoot e a := fun _ h => h
          have hcreate : Path c (Act.IsBoot e) s s₁ := .single (a := .create e) rfl (.create halloc)
          have hpath : Path c (Act.IsBoot e) s (s₁.setMem m') :=
            hcreate.trans ((loadSegments_path he hpgdir hL _ hsegments).trans
              (regionAlloc_path he hpgdir hL hstack))
          rw [← Except.ok.inj h]
          exact ⟨e, hfree, hpath.step (a := .entry e binary.entry) rfl .entry⟩

theorem onlyPanics_regionAlloc {m : Mem} {pgdir : Ppn} {va len : Word} :
    OnlyPanics (regionAlloc m pgdir va len) := by
  have hfrom : ∀ (n : ℕ) (va : Word) (m : Mem), OnlyPanics (regionAllocFrom m pgdir n va) := by
    intro n
    induction n with
    | zero => exact fun _ _ => .ok
    | succ n ih =>
        intro va m
        unfold regionAllocFrom
        refine onlyPanics_pageAlloc.bind fun r => ?_
        dsimp only
        split
        · exact .error Panic.noConfusion
        · exact onlyPanics_pageInsert.bind fun _ => .ite (.error Panic.noConfusion) (ih _ _)
  unfold regionAlloc
  dsimp only
  split
  · exact .error Panic.noConfusion
  · exact hfrom _ _ _

theorem onlyPanics_loadIcode {m : Mem} {pgdir : Ppn} {binary : Image} :
    OnlyPanics (loadIcode m pgdir binary) :=
  .bind (.foldlM _ (fun _ _ => onlyPanics_regionAlloc.bind fun _ =>
    onlyPanics_kernStore.bind fun _ => onlyPanics_kernStore) m) fun _ => onlyPanics_regionAlloc

/-- `env_create` panics or returns; it never enters user mode. -/
theorem envCreate_panics {s : Kernel} {binary : Image} :
    (envCreate s binary).Ensures (fun _ => True) Exit.IsPanic := by
  unfold envCreate
  refine (ensures_envAlloc (fun _ _ => trivial) fun _ _ => Exit.isPanic_stuck).bind fun r _ => ?_
  dsimp only
  split
  · exact ensures_error.mpr (Exit.isPanic_stuck Panic.noConfusion)
  · refine (ensures_envPgdirOf (fun _ _ => trivial)
      fun _ => Exit.isPanic_stuck Panic.noConfusion).bind fun pgdir _ => ?_
    refine Ensures.bind (Q := fun _ => True) ?_ fun _ _ => ensures_pure.mpr trivial
    rw [Kernel.ensures_withMem]
    exact ⟨fun _ _ => trivial,
      fun why hwhy => Exit.isPanic_stuck (onlyPanics_loadIcode.map why hwhy)⟩

theorem envCreate_eq_ok {s s' : Kernel} {binary : Image}
    (h : finish (envCreate s binary) .leave = .leave s') : envCreate s binary = .ok s' := by
  cases hcreate : envCreate s binary with
  | ok s₁ =>
      rw [hcreate] at h
      rw [Exit.leave.inj h]
  | error x =>
      rw [hcreate] at h
      exact absurd h (envCreate_panics.of_error x hcreate).ne_leave

end JosSched
