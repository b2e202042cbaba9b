import JosSched.Kern.EnvSpec

/-!
# The functions of the kernel perform the primitive actions

One lemma for each function that destroys environments, up to `env_destroy`.  The set `L` of
allowed actions is a parameter: each lemma asks only for the actions its function may perform.
-/

open Except

namespace JosSched

variable {c : Cpu} {L : Act → Prop}

theorem Kernel.ensures_withMem {α : Type} {s : Kernel} {x : Except Panic (α × Mem)}
    {Q : α × Kernel → Prop} {E : Exit → Prop} :
    (s.withMem x).Ensures Q E ↔
      x.Ensures (fun r => Q (r.1, s.setMem r.2)) (fun why => E (.stuck why s)) := by
  rcases x with why | ⟨a, m⟩
  · simp only [Kernel.withMem, ensures_error]
  · simp only [Kernel.withMem, ensures_ok]

theorem ensures_envPgdirOf {s : Kernel} {e : Slot} {Q : Ppn → Prop} {E : Exit → Prop}
    (h : ∀ pgdir, (s.envs e).envPgdir = some pgdir → Q pgdir)
    (hE : ∀ s', E (.stuck .paddr s') := by exact fun _ => .panic Panic.noConfusion) :
    (envPgdirOf s e).Ensures Q E := by
  unfold envPgdirOf
  split
  · next pgdir hpgdir => exact ensures_ok.mpr (h pgdir hpgdir)
  · exact ensures_error.mpr (hE _)

theorem ensures_envAlloc {s : Kernel} {parentId : Word} {Q : Except ℤ Slot × Kernel → Prop}
    {E : Exit → Prop} (h : ∀ r, envAlloc s parentId = .ok r → Q r)
    (hE : ∀ why s', why ≠ .noRunnable → E (.stuck why s') := by exact fun _ _ h => .panic h) :
    (envAlloc s parentId).Ensures Q E := by
  refine ⟨h, ?_⟩
  refine Ensures.of_error (Q := fun _ => True) ?_
  unfold envAlloc
  split
  · exact ensures_pure.mpr trivial
  · refine Ensures.bind (Q := fun _ => True) ?_ fun r _ => ?_
    · unfold envSetupVm
      refine Ensures.bind (Q := fun _ => True) ?_ fun p _ => ?_
      · rw [Kernel.ensures_withMem]
        exact ⟨fun _ _ => trivial, fun why hwhy => hE why s (onlyPanics_pageAlloc why hwhy)⟩
      · dsimp only
        split <;> exact ensures_pure.mpr trivial
    · dsimp only
      split <;> exact ensures_pure.mpr trivial

theorem ensures_dropPgdir {s : Kernel} {e : Slot} {pgdir : Ppn} {Q : Kernel → Prop}
    {E : Exit → Prop} (h : ∀ s', dropPgdir s e pgdir = .ok s' → Q s')
    (hE : ∀ why s', why ≠ .noRunnable → E (.stuck why s') := by exact fun _ _ h => .panic h) :
    (dropPgdir s e pgdir).Ensures Q E := by
  refine ⟨h, ?_⟩
  refine Ensures.of_error (Q := fun _ => True) ?_
  unfold dropPgdir
  refine Ensures.bind (Q := fun _ => True) ?_ fun _ _ => ensures_pure.mpr trivial
  rw [Kernel.ensures_withMem]
  exact ⟨fun _ _ => trivial, fun why hwhy => hE why _ (onlyPanics_pageDecref.map why hwhy)⟩

theorem onlyPanics_unmapUser {m : Mem} {pgdir : Ppn} : OnlyPanics (unmapUser m pgdir) := by
  have htable : ∀ (m : Mem) (pdeno : Idx) (pt : Ppn), OnlyPanics (unmapTable m pgdir pdeno pt) :=
    fun m _ _ => .foldlM _ (fun _ _ => .ite onlyPanics_pageRemove .ok) m
  refine .foldlM _ (fun m pdeno => .ite .pure ?_) m
  refine onlyPanics_kaddr.bind fun _ => (htable _ _ _).bind fun _ => ?_
  exact onlyPanics_pa2page.bind fun _ => onlyPanics_pageDecref

/-- A function of CPU `c` that returned to its caller. -/
structure Returns (c : Cpu) (L : Act → Prop) (s s' : Kernel) : Prop where
  path : Path c L s s'
  curenv : s'.curenv c = s.curenv c

theorem Returns.refl {s : Kernel} : Returns c L s s := ⟨.refl, rfl⟩

/-! ## Destruction -/

theorem envFreeThread_path {s : Kernel} {t : Slot} (htype : (s.envs t).envType = .thread)
    (ht : Target c s t) (hrun : (s.envs t).envStatus = .running → s.curenv c = some t)
    (hL : L (.freeThread t (s.envs t).envStatus)) :
    (envFreeThread c s t).Ensures
      (fun s' => (∃ m, s' = freed c s t m) ∧ Path c L s (forget c s' t)) (Exit.Path c L s) := by
  refine ⟨fun s' h => ⟨?_, .single hL (.freeThread htype ht hrun h)⟩, ?_⟩
  · obtain ⟨pgdir, m, -, -, rfl⟩ := envFreeThread_eq_ok h
    exact ⟨m, rfl⟩
  refine Ensures.of_error (Q := fun _ => True) ?_
  unfold envFreeThread
  refine (ensures_envPgdirOf fun pgdir _ => trivial).bind fun pgdir _ => ?_
  exact (ensures_dropPgdir fun _ _ => trivial).bind fun _ _ => ensures_pure.mpr trivial

/-- Nobody else executes `e`, as far as its status tells: `env_destroy(e)` calls `env_free`. -/
def FreesNow (c : Cpu) (s : Kernel) (e : Slot) : Prop :=
  (s.envs e).envStatus = .running → s.curenv c = some e

instance (c : Cpu) (s : Kernel) (e : Slot) : Decidable (FreesNow c s e) :=
  inferInstanceAs (Decidable (_ → _))

/-- The actions of `env_destroy(e)`: on `e` itself and on its threads, each as it stood when
`env_destroy` was called. -/
def Act.OfDestroy (c : Cpu) (s : Kernel) (e : Slot) : Act → Prop
  | .dying t => t = e ∨ isThreadOf s e t = true
  | .freeThread t st =>
      FreesNow c s e ∧ (t = e ∨ isThreadOf s e t = true) ∧ st = (s.envs t).envStatus
  | .freeProcess t st => FreesNow c s e ∧ t = e ∧ st = (s.envs t).envStatus
  | _ => False

theorem forget_eq_self {s : Kernel} {e : Slot} (h : s.curenv c ≠ some e) : forget c s e = s :=
  if_neg h

theorem envDestroyThread_path {s : Kernel} {t : Slot} (htype : (s.envs t).envType = .thread)
    (ht : (s.envs t).envStatus ≠ .free) (hdying : L (.dying t))
    (hfree : L (.freeThread t (s.envs t).envStatus)) :
    (envDestroyThread c s t).Ensures
      (fun s' => Path c L s s' ∧ SameFamily c s s' ∧ (∀ t', t' ≠ t → s'.envs t' = s.envs t') ∧
        ((s'.envs t).envStatus = .dying ∨ (s'.envs t).envStatus = .free))
      (Exit.Path c L s) := by
  unfold envDestroyThread
  split
  · next h =>
      refine ensures_ok.mpr ⟨.single hdying (.dying h.1 h.2), ?_, ?_, .inl (by simp)⟩
      · exact .modEnv (fun _ => rfl) (fun _ => rfl) fun _ => rfl
      · exact fun t' ht' => Kernel.modEnv_ne _ _ ht'
  · next h =>
      refine (envFreeThread_path htype (.inr ht) ?_ hfree).bind ?_
      · intro hrun
        by_contra hcur
        exact h ⟨hrun, hcur⟩
      · rintro s' ⟨⟨m, rfl⟩, hpath⟩
        split
        · next hcur =>
            rw [forget, if_pos hcur] at hpath
            exact ensures_error.mpr (schedYield_none_path.after hpath)
        · next hcur =>
            rw [forget_eq_self hcur] at hpath
            refine ensures_pure.mpr ⟨hpath, sameFamily_freed, fun _ => freed_envs_ne, .inr ?_⟩
            rw [freed_envs_self]

theorem isThreadOf_iff {s : Kernel} {e t : Slot} : isThreadOf s e t = true ↔ t ≠ e ∧
    (s.envs t).envType = .thread ∧ (s.envs t).envStatus ≠ .free ∧
      (s.envs t).envParentId = (s.envs e).envId := by
  simp [isThreadOf]

/-- What holds while `env_free(e)` sweeps the table, with `rest` still to be visited. -/
structure Sweep (c : Cpu) (L : Act → Prop) (s₀ : Kernel) (e : Slot) (rest : List Slot)
    (s : Kernel) : Prop where
  path : Path c L s₀ s
  same : SameFamily c s₀ s
  owner : s.envs e = s₀.envs e
  nodup : rest.Nodup
  untouched : ∀ t ∈ rest, s.envs t = s₀.envs t
  alive : ∀ t, (s.envs t).envStatus ≠ .free → (s₀.envs t).envStatus ≠ .free
  done : ∀ t, isThreadOf s e t → t ∈ rest ∨ (s.envs t).envStatus = .dying

theorem Sweep.isThreadOf {s₀ s : Kernel} {e t : Slot} {rest : List Slot}
    (h : Sweep c L s₀ e rest s) (ht : isThreadOf s e t) : isThreadOf s₀ e t := by
  rw [isThreadOf_iff] at ht ⊢
  rw [h.same.envType, h.same.envParentId, h.same.envId] at ht
  exact ⟨ht.1, ht.2.1, h.alive t ht.2.2.1, ht.2.2.2⟩

theorem envFreeThreads_path {s : Kernel} {e : Slot} (hrun : FreesNow c s e)
    (hL : ∀ a, a.OfDestroy c s e → L a) :
    (envFreeThreads c s e).Ensures (Sweep c L s e []) (Exit.Path c L s) := by
  unfold envFreeThreads
  refine Ensures.foldlM_rest (fun t rest s₁ hs₁ => ?_) _ s ?_
  · split
    · next ht =>
        obtain ⟨hne, htype, hstatus, hparent⟩ := isThreadOf_iff.mp ht
        have hvictim : t = e ∨ isThreadOf s e t = true := .inr (hs₁.isThreadOf ht)
        have hold := hs₁.untouched t (List.mem_cons_self ..)
        refine (envDestroyThread_path htype hstatus (hL (.dying t) hvictim)
          (hL (.freeThread t _) ⟨hrun, hvictim, by rw [hold]⟩)).mono ?_ fun x hx =>
            hx.after hs₁.path
        rintro s₂ ⟨hpath, hsame, hframe, hgone⟩
        refine ⟨hs₁.path.trans hpath, hs₁.same.trans hsame, ?_, hs₁.nodup.of_cons, ?_, ?_, ?_⟩
        · rw [hframe e hne.symm, hs₁.owner]
        · intro t' ht'
          have hne' : t' ≠ t := fun heq => (List.nodup_cons.mp hs₁.nodup).1 (heq ▸ ht')
          rw [hframe t' hne', hs₁.untouched t' (List.mem_cons_of_mem _ ht')]
        · intro t' ht'
          by_cases heq : t' = t
          · subst heq
            exact hs₁.alive t' hstatus
          · rw [hframe t' heq] at ht'
            exact hs₁.alive t' ht'
        · intro t' ht'
          by_cases heq : t' = t
          · subst heq
            exact .inr (hgone.resolve_right (isThreadOf_iff.mp ht').2.2.1)
          · rw [isThreadOf_iff, hframe t' heq, hframe e hne.symm] at ht'
            have := hs₁.done t' (isThreadOf_iff.mpr ht')
            rw [hframe t' heq]
            simpa [heq] using this
    · next ht =>
        refine ensures_ok.mpr ⟨hs₁.path, hs₁.same, hs₁.owner, hs₁.nodup.of_cons,
          fun t' ht' => hs₁.untouched t' (List.mem_cons_of_mem _ ht'), hs₁.alive, fun t' ht' => ?_⟩
        have hne : t' ≠ t := fun heq => ht (heq ▸ ht')
        simpa [hne] using hs₁.done t' ht'
  · exact ⟨.refl, .refl, rfl, List.nodup_finRange _, fun _ _ => rfl, fun _ h => h,
      fun t _ => .inl (List.mem_finRange t)⟩

theorem envFreeProcess_panics {s : Kernel} {e : Slot} :
    (envFreeProcess c s e).Ensures (fun _ => True) Exit.IsPanic := by
  unfold envFreeProcess
  refine (ensures_envPgdirOf (fun pgdir _ => trivial)
    fun _ => Exit.isPanic_stuck Panic.noConfusion).bind fun pgdir _ => ?_
  refine Ensures.bind (Q := fun _ => True) ?_ fun _ _ => ?_
  · rw [Kernel.ensures_withMem]
    exact ⟨fun _ _ => trivial,
      fun why hwhy => Exit.isPanic_stuck (onlyPanics_unmapUser.map why hwhy)⟩
  · exact (ensures_dropPgdir (fun _ _ => trivial) fun _ _ => Exit.isPanic_stuck).bind
      fun _ _ => ensures_pure.mpr trivial

theorem envFree_path {s : Kernel} {e : Slot} (he : Target c s e)
    (hrun : FreesNow c s e) (hL : ∀ a, a.OfDestroy c s e → L a) :
    (envFree c s e).Ensures (fun s' => s'.curenv c = s.curenv c ∧ Path c L s (forget c s' e))
      (Exit.Path c L s) := by
  unfold envFree
  split
  · next htype =>
      refine (envFreeThread_path htype he hrun (hL (.freeThread e _) ⟨hrun, .inl rfl, rfl⟩)).imp ?_
      rintro s' ⟨⟨m, rfl⟩, hpath⟩
      exact ⟨freed_curenv, hpath⟩
  · next htype =>
      refine (envFreeThreads_path hrun hL).bind fun s₁ hs₁ => ?_
      have hcur := hs₁.same.curenv
      refine ⟨fun s' h => ?_, fun x h => (envFreeProcess_panics.of_error x h).path⟩
      obtain ⟨pgdir, m₁, m, -, -, -, hs'⟩ := envFreeProcess_eq_ok h
      refine ⟨?_, hs₁.path.step
        (hL (.freeProcess e _) ⟨hrun, rfl, by rw [hs₁.owner]⟩) (.freeProcess ?_ ?_ ?_ ?_ h)⟩
      · rw [hs', freed_curenv]
        exact hcur
      · rw [hs₁.owner]
        cases hty : (s.envs e).envType with
        | user => rfl
        | thread => exact absurd hty htype
      · rw [Target, hcur, hs₁.owner]
        exact he
      · rw [hcur, hs₁.owner]
        exact hrun
      · intro t ht
        simpa using hs₁.done t ht

/-- Freeing the current environment, the kernel does not leave in the middle: that is up to the
caller. -/
theorem envFree_self_panics {s : Kernel} {e : Slot} (hcur : s.curenv c = some e) :
    (envFree c s e).Ensures (fun _ => True) Exit.IsPanic := by
  have hthread : ∀ (s : Kernel) (t : Slot), (envFreeThread c s t).Ensures
      (fun s' => s'.curenv c = s.curenv c) Exit.IsPanic := by
    intro s t
    refine ⟨fun s' h => ?_, Ensures.of_error (Q := fun _ => True) ?_⟩
    · obtain ⟨pgdir, m, -, -, rfl⟩ := envFreeThread_eq_ok h
      exact freed_curenv
    · unfold envFreeThread
      refine (ensures_envPgdirOf (fun pgdir _ => trivial)
        fun _ => Exit.isPanic_stuck Panic.noConfusion).bind fun pgdir _ => ?_
      exact (ensures_dropPgdir (fun _ _ => trivial) fun _ _ => Exit.isPanic_stuck).bind
        fun _ _ => ensures_pure.mpr trivial
  unfold envFree
  split
  · exact (hthread s e).imp fun _ _ => trivial
  · refine Ensures.bind (Q := fun _ => True) ?_ fun s' _ => envFreeProcess_panics
    have hsweep : (envFreeThreads c s e).Ensures (fun s' => s'.curenv c = some e) Exit.IsPanic := by
      unfold envFreeThreads
      refine Ensures.foldlM _ hcur fun s₁ t _ hs₁ => ?_
      split
      · next ht =>
          have hne : s₁.curenv c ≠ some t := fun h => by
            rw [hs₁] at h
            exact (isThreadOf_iff.mp ht).1 (Option.some.inj h).symm
          unfold envDestroyThread
          split
          · exact ensures_ok.mpr hs₁
          · refine (hthread s₁ t).bind fun s₂ hs₂ => ?_
            rw [hs₂, if_neg hne]
            exact ensures_pure.mpr (hs₂.trans hs₁)
      · exact ensures_ok.mpr hs₁
    exact hsweep.imp fun _ _ => trivial

theorem envDestroy_path {s : Kernel} {e : Slot} (he : Target c s e)
    (hL : ∀ a, a.OfDestroy c s e → L a) :
    (envDestroy c s e).Ensures (Returns c L s) (Exit.Path c L s) := by
  unfold envDestroy
  split
  · next h => exact ensures_ok.mpr ⟨.single (hL (.dying e) (.inl rfl)) (.dying h.1 h.2), rfl⟩
  · next h =>
      refine (envFree_path he ?_ hL).bind fun s' ⟨hcur, hpath⟩ => ?_
      · intro hrun
        by_contra hcur
        exact h ⟨hrun, hcur⟩
      · split
        · next hself =>
            rw [forget, if_pos hself] at hpath
            exact ensures_error.mpr (schedYield_none_path.after hpath)
        · next hself =>
            rw [forget_eq_self hself] at hpath
            exact ensures_pure.mpr ⟨hpath, hcur⟩

end JosSched
