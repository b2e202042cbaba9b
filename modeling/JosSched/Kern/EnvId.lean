import JosSched.Kern.EnvTable
import JosSched.Kern.Replay
import Mathlib.Data.List.Induction

/-!
# The ids of a slot

`env_alloc` makes the id of an environment from the slot and a generation, which it gets by adding
`1 << ENVGENSHIFT` to the last id of the slot.  The sum wraps around in 32 bits; when it is not
positive any more the generations start over.  So a slot hands out `2 ^ 19 - 1` different ids, and
then the same ones again.

An id of an environment that is gone is therefore safe to keep for as long as its slot has been
given away fewer times than that: `envid2env` rejects it, because the slot is free or has another
id.
-/

namespace JosSched

variable {c : Cpu} {s s₀ s₁ s' : Kernel} {e t : Slot} {id : Word} {a : Act}

/-- The number of ids that a slot has. -/
abbrev ENV_GENERATIONS : ℕ := 2 ^ 19 - 1

/-- The id of slot `e` with generation `k`. -/
def genId (e : Slot) (k : ℕ) : Word := BitVec.ofNat 32 (k * 4096 + e.val)

/-- The id that the allocation number `i` of slot `e` issues, counted from zero. -/
def nthId (e : Slot) (i : ℕ) : Word := genId e (i % ENV_GENERATIONS + 1)

/-! ## The next generation -/

/-- `w & ~(NENV - 1)` clears the slot. -/
theorem toNat_generation (w : Word) :
    (w &&& ~~~(1023 : Word)).toNat = w.toNat - w.toNat % 1024 := by
  have hmask : (1023 : Word) &&& ~~~(1023 : Word) = 0 := BitVec.and_not_self _
  have hdisjoint : (w &&& 1023) &&& (w &&& ~~~(1023 : Word)) = 0 := by
    have hzero : (0 : Word) &&& w = 0 := BitVec.zero_and
    rw [BitVec.and_assoc, BitVec.and_comm w (~~~1023), ← BitVec.and_assoc 1023, hmask, hzero]
    exact BitVec.and_zero
  have hsum : (w &&& 1023) + (w &&& ~~~(1023 : Word)) = w := by
    rw [BitVec.add_eq_or_of_and_eq_zero _ _ hdisjoint, ← BitVec.and_or_distrib_left,
      BitVec.or_not_self, BitVec.and_allOnes]
  have hslot : (w &&& 1023).toNat = w.toNat % 1024 := by
    rw [BitVec.toNat_and]
    exact Nat.and_two_pow_sub_one_eq_mod w.toNat 10
  have hle : (w &&& 1023) ≤ w := by
    rw [BitVec.le_def, hslot]
    exact Nat.mod_le _ _
  rw [← hslot, ← BitVec.toNat_sub_of_le hle]
  exact congrArg BitVec.toNat (BitVec.eq_sub_iff_add_eq.mpr ((BitVec.add_comm _ _).trans hsum))

theorem toNat_genId {k : ℕ} (hk : k < 2 ^ 19) (e : Slot) :
    (genId e k).toNat = k * 4096 + e.val := by
  have he : e.val < 1024 := e.isLt
  rw [genId, BitVec.toNat_ofNat]
  omega

/-- The generation of an id counts up, from the last one back to the first. -/
theorem nextEnvId_of_generation {old : Word} {k r : ℕ} (hold : old.toNat = k * 4096 + r)
    (hk : k < 2 ^ 19) (hr : r < 1024) (e : Slot) :
    nextEnvId e old = genId e (if k + 1 < 2 ^ 19 then k + 1 else 1) := by
  have he : e.val < 1024 := e.isLt
  have hslot : (BitVec.ofNat 32 e.val).toNat = e.val := by
    rw [BitVec.toNat_ofNat]
    omega
  have hone : ((1 : Word) <<< 12).toNat = 4096 := by decide
  have hgen : ((old + (1 : Word) <<< 12) &&& ~~~(1023 : Word)).toNat = (k + 1) * 4096 := by
    rw [toNat_generation, BitVec.toNat_add, hone, hold]
    omega
  have hor : ∀ (g : Word) (n : ℕ), g.toNat = n * 4096 →
      g ||| BitVec.ofNat 32 e.val = genId e n := by
    intro g n hg
    have hlt := g.isLt
    have hbits : n <<< 12 + e.val = n <<< 12 ||| e.val :=
      Nat.shiftLeft_add_eq_or_of_lt (he.trans (by decide)) n
    rw [Nat.shiftLeft_eq] at hbits
    apply BitVec.eq_of_toNat_eq
    rw [BitVec.toNat_or, hg, hslot, genId, BitVec.toNat_ofNat, ← hbits]
    omega
  unfold nextEnvId
  dsimp only
  have htoInt := BitVec.toInt_eq_toNat_cond ((old + (1 : Word) <<< 12) &&& ~~~(1023 : Word))
  rw [hgen] at htoInt
  by_cases hlast : k + 1 < 2 ^ 19
  · rw [if_pos hlast, if_neg, hor _ _ hgen]
    split at htoInt <;> omega
  · rw [if_neg hlast, if_pos, hor _ 1 hone]
    split at htoInt <;> omega

theorem nextEnvId_zero (e : Slot) : nextEnvId e 0 = nthId e 0 := by
  have hzero : (0 : Word).toNat = 0 * 4096 + 0 := rfl
  rw [nextEnvId_of_generation hzero (by decide) (by decide), nthId]
  rfl

theorem nextEnvId_nthId (e : Slot) (i : ℕ) : nextEnvId e (nthId e i) = nthId e (i + 1) := by
  have hlt : i % ENV_GENERATIONS < ENV_GENERATIONS := Nat.mod_lt _ (by decide)
  have hk : i % ENV_GENERATIONS + 1 < 2 ^ 19 := Nat.add_lt_of_lt_sub hlt
  rw [nthId, nextEnvId_of_generation (toNat_genId hk e) hk e.isLt, nthId]
  congr 1
  unfold ENV_GENERATIONS
  split <;> omega

/-- The ids of a slot repeat with this period and no shorter one. -/
theorem nthId_inj {i j : ℕ} :
    nthId e i = nthId e j ↔ i % ENV_GENERATIONS = j % ENV_GENERATIONS := by
  have hk : ∀ i, i % ENV_GENERATIONS + 1 < 2 ^ 19 := fun i =>
    Nat.add_lt_of_lt_sub (Nat.mod_lt _ (by decide))
  rw [← BitVec.toNat_inj, nthId, nthId, toNat_genId (hk i), toNat_genId (hk j)]
  omega

/-! ## The life of a slot -/

/-- What happens to a slot: it is allocated with this id, it is freed, or something else happens. -/
inductive SlotEvent where
  | alloc (id : Word)
  | free
  | other

/-- One operation, as slot `e` sees it.  `env_free` keeps the id; whatever else is done to the slot,
or to others, leaves a free slot free. -/
inductive SlotStep (e : Slot) : Kernel → SlotEvent → Kernel → Prop
  | alloc {s s' : Kernel} {parentId : Word} : envAlloc s parentId = .ok (.ok e, s') →
      SlotStep e s (.alloc (s'.envs e).envId) s'
  | free {s s' : Kernel} : (s'.envs e).envId = (s.envs e).envId → (s'.envs e).envStatus = .free →
      SlotStep e s .free s'
  | other {s s' : Kernel} : (s'.envs e).envId = (s.envs e).envId →
      ((s.envs e).envStatus = .free → (s'.envs e).envStatus = .free) → SlotStep e s .other s'

def SlotEvent.issues : SlotEvent → Option Word
  | .alloc id => some id
  | .free | .other => none

/-- The ids that the slot was given, in order. -/
def issued (evs : List SlotEvent) : List Word := evs.filterMap SlotEvent.issues

theorem issued_append (evs evs' : List SlotEvent) :
    issued (evs ++ evs') = issued evs ++ issued evs' := List.filterMap_append

/-- The id of a slot that has been allocated `n` times. -/
def idAfter (e : Slot) (n : ℕ) : Word := if n = 0 then 0 else nthId e (n - 1)

theorem nextEnvId_idAfter (e : Slot) (n : ℕ) : nextEnvId e (idAfter e n) = nthId e n := by
  cases n with
  | zero => exact nextEnvId_zero e
  | succ n => exact nextEnvId_nthId e n

theorem envAlloc_envId {parentId : Word} (h : envAlloc s parentId = .ok (.ok e, s')) :
    (s'.envs e).envId = nextEnvId e (s.envs e).envId := by
  obtain ⟨p, m, -, -, rfl⟩ := envAlloc_eq_ok h
  simp [initEnv]

theorem envAlloc_used {parentId : Word} (h : envAlloc s parentId = .ok (.ok e, s')) :
    (s'.envs e).envStatus ≠ .free := by
  obtain ⟨p, m, -, -, rfl⟩ := envAlloc_eq_ok h
  simp [initEnv]

/-- The ids come in their order, and the slot has the last one. -/
theorem issued_eq {evs : List SlotEvent} (hzero : (s.envs e).envId = 0)
    (hrun : Trace (SlotStep e) s evs s') :
    issued evs = (List.range (issued evs).length).map (nthId e) ∧
      (s'.envs e).envId = idAfter e (issued evs).length := by
  induction hrun with
  | nil => exact ⟨rfl, hzero⟩
  | @snoc evs ev s₁ s₂ _ hstep ih =>
      obtain ⟨hall, hlast⟩ := ih
      rw [issued_append]
      cases hstep with
      | alloc halloc =>
          have hid : (s₂.envs e).envId = nthId e (issued evs).length := by
            rw [envAlloc_envId halloc, hlast, nextEnvId_idAfter]
          have hone : issued [SlotEvent.alloc (s₂.envs e).envId] = [(s₂.envs e).envId] := rfl
          rw [hone, List.length_append, List.length_singleton, List.range_succ, List.map_append,
            ← hall, hid]
          exact ⟨rfl, rfl⟩
      | free hid _ | other hid _ =>
          have hnone : issued [SlotEvent.free] = [] ∧ issued [SlotEvent.other] = [] := ⟨rfl, rfl⟩
          first | rw [hnone.1] | rw [hnone.2]
          rw [List.append_nil, hid]
          exact ⟨hall, hlast⟩

/-- A slot that was freed is free until it is allocated again. -/
theorem free_of_freed {evs : List SlotEvent} (hfree : (s.envs e).envStatus = .free)
    (hrun : Trace (SlotStep e) s evs s') (hnone : issued evs = []) :
    (s'.envs e).envStatus = .free := by
  induction hrun with
  | nil => exact hfree
  | @snoc evs ev s₁ s₂ _ hstep ih =>
      rw [issued_append, List.append_eq_nil_iff] at hnone
      cases hstep with
      | alloc => cases hnone.2
      | free _ hst => exact hst
      | other _ hst => exact hst (ih hnone.1)

/-! ## Fresh ids -/

/-- The ids that a slot is given are positive, name the slot, and repeat with period
`ENV_GENERATIONS` exactly. -/
structure IdsFresh (e : Slot) (ids : List Word) : Prop where
  positive : ∀ id ∈ ids, 0 < id.toInt
  slot : ∀ id ∈ ids, envx id = e
  fresh : ∀ (i j : ℕ) (hi : i < ids.length) (hj : j < ids.length), i < j →
    j - i ≤ ENV_GENERATIONS - 1 → ids[j] ≠ ids[i]
  period : ∀ (i : ℕ) (hi : i + ENV_GENERATIONS < ids.length), ids[i + ENV_GENERATIONS] = ids[i]

theorem idsFresh_range (e : Slot) (n : ℕ) : IdsFresh e ((List.range n).map (nthId e)) := by
  have hnext : ∀ id ∈ (List.range n).map (nthId e), ∃ old, id = nextEnvId e old := by
    intro id hid
    obtain ⟨i, -, rfl⟩ := List.mem_map.mp hid
    exact ⟨_, (nextEnvId_idAfter e i).symm⟩
  refine ⟨fun id hid => ?_, fun id hid => ?_, fun i j hi hj hlt hle => ?_, fun i hi => ?_⟩
  · obtain ⟨old, rfl⟩ := hnext id hid
    exact nextEnvId_pos e old
  · obtain ⟨old, rfl⟩ := hnext id hid
    exact envx_nextEnvId e old
  · rw [List.getElem_map, List.getElem_map, List.getElem_range, List.getElem_range, ne_eq,
      nthId_inj]
    unfold ENV_GENERATIONS at hle ⊢
    omega
  · rw [List.getElem_map, List.getElem_map, List.getElem_range, List.getElem_range, nthId_inj]
    exact Nat.add_mod_right ..

/-- A slot with another id, or a free one, is not found. -/
theorem envid2env_stale {checkperm : Bool} (hne : id ≠ 0) (hslot : envx id = e)
    (hstale : (s.envs e).envStatus = .free ∨ (s.envs e).envId ≠ id) :
    envid2env c s id checkperm = .error (-E_BAD_ENV) := by
  unfold envid2env
  rw [if_neg hne]
  dsimp only
  rw [hslot]
  exact if_pos hstale

/-- An environment is gone, and its slot has been given away again fewer times than it has ids. -/
structure Stale (evs : List SlotEvent) (id : Word) : Prop where
  freed : ∃ before life after : List SlotEvent,
    evs = before ++ .alloc id :: (life ++ .free :: after) ∧
      (issued (life ++ after)).length ≤ ENV_GENERATIONS - 1

/-- The number of an id, and of the id that the slot has now. -/
theorem number_of_issued {evs before after : List SlotEvent} (hzero : (s.envs e).envId = 0)
    (hrun : Trace (SlotStep e) s evs s') (hevs : evs = before ++ .alloc id :: after) :
    id = nthId e (issued before).length ∧
      (s'.envs e).envId = nthId e ((issued before).length + (issued after).length) := by
  obtain ⟨hall, hlast⟩ := issued_eq hzero hrun
  have hissued : issued evs = issued before ++ id :: issued after := by
    rw [hevs, issued_append]
    rfl
  rw [hissued, List.length_append, List.length_cons] at hlast
  refine ⟨?_, hlast⟩
  have hat := congrArg (·[(issued before).length]?) hall
  rw [hissued] at hat
  simpa using hat

theorem nthId_ne_zero (e : Slot) (i : ℕ) : nthId e i ≠ 0 := fun hzero => by
  have hpos := nextEnvId_pos e (idAfter e i)
  rw [nextEnvId_idAfter, hzero] at hpos
  exact absurd hpos (by decide)

theorem envx_nthId (e : Slot) (i : ℕ) : envx (nthId e i) = e := by
  rw [← nextEnvId_idAfter]
  exact envx_nextEnvId e _

theorem stale_rejected {evs : List SlotEvent} {checkperm : Bool} (hzero : (s.envs e).envId = 0)
    (hrun : Trace (SlotStep e) s evs s') (hstale : Stale evs id) :
    envid2env c s' id checkperm = .error (-E_BAD_ENV) := by
  obtain ⟨before, life, after, rfl, hle⟩ := hstale.freed
  obtain ⟨hid, hcurrent⟩ := number_of_issued hzero hrun rfl
  have hcount : issued (life ++ .free :: after) = issued (life ++ after) := by
    rw [issued_append, issued_append]
    rfl
  rw [hcount] at hcurrent
  refine envid2env_stale (hid ▸ nthId_ne_zero e _) (hid ▸ envx_nthId e _) ?_
  by_cases hagain : issued (life ++ after) = []
  · -- nobody has had the slot since
    rw [issued_append, List.append_eq_nil_iff] at hagain
    have hcut : before ++ .alloc id :: (life ++ .free :: after) =
        (before ++ .alloc id :: life) ++ [.free] ++ after := by simp
    rw [hcut] at hrun
    obtain ⟨s₂, hfirst, hafter⟩ := Trace.of_append hrun
    obtain ⟨s₁, -, hfree⟩ := Trace.of_snoc hfirst
    cases hfree with
    | free _ hst => exact .inl (free_of_freed hst hafter hagain.2)
  · have hpos : 0 < (issued (life ++ after)).length := List.length_pos_iff.mpr hagain
    refine .inr fun heq => ?_
    rw [hcurrent, hid, nthId_inj] at heq
    unfold ENV_GENERATIONS at hle heq
    omega

/-- The slot has the old id again when it has been given away as many times as it has ids. -/
theorem old_id_found {evs before after : List SlotEvent} (hzero : (s.envs e).envId = 0)
    (hrun : Trace (SlotStep e) s evs s') (hevs : evs = before ++ .alloc id :: after)
    (hlen : (issued after).length = ENV_GENERATIONS) (halive : (s'.envs e).envStatus ≠ .free) :
    envid2env c s' id false = .ok e := by
  obtain ⟨hid, hcurrent⟩ := number_of_issued hzero hrun hevs
  have hsame : (s'.envs e).envId = id := by
    rw [hcurrent, hid, hlen, nthId_inj]
    exact Nat.add_mod_right ..
  have hfound : ¬ ((s'.envs e).envStatus = .free ∨ (s'.envs e).envId ≠ id) :=
    not_or.mpr ⟨halive, not_not.mpr hsame⟩
  have hslot : envx id = e := hid ▸ envx_nthId e _
  unfold envid2env
  rw [if_neg (hid ▸ nthId_ne_zero e _)]
  dsimp only
  rw [hslot, if_neg hfound]
  cases s'.curenv c with
  | none => rfl
  | some cur => exact if_neg fun hand => absurd hand.1 Bool.false_ne_true

/-- For every slot and every sequence of allocations and releases of it, the ids are fresh for as
long as they can be, and until then `envid2env` rejects an id whose environment is gone. -/
theorem env_ids_fresh {evs : List SlotEvent} (hzero : (s.envs e).envId = 0)
    (hrun : Trace (SlotStep e) s evs s') :
    IdsFresh e (issued evs) ∧
      (∀ id, Stale evs id → ∀ (c : Cpu) (checkperm : Bool),
        envid2env c s' id checkperm = .error (-E_BAD_ENV)) ∧
      ∀ (before after : List SlotEvent) (id : Word), evs = before ++ .alloc id :: after →
        (issued after).length = ENV_GENERATIONS → (s'.envs e).envStatus ≠ .free →
          ∀ c : Cpu, envid2env c s' id false = .ok e := by
  refine ⟨?_, fun id hstale c checkperm => stale_rejected hzero hrun hstale,
    fun before after id hevs hlen halive c => old_id_found hzero hrun hevs hlen halive⟩
  rw [(issued_eq hzero hrun).1]
  exact idsFresh_range e _

/-- What the first call of `env_alloc` gives, if it goes through. -/
def firstAlloc (s : Kernel) : Option (Slot × Kernel) :=
  match envAlloc s 0 with
  | .ok (.ok e, s') => some (e, s')
  | _ => none

theorem envAlloc_of_firstAlloc (h : firstAlloc s = some (e, s')) :
    envAlloc s 0 = .ok (.ok e, s') := by
  unfold firstAlloc at h
  split at h
  · next halloc =>
      cases h
      exact halloc
  · cases h

/-- The first environment is created and freed, and its slot is given away again: the old id is
refused, and the new one names the slot. -/
theorem env_ids_fresh_again : ∃ s, Trace (SlotStep 0) (bootedMachine .roundRobin 64)
    [.alloc 0x1000, .free, .alloc 0x2000] s ∧ IdsFresh 0 [0x1000, 0x2000] ∧
    envid2env 0 s 0x1000 false = .error (-E_BAD_ENV) ∧ envid2env 0 s 0x2000 false = .ok 0 := by
  have heval : (firstAlloc (bootedMachine .roundRobin 64)).any (fun p =>
      decide (p.1 = 0 ∧ (p.2.envs 0).envId = 0x1000) &&
      (envFree 0 p.2 0).toOption.any fun s₂ =>
        decide ((s₂.envs 0).envId = 0x1000 ∧ (s₂.envs 0).envStatus = .free) &&
        (firstAlloc s₂).any fun q => decide (q.1 = 0 ∧ (q.2.envs 0).envId = 0x2000 ∧
          envid2env 0 q.2 0x2000 false = .ok 0)) = true := by
    decide +kernel
  obtain ⟨⟨e₁, s₁⟩, halloc, h₁⟩ := (Option.any_eq_true _ _).mp heval
  rw [Bool.and_eq_true, decide_eq_true_iff] at h₁
  obtain ⟨⟨rfl, hid₁⟩, hfree⟩ := h₁
  obtain ⟨s₂, -, h₂⟩ := (Option.any_eq_true _ _).mp hfree
  rw [Bool.and_eq_true, decide_eq_true_iff] at h₂
  obtain ⟨⟨hid₂, hst⟩, hagain⟩ := h₂
  obtain ⟨⟨e₃, s₃⟩, halloc', h₃⟩ := (Option.any_eq_true _ _).mp hagain
  obtain ⟨rfl, hid₃, hfound⟩ := of_decide_eq_true h₃
  have hrun : Trace (SlotStep 0) (bootedMachine .roundRobin 64)
      [.alloc (s₁.envs 0).envId, .free, .alloc (s₃.envs 0).envId] s₃ :=
    ((Trace.single (.alloc (envAlloc_of_firstAlloc halloc))).snoc
      (.free (hid₂.trans hid₁.symm) hst)).snoc (.alloc (envAlloc_of_firstAlloc halloc'))
  rw [hid₁, hid₃] at hrun
  obtain ⟨hfresh, hstale, -⟩ := env_ids_fresh rfl hrun
  exact ⟨s₃, hrun, hfresh, hstale 0x1000 ⟨[], [], [.alloc 0x2000], rfl, by decide⟩ 0 false, hfound⟩

/-! ## The slots of a machine -/

theorem slotStep_modEnv {f : Env → Env} (hid : ∀ env, (f env).envId = env.envId)
    (hst : (s.envs t).envStatus = .free → (f (s.envs t)).envStatus = .free) (e : Slot) :
    SlotStep e s .other (s.modEnv t f) := by
  refine .other (modEnv_proj Env.envId hid) fun hfree => ?_
  by_cases het : e = t
  · rw [het] at hfree ⊢
    rw [Kernel.modEnv_self]
    exact hst hfree
  · rw [Kernel.modEnv_ne _ _ het]
    exact hfree

theorem slotStep_of_envs (henvs : s'.envs = s.envs) (e : Slot) : SlotStep e s .other s' :=
  .other (congrArg (fun envs => (envs e).envId) henvs) fun hfree => by rwa [henvs]

/-- Taking a slot is an allocation of it, and nothing to the other slots. -/
theorem Micro.slotSteps_of_takes {parentId : Word} (hm : Micro c a s s') (ha : a.Takes t)
    (halloc : envAlloc s parentId = .ok (.ok t, s₁)) (e : Slot) :
    ∃ evs, Trace (SlotStep e) s evs s' := by
  by_cases het : e = t
  · obtain rfl := het
    have hid : (s'.envs e).envId = (s₁.envs e).envId :=
      (hm.id_of_takes ha).trans (envAlloc_envId halloc).symm
    have hused : (s₁.envs e).envStatus ≠ .free :=
      envAlloc_used halloc
    exact ⟨_, (Trace.single (.alloc halloc)).snoc (.other hid fun hst => absurd hst hused)⟩
  · have hsame := (hm.frame_of_takes ha).1 e het
    exact ⟨_, Trace.single (.other (congrArg Env.envId hsame) fun hst => by rwa [hsame])⟩

theorem slotStep_freed {m : Mem} (c : Cpu) (s : Kernel) (t e : Slot) :
    ∃ ev, SlotStep e s ev (forget c (freed c s t m) t) := by
  by_cases het : e = t
  · refine ⟨_, .free ?_ ?_⟩ <;> rw [het, forget_envs, freed_envs_self]
  · refine ⟨_, .other ?_ fun hst => ?_⟩ <;> rw [forget_envs, freed_envs_ne het]
    exact hst

/-- What one CPU does inside the kernel is a sequence of operations on each slot. -/
theorem Micro.slotSteps (hm : Micro c a s s') (htabled : Tabled c s) (e : Slot) :
    ∃ evs, Trace (SlotStep e) s evs s' := by
  -- an operation that does not touch the id of the slot
  have hother : SlotStep e s .other s' → ∃ evs, Trace (SlotStep e) s evs s' :=
    fun hstep => ⟨_, .single hstep⟩
  cases hm with
  | create halloc => exact (Micro.create (c := c) halloc).slotSteps_of_takes rfl halloc e
  | exofork hcur halloc => exact (Micro.exofork hcur halloc).slotSteps_of_takes rfl halloc e
  | thread h₁ h₂ h₃ halloc h₅ h₆ h₇ =>
      exact (Micro.thread h₁ h₂ h₃ halloc h₅ h₆ h₇).slotSteps_of_takes rfl halloc e
  | freeThread _ _ _ hfree =>
      obtain ⟨pgdir, m, -, -, rfl⟩ := envFreeThread_eq_ok hfree
      obtain ⟨ev, hstep⟩ := slotStep_freed c s _ e
      exact ⟨[ev], .single hstep⟩
  | freeProcess _ _ _ _ hfree =>
      obtain ⟨pgdir, m₁, m, -, -, -, rfl⟩ := envFreeProcess_eq_ok hfree
      obtain ⟨ev, hstep⟩ := slotStep_freed c s _ e
      exact ⟨[ev], .single hstep⟩
  | tick =>
      refine hother (.other (wakeup_proj Env.envId fun _ => rfl) fun hst => ?_)
      exact wakeup_free_iff.mpr hst
  | start | pageNew | pageShare | pageDrop | kstore =>
      refine hother (slotStep_of_envs ?_ e)
      rfl
  | save | ret | redirect | ipcPerm | recving | priority | upcall | entry =>
      refine hother (slotStep_modEnv ?_ ?_ e)
      · exact fun _ => rfl
      · exact fun hst => hst
  | dying hrun _ =>
      refine hother (slotStep_modEnv ?_ ?_ e)
      · exact fun _ => rfl
      · intro hst
        rw [hrun] at hst
        cases hst
  | status _ htarget _ | deliver _ htarget _ =>
      refine hother (slotStep_modEnv ?_ ?_ e)
      · exact fun _ => rfl
      · exact fun hst => absurd hst (htabled.ne_free_of_target htarget)
  | block hcur _ | sleep hcur _ =>
      refine hother (slotStep_modEnv ?_ ?_ e)
      · exact fun _ => rfl
      · exact fun hst => absurd hst (htabled.own _ hcur)

theorem Ran.slotStep (hran : Ran c s t s') (ht : (s.envs t).envStatus ≠ .free) (e : Slot) :
    SlotStep e s .other s' := by
  refine .other (hran.proj Env.envId fun _ _ _ _ => rfl) fun hst => ?_
  have het : e ≠ t := fun heq => ht (heq ▸ hst)
  have hother : ¬ (s.curenv c = some e ∧ (s.envs e).envStatus = .running) := fun hand => by
    rw [hst] at hand
    cases hand.2
  rw [hran.envs]
  exact (if_neg het).trans ((if_neg hother).trans hst)

theorem Departs.slotSteps {L : Act → Prop} (hdep : Departs c L s s') (htabled : Tabled c s)
    (e : Slot) : ∃ evs, Trace (SlotStep e) s evs s' := by
  rcases hdep.cases with hdec | ⟨t, hcur, hran⟩
  · have hsame : ∀ {s₁}, SameButWait s s₁ → SlotStep e s .other s₁ := fun hsame => by
      refine .other ?_ fun hst => ?_ <;> rw [hsame.envs e]
      exact hst
    cases hdec with
    | @ran s₁ _ t hwait ht hran =>
        have hused : (s₁.envs t).envStatus ≠ .free := by
          rw [hwait.envs t]
          rcases ht with ht | ⟨-, ht⟩ <;>
          · rw [ht]
            exact EnvStatus.noConfusion
        exact ⟨_, (Trace.single (hsame hwait)).snoc (hran.slotStep hused e)⟩
    | @halted s₁ hwait =>
        have hhalt : SlotStep e s₁ .other (halted c s₁) := by
          refine slotStep_of_envs ?_ e
          rfl
        exact ⟨_, (Trace.single (hsame hwait)).snoc hhalt⟩
  · exact ⟨_, .single (hran.slotStep (htabled.own t hcur) e)⟩

/-- What holds at the start of a step of one CPU, and is kept by all that CPU does, holds at its
end. -/
theorem CpuStep.invariant {I : Kernel → Prop} {ev : Event} (hstep : CpuStep c s ev s') (h : I s)
    (hmicro : ∀ a s s', Micro c a s s' → I s → I s')
    (hdeparts : ∀ L s s', Departs c L s s' → I s → I s')
    (hstore : ∀ s m, I s → I (s.setMem m)) : I s' := by
  obtain ⟨⟨-, hexec⟩, hby⟩ := hstep
  have hexit : ∀ {L : Act → Prop} {x : Exit}, x.Path c L s → x = .leave s' → I s' :=
    fun hpath hx => hpath.invariant hx h (fun a s s' _ => hmicro a s s') fun s s' => hdeparts _ s s'
  cases ev with
  | boot binary =>
      obtain ⟨e, -, hpath⟩ := envCreate_path (c := c) (envCreate_eq_ok hexec)
      exact hpath.invariant h fun a s s' _ => hmicro a s s'
  | start d =>
      obtain rfl := hby
      exact hexit (mpMain_path s) hexec
  | timer d =>
      obtain rfl := hby
      exact hexit (trapHalted_path s) hexec
  | trap d inp tf =>
      obtain rfl := hby
      exact hexit (trap_path s inp tf) hexec
  | store d va byte =>
      obtain ⟨m, rfl⟩ := store_eq_setMem hexec
      exact hstore s m h

/-- A run of one CPU is a sequence of operations on each slot, which starts with id zero. -/
theorem slotSteps_of_run {evs : List Event} (hboot : Booted s₀) (hrun : Trace (CpuStep c) s₀ evs s)
    (e : Slot) : (s₀.envs e).envId = 0 ∧ ∃ sevs, Trace (SlotStep e) s₀ sevs s := by
  have hzero : (s₀.envs e).envId = 0 := by rw [hboot.envs]
  refine ⟨hzero, ?_⟩
  have hinv := hrun.invariant (I := fun s => Tabled c s ∧ ∃ sevs, Trace (SlotStep e) s₀ sevs s)
    ⟨tabled_booted hboot, [], .nil⟩ fun s ev s' hs hstep => ?_
  · exact hinv.2
  · refine hstep.invariant
      (I := fun s => Tabled c s ∧ ∃ sevs, Trace (SlotStep e) s₀ sevs s) hs ?_ ?_
      fun s m h => ?_
    · rintro a s s' hm ⟨htabled, sevs, hbefore⟩
      obtain ⟨sevs', hafter⟩ := hm.slotSteps htabled e
      exact ⟨htabled.micro hm, _, hbefore.trans hafter⟩
    · rintro L s s' hdep ⟨htabled, sevs, hbefore⟩
      obtain ⟨sevs', hafter⟩ := hdep.slotSteps htabled e
      exact ⟨htabled.departs hdep, _, hbefore.trans hafter⟩
    · obtain ⟨htabled, sevs, hbefore⟩ := h
      have hstep : SlotStep e s .other (s.setMem m) := by
        refine slotStep_of_envs ?_ e
        rfl
      exact ⟨htabled.of_eq rfl (fun _ he => .inl he) (fun _ => rfl) (fun _ => rfl) fun _ => Iff.rfl,
        _, hbefore.snoc hstep⟩

end JosSched
