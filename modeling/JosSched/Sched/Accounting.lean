import JosSched.Sched.Turns
import JosSched.Sched.Choice
import JosSched.Kern.EnvTable

/-!
# Accounting of CPU time

The kernel does not charge a tick when it arrives.  `sched_run` writes down who runs and since when,
and the next decision charges the time that has passed (`sched_account_cputicks`), to the record of
the slot and to the priority; a record whose slot has been given away is printed first.

On one CPU every clock interrupt of a running environment leads to a decision at once, so at each
decision there is at most one tick to charge, and it is charged to the environment that was running
(`Charged`).  This breaks down when the CPU halts: `sched_halt` neither charges what has passed nor
forgets who ran, and the ticks for which everybody sleeps are charged to whoever ran last.

A run counts for itself the clock interrupts of each environment, and of each priority at which it
was picked (`Tally`).
-/

namespace JosSched

variable {c : Cpu} {s s₁ s' : Kernel} {st : SchedStats} {e t : Slot} {ev : Event} {prio : Word}

/-- The clock interrupts that arrived while an environment was running: for each id, and for each
base priority at which it had been picked.  `picked` is the one of the current environment. -/
structure Tally where
  byEnv : Word → ℕ := fun _ => 0
  byPrio : Word → ℕ := fun _ => 0
  picked : Word := 0

/-- The ticks that a record reports for `id`. -/
def EnvStat.ticksOf (r : EnvStat) (id : Word) : ℕ := if r.envId = id then r.cputicks.toNat else 0

/-- The ticks reported for `id`: on the lines of recycled slots, and in the table. -/
def reported (st : SchedStats) (id : Word) : ℕ :=
  (st.recycled.map fun r => r.ticksOf id).sum + (st.schedEnvStats (envx id)).ticksOf id

/-- The statistics report what the run has counted. -/
structure Balanced (st : SchedStats) (g : Tally) : Prop where
  byEnv : ∀ id, reported st id = g.byEnv id
  byPrio : ∀ p : Fin NPRIORITIES, (st.schedPrioTicks p).toNat = g.byPrio (BitVec.ofNat 32 p)

/-- No counter is about to overflow. -/
structure Roomy (st : SchedStats) : Prop where
  runs : ∀ i, (st.schedEnvStats i).runs.toNat + 1 < 2 ^ 32
  cputicks : ∀ i, (st.schedEnvStats i).cputicks.toNat + 1 < 2 ^ 32
  prioTicks : ∀ p, (st.schedPrioTicks p).toNat + 1 < 2 ^ 32

/-- The records of the table are in the slots that their ids name, and the one of the environment
that runs is there. -/
structure Ledger (st : SchedStats) : Prop where
  named : ∀ i, (st.schedEnvStats i).envId ≠ 0 → envx (st.schedEnvStats i).envId = i
  blank : ∀ i, (st.schedEnvStats i).envId = 0 → (st.schedEnvStats i).cputicks = 0
  chosen : ∀ i, (st.schedEnvStats i).envId ≠ 0 → 0 < (st.schedEnvStats i).runs
  running : st.schedRunningId ≠ 0 →
    (st.schedEnvStats (envx st.schedRunningId)).envId = st.schedRunningId ∧
      st.schedRunningPrio.toNat < NPRIORITIES

/-- The ticks not charged yet. -/
def pending (st : SchedStats) (ticks : Word) : ℕ :=
  if st.schedRunningId = 0 then 0 else (ticks - st.schedRunningSince).toNat

/-- With the ticks that are still to be charged, the statistics report what the run has counted. -/
structure Owed (st : SchedStats) (ticks : Word) (g : Tally) : Prop extends Ledger st where
  room : Roomy st
  pending_le : pending st ticks ≤ 1
  byEnv : ∀ id, reported st id + (if id = st.schedRunningId then pending st ticks else 0) =
    g.byEnv id
  byPrio : ∀ p : Fin NPRIORITIES, (st.schedPrioTicks p).toNat +
    (if BitVec.ofNat 32 p = st.schedRunningPrio then pending st ticks else 0) =
      g.byPrio (BitVec.ofNat 32 p)

/-! ## Charging -/

/-- What `sched_account_cputicks` does to the statistics. -/
theorem schedAccountCputicks_stats (hrun : s.stats.schedRunningId ≠ 0)
    (hprio : s.stats.schedRunningPrio.toNat < NPRIORITIES) :
    (schedAccountCputicks s).stats = { s.stats with
      schedEnvStats := Function.update s.stats.schedEnvStats (envx s.stats.schedRunningId)
        { s.stats.schedEnvStats (envx s.stats.schedRunningId) with
          cputicks := (s.stats.schedEnvStats (envx s.stats.schedRunningId)).cputicks +
            (s.ticks - s.stats.schedRunningSince) }
      schedPrioTicks := Function.update s.stats.schedPrioTicks ⟨_, hprio⟩
        (s.stats.schedPrioTicks ⟨_, hprio⟩ + (s.ticks - s.stats.schedRunningSince))
      schedRunningId := 0 } := by
  unfold schedAccountCputicks
  dsimp only
  rw [if_neg hrun, dif_pos hprio]
  rfl

theorem toNat_add_of_le_one {a d : Word} (ha : a.toNat + 1 < 2 ^ 32) (hd : d.toNat ≤ 1) :
    (a + d).toNat = a.toNat + d.toNat := by
  rw [BitVec.toNat_add]
  exact Nat.mod_eq_of_lt (by omega)

/-- Charging settles what is owed. -/
theorem Owed.balanced {g : Tally} (h : Owed s.stats s.ticks g) :
    Balanced (schedAccountCputicks s).stats g := by
  by_cases hrun : s.stats.schedRunningId = 0
  · have hsame : schedAccountCputicks s = s := if_pos hrun
    have hnone : pending s.stats s.ticks = 0 := if_pos hrun
    rw [hsame]
    refine ⟨fun id => ?_, fun p => ?_⟩
    · rw [← h.byEnv id, hnone, ite_self, Nat.add_zero]
    · rw [← h.byPrio p, hnone, ite_self, Nat.add_zero]
  · obtain ⟨hid, hprio⟩ := h.running hrun
    have hpending : pending s.stats s.ticks = (s.ticks - s.stats.schedRunningSince).toNat :=
      if_neg hrun
    have hle := h.pending_le
    rw [hpending] at hle
    rw [schedAccountCputicks_stats hrun hprio]
    refine ⟨fun id => ?_, fun p => ?_⟩
    · rw [← h.byEnv id, hpending, reported, reported, Nat.add_assoc]
      congr 1
      dsimp only
      by_cases hslot : envx id = envx s.stats.schedRunningId
      · rw [hslot, Function.update_self, EnvStat.ticksOf, EnvStat.ticksOf, hid]
        by_cases heq : id = s.stats.schedRunningId
        · rw [if_pos heq.symm, if_pos heq.symm, if_pos heq]
          exact toNat_add_of_le_one (h.room.cputicks _) hle
        · have hne := Ne.symm heq
          rw [if_neg hne, if_neg hne, if_neg heq]
      · have hne : id ≠ s.stats.schedRunningId := fun heq => hslot (congrArg envx heq)
        rw [Function.update_of_ne hslot, if_neg hne, Nat.add_zero]
    · rw [← h.byPrio p, hpending]
      dsimp only
      have hiff : BitVec.ofNat 32 p = s.stats.schedRunningPrio ↔
          p = ⟨s.stats.schedRunningPrio.toNat, hprio⟩ := by
        have hp : p.val % 2 ^ 32 = p.val := Nat.mod_eq_of_lt (p.isLt.trans (by decide))
        rw [← BitVec.toNat_inj, BitVec.toNat_ofNat, hp, Fin.ext_iff]
      by_cases heq : p = ⟨s.stats.schedRunningPrio.toNat, hprio⟩
      · rw [if_pos (hiff.mpr heq), ← heq, Function.update_self]
        exact toNat_add_of_le_one (h.room.prioTicks p) hle
      · rw [if_neg (hiff.not.mpr heq), Function.update_of_ne heq, Nat.add_zero]

theorem Ledger.account (h : Ledger s.stats) : Ledger (schedAccountCputicks s).stats ∧
    ∀ i, ((schedAccountCputicks s).stats.schedEnvStats i).runs =
      (s.stats.schedEnvStats i).runs := by
  by_cases hrun : s.stats.schedRunningId = 0
  · have hsame : schedAccountCputicks s = s := if_pos hrun
    rw [hsame]
    exact ⟨h, fun _ => rfl⟩
  · obtain ⟨hid, hprio⟩ := h.running hrun
    rw [schedAccountCputicks_stats hrun hprio]
    have hrec : ∀ i, ∃ ticks, Function.update s.stats.schedEnvStats (envx s.stats.schedRunningId)
        { s.stats.schedEnvStats (envx s.stats.schedRunningId) with
          cputicks := (s.stats.schedEnvStats (envx s.stats.schedRunningId)).cputicks +
            (s.ticks - s.stats.schedRunningSince) } i =
        { s.stats.schedEnvStats i with cputicks := ticks } ∧
        ((s.stats.schedEnvStats i).envId = 0 → ticks = 0) := by
      intro i
      by_cases hi : i = envx s.stats.schedRunningId
      · subst hi
        rw [Function.update_self]
        exact ⟨_, rfl, fun hzero => absurd (hid.symm.trans hzero) hrun⟩
      · rw [Function.update_of_ne hi]
        exact ⟨_, rfl, h.blank i⟩
    refine ⟨⟨fun i => ?_, fun i => ?_, fun i => ?_, fun hzero => absurd rfl hzero⟩, fun i => ?_⟩ <;>
      obtain ⟨ticks, heq, hblank⟩ := hrec i <;> dsimp only <;> rw [heq]
    · exact h.named i
    · exact hblank
    · exact h.chosen i

/-! ## Recording a pick -/

/-- Taking a slot over moves its record to the lines printed, and opens a new one. -/
theorem Balanced.record {g : Tally} {effective : Word}
    (hbal : Balanced (schedAccountCputicks s).stats g) (h : Ledger s.stats) :
    Balanced (schedRecord s e effective).stats g := by
  obtain ⟨hledger, -⟩ := h.account
  unfold schedRecord
  dsimp only [Kernel.setStats_stats]
  generalize (schedAccountCputicks s).stats = st at hbal hledger
  generalize hslot : envx (s.envs e).envId = slot
  refine ⟨fun id => ?_, hbal.byPrio⟩
  rw [← hbal.byEnv id, reported, reported]
  dsimp only
  by_cases hsame : (st.schedEnvStats slot).envId = (s.envs e).envId
  · -- the record goes on
    have hnot : ¬ (st.schedEnvStats slot).envId ≠ (s.envs e).envId := not_not.mpr hsame
    rw [if_neg fun hand => hnot hand.1, if_neg hnot]
    congr 1
    by_cases hi : envx id = slot
    · rw [hi, Function.update_self]
      rfl
    · rw [Function.update_of_ne hi]
  · rw [if_pos hsame]
    -- what the table reports for the slot goes to the line, and the new record starts at zero
    have hline : (List.map (fun r => r.ticksOf id)
        (if (st.schedEnvStats slot).envId ≠ (s.envs e).envId ∧
            (st.schedEnvStats slot).envId ≠ 0 ∧ 0 < (st.schedEnvStats slot).runs then
          st.schedEnvStats slot :: st.recycled else st.recycled)).sum =
        (st.schedEnvStats slot).ticksOf id + (st.recycled.map fun r => r.ticksOf id).sum := by
      by_cases hzero : (st.schedEnvStats slot).envId = 0
      · rw [if_neg fun hand => hand.2.1 hzero, EnvStat.ticksOf, hledger.blank slot hzero]
        split <;> simp
      · rw [if_pos ⟨hsame, hzero, hledger.chosen slot hzero⟩, List.map_cons, List.sum_cons]
    rw [hline]
    by_cases hi : envx id = slot
    · rw [hi, Function.update_self]
      have hfresh : ∀ r : EnvStat, r.cputicks = 0 → r.ticksOf id = 0 := fun r hr => by
        rw [EnvStat.ticksOf, hr]
        exact ite_self _
      refine (congrArg (_ + ·) (hfresh _ ?_)).trans ?_
      · rfl
      · rw [Nat.add_zero, Nat.add_comm]
    · have hother : (st.schedEnvStats slot).ticksOf id = 0 := by
        by_cases hzero : (st.schedEnvStats slot).envId = 0
        · rw [EnvStat.ticksOf, hledger.blank slot hzero]
          exact ite_self _
        · refine if_neg fun heq => hi ?_
          rw [← heq, hledger.named slot hzero]
      rw [Function.update_of_ne hi, hother, Nat.zero_add]

/-- A new record for `id`, which runs from now on. -/
theorem Ledger.of_update {st' : SchedStats} {id : Word} {r : EnvStat} (h : Ledger st)
    (htable : st'.schedEnvStats = Function.update st.schedEnvStats (envx id) r) (hid : r.envId = id)
    (hblank : r.envId = 0 → r.cputicks = 0) (hruns : 0 < r.runs) (hrun : st'.schedRunningId = id)
    (hprio : st'.schedRunningPrio.toNat < NPRIORITIES) : Ledger st' := by
  have hself : st'.schedEnvStats (envx id) = r := by rw [htable, Function.update_self]
  have hother : ∀ i, i ≠ envx id → st'.schedEnvStats i = st.schedEnvStats i := fun i hi => by
    rw [htable, Function.update_of_ne hi]
  refine ⟨fun i hi => ?_, fun i hi => ?_, fun i hi => ?_, fun _ => ?_⟩
  · by_cases hslot : i = envx id
    · rw [hslot, hself, hid]
    · rw [hother i hslot] at hi ⊢
      exact h.named i hi
  · by_cases hslot : i = envx id
    · rw [hslot, hself] at hi ⊢
      exact hblank hi
    · rw [hother i hslot] at hi ⊢
      exact h.blank i hi
  · by_cases hslot : i = envx id
    · rw [hslot, hself]
      exact hruns
    · rw [hother i hslot] at hi ⊢
      exact h.chosen i hi
  · rw [hrun, hself]
    exact ⟨hid, hprio⟩

theorem Ledger.record {effective : Word} (h : Ledger s.stats) (hroom : Roomy s.stats)
    (hprio : (s.envs e).envPriority.toNat < NPRIORITIES) :
    Ledger (schedRecord s e effective).stats := by
  obtain ⟨hledger, hruns⟩ := h.account
  have hroom' := hroom.runs (envx (s.envs e).envId)
  rw [← hruns] at hroom'
  unfold schedRecord
  dsimp only [Kernel.setStats_stats]
  refine hledger.of_update rfl ?_ (fun hzero => ?_) ?_ rfl hprio
  · dsimp only
    split
    · rfl
    · next hsame => exact not_not.mp hsame
  · dsimp only at hzero ⊢
    split at hzero
    · next hne =>
        rw [if_pos hne]
    · next hsame =>
        rw [if_neg hsame]
        exact hledger.blank _ hzero
  · dsimp only
    have hpos : ∀ w : Word, w.toNat + 1 < 2 ^ 32 → 0 < w + 1 := fun w hw => by
      rw [BitVec.lt_def, toNat_add_of_le_one hw (by decide)]
      exact Nat.succ_pos _
    split
    · exact hpos 0 (by decide)
    · exact hpos _ hroom'

theorem schedRecord_running (s : Kernel) (e : Slot) (effective : Word) :
    (schedRecord s e effective).stats.schedRunningId = (s.envs e).envId ∧
      (schedRecord s e effective).stats.schedRunningPrio = (s.envs e).envPriority ∧
      (schedRecord s e effective).stats.schedRunningSince = s.ticks := by
  have hticks : (schedAccountCputicks s).ticks = s.ticks := by
    unfold schedAccountCputicks
    dsimp only
    split <;> rfl
  exact ⟨rfl, rfl, hticks⟩

/-! ## Decisions -/

/-- What holds between two entries into the kernel: nothing is owed, and the environment that runs
is the one that the next decision will charge. -/
structure Charged (c : Cpu) (s : Kernel) (g : Tally) : Prop extends Ledger s.stats where
  balanced : Balanced s.stats g
  settled : pending s.stats s.ticks = 0
  current : ∀ e, s.curenv c = some e → s.stats.schedRunningId = (s.envs e).envId ∧
    s.stats.schedRunningPrio = g.picked

theorem schedIdle_runs {eff : Env → Word} (h : schedIdle c s eff = .leave s') :
    (∃ e prio, schedRun c s e prio = .leave s') ∨ s' = halted c s := by
  unfold schedIdle at h
  split at h
  · split at h
    · exact .inl ⟨_, _, h⟩
    · exact .inr (schedHalt_eq_leave h)
  · exact .inr (schedHalt_eq_leave h)

/-- A decision of either policy calls `sched_run` or halts the CPU. -/
theorem schedYield_runs (h : schedYield c s = .leave s') :
    ∃ s₁, SameButWait s s₁ ∧ s₁.stats = (countCall s).stats ∧
      ((∃ e prio, schedRun c s₁ e prio = .leave s') ∨ s' = halted c s₁) := by
  unfold schedYield at h
  dsimp only at h
  split at h
  · split at h
    · exact ⟨_, sameButWait_countCall, rfl, .inl ⟨_, _, h⟩⟩
    · exact ⟨_, sameButWait_countCall, rfl, schedIdle_runs h⟩
  · split at h
    · exact ⟨_, sameButWait_schedAge, rfl, .inl ⟨_, _, h⟩⟩
    · exact ⟨_, sameButWait_countCall, rfl, schedIdle_runs h⟩

theorem schedHalt_prints {why : Panic} (h : schedHalt c s = .stuck why s') :
    s' = schedAccountCputicks s := by
  unfold schedHalt at h
  split at h
  · cases h
  · cases h
    rfl

/-- The statistics are printed once what is owed has been charged. -/
theorem schedYield_prints (h : schedYield c s = .stuck .noRunnable s') :
    s' = schedAccountCputicks (countCall s) := by
  have hidle : ∀ {eff}, schedIdle c (countCall s) eff = .stuck .noRunnable s' →
      s' = schedAccountCputicks (countCall s) := by
    intro eff h
    unfold schedIdle at h
    split at h
    · split at h
      · exact absurd h schedRun_ne_finished
      · exact schedHalt_prints h
    · exact schedHalt_prints h
  unfold schedYield at h
  dsimp only at h
  split at h
  · split at h
    · exact absurd h schedRun_ne_finished
    · exact hidle h
  · split at h
    · exact absurd h schedRun_ne_finished
    · exact hidle h

theorem Owed.countCall {g : Tally} (h : Owed s.stats s.ticks g) :
    Owed (countCall s).stats (countCall s).ticks g :=
  ⟨⟨h.named, h.blank, h.chosen, h.running⟩, ⟨h.room.runs, h.room.cputicks, h.room.prioTicks⟩,
    h.pending_le, h.byEnv, h.byPrio⟩

theorem Balanced.congr {g g' : Tally} (h : Balanced st g) (henv : g'.byEnv = g.byEnv)
    (hprio : g'.byPrio = g.byPrio) : Balanced st g' :=
  ⟨fun id => henv ▸ h.byEnv id, fun p => hprio ▸ h.byPrio p⟩

/-- A decision charges what is owed and notes whom it picks, unless it halts the CPU. -/
theorem Owed.decide {g g' : Tally} (h : Owed s.stats s.ticks g)
    (hprio : ∀ e, (s.envs e).envPriority ≤ ENV_PRIORITY_MAX)
    (hyield : schedYield c s = .leave s') (henv : g'.byEnv = g.byEnv)
    (hbyPrio : g'.byPrio = g.byPrio)
    (hpicked : ∀ e, s'.curenv c = some e → g'.picked = (s'.envs e).envPriority) :
    (s'.cpus c).cpuStatus = .halted ∨ Charged c s' g' := by
  obtain ⟨s₁, hsame, hstats, ⟨e, prio, hrun⟩ | rfl⟩ := schedYield_runs hyield
  · have hran := schedRun_eq_leave hrun
    have howed : Owed s₁.stats s₁.ticks g := by
      rw [hstats, hsame.ticks]
      exact h.countCall
    have hstats' : s'.stats = (schedRecord s₁ e prio).stats := envRun_stats hrun
    have hsmall : (s₁.envs e).envPriority.toNat < NPRIORITIES := by
      rw [hsame.envs e]
      have hle : (s.envs e).envPriority.toNat ≤ ENV_PRIORITY_MAX.toNat := hprio e
      exact Nat.lt_succ_of_le hle
    obtain ⟨hid, hrunPrio, hsince⟩ := schedRecord_running s₁ e prio
    have henvs : (s'.envs e).envId = (s₁.envs e).envId ∧
        (s'.envs e).envPriority = (s₁.envs e).envPriority :=
      ⟨hran.proj Env.envId fun _ _ _ _ => rfl, hran.proj Env.envPriority fun _ _ _ _ => rfl⟩
    refine .inr ⟨?_, ?_, ?_, fun t ht => ?_⟩
    · rw [hstats']
      exact howed.toLedger.record howed.room hsmall
    · rw [hstats']
      exact (howed.balanced.record howed.toLedger).congr henv hbyPrio
    · rw [hstats', hran.ticks, pending, hsince, BitVec.sub_self]
      exact ite_self _
    · obtain rfl := Option.some.inj (hran.curenv.symm.trans ht)
      rw [hpicked _ ht, hstats', hid, hrunPrio, henvs.1, henvs.2]
      exact ⟨rfl, rfl⟩
  · exact .inl (by simp [halted, Kernel.modCpu])

/-! ## Interrupts -/

/-- Counts the clock interrupt of an environment that is running. -/
def charge (s : Kernel) (ev : Event) (g : Tally) : Tally :=
  match ev with
  | .trap d _ tf =>
      if tf.tfTrapno = IRQ_OFFSET + IRQ_TIMER then
        match s.curenv d with
        | some e =>
            if (s.envs e).envStatus = .running then
              let id := (s.envs e).envId
              { g with
                byEnv := Function.update g.byEnv id (g.byEnv id + 1)
                byPrio := Function.update g.byPrio g.picked (g.byPrio g.picked + 1) }
            else g
        | none => g
      else g
  | _ => g

/-- What a run has counted after the event. -/
def tally (c : Cpu) (s : Kernel) (ev : Event) (s' : Kernel) (g : Tally) : Tally :=
  { charge s ev g with
    picked :=
      if s'.stats.schedCalls = s.stats.schedCalls then g.picked
      else (s'.curenv c).elim g.picked fun e => (s'.envs e).envPriority }

theorem tally_eq {g : Tally} (c : Cpu) (s' : Kernel) (h : charge s ev g = g) :
    (tally c s ev s' g).byEnv = g.byEnv ∧ (tally c s ev s' g).byPrio = g.byPrio := by
  have hbyEnv := congrArg Tally.byEnv h
  have hbyPrio := congrArg Tally.byPrio h
  exact ⟨hbyEnv, hbyPrio⟩

/-- Nothing is owed when nobody has been interrupted. -/
theorem Charged.owed {g : Tally} (h : Charged c s g) (hroom : Roomy s.stats) :
    Owed s.stats s.ticks g := by
  refine ⟨h.toLedger, hroom, h.settled.le.trans (Nat.zero_le 1), fun id => ?_, fun p => ?_⟩
  · rw [h.settled, ite_self, Nat.add_zero, h.balanced.byEnv]
  · rw [h.settled, ite_self, Nat.add_zero, h.balanced.byPrio]

/-- The clock interrupt of the current environment makes one tick due. -/
theorem Charged.owed_tick {g : Tally} (h : Charged c s g) (hroom : Roomy s.stats)
    (hcur : s.curenv c = some e) (hrun : (s.envs e).envStatus = .running)
    (hid : (s.envs e).envId ≠ 0) {inp : Input} {tf : Trapframe}
    (htrap : tf.tfTrapno = IRQ_OFFSET + IRQ_TIMER) :
    Owed s.stats (s.ticks + 1) (charge s (.trap c inp tf) g) := by
  obtain ⟨hrunId, hrunPrio⟩ := h.current e hcur
  have hne : s.stats.schedRunningId ≠ 0 := hrunId ▸ hid
  have hsince : s.ticks - s.stats.schedRunningSince = 0 := by
    have hsettled := h.settled
    rw [pending, if_neg hne] at hsettled
    exact BitVec.eq_of_toNat_eq hsettled
  have hone : pending s.stats (s.ticks + 1) = 1 := by
    rw [pending, if_neg hne]
    have hadd : s.ticks + 1 - s.stats.schedRunningSince = 1 := by bv_omega
    rw [hadd]
    rfl
  have hcharge : charge s (.trap c inp tf) g = { g with
      byEnv := Function.update g.byEnv (s.envs e).envId (g.byEnv (s.envs e).envId + 1)
      byPrio := Function.update g.byPrio g.picked (g.byPrio g.picked + 1) } := by
    unfold charge
    dsimp only
    rw [if_pos htrap, hcur]
    exact if_pos hrun
  rw [hcharge]
  refine ⟨h.toLedger, hroom, hone.le, fun id => ?_, fun p => ?_⟩
  · dsimp only
    rw [hone, hrunId, h.balanced.byEnv]
    by_cases heq : id = (s.envs e).envId
    · rw [if_pos heq, heq, Function.update_self]
    · rw [if_neg heq, Function.update_of_ne heq, Nat.add_zero]
  · dsimp only
    rw [hone, hrunPrio, h.balanced.byPrio]
    by_cases heq : BitVec.ofNat 32 p = g.picked
    · rw [if_pos heq, heq, Function.update_self]
    · rw [if_neg heq, Function.update_of_ne heq, Nat.add_zero]

/-! ## Steps -/

theorem Owed.decide_tally {g : Tally} (h : Owed s₁.stats s₁.ticks (charge s ev g))
    (hstats : s₁.stats = s.stats) (hprio : ∀ e, (s₁.envs e).envPriority ≤ ENV_PRIORITY_MAX)
    (hyield : schedYield c s₁ = .leave s') :
    (s'.cpus c).cpuStatus = .halted ∨ Charged c s' (tally c s ev s' g) := by
  refine h.decide hprio hyield rfl rfl fun e he => ?_
  have hcalls : s'.stats.schedCalls ≠ s.stats.schedCalls := by
    rw [schedYield_schedCalls hyield, hstats]
    exact add_one_ne _
  unfold tally
  dsimp only
  rw [if_neg hcalls, he]
  rfl

theorem Solo.ne_of_current (hsolo : Solo c s) (hcur : s.curenv c = some e)
    (hfree : s.envFreeList = some t) : t ≠ e := by
  rintro rfl
  have hst := hsolo.exclusive.freeSlots.head hfree
  rw [hsolo.cur_running hcur] at hst
  cases hst

/-- The current environment keeps its id while it is in the kernel. -/
theorem Path.id_current {tf : Trapframe} (hsolo : Solo c s) (hcur : s.curenv c = some e)
    (hpath : Path c (Allowed c s tf) s s₁) : (s₁.envs e).envId = (s.envs e).envId := by
  refine hpath.invariant (I := fun s₁ => (s₁.envs e).envId = (s.envs e).envId) rfl ?_
  intro a s₂ s₃ ha hm hs
  refine Eq.trans ?_ hs
  by_cases htakes : ∃ t, a.Takes t
  · obtain ⟨t, htakes⟩ := htakes
    have hne : t ≠ e := by
      cases ha with
      | exofork _ _ hfree | thread _ _ hfree => exact htakes ▸ hsolo.ne_of_current hcur hfree
      | destroy _ hdestroy =>
          cases a <;> first | exact absurd htakes id | exact absurd hdestroy id
      | _ => exact absurd htakes id
    rw [(hm.frame_of_takes htakes).1 e hne.symm]
  · have hrank : ¬ a.Allocates := by
      cases ha with
      | exofork | thread => exact fun _ => htakes ⟨_, rfl⟩
      | destroy _ hdestroy => cases a <;> first | exact id | exact absurd hdestroy id
      | _ => exact id
    by_cases hprio : ∃ cur u p, a = .priority cur u p
    · obtain ⟨cur, u, p, rfl⟩ := hprio
      cases hm with
      | priority =>
          refine modEnv_proj Env.envId fun env => ?_
          rfl
    · have hwho := hm.rank hrank (fun cur u p heq => hprio ⟨cur, u, p, heq⟩) e
      exact (Env.who_inj (congrArg Prod.fst hwho)).1

/-- A stay in the kernel without a clock interrupt: nothing is owed at any time. -/
theorem Charged.exit {g : Tally} {inp : Input} {tf : Trapframe} (h : Charged c s g)
    (hroom : Roomy s.stats) (hsolo : Solo c s) (hcur : s.curenv c = some e)
    (htimer : tf.tfTrapno ≠ IRQ_OFFSET + IRQ_TIMER) {x : Exit} (hx : x.Path c (Allowed c s tf) s) :
    (∀ s', x = .leave s' → (s'.cpus c).cpuStatus = .halted ∨
      Charged c s' (tally c s (.trap c inp tf) s' g)) ∧
    ∀ s', x = .stuck .noRunnable s' → Balanced s'.stats (charge s (.trap c inp tf) g) := by
  have hcharge : charge s (.trap c inp tf) g = g := if_neg htimer
  have htick : ∀ a, Allowed c s tf a → a ≠ .tick := by
    rintro a ha rfl
    cases ha with
    | tick h => exact htimer h
    | destroy _ hdestroy => exact hdestroy
  -- without a tick neither the statistics nor the clock change before the decision
  have hpath : ∀ {s₁}, Path c (Allowed c s tf) s s₁ → s₁.stats = s.stats ∧ s₁.ticks = s.ticks ∧
      ∀ e, (s₁.envs e).envPriority ≤ ENV_PRIORITY_MAX := fun hp =>
    ⟨hp.constants.2, hp.ticks htick,
      (hp.invariant (I := Lone c) hsolo.toLone fun _ _ _ _ hm hl => hl.micro hm).bounded⟩
  have howed : ∀ {s₁}, Path c (Allowed c s tf) s s₁ →
      Owed s₁.stats s₁.ticks (charge s (.trap c inp tf) g) := fun hp => by
    rw [(hpath hp).1, (hpath hp).2.1, hcharge]
    exact h.owed hroom
  constructor
  · rintro s' rfl
    obtain ⟨s₁, hp, hdep⟩ := Exit.path_leave.mp hx
    obtain ⟨hstats, hticks, hprio⟩ := hpath hp
    cases hdep with
    | preempt _ hyield | idle _ hyield => exact (howed hp).decide_tally hstats hprio hyield
    -- the CPU goes on with the same environment, under the same record
    | @resume t s' ht hrun =>
        obtain rfl : e = t := Option.some.inj (hcur.symm.trans (hp.curenv_of ht))
        have hran := envRun_eq_leave hrun
        have hsame : s'.stats = s.stats := (envRun_stats hrun).trans hstats
        have hticks' : s'.ticks = s.ticks := hran.ticks.trans hticks
        have hid : (s'.envs e).envId = (s.envs e).envId :=
          (hran.proj Env.envId fun _ _ _ _ => rfl).trans (hp.id_current hsolo hcur)
        have hpicked : (tally c s (.trap c inp tf) s' g).picked = g.picked :=
          if_pos (congrArg SchedStats.schedCalls hsame)
        obtain ⟨hbyEnv, hbyPrio⟩ := tally_eq c s' hcharge
        refine .inr ⟨?_, ?_, ?_, fun t ht' => ?_⟩
        · rw [hsame]
          exact h.toLedger
        · rw [hsame]
          exact h.balanced.congr hbyEnv hbyPrio
        · rw [hsame, hticks']
          exact h.settled
        · obtain rfl := Option.some.inj (hran.curenv.symm.trans ht')
          rw [hsame, hid, hpicked]
          exact h.current _ hcur
  · rintro s' rfl
    cases hx with
    | finished hp hyield =>
        rw [schedYield_prints hyield]
        exact (howed hp).countCall.balanced
    | panic hne => exact absurd rfl hne

theorem Path.boot_envs_ne (hpath : Path c (Act.IsBoot t) s s₁) (hne : e ≠ t) :
    s₁.envs e = s.envs e := by
  refine hpath.invariant (I := fun s₁ => s₁.envs e = s.envs e) rfl fun a s₂ s₃ ha hm hs => ?_
  refine Eq.trans ?_ hs
  cases hm with
  | @create _ _ t' halloc =>
      obtain rfl := ha
      exact envAlloc_envs_ne halloc hne
  | @entry _ t' _ =>
      obtain rfl := ha
      exact Kernel.modEnv_ne _ _ hne
  | pageNew | kstore => rfl
  | _ => exact absurd ha id

/-- Every event but the clock interrupt of a halted CPU keeps the accounts, and if it is the last
one, what is printed is what the run has counted. -/
theorem Charged.event {g : Tally} (h : Charged c s g) (hroom : Roomy s.stats) (hsolo : Solo c s)
    (htabled : Tabled c s) (hby : ev.By c) (hawake : ∀ d, ev ≠ .timer d) (henabled : ev.Enabled s) :
    (∀ s', ev.exec s = .leave s' → (s'.cpus c).cpuStatus = .halted ∨
      Charged c s' (tally c s ev s' g)) ∧
    ∀ s', ev.exec s = .stuck .noRunnable s' → Balanced s'.stats (charge s ev g) := by
  -- an event that leaves statistics, clock and current environment alone keeps the accounts
  have hkept : ∀ {s'}, s'.stats = s.stats → s'.ticks = s.ticks →
      (∀ e, s'.curenv c = some e → s.curenv c = some e ∧ (s'.envs e).envId = (s.envs e).envId) →
      charge s ev g = g → Charged c s' (tally c s ev s' g) := by
    intro s' hstats hticks hcurrent hcharge
    have hpicked : (tally c s ev s' g).picked = g.picked :=
      if_pos (congrArg SchedStats.schedCalls hstats)
    obtain ⟨hbyEnv, hbyPrio⟩ := tally_eq c s' hcharge
    refine ⟨?_, ?_, ?_, fun e he => ?_⟩
    · rw [hstats]
      exact h.toLedger
    · rw [hstats]
      exact h.balanced.congr hbyEnv hbyPrio
    · rw [hstats, hticks]
      exact h.settled
    · obtain ⟨hcur, hid⟩ := hcurrent e he
      rw [hstats, hid, hpicked]
      exact h.current e hcur
  cases ev with
  | boot binary =>
      constructor
      · intro s' hexec
        obtain ⟨t, hfree, hpath⟩ := envCreate_path (c := c) (envCreate_eq_ok hexec)
        have htick : ∀ a : Act, a.IsBoot t → a ≠ .tick := by
          rintro a ha rfl
          exact ha
        refine .inr (hkept hpath.constants.2 (hpath.ticks htick) (fun e he => ?_) rfl)
        have hcur := hpath.curenv_of he
        have hne := (hsolo.ne_of_current hcur hfree).symm
        exact ⟨hcur, congrArg Env.envId (hpath.boot_envs_ne hne)⟩
      · intro s' hexec
        have hfinish : finish (envCreate s binary) .leave = .stuck .noRunnable s' := hexec
        cases hcreate : envCreate s binary with
        | ok s₁ =>
            rw [hcreate] at hfinish
            cases hfinish
        | error x =>
            rw [hcreate] at hfinish
            obtain ⟨why, s₂, rfl, hne⟩ := envCreate_panics.of_error x hcreate
            obtain ⟨rfl, -⟩ := Exit.stuck.inj hfinish
            exact absurd rfl hne
  | start d =>
      obtain rfl := hby
      have howed : Owed (started d s).stats (started d s).ticks (charge s (.start d) g) :=
        h.owed hroom
      constructor
      · exact fun s' hexec => howed.decide_tally rfl hsolo.bounded hexec
      · intro s' hexec
        have hyield : schedYield d (started d s) = .stuck .noRunnable s' := hexec
        rw [schedYield_prints hyield]
        exact howed.countCall.balanced
  | timer d => exact absurd rfl (hawake d)
  | trap d inp tf =>
      obtain rfl := hby
      obtain ⟨⟨-, hsome⟩, -⟩ : s.inUser d ∧ tf.tfCs &&& 3 = 3 := henabled
      obtain ⟨e, hcur⟩ := Option.isSome_iff_exists.mp hsome
      have hrun := hsolo.cur_running hcur
      by_cases htimer : tf.tfTrapno = IRQ_OFFSET + IRQ_TIMER
      -- the clock interrupt: one tick is owed until `sched_yield` accounts for it
      · have hexec : (Event.trap d inp tf).exec s = schedYield d (tick (saved d s e tf)) :=
          trap_timer hcur (hsolo.undying e) htimer
        have hid : (s.envs e).envId ≠ 0 := fun hzero => by
          have hpos := (htabled.ids e (htabled.own e hcur)).1
          rw [hzero] at hpos
          exact absurd hpos (by decide)
        have howed : Owed (tick (saved d s e tf)).stats (tick (saved d s e tf)).ticks
            (charge s (.trap d inp tf) g) := by
          have hticks : (tick (saved d s e tf)).ticks = s.ticks + 1 := rfl
          have hstats : (tick (saved d s e tf)).stats = s.stats := rfl
          rw [hticks, hstats]
          exact h.owed_tick hroom hcur hrun hid htimer
        have hprio : ∀ t, ((tick (saved d s e tf)).envs t).envPriority ≤ ENV_PRIORITY_MAX := by
          have hstarted : Lone d (started d s) := hsolo.toLone.micro .start
          have hsaved : Lone d (saved d s e tf) :=
            hstarted.micro (.save (started_curenv.trans hcur))
          have hticked : Lone d (tick (saved d s e tf)) := hsaved.micro .tick
          exact hticked.bounded
        constructor
        · intro s' hleave
          exact howed.decide_tally rfl hprio (hexec.symm.trans hleave)
        · intro s' hstuck
          rw [schedYield_prints (hexec.symm.trans hstuck)]
          exact howed.countCall.balanced
      · exact h.exit hroom hsolo hcur htimer (trap_path s inp tf)
  | store d va byte =>
      constructor
      · intro s' hexec
        obtain ⟨m, rfl⟩ := store_eq_setMem hexec
        exact .inr (hkept rfl rfl (fun e he => ⟨he, rfl⟩) rfl)
      · intro s' hexec
        unfold Event.exec at hexec
        dsimp only at hexec
        split at hexec <;> cases hexec

/-! ## Runs -/

/-- One CPU makes a step, and the run counts it. -/
structure CountedStep (c : Cpu) (x : Kernel × Tally) (ev : Event) (y : Kernel × Tally) : Prop where
  step : CpuStep c x.1 ev y.1
  counted : y.2 = tally c x.1 ev y.1 x.2

/-- The CPU is not halted when the clock interrupts it, and no counter overflows. -/
structure TalliedStep (c : Cpu) (x : Kernel × Tally) (ev : Event) (y : Kernel × Tally) : Prop
    extends CountedStep c x ev y where
  awake : ∀ d, ev ≠ .timer d
  room : Roomy x.1.stats

/-- Before the first environment has been picked nothing has been counted. -/
theorem charged_booted (hboot : Booted s) : Charged c s {} := by
  have hstats := hboot.stats
  refine ⟨⟨fun i hi => ?_, fun i _ => ?_, fun i hi => ?_, fun hrun => ?_⟩,
    ⟨fun id => ?_, fun p => ?_⟩,
    ?_, fun e he => ?_⟩
  · rw [hstats] at hi
    exact absurd rfl hi
  · rw [hstats]
  · rw [hstats] at hi
    exact absurd rfl hi
  · rw [hstats] at hrun
    exact absurd rfl hrun
  · rw [hstats, reported, EnvStat.ticksOf]
    exact Nat.zero_add _ |>.trans (ite_self 0)
  · rw [hstats]
    rfl
  · rw [hstats]
    rfl
  · have hnone := (hboot.cpus c).2
    rw [show s.curenv c = (s.cpus c).cpuEnv from rfl, hnone] at he
    cases he

/-- On a halted CPU nothing happens until the clock interrupts it. -/
theorem not_enabled_of_halted (h : (s.cpus c).cpuStatus = .halted) (hby : ev.By c)
    (hawake : ∀ d, ev ≠ .timer d) : ¬ ev.Enabled s := by
  intro henabled
  cases ev with
  | boot binary =>
      have hunused : (s.cpus c).cpuStatus = .unused := henabled c
      rw [h] at hunused
      cases hunused
  | start d =>
      obtain rfl := hby
      have hunused : (s.cpus d).cpuStatus = .unused := henabled
      rw [h] at hunused
      cases hunused
  | timer d => exact hawake d rfl
  | trap d inp tf =>
      obtain rfl := hby
      obtain ⟨⟨hstarted, -⟩, -⟩ : s.inUser d ∧ tf.tfCs &&& 3 = 3 := henabled
      rw [h] at hstarted
      cases hstarted
  | store d va byte =>
      obtain rfl := hby
      obtain ⟨⟨hstarted, -⟩, -⟩ : s.inUser d ∧ va < UTOP := henabled
      rw [h] at hstarted
      cases hstarted

/-- In every run in which the clock does not interrupt the halted CPU, the accounts are right
whenever the CPU is not halted. -/
theorem charged_of_run {evs : List Event} {x : Kernel × Tally} (hboot : Booted s)
    (hrun : Trace (TalliedStep c) (s, {}) evs x) :
    Solo c x.1 ∧ Tabled c x.1 ∧ ((x.1.cpus c).cpuStatus = .halted ∨ Charged c x.1 x.2) := by
  refine hrun.invariant (I := fun x => Solo c x.1 ∧ Tabled c x.1 ∧
      ((x.1.cpus c).cpuStatus = .halted ∨ Charged c x.1 x.2))
    ⟨solo_booted hboot c, tabled_booted hboot, .inr (charged_booted hboot)⟩
    fun x ev y hx hstep => ?_
  obtain ⟨hsolo, htabled, hcharged⟩ := hx
  have hcpu := hstep.step
  refine ⟨hsolo.step hcpu.1 hcpu.2, htabled.step hcpu, ?_⟩
  rw [hstep.counted]
  rcases hcharged with hhalted | hcharged
  · exact absurd hcpu.1.1 (not_enabled_of_halted hhalted hcpu.2 hstep.awake)
  · exact (hcharged.event hstep.room hsolo htabled hcpu.2 hstep.awake hcpu.1.1).1 _ hcpu.1.2

/-- In every run of one CPU in which the clock does not interrupt it while it is halted and no
counter overflows, the statistics that are printed at the end report, for each environment and for
each base priority, the clock interrupts that arrived while it was running. -/
theorem cputicks_accounted {g : Tally} {evs : List Event} (hboot : Booted s₁)
    (hrun : Trace (TalliedStep c) (s₁, {}) evs (s, g)) (henabled : ev.Enabled s) (hby : ev.By c)
    (hawake : ∀ d, ev ≠ .timer d) (hroom : Roomy s.stats)
    (hprint : ev.exec s = .stuck .noRunnable s') : Balanced s'.stats (charge s ev g) := by
  obtain ⟨hsolo, htabled, hhalted | hcharged⟩ := charged_of_run hboot hrun
  · exact absurd henabled (not_enabled_of_halted hhalted hby hawake)
  · exact (hcharged.event hroom hsolo htabled hby hawake henabled).2 _ hprint

/-! ## A tick charged, and ticks charged wrongly -/

instance (st : SchedStats) : Decidable (Roomy st) :=
  decidable_of_iff ((∀ i, (st.schedEnvStats i).runs.toNat + 1 < 2 ^ 32) ∧
      (∀ i, (st.schedEnvStats i).cputicks.toNat + 1 < 2 ^ 32) ∧
      ∀ p, (st.schedPrioTicks p).toNat + 1 < 2 ^ 32)
    ⟨fun h => ⟨h.1, h.2.1, h.2.2⟩, fun h => ⟨h.runs, h.cputicks, h.prioTicks⟩⟩

instance (ev : Event) : Decidable (∀ d, ev ≠ .timer d) :=
  match ev with
  | .timer d => isFalse fun h => h d rfl
  | .boot _ | .start _ | .trap _ _ _ | .store _ _ _ => isTrue fun _ => Event.noConfusion

/-- Runs an event on the first CPU if it passes the test `ok`, and counts it. -/
def replayCounted (ok : Kernel → Event → Prop) [∀ s ev, Decidable (ok s ev)] (x : Kernel × Tally)
    (ev : Event) : Option (Kernel × Tally) :=
  if ev.By 0 ∧ ok x.1 ev then (ev.next x.1).map fun s' => (s', tally 0 x.1 ev s' x.2) else none

theorem counted_of_replay {ok : Kernel → Event → Prop} [∀ s ev, Decidable (ok s ev)]
    {x y : Kernel × Tally} (h : replayCounted ok x ev = some y) :
    CountedStep 0 x ev y ∧ ok x.1 ev := by
  unfold replayCounted at h
  split at h
  · next hok =>
      obtain ⟨s', hs', rfl⟩ := Option.map_eq_some_iff.mp h
      exact ⟨⟨⟨step_of_next hs', hok.1⟩, rfl⟩, hok.2⟩
  · cases h

/-- The first environment destroys itself. -/
def destroySelf : Event := sysTrap 0 .envDestroy 0 0 0 0 0

/-- The statistics that the event prints when it ends the run. -/
def printed (s : Kernel) (ev : Event) : Option SchedStats :=
  match ev.exec s with
  | .stuck .noRunnable s' => some s'.stats
  | _ => none

theorem exists_of_printed {p : SchedStats → Bool} (h : (printed s ev).any p = true) :
    ∃ s', ev.exec s = .stuck .noRunnable s' ∧ p s'.stats = true := by
  unfold printed at h
  split at h
  · next s' hexec => exact ⟨s', hexec, h⟩
  · cases h

theorem cputicks_accounted_oneTick : ∃ s g s',
    Trace (TalliedStep 0) (bootedMachine .priorities 64, {}) [.boot emptyImage, .start 0, clock 0]
        (s, g) ∧
      destroySelf.exec s = .stuck .noRunnable s' ∧ reported s'.stats firstEnv = 1 ∧
      Balanced s'.stats (charge s destroySelf g) := by
  obtain ⟨⟨s, g⟩, hrun, hs⟩ := Trace.exists_of_foldlM
    (replayCounted fun s ev => (∀ d, ev ≠ .timer d) ∧ Roomy s.stats)
    (bootedMachine .priorities 64, {}) [.boot emptyImage, .start 0, clock 0]
    (fun x => decide (destroySelf.Enabled x.1 ∧ Roomy x.1.stats ∧
      (printed x.1 destroySelf).any fun st => decide (reported st firstEnv = 1)))
    (by decide +kernel)
  obtain ⟨henabled, hroom, hprinted⟩ := decide_eq_true_iff.mp hs
  obtain ⟨s', hprint, hone⟩ := exists_of_printed hprinted
  have hboot := booted_bootedMachine .priorities (n := 64) (by decide) (by decide)
  have htallied : Trace (TalliedStep 0) (bootedMachine .priorities 64, {})
      [.boot emptyImage, .start 0, clock 0] (s, g) :=
    hrun.mono fun _ _ _ h => by
      obtain ⟨hstep, hawake, hroom⟩ := counted_of_replay h
      exact ⟨hstep, hawake, hroom⟩
  refine ⟨s, g, s', htallied, hprint, decide_eq_true_iff.mp hone, ?_⟩
  exact cputicks_accounted hboot htallied henabled rfl (fun _ => Event.noConfusion) hroom hprint

/-- The only environment sleeps for two ticks.  They are charged to it. -/
theorem halted_ticks_charged : ¬ ∀ (c : Cpu) (s₀ s s' : Kernel) (g : Tally) (evs : List Event)
    (ev : Event), Booted s₀ → Trace (CountedStep c) (s₀, {}) evs (s, g) → ev.Enabled s → ev.By c →
    ev.exec s = .stuck .noRunnable s' → Balanced s'.stats (charge s ev g) := by
  intro hclaim
  obtain ⟨⟨s, g⟩, hrun, hs⟩ := Trace.exists_of_foldlM (replayCounted fun _ _ => True)
    (bootedMachine .priorities 64, {})
    [.boot emptyImage, .start 0, sysTrap 0 .sleep 2 0 0 0 0, .timer 0, .timer 0]
    (fun x => decide (destroySelf.Enabled x.1 ∧ (charge x.1 destroySelf x.2).byEnv firstEnv = 0 ∧
      (printed x.1 destroySelf).any fun st => decide (reported st firstEnv = 2)))
    (by decide +kernel)
  obtain ⟨henabled, hzero, hprinted⟩ := decide_eq_true_iff.mp hs
  obtain ⟨s', hprint, htwo⟩ := exists_of_printed hprinted
  have hboot := booted_bootedMachine .priorities (n := 64) (by decide) (by decide)
  have hbalanced := hclaim 0 _ s s' g _ destroySelf hboot
    (hrun.mono fun _ _ _ h => (counted_of_replay h).1) henabled rfl hprint
  have hequal := hbalanced.byEnv firstEnv
  rw [decide_eq_true_iff.mp htwo, hzero] at hequal
  cases hequal

end JosSched
