import JosSched.Sched.Report
import JosSched.Lib.Ring

/-!
# The records of the scheduler

The statistics are kept by slot, but they are about environments, and a slot is given to one
environment after the other.  `sched_run` finds out by comparing ids: when the record of the slot
has another id, it is printed before it starts again from zero.

A run on one CPU keeps a log of its own: an entry for each environment that `sched_yield` hands to
`sched_run`, with the priorities it was picked with.  The records are right when, for every set of
ids, the runs on all lines that are printed (those of slots taken over and those of the final table)
add up to the entries of the log with such an id.  The set of one id is about one environment, and
the set of all ids about `sched_history_count`.
-/

namespace JosSched

variable {c : Cpu} {s s₁ s' : Kernel} {st : SchedStats} {e : Slot} {ev : Event} {prio : Word}
  {log log' : List SchedHistory}

/-! ## What `sched_yield` picks -/

/-- The environment that `sched_yield` hands to `sched_run`, and the effective priority it hands
over with it. -/
def schedChoice (c : Cpu) (s : Kernel) : Option (Slot × Word) :=
  let idle (effective : Env → Word) : Option (Slot × Word) :=
    match s.curenv c with
    | some cur =>
        if (s.envs cur).envStatus = .running then some (cur, effective (s.envs cur)) else none
    | none => none
  match s.policy with
  | .roundRobin =>
      match (scanFrom (scanStart c s)).find? fun e => (s.envs e).envStatus = .runnable with
      | some e => some (e, (s.envs e).envPriority)
      | none => idle Env.envPriority
  | .priorities =>
      match schedPick c s with
      | some pick => some pick
      | none => idle schedEffectivePriority

/-- The entry of a decision. -/
def decisionEntry (s : Kernel) (e : Slot) (effective : Word) : SchedHistory where
  envId := (s.envs e).envId
  tick := s.ticks
  priority := (s.envs e).envPriority
  effective := effective

/-- A decision runs what it has chosen, or halts the CPU. -/
theorem schedYield_choice (h : schedYield c s = .leave s') :
    (∃ s₁ e prio, schedChoice c (countCall s) = some (e, prio) ∧ SameButWait s s₁ ∧
      s₁.stats = (countCall s).stats ∧ schedRun c s₁ e prio = .leave s') ∨
    (schedChoice c (countCall s) = none ∧ s' = halted c (countCall s)) := by
  -- both policies end the same way when the scan finds nobody
  have hidle : ∀ {eff : Env → Word}, schedIdle c (countCall s) eff = .leave s' →
      ∀ {choice : Option (Slot × Word)}, (choice = match (countCall s).curenv c with
        | some cur => if ((countCall s).envs cur).envStatus = .running then
            some (cur, eff ((countCall s).envs cur)) else none
        | none => none) →
      (∃ s₁ e prio, choice = some (e, prio) ∧ SameButWait s s₁ ∧
        s₁.stats = (countCall s).stats ∧ schedRun c s₁ e prio = .leave s') ∨
      (choice = none ∧ s' = halted c (countCall s)) := by
    intro eff h choice hchoice
    unfold schedIdle at h
    cases hcur : (countCall s).curenv c with
    | none =>
        rw [hcur] at h hchoice
        exact .inr ⟨hchoice, schedHalt_eq_leave h⟩
    | some cur =>
        rw [hcur] at h hchoice
        dsimp only at h hchoice
        by_cases hrun : ((countCall s).envs cur).envStatus = .running
        · rw [if_pos hrun] at h hchoice
          exact .inl ⟨_, _, _, hchoice, sameButWait_countCall, rfl, h⟩
        · rw [if_neg hrun] at h hchoice
          exact .inr ⟨hchoice, schedHalt_eq_leave h⟩
  unfold schedYield at h
  unfold schedChoice
  cases hpolicy : (countCall s).policy with
  | roundRobin =>
      simp only [hpolicy] at h ⊢
      cases hfind : (scanFrom (scanStart c (countCall s))).find? fun e =>
          ((countCall s).envs e).envStatus = .runnable with
      | some e =>
          rw [hfind] at h
          exact .inl ⟨_, _, _, rfl, sameButWait_countCall, rfl, h⟩
      | none =>
          rw [hfind] at h
          exact hidle h rfl
  | priorities =>
      simp only [hpolicy] at h ⊢
      cases hpick : schedPick c (countCall s) with
      | some best =>
          rw [hpick] at h
          exact .inl ⟨_, _, _, rfl, sameButWait_schedAge, rfl, h⟩
      | none =>
          rw [hpick] at h
          exact hidle h rfl

theorem schedChoice_candidate (h : schedChoice c s = some (e, prio)) : Candidate c s e := by
  have hidle : ∀ {eff : Env → Word}, (match s.curenv c with
      | some cur => if (s.envs cur).envStatus = .running then some (cur, eff (s.envs cur)) else none
      | none => none) = some (e, prio) → Candidate c s e := by
    intro eff h
    split at h
    · next cur hcur =>
        split at h
        · next hrun =>
            cases h
            exact .inr ⟨hcur, hrun⟩
        · cases h
    · cases h
  unfold schedChoice at h
  dsimp only at h
  split at h
  · split at h
    · next hfind =>
        have hready := List.find?_some hfind
        cases h
        exact .inl (of_decide_eq_true hready)
    · exact hidle h
  · split at h
    · next hpick =>
        cases h
        exact (schedPick_picked hpick).candidate
    · exact hidle h

/-! ## The log of a run -/

/-- What a step adds to the log: nothing, or the environment that `sched_yield` picked at some point
of the stay in the kernel. -/
inductive Logged (c : Cpu) (s s' : Kernel) (log : List SchedHistory) : List SchedHistory → Prop
  | kept : s'.stats.schedCalls = s.stats.schedCalls → Logged c s s' log log
  | picked {s₁ : Kernel} {e : Slot} {prio : Word} :
      Path c (fun _ => True) s s₁ → schedYield c s₁ = .leave s' →
      schedChoice c (countCall s₁) = some (e, prio) →
      Logged c s s' log (decisionEntry s₁ e prio :: log)
  | halted {s₁ : Kernel} : Path c (fun _ => True) s s₁ → schedYield c s₁ = .leave s' →
      schedChoice c (countCall s₁) = none → Logged c s s' log log

/-- One CPU makes a step, and the run logs whom it picks. -/
structure LoggedStep (c : Cpu) (x : Kernel × List SchedHistory) (ev : Event)
    (y : Kernel × List SchedHistory) : Prop where
  step : CpuStep c x.1 ev y.1
  logged : Logged c x.1 y.1 x.2 y.2

/-- What a stay in the kernel does about the scheduler: it leaves the statistics alone, or calls
`sched_yield` once, at its end. -/
structure Settles (c : Cpu) (s : Kernel) (x : Exit) : Prop where
  leave : ∀ s', x = .leave s' → s'.stats = s.stats ∨
    ∃ s₁, Path c (fun _ => True) s s₁ ∧ schedYield c s₁ = .leave s'
  finished : ∀ s', x = .stuck .noRunnable s' →
    ∃ s₁, Path c (fun _ => True) s s₁ ∧ schedYield c s₁ = .stuck .noRunnable s'

theorem Exit.Path.settles {L : Act → Prop} {x : Exit} (h : x.Path c L s) : Settles c s x := by
  constructor
  · rintro s' rfl
    obtain ⟨s₁, hpath, hdep⟩ := Exit.path_leave.mp h
    have hpath' : JosSched.Path c (fun _ => True) s s₁ := hpath.mono fun _ _ => trivial
    cases hdep with
    | preempt _ hyield | idle _ hyield => exact .inr ⟨s₁, hpath', hyield⟩
    | resume _ hrun => exact .inl ((envRun_stats hrun).trans hpath.constants.2)
  · rintro s' rfl
    cases h with
    | finished hpath hyield => exact ⟨_, hpath.mono fun _ _ => trivial, hyield⟩
    | panic hne => exact absurd rfl hne

theorem Event.settles (hby : ev.By c) (s : Kernel) : Settles c s (ev.exec s) := by
  cases ev with
  | boot binary =>
      constructor
      · intro s' hexec
        obtain ⟨t, -, hpath⟩ := envCreate_path (c := c) (envCreate_eq_ok hexec)
        exact .inl hpath.constants.2
      · intro s' hexec
        have hfinish : finish (envCreate s binary) .leave = .stuck .noRunnable s' := hexec
        cases hcreate : envCreate s binary with
        | ok s₁ =>
            rw [hcreate] at hfinish
            cases hfinish
        | error x =>
            rw [hcreate] at hfinish
            obtain ⟨why, s₂, rfl, hne⟩ := envCreate_panics.of_error x hcreate
            obtain ⟨rfl, -⟩ := Exit.stuck.inj hfinish
            exact absurd rfl hne
  | start d =>
      obtain rfl := hby
      exact (mpMain_path s).settles
  | timer d =>
      obtain rfl := hby
      exact (trapHalted_path s).settles
  | trap d inp tf =>
      obtain rfl := hby
      exact (trap_path s inp tf).settles
  | store d va byte =>
      constructor
      · intro s' hexec
        obtain ⟨m, rfl⟩ := store_eq_setMem hexec
        exact .inl rfl
      · intro s' hexec
        unfold Event.exec at hexec
        dsimp only at hexec
        split at hexec <;> cases hexec

/-- Every step can be logged. -/
theorem CpuStep.exists_logged (hstep : CpuStep c s ev s') (log : List SchedHistory) :
    ∃ log', Logged c s s' log log' := by
  rcases (Event.settles hstep.2 s).leave s' hstep.1.2 with hstats | ⟨s₁, hpath, hyield⟩
  · exact ⟨log, .kept (congrArg SchedStats.schedCalls hstats)⟩
  · cases hchoice : schedChoice c (countCall s₁) with
    | none => exact ⟨log, .halted hpath hyield hchoice⟩
    | some pick => exact ⟨_, .picked hpath hyield hchoice⟩

theorem exists_log {evs : List Event} (hrun : Trace (CpuStep c) s evs s') :
    ∃ log, Trace (LoggedStep c) (s, []) evs (s', log) := by
  induction hrun with
  | nil => exact ⟨[], .nil⟩
  | snoc _ hstep ih =>
      obtain ⟨log, hlogged⟩ := ih
      obtain ⟨log', hlog⟩ := hstep.exists_logged log
      exact ⟨log', hlogged.snoc ⟨hstep, hlog⟩⟩

/-! ## Counting runs -/

/-- The runs on a line, if it is about an environment that `p` selects. -/
def EnvStat.runsIf (p : Word → Prop) [DecidablePred p] (r : EnvStat) : ℕ :=
  if p r.envId then r.runs.toNat else 0

/-- The runs on all lines printed about the environments that `p` selects: when their slots were
taken over, and in the final table. -/
def runsWhere (p : Word → Prop) [DecidablePred p] (st : SchedStats) : ℕ :=
  (st.recycled.map fun r => r.runsIf p).sum + ∑ i, (st.schedEnvStats i).runsIf p

/-- The statistics agree with the log. -/
structure KeepsLog (st : SchedStats) (log : List SchedHistory) : Prop where
  runs : ∀ (p : Word → Prop) [DecidablePred p], runsWhere p st = log.countP fun h => p h.envId
  count : st.schedHistoryCount = BitVec.ofNat 32 log.length
  history : HoldsLast st.schedHistory log
  running : st.schedRunningId ≠ 0 →
    (st.schedEnvStats (envx st.schedRunningId)).envId = st.schedRunningId
  blank : ∀ i, (st.schedEnvStats i).envId = 0 → (st.schedEnvStats i).runs = 0
  named : ∀ i, (st.schedEnvStats i).envId ≠ 0 → envx (st.schedEnvStats i).envId = i

theorem EnvStat.runsIf_congr {p : Word → Prop} [DecidablePred p] {r r' : EnvStat}
    (hid : r'.envId = r.envId) (hruns : r'.runs = r.runs) : r'.runsIf p = r.runsIf p := by
  unfold EnvStat.runsIf
  rw [hid, hruns]

theorem EnvStat.runsIf_eq_zero {p : Word → Prop} [DecidablePred p] {r : EnvStat} (h : r.runs = 0) :
    r.runsIf p = 0 := by
  unfold EnvStat.runsIf
  rw [h]
  exact ite_self _

/-- Charging ticks changes neither ids nor runs, and nobody is charged twice. -/
structure OnlyCharges (st st' : SchedStats) : Prop where
  envId : ∀ i, (st'.schedEnvStats i).envId = (st.schedEnvStats i).envId
  runs : ∀ i, (st'.schedEnvStats i).runs = (st.schedEnvStats i).runs
  recycled : st'.recycled = st.recycled
  history : st'.schedHistory = st.schedHistory
  count : st'.schedHistoryCount = st.schedHistoryCount
  running : st'.schedRunningId = 0

theorem onlyCharges_account (s : Kernel) : OnlyCharges s.stats (schedAccountCputicks s).stats := by
  by_cases hrun : s.stats.schedRunningId = 0
  · have hsame : schedAccountCputicks s = s := if_pos hrun
    rw [hsame]
    exact ⟨fun _ => rfl, fun _ => rfl, rfl, rfl, rfl, hrun⟩
  · unfold schedAccountCputicks
    dsimp only
    rw [if_neg hrun, Kernel.setStats_stats]
    have hproj : ∀ {α : Type} (f : EnvStat → α) (ticks : Word) (i : Slot),
        (∀ r : EnvStat, f { r with cputicks := r.cputicks + ticks } = f r) →
        f (Function.update s.stats.schedEnvStats (envx s.stats.schedRunningId)
          { s.stats.schedEnvStats (envx s.stats.schedRunningId) with
            cputicks :=
              (s.stats.schedEnvStats (envx s.stats.schedRunningId)).cputicks + ticks } i) =
        f (s.stats.schedEnvStats i) := by
      intro α f ticks i hf
      by_cases hi : i = envx s.stats.schedRunningId
      · rw [hi, Function.update_self, hf]
      · rw [Function.update_of_ne hi]
    split <;> exact ⟨fun i => hproj EnvStat.envId _ i fun _ => rfl,
      fun i => hproj EnvStat.runs _ i fun _ => rfl, rfl, rfl, rfl, rfl⟩

theorem KeepsLog.account (h : KeepsLog s.stats log) :
    KeepsLog (schedAccountCputicks s).stats log := by
  have hcharges := onlyCharges_account s
  generalize (schedAccountCputicks s).stats = st at hcharges
  refine ⟨fun p _ => ?_, hcharges.count.trans h.count, ?_, fun hne => absurd hcharges.running hne,
    fun i hi => ?_, fun i hi => ?_⟩
  · rw [← h.runs p]
    unfold runsWhere
    rw [hcharges.recycled]
    exact congrArg (_ + ·) (Finset.sum_congr rfl fun i _ =>
      EnvStat.runsIf_congr (hcharges.envId i) (hcharges.runs i))
  · rw [hcharges.history]
    exact h.history
  · rw [hcharges.runs]
    rw [hcharges.envId] at hi
    exact h.blank i hi
  · rw [hcharges.envId] at hi ⊢
    exact h.named i hi

/-- What a change of one record does to a sum over the table. -/
theorem sum_update_record (table : Slot → EnvStat) (slot : Slot) (r : EnvStat) (f : EnvStat → ℕ) :
    (∑ i, f (Function.update table slot r i)) + f (table slot) = (∑ i, f (table i)) + f r := by
  have hother : ∑ i ∈ Finset.univ.erase slot, f (Function.update table slot r i) =
      ∑ i ∈ Finset.univ.erase slot, f (table i) :=
    Finset.sum_congr rfl fun i hi => by rw [Function.update_of_ne (Finset.ne_of_mem_erase hi)]
  rw [← Finset.add_sum_erase _ _ (Finset.mem_univ slot),
    ← Finset.add_sum_erase (a := slot) _ (fun i => f (table i)) (Finset.mem_univ slot), hother,
    Function.update_self]
  omega

theorem KeepsLog.runs_le (h : KeepsLog st log) (i : Slot) :
    (st.schedEnvStats i).runs.toNat ≤ log.length := by
  have hall := h.runs fun _ => True
  have hone : (st.schedEnvStats i).runsIf (fun _ => True) ≤
      ∑ i, (st.schedEnvStats i).runsIf (fun _ => True) :=
    Finset.single_le_sum (f := fun i => (st.schedEnvStats i).runsIf fun _ => True)
      (fun _ _ => Nat.zero_le _) (Finset.mem_univ i)
  have hself : (st.schedEnvStats i).runsIf (fun _ => True) = (st.schedEnvStats i).runs.toNat :=
    if_pos trivial
  have hcount : log.countP (fun _ => decide True) ≤ log.length := List.countP_le_length
  unfold runsWhere at hall
  omega

/-- A new run of `id`, on a record that goes on or is opened in place of another. -/
theorem KeepsLog.run {st' : SchedStats} {id : Word} {old r : EnvStat} {entry : SchedHistory}
    (h : KeepsLog st log) (hid : id ≠ 0) (hlen : log.length + 1 < 2 ^ 32)
    (hold : st.schedEnvStats (envx id) = old)
    (htable : st'.schedEnvStats = Function.update st.schedEnvStats (envx id) r)
    (hrid : r.envId = id) (hruns : r.runs = (if old.envId ≠ id then 0 else old.runs) + 1)
    (hrecycled : st'.recycled =
      if old.envId ≠ id ∧ old.envId ≠ 0 ∧ 0 < old.runs then old :: st.recycled else st.recycled)
    (hhistory : st'.schedHistory = Function.update st.schedHistory
      (Fin.ofNat SCHED_HISTORY_LEN (st.schedHistoryCount.toNat % SCHED_HISTORY_LEN)) entry)
    (hcount : st'.schedHistoryCount = st.schedHistoryCount + 1) (hentry : entry.envId = id)
    (hrunning : st'.schedRunningId = id) : KeepsLog st' (entry :: log) := by
  -- a record has no more runs than the log has entries, so adding one does not wrap
  have hroom : old.runs.toNat ≤ log.length := hold ▸ h.runs_le (envx id)
  have hblank : old.envId = 0 → old.runs = 0 := hold ▸ h.blank (envx id)
  have hself : st'.schedEnvStats (envx id) = r := by rw [htable, Function.update_self]
  have hother : ∀ i, i ≠ envx id → st'.schedEnvStats i = st.schedEnvStats i := fun i hi => by
    rw [htable, Function.update_of_ne hi]
  refine ⟨fun p _ => ?_, ?_, ?_, fun _ => ?_, fun i hi => ?_, fun i hi => ?_⟩
  · have hsum := sum_update_record st.schedEnvStats (envx id) r fun r => r.runsIf p
    have hbefore := h.runs p
    rw [List.countP_cons, ← hbefore, hentry]
    rw [hold, ← htable] at hsum
    unfold runsWhere
    rw [hrecycled]
    by_cases hsame : old.envId = id
    · -- the record goes on
      have hgoes : ¬ (old.envId ≠ id ∧ old.envId ≠ 0 ∧ 0 < old.runs) := fun hand => hand.1 hsame
      have hone : r.runsIf p = old.runsIf p + if decide (p id) = true then 1 else 0 := by
        have hadd : (old.runs + 1).toNat = old.runs.toNat + 1 :=
          toNat_add_of_le_one (by omega) (by decide)
        unfold EnvStat.runsIf
        rw [hrid, hruns, if_neg (not_not.mpr hsame), hsame, hadd]
        by_cases hp : p id <;> simp [hp]
      rw [if_neg hgoes]
      omega
    · -- what the record has goes to the line, unless it has nothing
      have hline : ((if old.envId ≠ id ∧ old.envId ≠ 0 ∧ 0 < old.runs then old :: st.recycled
          else st.recycled).map fun r => r.runsIf p).sum =
          (st.recycled.map fun r => r.runsIf p).sum + old.runsIf p := by
        by_cases hflush : old.envId ≠ id ∧ old.envId ≠ 0 ∧ 0 < old.runs
        · rw [if_pos hflush, List.map_cons, List.sum_cons, Nat.add_comm]
        · have hzero : old.runs = 0 := by
            by_contra hsome
            have hpos : 0 < old.runs := by bv_omega
            exact hflush ⟨hsame, fun hnone => hsome (hblank hnone), hpos⟩
          rw [if_neg hflush, EnvStat.runsIf_eq_zero hzero, Nat.add_zero]
      have hone : r.runsIf p = if decide (p id) = true then 1 else 0 := by
        unfold EnvStat.runsIf
        rw [hrid, hruns, if_pos hsame]
        by_cases hp : p id <;> simp [hp]
      rw [hline]
      omega
  · rw [hcount, h.count, List.length_cons, BitVec.ofNat_add]
    rfl
  -- the ring: the counter has not wrapped, so it gives the length of the log
  · have hcell : st.schedHistoryCount.toNat % SCHED_HISTORY_LEN =
        log.length % SCHED_HISTORY_LEN := by
      have hsmall : log.length % 2 ^ 32 = log.length := Nat.mod_eq_of_lt (by omega)
      rw [h.count, BitVec.toNat_ofNat, hsmall]
    have hmod : Fin.ofNat SCHED_HISTORY_LEN (log.length % SCHED_HISTORY_LEN) =
        Fin.ofNat SCHED_HISTORY_LEN log.length := Fin.ext (Nat.mod_mod ..)
    rw [hhistory, hcell, hmod]
    exact h.history.push entry
  · rw [hrunning, hself, hrid]
  · by_cases hslot : i = envx id
    · rw [hslot, hself, hrid] at hi
      exact absurd hi hid
    · rw [hother i hslot] at hi ⊢
      exact h.blank i hi
  · by_cases hslot : i = envx id
    · rw [hslot, hself, hrid]
    · rw [hother i hslot] at hi ⊢
      exact h.named i hi

/-- `sched_run` adds one run to the record of the environment it was given. -/
theorem KeepsLog.record (h : KeepsLog s.stats log) (hid : (s.envs e).envId ≠ 0)
    (hlen : log.length + 1 < 2 ^ 32) :
    KeepsLog (schedRecord s e prio).stats (decisionEntry s e prio :: log) := by
  have hticks : (schedAccountCputicks s).ticks = s.ticks := (schedRecord_running s e prio).2.2
  unfold schedRecord decisionEntry
  dsimp only [Kernel.setStats_stats]
  rw [hticks]
  refine h.account.run hid hlen rfl rfl ?_ ?_ rfl rfl rfl rfl rfl <;> dsimp only
  · split
    · rfl
    · next hsame => exact not_not.mp hsame
  · split <;> rfl

/-! ## Runs -/

theorem keepsLog_booted (hboot : Booted s) : KeepsLog s.stats [] := by
  rw [hboot.stats]
  refine ⟨fun p _ => ?_, rfl, .nil, fun hne => absurd rfl hne, fun _ _ => rfl,
    fun i hi => absurd rfl hi⟩
  have hzero : ∀ i : Slot, (({} : SchedStats).schedEnvStats i).runsIf p = 0 :=
    fun i => EnvStat.runsIf_eq_zero rfl
  unfold runsWhere
  rw [Finset.sum_congr rfl fun i _ => hzero i, Finset.sum_const_zero]
  rfl

theorem KeepsLog.countCall (h : KeepsLog s.stats log) : KeepsLog (countCall s).stats log :=
  ⟨h.runs, h.count, h.history, h.running, h.blank, h.named⟩

theorem Logged.length_le (h : Logged c s s' log log') : log.length ≤ log'.length := by
  cases h with
  | kept | halted => exact le_rfl
  | picked => exact Nat.le_succ _

/-- A step that is logged keeps the records right. -/
theorem KeepsLog.step (h : KeepsLog s.stats log) (htabled : Tabled c s) (hstep : CpuStep c s ev s')
    (hlog : Logged c s s' log log') (hlen : log'.length < 2 ^ 32) : KeepsLog s'.stats log' := by
  have hstays := (Event.settles hstep.2 s).leave s' hstep.1.2
  -- a step that decides is counted, so a step that is not counted has not decided
  have hyields : ∀ {s₁}, Path c (fun _ => True) s s₁ → schedYield c s₁ = .leave s' →
      s₁.stats = s.stats ∧ Decides s s' := fun hpath hyield => by
    have hstats := hpath.constants.2
    refine ⟨hstats, ?_⟩
    rw [Decides, schedYield_schedCalls hyield, hstats]
    exact add_one_ne _
  cases hlog with
  | kept hcalls =>
      rcases hstays with hstats | ⟨s₁, hpath, hyield⟩
      · rw [hstats]
        exact h
      · exact absurd hcalls (hyields hpath hyield).2
  -- a decision: the environment is a candidate, so its id is not that of an unused record
  | @picked s₁ e prio hpath hyield hchoice =>
      obtain ⟨hstats, -⟩ := hyields hpath hyield
      rcases schedYield_choice hyield with
        ⟨s₂, e', prio', hchoice', hsame, hcount, hrun⟩ | ⟨hnone, -⟩
      · obtain ⟨rfl, rfl⟩ := Prod.mk.inj (Option.some.inj (hchoice.symm.trans hchoice'))
        have hentry : decisionEntry s₁ e prio = decisionEntry s₂ e prio := by
          unfold decisionEntry
          rw [hsame.envs e, hsame.ticks]
        have htabled' : Tabled c s₁ := hpath.invariant htabled fun _ _ _ _ hm hs => hs.micro hm
        have hid : (s₂.envs e).envId ≠ 0 := by
          rw [hsame.envs e]
          have hused : (s₁.envs e).envStatus ≠ .free := by
            rcases schedChoice_candidate hchoice with hst | ⟨-, hst⟩ <;>
            · have hst' : (s₁.envs e).envStatus = _ := hst
              rw [hst']
              exact EnvStatus.noConfusion
          exact fun hzero => absurd (htabled'.ids e hused).1 (by rw [hzero]; decide)
        rw [envRun_stats hrun, hentry]
        refine KeepsLog.record ?_ hid hlen
        rw [hcount]
        refine KeepsLog.countCall ?_
        rw [hstats]
        exact h
      · rw [hchoice] at hnone
        cases hnone
  | halted hpath hyield hchoice =>
      obtain ⟨hstats, -⟩ := hyields hpath hyield
      rcases schedYield_choice hyield with ⟨s₂, e', prio', hchoice', -⟩ | ⟨-, rfl⟩
      · rw [hchoice] at hchoice'
        cases hchoice'
      · have hhalt : KeepsLog (JosSched.countCall _).stats log := KeepsLog.countCall (hstats ▸ h)
        exact hhalt

theorem recorded_of_run {evs : List Event} {x : Kernel × List SchedHistory} (hboot : Booted s)
    (hrun : Trace (LoggedStep c) (s, []) evs x) :
    Tabled c x.1 ∧ (x.2.length < 2 ^ 32 → KeepsLog x.1.stats x.2) := by
  refine hrun.invariant
    (I := fun x => Tabled c x.1 ∧ (x.2.length < 2 ^ 32 → KeepsLog x.1.stats x.2))
    ⟨tabled_booted hboot, fun _ => keepsLog_booted hboot⟩ fun x ev y hx hstep => ?_
  obtain ⟨htabled, hrecorded⟩ := hx
  refine ⟨htabled.step hstep.step, fun hlen => ?_⟩
  have hbefore := hrecorded (hstep.logged.length_le.trans_lt hlen)
  exact hbefore.step htabled hstep.step hstep.logged hlen

/-- What the statistics say about a run with this log. -/
structure NothingLost (s : Kernel) (log : List SchedHistory) : Prop where
  runs : ∀ id, runsWhere (· = id) s.stats = log.countP fun h => h.envId = id
  total : runsWhere (fun _ => True) s.stats = s.stats.schedHistoryCount.toNat
  count : s.stats.schedHistoryCount.toNat = log.length
  running : s.stats.schedRunningId ≠ 0 →
    (s.stats.schedEnvStats (envx s.stats.schedRunningId)).envId = s.stats.schedRunningId
  decisions : (schedPrintStats s).decisions =
    log.take (min s.stats.schedHistoryCount.toNat SCHED_HISTORY_LEN)

theorem KeepsLog.decisions (h : KeepsLog s.stats log) (hlen : log.length < 2 ^ 32) :
    (schedPrintStats s).decisions = log.take SCHED_HISTORY_LEN := by
  have hst := h.account
  unfold schedPrintStats
  dsimp only
  generalize (schedAccountCputicks s).stats = st at hst
  have hcount : st.schedHistoryCount.toNat = log.length := by
    rw [hst.count, BitVec.toNat_ofNat, Nat.mod_eq_of_lt hlen]
  have hmin : (if st.schedHistoryCount.toNat < SCHED_HISTORY_LEN then st.schedHistoryCount.toNat
      else SCHED_HISTORY_LEN) = min log.length SCHED_HISTORY_LEN := by
    rw [hcount]
    split <;> omega
  rw [hmin, ← hst.history.read]
  refine List.map_congr_left fun i hi => ?_
  have hlt : i < log.length := (List.mem_range.mp hi).trans_le (Nat.min_le_left ..)
  have hindex : (st.schedHistoryCount - 1 - BitVec.ofNat 32 i).toNat = log.length - 1 - i := by
    have hi32 : (BitVec.ofNat 32 i).toNat = i := by
      rw [BitVec.toNat_ofNat, Nat.mod_eq_of_lt (hlt.trans hlen)]
    bv_omega
  unfold historyAgo
  rw [hindex]
  exact congrArg st.schedHistory (Fin.ext (Nat.mod_mod ..))

theorem KeepsLog.nothingLost (h : KeepsLog s.stats log) (hlen : log.length < 2 ^ 32) :
    NothingLost s log := by
  have hcount : s.stats.schedHistoryCount.toNat = log.length := by
    rw [h.count, BitVec.toNat_ofNat, Nat.mod_eq_of_lt hlen]
  refine ⟨fun id => h.runs _, ?_, hcount, h.running, ?_⟩
  · rw [h.runs, hcount]
    simp
  · rw [h.decisions hlen, hcount, Nat.min_comm]
    exact List.take_eq_take_min

/-- On one CPU the statistics lose nothing: at every point of a run with fewer than `2 ^ 32`
decisions, and when they are printed at its end, they agree with the log of the run. -/
theorem statistics_lose_nothing {s₀ : Kernel} {evs : List Event} (hboot : Booted s₀)
    (hrun : Trace (CpuStep c) s₀ evs s) :
    (∃ log, Trace (LoggedStep c) (s₀, []) evs (s, log)) ∧
      ∀ log, Trace (LoggedStep c) (s₀, []) evs (s, log) → log.length < 2 ^ 32 →
        NothingLost s log ∧
          ∀ (ev : Event) (s' : Kernel), ev.By c → ev.exec s = .stuck .noRunnable s' →
            NothingLost s' log := by
  refine ⟨exists_log hrun, fun log hlogged hlen => ?_⟩
  have hrecorded : KeepsLog s.stats log := (recorded_of_run hboot hlogged).2 hlen
  refine ⟨hrecorded.nothingLost hlen, fun ev s' hby hexec => ?_⟩
  obtain ⟨s₁, hpath, hyield⟩ := (Event.settles hby s).finished s' hexec
  have hstats : s₁.stats = s.stats := hpath.constants.2
  rw [schedYield_prints hyield]
  have hcalled : KeepsLog (JosSched.countCall s₁).stats log :=
    KeepsLog.countCall (hstats ▸ hrecorded)
  exact hcalled.account.nothingLost hlen

theorem length_log_le {evs : List Event} {x y : Kernel × List SchedHistory}
    (h : Trace (LoggedStep c) x evs y) : y.2.length ≤ x.2.length + evs.length := by
  induction h with
  | nil => exact Nat.le_add_right ..
  | snoc _ hstep ih =>
      have hone : ∀ {s s' : Kernel} {log log' : List SchedHistory}, Logged c s s' log log' →
          log'.length ≤ log.length + 1 := fun h => by
        cases h with
        | kept | halted => exact Nat.le_succ _
        | picked => exact le_rfl
      have hlast := hone hstep.logged
      rw [List.length_append, List.length_singleton]
      omega

/-- A thread runs and exits, and its process creates another one in the same slot, which runs
too. -/
def slotRecycled : List Event :=
  [.boot emptyImage, .start 0, sysTrap 0 .threadCreate 0x800020 0xeebfe000 0 0 0,
    sysTrap 0 .yield 0 0 0 0 0, sysTrap 0 .envDestroy 0 0 0 0 0,
    sysTrap 0 .threadCreate 0x800020 0xeebfe000 0 0 0, sysTrap 0 .yield 0 0 0 0 0]

/-- The run of the first thread is in a line that was printed when the second one took over its
record, and it is not lost. -/
theorem statistics_lose_nothing_recycled : ∃ s log,
    Trace (LoggedStep 0) (bootedMachine .priorities 64, []) slotRecycled (s, log) ∧
    log.length = 4 ∧ s.stats.recycled.map (·.envId) = [0x1001] ∧
    (s.stats.schedEnvStats 1).envId = 0x2001 ∧ NothingLost s log := by
  have hboot := booted_bootedMachine .priorities (n := 64) (by decide) (by decide)
  obtain ⟨s, hrun, hs⟩ := exists_trace (fun _ ev => ev.By 0) (bootedMachine .priorities 64)
    slotRecycled (fun s => decide (s.stats.schedHistoryCount = 4 ∧
      s.stats.recycled.map (·.envId) = [0x1001] ∧ (s.stats.schedEnvStats 1).envId = 0x2001))
    (by decide +kernel)
  obtain ⟨hfour, hrecycled, htaken⟩ := of_decide_eq_true hs
  obtain ⟨⟨log, hlogged⟩, hright⟩ := statistics_lose_nothing hboot hrun
  have hshort := length_log_le hlogged
  have hlost := (hright log hlogged (hshort.trans_lt (by decide))).1
  have hcount := hlost.count
  rw [hfour] at hcount
  exact ⟨s, log, hlogged, hcount.symm, hrecycled, htaken, hlost⟩

end JosSched
