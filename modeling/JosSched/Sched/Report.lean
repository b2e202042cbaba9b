import JosSched.Sched.Accounting
import Mathlib.Algebra.BigOperators.Fin
import Mathlib.Algebra.Order.BigOperators.Group.Finset

/-!
# The report of the scheduler

`sched_print_stats` prints what the kernel has counted: a line for every slot that ever ran, the
last decisions, and how the ticks are spread over the priorities.

The shares are computed with 32-bit words throughout.  The sum of the levels, and `100` times a
level, are both taken modulo `2 ^ 32`, so a share is right as long as neither wraps.  Once the sum
has wrapped, a share is only right when the multiples of `2 ^ 32` that the product lost are exactly
those that the sum lost.
-/

namespace JosSched

variable {c : Cpu} {s s' : Kernel} {e : Slot} {k t total : ℕ}

/-- A line of the distribution: `prioridad i: ticks (percent%)`. -/
structure Share where
  level : Fin NPRIORITIES
  ticks : Word
  percent : Word
  deriving DecidableEq

/-- What `sched_print_stats` prints, apart from the fixed texts. -/
structure SchedReport where
  calls : Word
  ticks : Word
  records : List EnvStat
  decisions : List SchedHistory
  total : Word
  shares : List Share

/-- The sum of `sched_prio_ticks`, as the loop computes it. -/
def totalTicks (st : SchedStats) : Word :=
  (List.finRange NPRIORITIES).foldl (fun total i => total + st.schedPrioTicks i) 0

def share (st : SchedStats) (i : Fin NPRIORITIES) : Share where
  level := i
  ticks := st.schedPrioTicks i
  percent := if totalTicks st ≠ 0 then st.schedPrioTicks i * 100 / totalTicks st else 0

/-- `&sched_history[(sched_history_count - 1 - i) % SCHED_HISTORY_LEN]`. -/
def historyAgo (st : SchedStats) (i : ℕ) : SchedHistory :=
  st.schedHistory (Fin.ofNat SCHED_HISTORY_LEN
    ((st.schedHistoryCount - 1 - BitVec.ofNat 32 i).toNat % SCHED_HISTORY_LEN))

/-- `sched_print_stats`. -/
def schedPrintStats (s : Kernel) : SchedReport :=
  let s := schedAccountCputicks s
  let st := s.stats
  let n :=
    if st.schedHistoryCount.toNat < SCHED_HISTORY_LEN then st.schedHistoryCount.toNat
    else SCHED_HISTORY_LEN
  { calls := st.schedCalls
    ticks := s.ticks
    records := ((List.finRange NENV).map st.schedEnvStats).filter fun r => r.envId ≠ 0
    decisions := (List.range n).map (historyAgo st)
    total := totalTicks st
    shares := ((List.finRange NPRIORITIES).filter fun i => st.schedPrioTicks i ≠ 0).map (share st) }

theorem schedAccountCputicks_idem : schedAccountCputicks (schedAccountCputicks s) =
    schedAccountCputicks s := by
  by_cases hrun : s.stats.schedRunningId = 0
  · have hsame : schedAccountCputicks s = s := if_pos hrun
    rw [hsame, hsame]
  · refine if_pos ?_
    unfold schedAccountCputicks
    dsimp only
    rw [if_neg hrun]
    rfl

/-! ## Shares -/

def levelTicks (st : SchedStats) (i : Fin NPRIORITIES) : ℕ := (st.schedPrioTicks i).toNat

/-- The ticks of all levels together, without wrapping around. -/
def allTicks (st : SchedStats) : ℕ := ∑ i, levelTicks st i

/-- The distribution says for each level that ran what part of all ticks it took, in percent. -/
structure RightShares (s : Kernel) : Prop where
  levels : (schedPrintStats s).shares.map Share.level =
    (List.finRange NPRIORITIES).filter fun i => levelTicks (schedAccountCputicks s).stats i ≠ 0
  percent : ∀ p ∈ (schedPrintStats s).shares,
    p.percent.toNat = 100 * levelTicks (schedAccountCputicks s).stats p.level /
      allTicks (schedAccountCputicks s).stats
  percent_le : ∀ p ∈ (schedPrintStats s).shares, p.percent.toNat ≤ 100
  sum_le : ((schedPrintStats s).shares.map fun p => p.percent.toNat).sum ≤ 100

/-- The multiples of `2 ^ 32` that the product by 100 loses are those that the sum loses. -/
def LossesCancel (total t : ℕ) : Prop :=
  ∃ j, 100 * t / 2 ^ 32 = 100 * t / total * (total / 2 ^ 32) + j ∧
    j * 2 ^ 32 ≤ 100 * t % total ∧ 100 * t % total < j * 2 ^ 32 + total % 2 ^ 32

/-- Neither the sum nor a product by 100 wraps around, or what they lose cancels. -/
def SharesFit (st : SchedStats) : Prop :=
  (allTicks st < 2 ^ 32 ∧ ∀ i, 100 * levelTicks st i < 2 ^ 32) ∨
    (2 ^ 32 ≤ allTicks st ∧ ∀ i, levelTicks st i ≠ 0 → LossesCancel (allTicks st) (levelTicks st i))

theorem lossesCancel_of_lt (htotal : total < 2 ^ 32) (hpos : 0 < total) :
    LossesCancel total t ↔ 100 * t < 2 ^ 32 := by
  have hmod : total % 2 ^ 32 = total := Nat.mod_eq_of_lt htotal
  have hdiv : total / 2 ^ 32 = 0 := Nat.div_eq_of_lt htotal
  have hrest : 100 * t % total < total := Nat.mod_lt _ hpos
  unfold LossesCancel
  rw [hmod, hdiv, Nat.mul_zero]
  constructor
  · rintro ⟨j, hj, hle, -⟩
    omega
  · intro hlt
    exact ⟨0, by omega, by omega, by omega⟩

/-- The quotient of the two remainders is the quotient exactly when the losses cancel. -/
theorem wrapped_share_iff (hmod : total % 2 ^ 32 ≠ 0) :
    100 * t % 2 ^ 32 / (total % 2 ^ 32) = 100 * t / total ↔ LossesCancel total t := by
  have hpos : 0 < total % 2 ^ 32 := Nat.pos_of_ne_zero hmod
  have htotal := Nat.div_add_mod total (2 ^ 32)
  have hprod := Nat.div_add_mod (100 * t) (2 ^ 32)
  have hquot := Nat.div_add_mod (100 * t) total
  have hrem : 100 * t % 2 ^ 32 < 2 ^ 32 := Nat.mod_lt _ (by decide)
  unfold LossesCancel
  rw [Nat.div_eq_iff hpos]
  generalize 100 * t / total = q at *
  generalize 100 * t % total = r at *
  generalize 100 * t / 2 ^ 32 = lost at *
  generalize 100 * t % 2 ^ 32 = kept at *
  generalize total / 2 ^ 32 = a at *
  generalize total % 2 ^ 32 = m at *
  -- what `q` times the sum loses is `q * a` multiples, and `j` is what the product loses beyond
  have hqt : total * q = 2 ^ 32 * (q * a) + q * m := by
    rw [← htotal, Nat.add_mul, Nat.mul_assoc, Nat.mul_comm a q, Nat.mul_comm m q]
  generalize q * a = qa at *
  generalize q * m = qm at *
  constructor
  · rintro ⟨hlo, hhi⟩
    exact ⟨lost - qa, by omega, by omega, by omega⟩
  · rintro ⟨j, hj, hlo, hhi⟩
    omega

/-! ## The words of the report -/

theorem foldl_add_toNat (f : Fin NPRIORITIES → Word) (l : List (Fin NPRIORITIES)) (w : Word) :
    (l.foldl (fun total i => total + f i) w).toNat =
      (w.toNat + (l.map fun i => (f i).toNat).sum) % 2 ^ 32 := by
  induction l generalizing w with
  | nil => exact (Nat.mod_eq_of_lt w.isLt).symm
  | cons i l ih =>
      rw [List.foldl_cons, ih, BitVec.toNat_add, List.map_cons, List.sum_cons, Nat.mod_add_mod,
        Nat.add_assoc]

theorem totalTicks_toNat (st : SchedStats) : (totalTicks st).toNat = allTicks st % 2 ^ 32 := by
  unfold totalTicks allTicks
  rw [foldl_add_toNat, Fin.sum_univ_def]
  exact congrArg (· % 2 ^ 32) (Nat.zero_add _)

theorem share_percent (st : SchedStats) (i : Fin NPRIORITIES) :
    (share st i).percent.toNat =
      100 * levelTicks st i % 2 ^ 32 / (allTicks st % 2 ^ 32) := by
  have hmul : (st.schedPrioTicks i * 100).toNat = 100 * levelTicks st i % 2 ^ 32 := by
    rw [BitVec.toNat_mul, Nat.mul_comm]
    rfl
  unfold share
  dsimp only
  split
  · rw [BitVec.toNat_udiv, hmul, totalTicks_toNat]
  · next hzero =>
      have hmod : allTicks st % 2 ^ 32 = 0 := by
        rw [← totalTicks_toNat, not_not.mp hzero]
        rfl
      rw [hmod, Nat.div_zero]
      rfl

/-- The levels that the distribution has a line for. -/
def levelsRun (st : SchedStats) : List (Fin NPRIORITIES) :=
  (List.finRange NPRIORITIES).filter fun i => levelTicks st i ≠ 0

theorem mem_levelsRun {st : SchedStats} {i : Fin NPRIORITIES} :
    i ∈ levelsRun st ↔ levelTicks st i ≠ 0 := by
  unfold levelsRun
  rw [List.mem_filter, and_iff_right (List.mem_finRange i), decide_eq_true_iff]

theorem shares_eq (s : Kernel) : (schedPrintStats s).shares =
    (levelsRun (schedAccountCputicks s).stats).map (share (schedAccountCputicks s).stats) := by
  unfold schedPrintStats levelsRun levelTicks
  dsimp only
  refine congrArg (List.map _) (List.filter_congr fun i _ => ?_)
  rw [decide_eq_decide, ne_eq, ne_eq, ← BitVec.toNat_inj]
  rfl

/-! ## When the shares are right -/

/-- The level that ran most has one part in sixteen of all ticks, so it does not round to zero. -/
theorem exists_large_level {st : SchedStats} (hpos : 0 < allTicks st) :
    ∃ i, allTicks st ≤ 100 * levelTicks st i := by
  by_contra hsmall
  have hlt : ∑ i, 100 * levelTicks st i < ∑ _i : Fin NPRIORITIES, allTicks st := by
    refine Finset.sum_lt_sum_of_nonempty Finset.univ_nonempty fun i _ => ?_
    exact Nat.lt_of_not_le fun hle => hsmall ⟨i, hle⟩
  rw [← Finset.mul_sum, Finset.sum_const, Finset.card_univ, Fintype.card_fin, smul_eq_mul] at hlt
  have hall : ∑ i, levelTicks st i = allTicks st := rfl
  have hsixteen : NPRIORITIES * allTicks st = 16 * allTicks st := rfl
  rw [hall, hsixteen] at hlt
  omega

theorem levelTicks_le (st : SchedStats) (i : Fin NPRIORITIES) : levelTicks st i ≤ allTicks st :=
  Finset.single_le_sum (fun _ _ => Nat.zero_le _) (Finset.mem_univ i)

/-- A level that ran is printed with its part of all ticks. -/
def SharesExact (st : SchedStats) : Prop :=
  ∀ i, levelTicks st i ≠ 0 →
    (share st i).percent.toNat = 100 * levelTicks st i / allTicks st

theorem sharesExact_iff (st : SchedStats) : SharesExact st ↔ SharesFit st := by
  have hpos : ∀ i, levelTicks st i ≠ 0 → 0 < allTicks st := fun i hi =>
    (Nat.pos_of_ne_zero hi).trans_le (levelTicks_le st i)
  unfold SharesExact SharesFit
  rcases Nat.lt_or_ge (allTicks st) (2 ^ 32) with htotal | htotal
  · have hwrong : ¬ 2 ^ 32 ≤ allTicks st := Nat.not_le.mpr htotal
    rw [and_iff_right htotal, or_iff_left fun h => hwrong h.1]
    refine forall_congr' fun i => ?_
    by_cases hi : levelTicks st i = 0
    · rw [hi]
      simp
    · have hmod : allTicks st % 2 ^ 32 ≠ 0 := by
        rw [Nat.mod_eq_of_lt htotal]
        exact (hpos i hi).ne'
      rw [← lossesCancel_of_lt htotal (hpos i hi), ← wrapped_share_iff hmod, ← share_percent,
        forall_prop_of_true hi]
  · rw [and_iff_right htotal, or_iff_right fun h => Nat.not_lt.mpr htotal h.1]
    by_cases hmod : allTicks st % 2 ^ 32 = 0
    · -- every share is printed as zero, and nothing can cancel
      obtain ⟨i, hlarge⟩ := exists_large_level (htotal.trans_lt' (by decide))
      have hi : levelTicks st i ≠ 0 := by omega
      refine iff_of_false (fun h => ?_) fun h => ?_
      · have hshare := h i hi
        rw [share_percent, hmod, Nat.div_zero] at hshare
        have hone := Nat.div_pos hlarge (hpos i hi)
        omega
      · obtain ⟨j, -, hlo, hhi⟩ := h i hi
        omega
    · refine forall_congr' fun i => forall_congr' fun hi => ?_
      rw [← wrapped_share_iff hmod, share_percent]

theorem sum_div_mul_le (f : Fin NPRIORITIES → ℕ) (total : ℕ) (l : List (Fin NPRIORITIES)) :
    (l.map fun i => 100 * f i / total).sum * total ≤ 100 * (l.map f).sum := by
  induction l with
  | nil => simp
  | cons i l ih =>
      rw [List.map_cons, List.sum_cons, List.map_cons, List.sum_cons, Nat.add_mul, Nat.mul_add]
      exact Nat.add_le_add (Nat.div_mul_le_self _ _) ih

/-- Rounded down, the parts of a whole are at most the whole. -/
theorem sum_div_levels_le (st : SchedStats) :
    ((levelsRun st).map fun i => 100 * levelTicks st i / allTicks st).sum ≤ 100 := by
  rcases hrun : levelsRun st with _ | ⟨i, rest⟩
  · exact Nat.zero_le _
  · have hi : levelTicks st i ≠ 0 := mem_levelsRun.mp (hrun ▸ List.mem_cons_self ..)
    have hpos : 0 < allTicks st := (Nat.pos_of_ne_zero hi).trans_le (levelTicks_le st i)
    have hsum : ((levelsRun st).map (levelTicks st)).sum ≤ allTicks st := by
      have hall : allTicks st = ((List.finRange NPRIORITIES).map (levelTicks st)).sum :=
        Fin.sum_univ_def _
      rw [hall]
      exact (List.filter_sublist.map _).sum_le_sum fun _ _ => Nat.zero_le _
    have hmul := sum_div_mul_le (levelTicks st) (allTicks st) (levelsRun st)
    rw [hrun] at hmul hsum
    exact Nat.le_of_mul_le_mul_right (hmul.trans (Nat.mul_le_mul_left 100 hsum)) hpos

/-- The distribution is right exactly when nothing wraps around, or what is lost cancels. -/
theorem rightShares_iff (s : Kernel) :
    RightShares s ↔ SharesFit (schedAccountCputicks s).stats := by
  have hshares := shares_eq s
  rw [← sharesExact_iff]
  constructor
  · intro h i hi
    refine h.percent (share _ i) ?_
    rw [hshares]
    exact List.mem_map_of_mem (mem_levelsRun.mpr hi)
  · intro h
    have hpercent : ∀ i ∈ levelsRun (schedAccountCputicks s).stats,
        (share (schedAccountCputicks s).stats i).percent.toNat =
          100 * levelTicks (schedAccountCputicks s).stats i /
            allTicks (schedAccountCputicks s).stats := fun i hi => h i (mem_levelsRun.mp hi)
    refine ⟨?_, ?_, ?_, ?_⟩ <;> rw [hshares]
    · exact (List.map_map ..).trans (List.map_id _)
    · rw [List.forall_mem_map]
      exact hpercent
    · rw [List.forall_mem_map]
      intro i hi
      rw [hpercent i hi]
      exact Nat.div_le_of_le_mul (Nat.mul_comm 100 _ ▸
        Nat.mul_le_mul_left 100 (levelTicks_le _ i))
    · rw [List.map_map]
      exact le_of_eq_of_le (congrArg List.sum (List.map_congr_left hpercent)) (sum_div_levels_le _)

/-! ## A long run -/

/-- Environment `e` runs on CPU `c`, there is no other, and `k` ticks have been charged to it. -/
structure Alone (c : Cpu) (e : Slot) (k : ℕ) (s : Kernel) : Prop where
  policy : s.policy = .roundRobin
  started : (s.cpus c).cpuStatus = .started
  curenv : s.curenv c = some e
  running : (s.envs e).envStatus = .running
  free : ∀ t, t ≠ e → (s.envs t).envStatus = .free
  pgdir : (s.envs e).envPgdir.isSome = true
  id : s.stats.schedRunningId = (s.envs e).envId
  id_ne : (s.envs e).envId ≠ 0
  prio : s.stats.schedRunningPrio = (s.envs e).envPriority
  default : (s.envs e).envPriority = ENV_PRIORITY_DEFAULT
  awake : (s.envs e).envSleepUntil = 0
  since : s.stats.schedRunningSince = s.ticks
  ticks : ∀ i, s.stats.schedPrioTicks i = if i = 8 then BitVec.ofNat 32 k else 0

/-- With nobody ready, round robin goes on with the environment that was running. -/
theorem schedYield_alone (hpolicy : s.policy = .roundRobin) (hcur : s.curenv c = some e)
    (hrun : (s.envs e).envStatus = .running) (hnone : ∀ t, (s.envs t).envStatus ≠ .runnable) :
    schedYield c s = schedRun c (countCall s) e (s.envs e).envPriority := by
  have hfind : (scanFrom (scanStart c (countCall s))).find?
      (fun e => ((countCall s).envs e).envStatus = .runnable) = none :=
    List.find?_eq_none.mpr fun t _ ht => hnone t (of_decide_eq_true ht)
  have hpolicy' : (countCall s).policy = .roundRobin := hpolicy
  have hcur' : (countCall s).curenv c = some e := hcur
  unfold schedYield
  dsimp only
  rw [hpolicy']
  dsimp only
  rw [hfind]
  dsimp only
  unfold schedIdle
  rw [hcur']
  exact if_pos hrun

/-- With nobody to wait for, the statistics are printed. -/
theorem schedYield_finishes (hpolicy : s.policy = .roundRobin) (hcur : s.curenv c = some e)
    (hnone : ∀ t, (s.envs t).pending = false) :
    schedYield c s = .stuck .noRunnable (schedAccountCputicks (countCall s)) := by
  have hstatus : ∀ t, (s.envs t).envStatus ≠ .runnable ∧ (s.envs t).envStatus ≠ .running := by
    intro t
    have hpending := of_decide_eq_false (hnone t)
    exact ⟨fun hst => hpending (.inl hst), fun hst => hpending (.inr (.inl hst))⟩
  have hfind : (scanFrom (scanStart c (countCall s))).find?
      (fun e => ((countCall s).envs e).envStatus = .runnable) = none :=
    List.find?_eq_none.mpr fun t _ ht => (hstatus t).1 (of_decide_eq_true ht)
  have hpolicy' : (countCall s).policy = .roundRobin := hpolicy
  have hcur' : (countCall s).curenv c = some e := hcur
  have hany : ¬ ((List.finRange NENV).any fun t => ((countCall s).envs t).pending) = true := by
    rw [Bool.not_eq_true, List.any_eq_false]
    exact fun t _ => Bool.eq_false_iff.mp (hnone t)
  unfold schedYield
  dsimp only
  rw [hpolicy']
  dsimp only
  rw [hfind]
  dsimp only
  unfold schedIdle schedHalt
  rw [hcur', if_neg hany]
  exact if_neg (hstatus e).2

theorem schedAccountCputicks_level {p : Fin NPRIORITIES} (hrun : s.stats.schedRunningId ≠ 0)
    (hlevel : s.stats.schedRunningPrio.toNat = p) (i : Fin NPRIORITIES) :
    (schedAccountCputicks s).stats.schedPrioTicks i =
      s.stats.schedPrioTicks i + if i = p then s.ticks - s.stats.schedRunningSince else 0 := by
  have hsmall : s.stats.schedRunningPrio.toNat < NPRIORITIES := hlevel ▸ p.isLt
  have hindex : (⟨_, hsmall⟩ : Fin NPRIORITIES) = p := Fin.ext hlevel
  rw [schedAccountCputicks_stats hrun hsmall]
  dsimp only
  rw [hindex]
  by_cases hi : i = p
  · rw [hi, Function.update_self, if_pos rfl]
  · rw [Function.update_of_ne hi, if_neg hi]
    exact (BitVec.add_zero _).symm

/-- With nobody asleep a clock interrupt saves the registers and counts, and no more. -/
theorem Alone.tick_proj {α : Type} (h : Alone c e k s) (f : Env → α)
    (hf : ∀ env tf, f { env with envTf := tf } = f env) (tf : Trapframe) (t : Slot) :
    f ((tick (saved c s e tf)).envs t) = f (s.envs t) := by
  have hstatus : ((saved c s e tf).envs t).envStatus = (s.envs t).envStatus :=
    modEnv_proj Env.envStatus fun _ => rfl
  have hawake : (tick (saved c s e tf)).envs t = (saved c s e tf).envs t := by
    refine if_pos (.inl fun hst => ?_)
    rw [hstatus] at hst
    by_cases ht : t = e
    · rw [ht, h.running] at hst
      cases hst
    · rw [h.free t ht] at hst
      cases hst
  rw [hawake]
  exact modEnv_proj f fun env => hf env tf

/-- A clock interrupt is charged to the environment that is alone. -/
theorem Alone.clock (h : Alone c e k s) : ∃ s', Step s (clock c) s' ∧ Alone c e (k + 1) s' := by
  generalize htf : ({ tfTrapno := IRQ_OFFSET + IRQ_TIMER, tfCs := GD_UT ||| 3 } : Trapframe) = tf
  have hexec : (JosSched.clock c).exec s = schedYield c (tick (saved c s e tf)) := by
    rw [← htf]
    refine trap_timer h.curenv (fun hst => ?_) rfl
    rw [h.running] at hst
    cases hst
  have henabled : (JosSched.clock c).Enabled s := by
    refine ⟨⟨h.started, ?_⟩, by decide⟩
    rw [h.curenv]
    rfl
  have hstatus := h.tick_proj Env.envStatus (fun _ _ => rfl) tf
  have hid := h.tick_proj Env.envId (fun _ _ => rfl) tf e
  have hprio := h.tick_proj Env.envPriority (fun _ _ => rfl) tf e
  have hpgdir := h.tick_proj Env.envPgdir (fun _ _ => rfl) tf e
  have hsleep := h.tick_proj Env.envSleepUntil (fun _ _ => rfl) tf e
  have hcur : (tick (saved c s e tf)).curenv c = some e := by
    show (saved c s e tf).curenv c = some e
    rw [saved_curenv, h.curenv]
  -- nobody else becomes runnable: there is nobody else
  have hnone : ∀ t, ((tick (saved c s e tf)).envs t).envStatus ≠ .runnable := fun t hst => by
    rw [hstatus t] at hst
    by_cases ht : t = e
    · rw [ht, h.running] at hst
      cases hst
    · rw [h.free t ht] at hst
      cases hst
  have hstarted : ((tick (saved c s e tf)).cpus c).cpuStatus = .started := by
    show ((saved c s e tf).cpus c).cpuStatus = .started
    exact saved_cpuStatus
  have hpolicy : (tick (saved c s e tf)).policy = .roundRobin := h.policy
  have hticks : (tick (saved c s e tf)).ticks = s.ticks + 1 := rfl
  have hstats : (tick (saved c s e tf)).stats = s.stats := rfl
  generalize tick (saved c s e tf) = s₁ at *
  have hyield := schedYield_alone hpolicy hcur ((hstatus e).trans h.running) hnone
  obtain ⟨pgdir, hdir⟩ := Option.isSome_iff_exists.mp h.pgdir
  have hdir' : ((countCall s₁).envs e).envPgdir = some pgdir := hpgdir.trans hdir
  obtain ⟨s', hleave⟩ : ∃ s', schedRun c (countCall s₁) e (s₁.envs e).envPriority = .leave s' :=
    exists_schedRun hdir'
  have hran := schedRun_eq_leave hleave
  refine ⟨s', ⟨henabled, hexec.trans (hyield.trans hleave)⟩, ?_⟩
  -- one tick has passed since the last decision
  have hrun : (countCall s₁).stats.schedRunningId ≠ 0 := by
    have hsame : (countCall s₁).stats.schedRunningId = s₁.stats.schedRunningId := rfl
    rw [hsame, hstats, h.id]
    exact h.id_ne
  have hlevel : (countCall s₁).stats.schedRunningPrio.toNat = (8 : Fin NPRIORITIES) := by
    have hsame : (countCall s₁).stats.schedRunningPrio = s₁.stats.schedRunningPrio := rfl
    rw [hsame, hstats, h.prio, h.default]
    rfl
  have hdelta : s₁.ticks - s₁.stats.schedRunningSince = 1 := by
    rw [hticks, hstats, h.since]
    bv_omega
  have hrecord : s'.stats = (schedRecord (countCall s₁) e (s₁.envs e).envPriority).stats :=
    envRun_stats hleave
  obtain ⟨hrunId, hrunPrio, hrunSince⟩ :=
    schedRecord_running (countCall s₁) e (s₁.envs e).envPriority
  have hid' : (s'.envs e).envId = (s₁.envs e).envId := hran.proj Env.envId fun _ _ _ _ => rfl
  have hprio' : (s'.envs e).envPriority = (s₁.envs e).envPriority :=
    hran.proj Env.envPriority fun _ _ _ _ => rfl
  have hpgdir' : (s'.envs e).envPgdir = (s₁.envs e).envPgdir :=
    hran.proj Env.envPgdir fun _ _ _ _ => rfl
  have hsleep' : (s'.envs e).envSleepUntil = (s₁.envs e).envSleepUntil :=
    hran.proj Env.envSleepUntil fun _ _ _ _ => rfl
  refine ⟨hran.policy.trans hpolicy, hran.cpuStatus.trans hstarted, hran.curenv, ?_, fun t ht => ?_,
    ?_, ?_, ?_, ?_, ?_, ?_, ?_, fun i => ?_⟩
  · rw [hran.envs]
    exact if_pos rfl
  · rw [hran.envs]
    have hother : ¬ ((countCall s₁).curenv c = some t ∧ (s₁.envs t).envStatus = .running) :=
      fun hand => ht (Option.some.inj (hcur.symm.trans hand.1)).symm
    exact (if_neg ht).trans ((if_neg hother).trans ((hstatus t).trans (h.free t ht)))
  · rw [hpgdir', hpgdir]
    exact h.pgdir
  · rw [hrecord, hrunId, hid']
    rfl
  · rw [hid', hid]
    exact h.id_ne
  · rw [hrecord, hrunPrio, hprio']
    rfl
  · rw [hprio', hprio, h.default]
  · rw [hsleep', hsleep, h.awake]
  · rw [hrecord, hrunSince, hran.ticks]
  -- the level of the environment gets the tick, the others keep what they have
  · have hcharged : s'.stats.schedPrioTicks i =
        (schedAccountCputicks (countCall s₁)).stats.schedPrioTicks i := by
      rw [hrecord]
      rfl
    have hcount : (countCall s₁).ticks - (countCall s₁).stats.schedRunningSince = 1 := hdelta
    have hold : (countCall s₁).stats.schedPrioTicks i = s.stats.schedPrioTicks i :=
      congrArg (·.schedPrioTicks i) hstats
    rw [hcharged, schedAccountCputicks_level hrun hlevel, hcount, hold, h.ticks i]
    by_cases hi : i = 8
    · rw [if_pos hi, if_pos hi, if_pos hi, BitVec.ofNat_add]
      rfl
    · rw [if_neg hi, if_neg hi, if_neg hi]
      rfl

theorem Alone.clocks (h : Alone c e k s) (n : ℕ) :
    ∃ s', Trace Step s (List.replicate n (JosSched.clock c)) s' ∧ Alone c e (k + n) s' := by
  induction n with
  | zero => exact ⟨s, .nil, h⟩
  | succ n ih =>
      obtain ⟨s₁, hrun, halone⟩ := ih
      obtain ⟨s', hstep, halone'⟩ := halone.clock
      rw [List.replicate_succ']
      exact ⟨s', hrun.snoc hstep, halone'⟩

/-- What `sys_ipc_recv(dstva)` makes of its caller. -/
def receiving (s : Kernel) (cur : Slot) (dstva : Word) : Kernel :=
  (s.modEnv cur fun env => { env with envIpcRecving := true }).modEnv cur fun env => { env with
    envIpcDstva := dstva, envStatus := .notRunnable }

/-- When the environment that is alone waits for a message, nobody is left, and the statistics
are printed. -/
theorem Alone.waits (h : Alone c e k s) :
    (sysTrap c .ipcRecv 0x800000 0 0 0 0).Enabled s ∧
      ∃ s', (sysTrap c .ipcRecv 0x800000 0 0 0 0).exec s = .stuck .noRunnable s' ∧
        schedAccountCputicks s' = s' ∧
        ∀ i, s'.stats.schedPrioTicks i = if i = 8 then BitVec.ofNat 32 k else 0 := by
  have henabled : (sysTrap c .ipcRecv 0x800000 0 0 0 0).Enabled s := by
    refine ⟨⟨h.started, ?_⟩, by decide⟩
    rw [h.curenv]
    rfl
  generalize htf : sysFrame {} .ipcRecv 0x800000 0 0 0 0 = tf
  have hcalls : Calls tf .ipcRecv := htf ▸ ⟨rfl, by decide⟩
  have hdst : tf.tfRegs.regEdx = 0x800000 := htf ▸ rfl
  have hdying : (s.envs e).envStatus ≠ .dying := fun hst => by
    rw [h.running] at hst
    cases hst
  have hexec : (sysTrap c .ipcRecv 0x800000 0 0 0 0).exec s =
      schedYield c (receiving (saved c s e tf) e 0x800000) := by
    have htrap : (sysTrap c .ipcRecv 0x800000 0 0 0 0).exec s = trap c s {} tf := htf ▸ rfl
    rw [htrap]
    refine trap_of_error h.curenv hdying hcalls ?_
    show sysIpcRecv c (saved c s e tf) e tf.tfRegs.regEdx = _
    have hvalid : ¬ (UTOP ≤ (0x800000 : Word) ∨ pgoff 0x800000 ≠ 0) := by decide
    rw [hdst]
    unfold sysIpcRecv
    rw [if_neg hvalid]
    rfl
  have hcur : (receiving (saved c s e tf) e 0x800000).curenv c = some e := by
    show (saved c s e tf).curenv c = some e
    rw [saved_curenv, h.curenv]
  have hself : (receiving (saved c s e tf) e 0x800000).envs e = { s.envs e with
      envTf := tf, envIpcRecving := true, envIpcDstva := 0x800000, envStatus := .notRunnable } := by
    unfold receiving saved
    rw [Kernel.modEnv_self, Kernel.modEnv_self, Kernel.modEnv_self]
    rfl
  have hother : ∀ t, t ≠ e → (receiving (saved c s e tf) e 0x800000).envs t = s.envs t := by
    intro t ht
    unfold receiving saved
    rw [Kernel.modEnv_ne _ _ ht, Kernel.modEnv_ne _ _ ht, Kernel.modEnv_ne _ _ ht]
    rfl
  -- it waits for a message and not for the clock, so the kernel has nothing to wait for
  have hnone : ∀ t, ((receiving (saved c s e tf) e 0x800000).envs t).pending = false := by
    intro t
    by_cases ht : t = e
    · rw [ht, hself]
      simp [Env.pending, h.awake]
    · rw [hother t ht]
      simp [Env.pending, h.free t ht]
  have hstats : (receiving (saved c s e tf) e 0x800000).stats = s.stats := rfl
  have hticks : (receiving (saved c s e tf) e 0x800000).ticks = s.ticks := rfl
  refine ⟨henabled, _, hexec.trans (schedYield_finishes h.policy hcur hnone),
    schedAccountCputicks_idem, fun i => ?_⟩
  generalize receiving (saved c s e tf) e 0x800000 = s₁ at hstats hticks
  have hrun : (countCall s₁).stats.schedRunningId ≠ 0 := by
    have hsame : (countCall s₁).stats.schedRunningId = s₁.stats.schedRunningId := rfl
    rw [hsame, hstats, h.id]
    exact h.id_ne
  have hlevel : (countCall s₁).stats.schedRunningPrio.toNat = (8 : Fin NPRIORITIES) := by
    have hsame : (countCall s₁).stats.schedRunningPrio = s₁.stats.schedRunningPrio := rfl
    rw [hsame, hstats, h.prio, h.default]
    rfl
  have hsettled : (countCall s₁).ticks - (countCall s₁).stats.schedRunningSince = 0 := by
    have hsame : (countCall s₁).stats.schedRunningSince = s₁.stats.schedRunningSince := rfl
    have hnow : (countCall s₁).ticks = s₁.ticks := rfl
    rw [hsame, hnow, hstats, hticks, h.since, BitVec.sub_self]
    rfl
  have hold : (countCall s₁).stats.schedPrioTicks i = s.stats.schedPrioTicks i :=
    congrArg (·.schedPrioTicks i) hstats
  rw [schedAccountCputicks_level hrun hlevel, hsettled, ite_self, hold, h.ticks i]
  exact BitVec.add_zero _

/-- A process that has just been started runs alone. -/
def startsAlone (s : Kernel) : Bool :=
  decide ((s.cpus 0).cpuStatus = .started ∧ s.curenv 0 = some 0 ∧
    (s.envs 0).envStatus = .running ∧ (∀ t, t ≠ 0 → (s.envs t).envStatus = .free) ∧
    (s.envs 0).envPgdir.isSome = true ∧ s.stats.schedRunningId = (s.envs 0).envId ∧
    (s.envs 0).envId ≠ 0 ∧ s.stats.schedRunningPrio = (s.envs 0).envPriority ∧
    (s.envs 0).envPriority = ENV_PRIORITY_DEFAULT ∧ (s.envs 0).envSleepUntil = 0 ∧
    s.stats.schedRunningSince = s.ticks ∧ ∀ i, s.stats.schedPrioTicks i = 0)

theorem exists_alone : ∃ s₀ s, Booted s₀ ∧
    Trace Step s₀ [.boot emptyImage, .start 0] s ∧ Alone 0 0 0 s := by
  obtain ⟨s, hrun, htest⟩ := exists_trace (fun _ _ => True) (bootedMachine .roundRobin 64)
    [.boot emptyImage, .start 0] (fun s => s.policy = .roundRobin && startsAlone s)
    (by decide +kernel)
  rw [Bool.and_eq_true, decide_eq_true_iff] at htest
  obtain ⟨hpolicy, halone⟩ := htest
  obtain ⟨hst, hcur, hrunning, hfree, hpgdir, hid, hne, hprio, hdefault, hawake, hsince, hticks⟩ :=
    of_decide_eq_true halone
  refine ⟨_, s, booted_bootedMachine .roundRobin (n := 64) (by decide) (by decide),
    hrun.mono fun _ _ _ h => h.1, hpolicy, hst, hcur, hrunning, hfree, hpgdir, hid, hne, hprio,
    hdefault, hawake, hsince, fun i => ?_⟩
  rw [hticks i]
  exact (ite_self _).symm

/-- A process that runs by itself for 42949673 ticks, the first number whose product by 100 does
not fit in a word, and then waits for a message: its share of 100% is printed as 0%. -/
theorem shares_wrap : ∃ (s₀ s s' : Kernel) (evs : List Event) (ev : Event), Booted s₀ ∧
    Trace Step s₀ evs s ∧ ev.Enabled s ∧ ev.exec s = .stuck .noRunnable s' ∧
    (schedPrintStats s').shares = [{ level := 8, ticks := 42949673, percent := 0 }] ∧
    ¬ RightShares s' := by
  obtain ⟨s₀, s₁, hboot, hrun, halone⟩ := exists_alone
  obtain ⟨s, hrun', halone'⟩ := halone.clocks 42949673
  obtain ⟨henabled, s', hexec, hsettled, hticks⟩ := halone'.waits
  have hlevels : s'.stats.schedPrioTicks = fun i => if i = 8 then 42949673 else 0 := funext hticks
  have hshares : (schedPrintStats s').shares =
      [{ level := 8, ticks := 42949673, percent := 0 }] := by
    unfold schedPrintStats share totalTicks
    rw [hsettled]
    dsimp only
    rw [hlevels]
    decide
  refine ⟨s₀, s, s', _, _, hboot, hrun.trans hrun', henabled, hexec, hshares, fun h => ?_⟩
  have hpercent := h.percent _ (hshares ▸ List.mem_singleton_self _)
  have hlevel : levelTicks s'.stats 8 = 42949673 := by
    unfold levelTicks
    rw [hlevels]
    rfl
  have hall : allTicks s'.stats = 42949673 := by
    unfold allTicks levelTicks
    rw [hlevels]
    rfl
  rw [hsettled, hlevel, hall] at hpercent
  exact absurd hpercent (by decide)

end JosSched
