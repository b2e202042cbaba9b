import JosSched.Kern.TrapSpec
import JosSched.Sched.Aging
import JosSched.Sched.RoundRobin

/-!
# Equal priorities

On a set of environments that are always ready and have the same priority, both policies go
round the set in the circular order of the slots.  Round robin does so by its definition; under
the priority policy it takes an invariant on the wait counters: the sooner the scan comes to an
environment, the longer it has waited (`Staggered`).  The bonus then never favours anybody but
the first one of the scan.
-/

namespace JosSched

/-- The environments of `S` have the same priority and are always ready, and nobody else is. -/
structure Peers (c : Cpu) (S : Finset Slot) (p : Word) (s : Kernel) : Prop where
  nonempty : S.Nonempty
  priority : ∀ e ∈ S, (s.envs e).envPriority = p
  named : ∀ e ∈ S, envx (s.envs e).envId = e
  pgdir : ∀ e ∈ S, (s.envs e).envPgdir.isSome = true
  current : ∀ cur, s.curenv c = some cur → cur ∈ S ∧ (s.envs cur).envStatus = .running
  ready : ∀ e, s.IsReady e ↔ e ∈ S ∧ s.curenv c ≠ some e

/-- What may happen between two decisions: the environments of `S` stay as they are, and nobody
else gets ready. -/
structure Undecided (c : Cpu) (S : Finset Slot) (s s₁ : Kernel) : Prop where
  policy : s₁.policy = s.policy
  curenv : s₁.curenv c = s.curenv c
  status : ∀ e ∈ S, (s₁.envs e).envStatus = (s.envs e).envStatus
  seat : ∀ e ∈ S, (s₁.envs e).seat = (s.envs e).seat
  pgdir : ∀ e ∈ S, (s₁.envs e).envPgdir = (s.envs e).envPgdir
  others : ∀ e, e ∉ S → ¬ s₁.IsReady e

/-- The decisions of `sched_yield` in a run from `s` pick the environments of the list. -/
inductive Picks (c : Cpu) (S : Finset Slot) (s : Kernel) : List Slot → Kernel → Prop
  | start : Picks c S s [] s
  | decide {l s₁ s₂ s₃ e} : Picks c S s l s₁ → Undecided c S s₁ s₂ →
      schedYield c s₂ = .leave s₃ → s₃.curenv c = some e → Picks c S s (l ++ [e]) s₃

/-- The kernel built with the other policy. -/
def Kernel.under (s : Kernel) (policy : Policy) : Kernel := { s with policy := policy }

/-- The environments of `S` in the order in which the next scan comes to them. -/
def queue (c : Cpu) (S : Finset Slot) (s : Kernel) : List Slot :=
  (circular NENV (scanStart c s)).filter fun e => e ∈ S

/-- The sooner the scan comes to an environment, the longer it has waited.  The bound keeps the
counters from overflowing. -/
structure Staggered (c : Cpu) (S : Finset Slot) (s : Kernel) : Prop where
  sorted : ∀ e ∈ S, ∀ t ∈ S, circularDist (scanStart c s) e ≤ circularDist (scanStart c s) t →
    (s.envs t).envWaitTicks.toNat ≤ (s.envs e).envWaitTicks.toNat
  bounded : ∀ e ∈ S,
    (s.envs e).envWaitTicks.toNat + circularDist (scanStart c s) e < NENV
  current : ∀ cur, s.curenv c = some cur → (s.envs cur).envWaitTicks = 0

variable {c : Cpu} {S : Finset Slot} {p : Word} {s s₁ s₂ s' : Kernel} {a e best : Slot}
  {l rest : List Slot}

/-! ## The queue -/

theorem mem_queue : e ∈ queue c S s ↔ e ∈ S := by
  simp [queue, mem_circular]

theorem nodup_queue : (queue c S s).Nodup := (nodup_circular _).filter _

theorem length_queue : (queue c S s).length = S.card := by
  rw [← List.toFinset_card_of_nodup (nodup_queue (c := c) (S := S) (s := s))]
  congr 1
  ext e
  rw [List.mem_toFinset, mem_queue]

theorem mem_of_queue (h : queue c S s = a :: rest) : a ∈ S :=
  mem_queue.mp (h ▸ List.mem_cons_self)

theorem circularDist_le_of_queue (h : queue c S s = a :: rest) (he : e ∈ S) :
    circularDist (scanStart c s) a ≤ circularDist (scanStart c s) e := by
  unfold queue at h
  exact circularDist_le_of_filter h (decide_eq_true he)

theorem circularDist_lt_of_queue (h : queue c S s = a :: rest) (he : e ∈ S) (hne : e ≠ a) :
    circularDist (scanStart c s) a < circularDist (scanStart c s) e :=
  (circularDist_le_of_queue h he).lt_of_ne fun heq => hne (circularDist_inj heq).symm

namespace Peers

theorem candidate (h : Peers c S p s) (he : e ∈ S) : Candidate c s e := by
  by_cases hcur : s.curenv c = some e
  · exact .inr ⟨hcur, (h.current e hcur).2⟩
  · exact .inl ((h.ready e).mpr ⟨he, hcur⟩)

theorem mem_of_candidate (h : Peers c S p s) (he : Candidate c s e) : e ∈ S := by
  rcases he with hready | ⟨hcur, -⟩
  · exact ((h.ready e).mp hready).1
  · exact (h.current e hcur).1

theorem scanStart_eq (h : Peers c S p s) {cur : Slot} (hcur : s.curenv c = some cur) :
    scanStart c s = cur.val + 1 := by
  unfold scanStart
  rw [hcur]
  dsimp only
  rw [h.named cur (h.current cur hcur).1]

/-- The current environment is the last of the scan. -/
theorem circularDist_current (h : Peers c S p s) {cur : Slot} (hcur : s.curenv c = some cur) :
    circularDist (scanStart c s) cur + 1 = NENV := by
  rw [h.scanStart_eq hcur, circularDist_succ_self]

/-- If the current environment is also the first of the scan, it is alone. -/
theorem alone (h : Peers c S p s) (hq : queue c S s = a :: rest) (hcur : s.curenv c = some a)
    (he : e ∈ S) : e = a := by
  by_contra hne
  have hlt := circularDist_lt_of_queue hq he hne
  have hlast := h.circularDist_current hcur
  have hdist := circularDist_lt (scanStart c s) e
  omega

/-! ## Between two decisions -/

theorem undecided (h : Peers c S p s) (hu : Undecided c S s s₁) : Peers c S p s₁ where
  nonempty := h.nonempty
  priority e he := by
    have hseat : (s₁.envs e).envPriority = (s.envs e).envPriority :=
      congrArg (fun x => x.2.1) (hu.seat e he)
    exact hseat.trans (h.priority e he)
  named e he := by
    have hseat : (s₁.envs e).envId = (s.envs e).envId := congrArg (fun x => x.1) (hu.seat e he)
    rw [hseat, h.named e he]
  pgdir e he := by rw [hu.pgdir e he, h.pgdir e he]
  current cur hcur := by
    obtain ⟨hmem, hrun⟩ := h.current cur (hu.curenv.symm.trans hcur)
    exact ⟨hmem, (hu.status cur hmem).trans hrun⟩
  ready e := by
    by_cases he : e ∈ S
    · rw [Kernel.IsReady, hu.status e he, hu.curenv]
      exact h.ready e
    · exact ⟨fun hready => absurd hready (hu.others e he), fun hmem => absurd hmem.1 he⟩

theorem scanStart_undecided (h : Peers c S p s) (hu : Undecided c S s s₁) :
    scanStart c s₁ = scanStart c s := by
  cases hcur : s.curenv c with
  | none =>
      have hcur₁ := hu.curenv.trans hcur
      unfold scanStart
      rw [hcur, hcur₁]
  | some cur =>
      rw [(h.undecided hu).scanStart_eq (hu.curenv.trans hcur), h.scanStart_eq hcur]

end Peers

theorem Staggered.undecided (hs : Staggered c S s) (h : Peers c S p s)
    (hu : Undecided c S s s₁) : Staggered c S s₁ := by
  have hwait : ∀ e ∈ S, (s₁.envs e).envWaitTicks = (s.envs e).envWaitTicks := fun e he =>
    congrArg (fun x => x.2.2) (hu.seat e he)
  refine ⟨fun e he t ht => ?_, fun e he => ?_, fun cur hcur => ?_⟩
  · rw [h.scanStart_undecided hu, hwait e he, hwait t ht]
    exact hs.sorted e he t ht
  · rw [h.scanStart_undecided hu, hwait e he]
    exact hs.bounded e he
  · have hcur' := hu.curenv.symm.trans hcur
    rw [hwait cur (h.current cur hcur').1]
    exact hs.current cur hcur'

/-! ## One decision -/

theorem Peers.ran (h : Peers c S p s) (hsame : SameButWait s s₁) (ha : a ∈ S)
    (hran : Ran c s₁ a s') : Peers c S p s' := by
  have hdeparted := hsame.departed_ran hran
  have hcurenv : s₁.curenv c = s.curenv c := congrArg CpuInfo.cpuEnv (congrFun hsame.cpus c)
  refine ⟨h.nonempty, fun e he => ?_, fun e he => ?_, fun e he => ?_, fun cur hcur => ?_,
    fun e => ?_⟩
  · rw [hdeparted.proj Env.envPriority fun _ _ _ _ _ => rfl, h.priority e he]
  · rw [hdeparted.proj Env.envId fun _ _ _ _ _ => rfl, h.named e he]
  · rw [hdeparted.proj Env.envPgdir fun _ _ _ _ _ => rfl, h.pgdir e he]
  · obtain rfl := Option.some.inj (hran.curenv.symm.trans hcur)
    refine ⟨ha, ?_⟩
    rw [hran.envs]
    exact if_pos rfl
  · have hstatus : (s'.envs e).envStatus = if e = a then .running
        else if s.curenv c = some e ∧ (s.envs e).envStatus = .running then .runnable
        else (s.envs e).envStatus := by
      rw [hran.envs, hsame.envs, hcurenv]
    rw [Kernel.IsReady, hstatus, hran.curenv]
    by_cases hea : e = a
    · simp [hea]
    · have hne : some a ≠ some e := fun heq => hea (Option.some.inj heq).symm
      rw [if_neg hea]
      by_cases hcur : s.curenv c = some e
      · simp [hcur, h.current e hcur, hne]
      · rw [if_neg fun hand => hcur hand.1]
        exact (h.ready e).trans (by simp [hcur, hne])

/-- A decision moves the environment it picks to the end of the queue. -/
theorem Peers.queue_ran (h : Peers c S p s) (hsame : SameButWait s s₁)
    (hq : queue c S s = a :: rest) (hran : Ran c s₁ a s') : queue c S s' = rest ++ [a] := by
  have hstart := (h.ran hsame (mem_of_queue hq) hran).scanStart_eq hran.curenv
  unfold queue at hq ⊢
  rw [hstart]
  exact filter_circular_succ hq

/-- Round robin picks the head of the queue. -/
theorem Peers.next (h : Peers c S p s) (hpolicy : s.policy = .roundRobin)
    (hq : queue c S s = a :: rest) (hyield : schedYield c s = .leave s') :
    ∃ s₁, SameButWait s s₁ ∧ Ran c s₁ a s' := by
  by_cases hready : s.IsReady a
  · obtain ⟨next, hnext, hle, hran⟩ := schedYield_next hpolicy hyield hready
    have hmem := ((h.ready next).mp hnext).1
    obtain rfl := circularDist_inj (hle.antisymm (circularDist_le_of_queue hq hmem))
    exact ⟨_, sameButWait_countCall, hran⟩
  · have hcur := ((h.candidate (mem_of_queue hq)).resolve_left hready).1
    cases schedYield_decided hyield with
    | @ran s₁ _ e hsame he hran =>
        obtain rfl := h.alone hq hcur (h.mem_of_candidate he)
        exact ⟨s₁, hsame, hran⟩
    | halted _ hno => exact absurd (h.current a hcur).2 (hno a hcur)

/-- So does the priority policy. -/
theorem Peers.picked (h : Peers c S p s) (hp : p ≤ ENV_PRIORITY_MAX) (hs : Staggered c S s)
    (hq : queue c S s = a :: rest) (hpicked : Picked c s best) : best = a := by
  have ha := mem_of_queue hq
  have hbest := h.mem_of_candidate hpicked.candidate
  by_cases hcur : s.curenv c = some a
  · exact h.alone hq hcur hbest
  have hready := (h.ready a).mpr ⟨ha, hcur⟩
  have hle := hs.sorted a ha best hbest (circularDist_le_of_queue hq hbest)
  have heff : ∀ e ∈ S, effective s e = p.toNat +
      min ENV_PRIORITY_MAX.toNat ((s.envs e).envWaitTicks.toNat / AGING_THRESHOLD.toNat) :=
    fun e he => by
      have hprio := h.priority e he
      rw [← hprio]
      exact effective_eq (by rw [hprio]; exact hp)
  have hkey : effective s best ≤ effective s a := by
    rw [heff best hbest, heff a ha]
    have hdiv := Nat.div_le_div_right (c := AGING_THRESHOLD.toNat) hle
    omega
  cases hpicked with
  | scan hmax _ =>
      have hdist := hmax.circularDist_le hready hkey
      exact circularDist_inj (hdist.antisymm (circularDist_le_of_queue hq hbest))
  | current _ _ hlt => exact absurd hkey (not_le.mpr (hlt a hready))

/-! ## Wait counters -/

/-- The counters after a decision of the priority policy. -/
theorem Peers.wait (h : Peers c S p s) (hs : Staggered c S s)
    (hran : Ran c (schedAge (countCall s) a) a s') (he : e ∈ S) :
    (s'.envs e).envWaitTicks.toNat = if e = a ∨ s.curenv c = some e then 0
      else (s.envs e).envWaitTicks.toNat + 1 := by
  rw [hran.envs]
  show ((schedAge (countCall s) a).envs e).envWaitTicks.toNat = _
  unfold schedAge
  dsimp only
  by_cases hea : e = a
  · rw [if_pos hea, if_pos (.inl hea)]
    rfl
  · rw [if_neg hea]
    by_cases hcur : s.curenv c = some e
    · have hrun := (h.current e hcur).2
      have hst : ((countCall s).envs e).envStatus ≠ .runnable := by
        show (s.envs e).envStatus ≠ .runnable
        rw [hrun]
        decide
      have hzero : ((countCall s).envs e).envWaitTicks = 0 := hs.current e hcur
      rw [if_neg hst, if_pos (.inr hcur), hzero]
      rfl
    · have hready : ((countCall s).envs e).envStatus = .runnable := (h.ready e).mpr ⟨he, hcur⟩
      have hbound := hs.bounded e he
      have hN : NENV = 1024 := rfl
      rw [if_pos hready, if_neg (not_or.mpr ⟨hea, hcur⟩)]
      show ((s.envs e).envWaitTicks + 1).toNat = _
      rw [BitVec.toNat_add]
      exact Nat.mod_eq_of_lt (by show (s.envs e).envWaitTicks.toNat + 1 < 2 ^ 32; omega)

theorem Staggered.ran (hs : Staggered c S s) (h : Peers c S p s)
    (hq : queue c S s = a :: rest) (hran : Ran c (schedAge (countCall s) a) a s') :
    Staggered c S s' := by
  have ha := mem_of_queue hq
  have hpeers := h.ran sameButWait_schedAge ha hran
  have hstart := hpeers.scanStart_eq hran.curenv
  have hcloser : ∀ e ∈ S, e ≠ a → circularDist (scanStart c s') e +
      circularDist (scanStart c s) a + 1 = circularDist (scanStart c s) e := fun e he hne => by
    rw [hstart]
    exact circularDist_succ (circularDist_lt_of_queue hq he hne)
  refine ⟨fun e he t ht hle => ?_, fun e he => ?_, fun cur hcur => ?_⟩
  · rw [h.wait hs hran he, h.wait hs hran ht]
    have hlast := hpeers.circularDist_current hran.curenv
    by_cases hta : t = a
    · rw [if_pos (.inl hta)]
      exact Nat.zero_le _
    have htlt := circularDist_lt (scanStart c s') t
    -- Nobody else is as far from the start of the next scan as the one that was picked.
    have hea : e ≠ a := by
      rintro rfl
      have hsame : circularDist (scanStart c s') t = circularDist (scanStart c s') e := by omega
      exact hta (circularDist_inj hsame)
    have hcloserE := hcloser e he hea
    have hcloserT := hcloser t ht hta
    by_cases htcur : s.curenv c = some t
    · rw [if_pos (.inr htcur)]
      exact Nat.zero_le _
    have hecur : s.curenv c ≠ some e := fun hecur => by
      have hlast := h.circularDist_current hecur
      have htlt := circularDist_lt (scanStart c s) t
      have hsame : circularDist (scanStart c s) t = circularDist (scanStart c s) e := by omega
      obtain rfl := circularDist_inj hsame
      exact htcur hecur
    rw [if_neg (not_or.mpr ⟨hea, hecur⟩), if_neg (not_or.mpr ⟨hta, htcur⟩)]
    have hsorted := hs.sorted e he t ht (by omega)
    omega
  · rw [h.wait hs hran he]
    have hdist := circularDist_lt (scanStart c s') e
    split
    · omega
    · next hne =>
        have hcloser := hcloser e he fun heq => hne (.inl heq)
        have hbound := hs.bounded e he
        omega
  · obtain rfl := Option.some.inj (hran.curenv.symm.trans hcur)
    have hwait := h.wait hs hran ha
    rw [if_pos (.inl rfl)] at hwait
    exact BitVec.eq_of_toNat_eq hwait

/-! ## Runs -/

/-- What holds between decisions: the set, and for the priority policy the wait counters. -/
structure Level (c : Cpu) (S : Finset Slot) (p : Word) (s : Kernel) : Prop where
  peers : Peers c S p s
  staggered : s.policy = .priorities → Staggered c S s

theorem Level.undecided (h : Level c S p s) (hu : Undecided c S s s₁) : Level c S p s₁ :=
  ⟨h.peers.undecided hu, fun hpolicy =>
    (h.staggered (hu.policy.symm.trans hpolicy)).undecided h.peers hu⟩

/-- Whatever the policy, a decision picks the head of the queue and puts it at its end. -/
theorem Level.decide (h : Level c S p s) (hp : p ≤ ENV_PRIORITY_MAX)
    (hq : queue c S s = a :: rest) (hyield : schedYield c s = .leave s') :
    Level c S p s' ∧ s'.policy = s.policy ∧ s'.curenv c = some a ∧
      queue c S s' = rest ++ [a] := by
  have ha := mem_of_queue hq
  cases hpolicy : s.policy with
  | roundRobin =>
      obtain ⟨s₁, hsame, hran⟩ := h.peers.next hpolicy hq hyield
      have hpolicy' : s'.policy = .roundRobin := hran.policy.trans (hsame.policy.trans hpolicy)
      refine ⟨⟨h.peers.ran hsame ha hran, fun hne => ?_⟩, hpolicy', hran.curenv,
        h.peers.queue_ran hsame hq hran⟩
      rw [hpolicy'] at hne
      cases hne
  | priorities =>
      obtain ⟨best, hpicked, hran⟩ := schedYield_ran hpolicy hyield (h.peers.candidate ha)
      obtain rfl := h.peers.picked hp (h.staggered hpolicy) hq hpicked
      exact ⟨⟨h.peers.ran sameButWait_schedAge ha hran,
        fun _ => (h.staggered hpolicy).ran h.peers hq hran⟩, hran.policy.trans hpolicy,
        hran.curenv, h.peers.queue_ran sameButWait_schedAge hq hran⟩

theorem Peers.queue_undecided (h : Peers c S p s) (hu : Undecided c S s s₁) :
    queue c S s₁ = queue c S s := by
  unfold queue
  rw [h.scanStart_undecided hu]

theorem Peers.exists_queue (h : Peers c S p s) : ∃ a rest, queue c S s = a :: rest := by
  obtain ⟨e, he⟩ := h.nonempty
  exact List.exists_cons_of_ne_nil (List.ne_nil_of_mem (mem_queue.mpr he))

/-- After any number of decisions the queue has been rotated as often, and the environments
picked are those of the queue, over and over. -/
theorem Picks.level (h : Picks c S s l s') (hstart : Level c S p s) (hp : p ≤ ENV_PRIORITY_MAX) :
    Level c S p s' ∧ queue c S s' = (queue c S s).rotate l.length ∧
      ∀ i < l.length, l[i]? = (queue c S s)[i % (queue c S s).length]? := by
  induction h with
  | start => exact ⟨hstart, (List.rotate_zero _).symm, fun i hi => absurd hi (Nat.not_lt_zero i)⟩
  | @decide l s₁ s₂ s₃ e _ hu hyield he ih =>
      obtain ⟨hlevel, hrotate, hpicks⟩ := ih
      obtain ⟨a, rest, hq⟩ := (hlevel.undecided hu).peers.exists_queue
      obtain ⟨hlevel', -, hcur, hq'⟩ := (hlevel.undecided hu).decide hp hq hyield
      obtain rfl := Option.some.inj (hcur.symm.trans he)
      rw [hlevel.peers.queue_undecided hu, hrotate] at hq
      refine ⟨hlevel', ?_, fun i hi => ?_⟩
      · rw [hq', List.length_append, List.length_singleton, ← List.rotate_rotate, hq,
          List.rotate_cons_succ, List.rotate_zero]
      · rw [List.length_append, List.length_singleton] at hi
        rcases Nat.lt_succ_iff_lt_or_eq.mp hi with hlt | rfl
        · rw [List.getElem?_append_left hlt]
          exact hpicks i hlt
        · have hpos : 0 < (queue c S s).length := by
            rw [length_queue, Finset.card_pos]
            exact hstart.peers.nonempty
          have hhead := congrArg (fun l => l[0]?) hq
          rw [List.getElem?_rotate hpos, Nat.zero_add, List.getElem?_cons_zero] at hhead
          rw [List.getElem?_append_right le_rfl, Nat.sub_self, hhead]
          rfl

/-- The start: nobody has waited yet. -/
theorem Peers.level (h : Peers c S p s) (hwait : ∀ e ∈ S, (s.envs e).envWaitTicks = 0) :
    Level c S p s := by
  refine ⟨h, fun _ => ⟨fun e he t ht _ => ?_, fun e he => ?_, fun cur hcur => ?_⟩⟩
  · rw [hwait e he, hwait t ht]
  · have hdist := circularDist_lt (scanStart c s) e
    have hzero : (0 : Word).toNat = 0 := rfl
    rw [hwait e he, hzero]
    omega
  · exact hwait cur (h.current cur hcur).1

theorem Peers.under (h : Peers c S p s) (policy : Policy) : Peers c S p (s.under policy) :=
  ⟨h.nonempty, h.priority, h.named, h.pgdir, h.current, h.ready⟩

/-- A run can always go on with another decision. -/
theorem Picks.exists_decide (h : Picks c S s l s') (hstart : Level c S p s)
    (hp : p ≤ ENV_PRIORITY_MAX) (hu : Undecided c S s' s₁) :
    ∃ e s₂, schedYield c s₁ = .leave s₂ ∧ s₂.curenv c = some e := by
  have hlevel := (h.level hstart hp).1.undecided hu
  obtain ⟨a, rest, hq⟩ := hlevel.peers.exists_queue
  obtain ⟨s₂, hyield⟩ := exists_schedYield (hlevel.peers.candidate (mem_of_queue hq))
    fun t ht => hlevel.peers.pgdir t (hlevel.peers.mem_of_candidate ht)
  exact ⟨a, s₂, hyield, (hlevel.decide hp hq hyield).2.2.1⟩

theorem Undecided.refl (h : Peers c S p s) : Undecided c S s s :=
  ⟨rfl, rfl, fun _ _ => rfl, fun _ _ => rfl, fun _ _ => rfl,
    fun e he hready => he ((h.ready e).mp hready).1⟩

theorem Level.exists_picks (h : Level c S p s) (hp : p ≤ ENV_PRIORITY_MAX) (n : ℕ) :
    ∃ l t, l.length = n ∧ Picks c S s l t := by
  induction n with
  | zero => exact ⟨[], s, rfl, .start⟩
  | succ n ih =>
      obtain ⟨l, t, hlen, hpicks⟩ := ih
      have hu := Undecided.refl (hpicks.level h hp).1.peers
      obtain ⟨e, t', hyield, he⟩ := hpicks.exists_decide h hp hu
      exact ⟨l ++ [e], t', by rw [List.length_append, hlen]; rfl, hpicks.decide hu hyield he⟩

/-- The decisions from `s` on are the same under both policies, any number of them can be made,
and every environment has one in as many decisions in a row as there are environments. -/
structure TakeTurns (c : Cpu) (S : Finset Slot) (s : Kernel) : Prop where
  same : ∀ l l' t t', Picks c S (s.under .priorities) l t →
    Picks c S (s.under .roundRobin) l' t' → l.length = l'.length → l = l'
  goesOn : ∀ policy l t t₁, Picks c S (s.under policy) l t → Undecided c S t t₁ →
    ∃ e t₂, schedYield c t₁ = .leave t₂ ∧ t₂.curenv c = some e
  everyLength : ∀ policy n, ∃ l t, l.length = n ∧ Picks c S (s.under policy) l t
  oneEach : ∀ policy l t, Picks c S (s.under policy) l t →
    ∀ i, i + S.card ≤ l.length → ∀ e ∈ S, ((l.drop i).take S.card).count e = 1

/-- On equal priorities the two policies coincide. -/
theorem equal_priorities_coincide (h : Peers c S p s) (hp : p ≤ ENV_PRIORITY_MAX)
    (hwait : ∀ e ∈ S, (s.envs e).envWaitTicks = 0) : TakeTurns c S s := by
  have hlevel : ∀ policy, Level c S p (s.under policy) := fun policy =>
    (h.under policy).level hwait
  have hqueue : ∀ policy, queue c S (s.under policy) = queue c S s := fun _ => rfl
  refine ⟨fun l l' t t' hl hl' hlen => ?_, fun policy l t t₁ hl hu => ?_,
    fun policy => (hlevel policy).exists_picks hp, fun policy l t hl i hi e he => ?_⟩
  · obtain ⟨-, -, hpicks⟩ := hl.level (hlevel _) hp
    obtain ⟨-, -, hpicks'⟩ := hl'.level (hlevel _) hp
    refine List.ext_getElem? fun i => ?_
    by_cases hi : i < l.length
    · rw [hpicks i hi, hpicks' i (hlen ▸ hi), hqueue, hqueue]
    · rw [List.getElem?_eq_none (not_lt.mp hi), List.getElem?_eq_none (hlen ▸ not_lt.mp hi)]
  · exact hl.exists_decide (hlevel policy) hp hu
  · obtain ⟨-, -, hpicks⟩ := hl.level (hlevel policy) hp
    rw [hqueue] at hpicks
    rw [← length_queue (c := c) (s := s)] at hi ⊢
    rw [window_eq_rotate hpicks hi]
    exact List.count_eq_one_of_mem (List.nodup_rotate.mpr nodup_queue)
      (List.mem_rotate.mpr (mem_queue.mpr he))

/-- A process with the id of slot `e`, ready to run. -/
def readyEnv (e : Slot) : Env where
  envId := BitVec.ofNat 32 (0x1000 + e)
  envStatus := .runnable
  envPgdir := some 1
  envPriority := ENV_PRIORITY_DEFAULT

/-- Three processes in the slots 1 to 3, before the first decision. -/
def threePeers : Kernel where
  policy := .roundRobin
  mem := ⟨64, fun _ => {}, none, fun _ _ => 0, 0⟩
  envs e := if e = 1 ∨ e = 2 ∨ e = 3 then readyEnv e else {}
  envFreeList := none
  cpus _ := { cpuCr3 := 0 }

theorem threePeers_envs (h : e ∈ ({1, 2, 3} : Finset Slot)) : threePeers.envs e = readyEnv e :=
  if_pos (by simpa using h)

theorem peers_threePeers : Peers 0 {1, 2, 3} ENV_PRIORITY_DEFAULT threePeers where
  nonempty := ⟨1, by simp⟩
  priority e he := by
    rw [threePeers_envs he]
    rfl
  named e he := by
    rw [threePeers_envs he]
    have he : e = 1 ∨ e = 2 ∨ e = 3 := by simpa using he
    rcases he with rfl | rfl | rfl <;> decide
  pgdir e he := by
    rw [threePeers_envs he]
    rfl
  current cur hcur := by cases hcur
  ready e := by
    have hnone : threePeers.curenv 0 ≠ some e := fun hcur => by cases hcur
    rw [and_iff_left hnone]
    by_cases he : e ∈ ({1, 2, 3} : Finset Slot)
    · rw [Kernel.IsReady, threePeers_envs he, iff_true_right he]
      rfl
    · have hfree : threePeers.envs e = {} := if_neg (by simpa using he)
      rw [Kernel.IsReady, hfree, iff_false_right he]
      exact fun hst => by cases hst

theorem equal_priorities_coincide_three : TakeTurns 0 {1, 2, 3} threePeers :=
  equal_priorities_coincide peers_threePeers (by decide) fun e he => by
    rw [threePeers_envs he]
    rfl

/-! ## Clock interrupts -/

theorem wakeup_envTf {n : Word} {env : Env} {tf : Trapframe} :
    wakeup n { env with envTf := tf } = { wakeup n env with envTf := tf } := by
  simp only [wakeup]
  split_ifs <;> rfl

theorem Peers.undecided_tick {tf : Trapframe} {cur : Slot} (h : Peers c S p s)
    (hasleep : ∀ t, t ∉ S → (wakeup (s.ticks + 1) (s.envs t)).envStatus ≠ .runnable) :
    Undecided c S s (tick (saved c s cur tf)) where
  policy := rfl
  curenv := by
    show (saved c s cur tf).curenv c = s.curenv c
    exact saved_curenv
  status e he := by
    have hst : (s.envs e).envStatus ≠ .notRunnable := by
      rcases h.candidate he with hst | ⟨-, hst⟩ <;> rw [hst] <;> decide
    show (wakeup (s.ticks + 1) ((saved c s cur tf).envs e)).envStatus = _
    rw [saved_envs]
    unfold wakeup
    rw [if_pos (.inl hst)]
  seat e _ := by
    refine (wakeup_proj Env.seat fun _ => rfl).trans ?_
    show ((saved c s cur tf).envs e).seat = _
    rw [saved_envs]
    rfl
  pgdir e _ := by
    refine (wakeup_proj Env.envPgdir fun _ => rfl).trans ?_
    show ((saved c s cur tf).envs e).envPgdir = _
    rw [saved_envs]
  others e he := by
    have hsame : (wakeup (s.ticks + 1) ((saved c s cur tf).envs e)).envStatus =
        (wakeup (s.ticks + 1) (s.envs e)).envStatus := by
      rw [saved_envs, wakeup_envTf]
    show (wakeup (s.ticks + 1) ((saved c s cur tf).envs e)).envStatus ≠ _
    rw [hsame]
    exact hasleep e he

/-- The clock interrupt is a decision of the run, as long as it wakes nobody else up. -/
theorem Picks.clock {inp : Input} {tf : Trapframe} {cur : Slot} {s₃ : Kernel}
    (h : Picks c S s l s₁) (hstart : Level c S p s) (hp : p ≤ ENV_PRIORITY_MAX)
    (hcur : s₁.curenv c = some cur) (htrap : tf.tfTrapno = IRQ_OFFSET + IRQ_TIMER)
    (hasleep : ∀ t, t ∉ S → (wakeup (s₁.ticks + 1) (s₁.envs t)).envStatus ≠ .runnable)
    (hleave : trap c s₁ inp tf = .leave s₃) (he : s₃.curenv c = some e) :
    Picks c S s (l ++ [e]) s₃ := by
  have hpeers := (h.level hstart hp).1.peers
  have hrun := (hpeers.current cur hcur).2
  rw [trap_timer hcur (by rw [hrun]; decide) htrap] at hleave
  exact h.decide (hpeers.undecided_tick hasleep) hleave he

/-- So is the system call `sys_yield`. -/
theorem Picks.yield {inp : Input} {tf : Trapframe} {cur : Slot} {s₃ : Kernel}
    (h : Picks c S s l s₁) (hstart : Level c S p s) (hp : p ≤ ENV_PRIORITY_MAX)
    (hcur : s₁.curenv c = some cur) (hcall : Calls tf .yield)
    (hleave : trap c s₁ inp tf = .leave s₃) (he : s₃.curenv c = some e) :
    Picks c S s (l ++ [e]) s₃ := by
  have hpeers := (h.level hstart hp).1.peers
  have hrun := (hpeers.current cur hcur).2
  rw [trap_of_error hcur (by rw [hrun]; decide) hcall rfl] at hleave
  have hu : Undecided c S s₁ (saved c s₁ cur tf) := by
    refine ⟨rfl, saved_curenv, ?_, ?_, ?_, fun t ht => ?_⟩
    · intro t _
      rw [saved_envs]
    · intro t _
      rw [saved_envs]
      rfl
    · intro t _
      rw [saved_envs]
    · rw [Kernel.IsReady, saved_envs]
      exact fun hready => ht ((hpeers.ready t).mp hready).1
  exact h.decide hu hleave he

end JosSched
