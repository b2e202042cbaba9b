import JosSched.Kern.Frame

/-!
# Who executes an environment

Nothing but `env_status` keeps two CPUs from running one environment, or a slot from being
reused under a CPU that still executes it.  `Exclusive` is what the kernel relies on between
two entries; `Custody` is what remains of it while CPU `c` is inside.

The actions of `Act.Safe` keep custody.  The ones left out write the status of an environment
that another CPU executes, or free it.
-/

namespace JosSched

/-- Whatever CPU `c` does with `e`, no other CPU executes it. -/
def OnlyHere (c : Cpu) (s : Kernel) (e : Slot) : Prop := ∀ d, d ≠ c → s.curenv d ≠ some e

/-- The list of free environments links free slots, each of them once. -/
def FreeSlots (s : Kernel) : Prop :=
  ∃ l, Chain (fun e => (s.envs e).envLink) s.envFreeList l ∧ l.Nodup ∧
    ∀ e ∈ l, (s.envs e).envStatus = .free

theorem FreeSlots.head {s : Kernel} {e : Slot} (h : FreeSlots s) (he : s.envFreeList = some e) :
    (s.envs e).envStatus = .free := by
  obtain ⟨l, hchain, -, hall⟩ := h
  rw [he] at hchain
  obtain ⟨rest, rfl, -⟩ := hchain.exists_cons
  exact hall e List.mem_cons_self

/-- Between two kernel entries: a CPU executes an environment alone, and the environment is
running or a zombie. -/
structure Exclusive (s : Kernel) : Prop where
  inj : ∀ c d e, s.curenv c = some e → s.curenv d = some e → c = d
  executing : ∀ c e, s.curenv c = some e →
    (s.envs e).envStatus = .running ∨ (s.envs e).envStatus = .dying
  freeSlots : FreeSlots s

/-- While CPU `c`, which entered the kernel in state `s₀`, is inside: the environments of the
other CPUs are as they were, up to a zombie more. -/
structure Custody (c : Cpu) (s₀ s : Kernel) : Prop where
  freeSlots : FreeSlots s
  own : ∀ e, s.curenv c = some e → (s.envs e).envStatus ≠ .free
  onlyHere : ∀ e, s.curenv c = some e → OnlyHere c s₀ e
  others : ∀ d, d ≠ c → s.curenv d = s₀.curenv d
  executing : ∀ d, d ≠ c → ∀ e, s₀.curenv d = some e →
    (s.envs e).envStatus = .running ∨ (s.envs e).envStatus = .dying
  same : ∀ d, d ≠ c → ∀ e, s₀.curenv d = some e →
    (s.envs e).who = (s₀.envs e).who ∧ (s.envs e).envPgdir = (s₀.envs e).envPgdir

/-- The action does not touch the status of an environment that another CPU executes. -/
def Act.Safe (c : Cpu) (s₀ : Kernel) : Act → Prop
  | .status _ t _ | .deliver _ t _ => OnlyHere c s₀ t
  | .freeThread t st | .freeProcess t st => st = .dying → OnlyHere c s₀ t
  | .entry e _ => OnlyHere c s₀ e
  | _ => True

variable {c : Cpu} {s₀ s s' : Kernel} {a : Act}

theorem Exclusive.custody (h : Exclusive s) : Custody c s s where
  freeSlots := h.freeSlots
  own e he hfree := by
    rcases h.executing c e he with hst | hst <;> rw [hst] at hfree <;> cases hfree
  onlyHere e he d hd hde := hd (h.inj d c e hde he)
  others _ _ := rfl
  executing d _ e he := h.executing d e he
  same _ _ _ _ := ⟨rfl, rfl⟩

/-- Custody ends when the CPU has left the kernel. -/
theorem Custody.exclusive (h₀ : Exclusive s₀) (h : Custody c s₀ s) (hset : Settled c s) :
    Exclusive s where
  inj d d' e hd hd' := by
    by_cases hdc : d = c
    · by_cases hdc' : d' = c
      · rw [hdc, hdc']
      · rw [h.others d' hdc'] at hd'
        exact absurd hd' (h.onlyHere e (hdc ▸ hd) d' hdc')
    · rw [h.others d hdc] at hd
      by_cases hdc' : d' = c
      · exact absurd hd (h.onlyHere e (hdc' ▸ hd') d hdc)
      · exact h₀.inj d d' e hd (h.others d' hdc' ▸ hd')
  executing d e hd := by
    by_cases hdc : d = c
    · exact .inl (hset.running e (hdc ▸ hd))
    · exact h.executing d hdc e (h.others d hdc ▸ hd)
  freeSlots := h.freeSlots

namespace Custody

/-- An environment that is neither running nor a zombie is executed nowhere else. -/
theorem onlyHere_of_status (h : Custody c s₀ s) {e : Slot}
    (hrun : (s.envs e).envStatus ≠ .running) (hdying : (s.envs e).envStatus ≠ .dying) :
    OnlyHere c s₀ e :=
  fun d hd he => (h.executing d hd e he).elim hrun hdying

theorem ne_free_of_target (h : Custody c s₀ s) {t : Slot} (ht : Target c s t) :
    (s.envs t).envStatus ≠ .free :=
  ht.elim (h.own t) id

/-- Writing the status of `t` is safe when nobody else executes it, or it becomes a zombie. -/
theorem modEnv (h : Custody c s₀ s) {t : Slot} {f : Env → Env}
    (hsame : (f (s.envs t)).who = (s.envs t).who ∧
      (f (s.envs t)).envPgdir = (s.envs t).envPgdir ∨ OnlyHere c s₀ t)
    (hlink : (f (s.envs t)).envLink = (s.envs t).envLink)
    (hstatus : (f (s.envs t)).envStatus = (s.envs t).envStatus ∨
      (s.envs t).envStatus ≠ .free ∧ (f (s.envs t)).envStatus ≠ .free ∧
        ((f (s.envs t)).envStatus = .dying ∨ OnlyHere c s₀ t)) :
    Custody c s₀ (s.modEnv t f) := by
  -- the write does not touch which slots are free
  have hfree : ∀ e, ((s.modEnv t f).envs e).envStatus = .free ↔ (s.envs e).envStatus = .free := by
    intro e
    by_cases het : e = t
    · rw [het, Kernel.modEnv_self]
      rcases hstatus with heq | ⟨hne, hne', -⟩
      · rw [heq]
      · exact ⟨fun h => absurd h hne', fun h => absurd h hne⟩
    · rw [Kernel.modEnv_ne _ _ het]
  refine ⟨?_, fun e he => ?_, h.onlyHere, h.others, fun d hd e he => ?_, fun d hd e he => ?_⟩
  · obtain ⟨l, hchain, hnodup, hall⟩ := h.freeSlots
    refine ⟨l, hchain.congr fun e _ => ?_, hnodup, fun e he => (hfree e).mpr (hall e he)⟩
    by_cases het : e = t
    · rw [het, Kernel.modEnv_self, hlink]
    · rw [Kernel.modEnv_ne _ _ het]
  · rw [Ne, hfree]
    exact h.own e he
  · by_cases het : e = t
    · rw [het, Kernel.modEnv_self]
      -- another CPU may execute it only as a zombie
      rcases hstatus with heq | ⟨-, -, hdying | honly⟩
      · rw [heq]
        exact h.executing d hd t (het ▸ he)
      · exact .inr hdying
      · exact absurd (het ▸ he) (honly d hd)
    · rw [Kernel.modEnv_ne _ _ het]
      exact h.executing d hd e he
  · obtain ⟨hwho₀, hpgdir₀⟩ := h.same d hd e he
    by_cases het : e = t
    · rw [het] at hwho₀ hpgdir₀ ⊢
      rw [Kernel.modEnv_self]
      rcases hsame with ⟨hwho, hpgdir⟩ | honly
      · exact ⟨hwho.trans hwho₀, hpgdir.trans hpgdir₀⟩
      · exact absurd (het ▸ he) (honly d hd)
    · rw [Kernel.modEnv_ne _ _ het]
      exact ⟨hwho₀, hpgdir₀⟩

/-- Running `e` is safe when no other CPU executes it. -/
theorem ran (h : Custody c s₀ s) {e : Slot} (hran : Ran c s e s') (honly : OnlyHere c s₀ e)
    (hfree : (s.envs e).envStatus ≠ .free) : Custody c s₀ s' := by
  have hstatus : ∀ t, t ≠ e → s.curenv c ≠ some t →
      (s'.envs t).envStatus = (s.envs t).envStatus := by
    intro t hte ht
    rw [hran.envs t]
    simp [hte, ht]
  refine ⟨?_, fun t ht => ?_, fun t ht => ?_, fun d hd => ?_, fun d hd t ht => ?_,
    fun d hd t ht => ?_⟩
  · obtain ⟨l, hchain, hnodup, hall⟩ := h.freeSlots
    refine ⟨l, ?_, hnodup, fun t ht => ?_⟩
    · rw [hran.envFreeList]
      exact hchain.congr fun t _ => hran.proj Env.envLink fun _ _ _ _ => rfl
    · have hne : t ≠ e := fun heq => hfree (heq ▸ hall t ht)
      rw [hstatus t hne fun hcur => h.own t hcur (hall t ht)]
      exact hall t ht
  · rw [hran.curenv] at ht
    rw [← Option.some.inj ht, hran.envs e]
    simp
  · rw [hran.curenv] at ht
    exact Option.some.inj ht ▸ honly
  · exact (congrArg CpuInfo.cpuEnv (hran.frame d hd)).trans (h.others d hd)
  · rw [hstatus t (fun heq => honly d hd (heq ▸ ht)) fun hcur => h.onlyHere t hcur d hd ht]
    exact h.executing d hd t ht
  · rw [hran.proj Env.who fun _ _ _ _ => rfl, hran.proj Env.envPgdir fun _ _ _ _ => rfl]
    exact h.same d hd t ht

/-- Freeing a slot is safe when no other CPU executes it. -/
theorem freed (h : Custody c s₀ s) {t : Slot} {m : Mem} (honly : OnlyHere c s₀ t)
    (hfree : (s.envs t).envStatus ≠ .free) :
    Custody c s₀ (forget c (JosSched.freed c s t m) t) := by
  have hne : ∀ d, d ≠ c → ∀ e, s₀.curenv d = some e → e ≠ t :=
    fun d hd e he heq => honly d hd (heq ▸ he)
  refine ⟨?_, fun e he => ?_, fun e he => ?_, fun d hd => ?_, fun d hd e he => ?_,
    fun d hd e he => ?_⟩
  · obtain ⟨l, hchain, hnodup, hall⟩ := h.freeSlots
    have htl : t ∉ l := fun ht => hfree (hall t ht)
    rw [FreeSlots, forget_envs, forget_envFreeList]
    refine ⟨t :: l, ?_, List.nodup_cons.mpr ⟨htl, hnodup⟩, fun e he => ?_⟩
    · refine (hchain.push htl).congr fun e _ => ?_
      by_cases het : e = t
      · rw [het, freed_envs_self, Function.update_self]
      · rw [freed_envs_ne het, Function.update_of_ne het]
    · by_cases het : e = t
      · rw [het, freed_envs_self]
      · rw [freed_envs_ne het]
        exact hall e ((List.mem_cons.mp he).resolve_left het)
  · have hcur : s.curenv c = some e := freed_curenv ▸ forget_curenv he
    have het : e ≠ t := by
      rintro rfl
      rw [forget, if_pos (freed_curenv.trans hcur), Kernel.setCurenv_curenv_self] at he
      cases he
    rw [forget_envs, freed_envs_ne het]
    exact h.own e hcur
  · exact h.onlyHere e (freed_curenv ▸ forget_curenv he)
  · unfold forget
    split
    · rw [Kernel.setCurenv_curenv_ne _ _ hd, freed_curenv]
      exact h.others d hd
    · rw [freed_curenv]
      exact h.others d hd
  · rw [forget_envs, freed_envs_ne (hne d hd e he)]
    exact h.executing d hd e he
  · rw [forget_envs, freed_envs_ne (hne d hd e he)]
    exact h.same d hd e he

/-- The slot that is handed out was free, so nobody executes it. -/
theorem takes (h : Custody c s₀ s) {e : Slot} (hm : Micro c a s s') (ha : a.Takes e) :
    Custody c s₀ s' := by
  obtain ⟨henvs, hcurenv⟩ := hm.frame_of_takes ha
  obtain ⟨hhead, htail, hstatus⟩ := hm.list_of_takes ha
  obtain ⟨l, hchain, hnodup, hall⟩ := h.freeSlots
  rw [hhead] at hchain
  obtain ⟨rest, rfl, hrest⟩ := hchain.exists_cons
  obtain ⟨hnotin, hnodup⟩ := List.nodup_cons.mp hnodup
  have hfree : (s.envs e).envStatus = .free := hall e (List.mem_cons_self ..)
  have hne : ∀ d, d ≠ c → ∀ t, s₀.curenv d = some t → t ≠ e := by
    rintro d hd t ht rfl
    exact h.onlyHere_of_status (by rw [hfree]; decide) (by rw [hfree]; decide) d hd ht
  have hrest_ne : ∀ t ∈ rest, t ≠ e := fun t ht heq => hnotin (heq ▸ ht)
  refine ⟨⟨rest, ?_, hnodup, fun t ht => ?_⟩, fun t ht => ?_, fun t ht => ?_, fun d hd => ?_,
    fun d hd t ht => ?_, fun d hd t ht => ?_⟩
  · rw [htail]
    exact hrest.congr fun t ht => by rw [henvs t (hrest_ne t ht)]
  · rw [henvs t (hrest_ne t ht)]
    exact hall t (List.mem_cons_of_mem _ ht)
  · by_cases hte : t = e
    · rw [hte]
      exact hstatus
    · rw [henvs t hte]
      exact h.own t (hcurenv c ▸ ht)
  · exact h.onlyHere t (hcurenv c ▸ ht)
  · exact (hcurenv d).trans (h.others d hd)
  · rw [henvs t (hne d hd t ht)]
    exact h.executing d hd t ht
  · rw [henvs t (hne d hd t ht)]
    exact h.same d hd t ht

/-- `env_destroy` frees what nobody else executes: a running environment is spared, and a
zombie is safe by hypothesis. -/
theorem onlyHere_of_free (h : Custody c s₀ s) {t : Slot}
    (hrun : (s.envs t).envStatus = .running → s.curenv c = some t)
    (hdying : (s.envs t).envStatus = .dying → OnlyHere c s₀ t) : OnlyHere c s₀ t := by
  by_cases hst : (s.envs t).envStatus = .running
  · exact h.onlyHere t (hrun hst)
  · by_cases hst' : (s.envs t).envStatus = .dying
    · exact hdying hst'
    · exact h.onlyHere_of_status hst hst'

/-- An action that writes neither the status, the links, the identities and the directories of
the table, nor the environments of the CPUs. -/
theorem of_eq (h : Custody c s₀ s) (hlist : s'.envFreeList = s.envFreeList)
    (hcurenv : ∀ d, s'.curenv d = s.curenv d)
    (henvs : ∀ e, (s'.envs e).envLink = (s.envs e).envLink ∧ (s'.envs e).who = (s.envs e).who ∧
      (s'.envs e).envPgdir = (s.envs e).envPgdir ∧
      ((s'.envs e).envStatus = (s.envs e).envStatus ∨
        (s.envs e).envStatus = .notRunnable ∧ (s'.envs e).envStatus = .runnable)) :
    Custody c s₀ s' := by
  have hstatus : ∀ e, (s.envs e).envStatus ≠ .notRunnable →
      (s'.envs e).envStatus = (s.envs e).envStatus :=
    fun e he => (henvs e).2.2.2.resolve_right fun hst => he hst.1
  refine ⟨?_, fun e he => ?_, fun e he => ?_, fun d hd => ?_, fun d hd e he => ?_,
    fun d hd e he => ?_⟩
  · obtain ⟨l, hchain, hnodup, hall⟩ := h.freeSlots
    rw [FreeSlots, hlist]
    refine ⟨l, hchain.congr fun e _ => (henvs e).1, hnodup, fun e he => ?_⟩
    rw [hstatus e (by rw [hall e he]; decide)]
    exact hall e he
  · have hfree := h.own e (hcurenv c ▸ he)
    rcases (henvs e).2.2.2 with heq | ⟨-, heq⟩
    · rwa [heq]
    · rw [heq]
      decide
  · exact h.onlyHere e (hcurenv c ▸ he)
  · exact (hcurenv d).trans (h.others d hd)
  · have hex := h.executing d hd e he
    rw [hstatus e (by rcases hex with h | h <;> rw [h] <;> decide)]
    exact hex
  · rw [(henvs e).2.1, (henvs e).2.2.1]
    exact h.same d hd e he

theorem sameButWait (h : Custody c s₀ s) (hsame : SameButWait s s') : Custody c s₀ s' := by
  have hcurenv : ∀ d, s'.curenv d = s.curenv d := fun d => by rw [Kernel.curenv, hsame.cpus]; rfl
  refine h.of_eq hsame.envFreeList hcurenv fun e => ?_
  rw [hsame.envs e]
  exact ⟨rfl, rfl, rfl, .inl rfl⟩

end Custody

/-- Every safe action keeps custody. -/
theorem Custody.micro (h : Custody c s₀ s) (hm : Micro c a s s') (ha : a.Safe c s₀) :
    Custody c s₀ s' := by
  cases hm with
  | start => exact h.of_eq rfl (fun d => started_curenv) fun e => ⟨rfl, rfl, rfl, .inl rfl⟩
  | save hcur | ret hcur | redirect hcur _ | recving hcur =>
      exact h.modEnv (.inl ⟨rfl, rfl⟩) rfl (.inl rfl)
  | ipcPerm | priority | upcall => exact h.modEnv (.inl ⟨rfl, rfl⟩) rfl (.inl rfl)
  | block hcur _ | sleep hcur _ =>
      exact h.modEnv (.inl ⟨rfl, rfl⟩) rfl
        (.inr ⟨h.own _ hcur, EnvStatus.noConfusion, .inr (h.onlyHere _ hcur)⟩)
  | dying hrun _ =>
      exact h.modEnv (.inl ⟨rfl, rfl⟩) rfl
        (.inr ⟨by rw [hrun]; decide, EnvStatus.noConfusion, .inl rfl⟩)
  | status hcur htarget hst =>
      refine h.modEnv (.inl ⟨rfl, rfl⟩) rfl (.inr ⟨h.ne_free_of_target htarget, ?_, .inr ha⟩)
      rcases hst with rfl | rfl <;> exact EnvStatus.noConfusion
  | deliver hcur htarget _ =>
      exact h.modEnv (.inl ⟨rfl, rfl⟩) rfl
        (.inr ⟨h.ne_free_of_target htarget, EnvStatus.noConfusion, .inr ha⟩)
  | tick =>
      refine h.of_eq rfl (fun _ => rfl) fun e => ⟨?_, ?_, ?_, ?_⟩
      · exact wakeup_proj Env.envLink fun _ => rfl
      · exact wakeup_proj Env.who fun _ => rfl
      · exact wakeup_proj Env.envPgdir fun _ => rfl
      -- the clock wakes sleepers, and a sleeper is executed by nobody
      · show (wakeup _ (s.envs e)).envStatus = _ ∨ _ ∧ (wakeup _ (s.envs e)).envStatus = _
        unfold wakeup
        split
        · exact .inl rfl
        · next hne =>
            rw [not_or, not_not] at hne
            split
            · exact .inr ⟨hne.1, rfl⟩
            · exact .inl rfl
  | create => exact h.takes (.create ‹_›) rfl
  | exofork hcur halloc => exact h.takes (.exofork hcur halloc) rfl
  | thread hcur h₁ h₂ h₃ h₄ h₅ h₆ => exact h.takes (.thread hcur h₁ h₂ h₃ h₄ h₅ h₆) rfl
  | freeThread _ htarget hrun hfree =>
      obtain ⟨pgdir, m, -, -, rfl⟩ := envFreeThread_eq_ok hfree
      exact h.freed (h.onlyHere_of_free hrun ha) (h.ne_free_of_target htarget)
  | freeProcess _ htarget hrun _ hfree =>
      obtain ⟨pgdir, m₁, m, -, -, -, rfl⟩ := envFreeProcess_eq_ok hfree
      exact h.freed (h.onlyHere_of_free hrun ha) (h.ne_free_of_target htarget)
  | pageNew | pageShare | pageDrop | kstore =>
      exact h.of_eq rfl (fun _ => rfl) fun e => ⟨rfl, rfl, rfl, .inl rfl⟩
  | entry => exact h.modEnv (.inr ha) rfl (.inl rfl)

/-- Leaving the kernel keeps custody: what the CPU runs is its own environment, or one that was
ready, which nobody executes. -/
theorem Custody.departs {L : Act → Prop} (h : Custody c s₀ s) (hdep : Departs c L s s') :
    Custody c s₀ s' := by
  rcases hdep.cases with hdec | ⟨e, hcur, hran⟩
  · cases hdec with
    | @ran s₁ _ e hsame he hran =>
        have h₁ := h.sameButWait hsame
        have he₁ : (s₁.envs e).envStatus = (s.envs e).envStatus := by rw [hsame.envs]
        refine h₁.ran hran ?_ ?_
        · rcases he with he | ⟨he, -⟩
          · exact h.onlyHere_of_status (by rw [he]; decide) (by rw [he]; decide)
          · exact h.onlyHere _ he
        · rw [he₁]
          rcases he with he | ⟨-, he⟩ <;> rw [he] <;> decide
    | halted hsame =>
        have h₁ := h.sameButWait hsame
        refine ⟨h₁.freeSlots, fun e he => ?_, fun e he => ?_, fun d hd => ?_, h₁.executing, h₁.same⟩
        · rw [halted_curenv_self] at he
          cases he
        · rw [halted_curenv_self] at he
          cases he
        · exact (halted_curenv_ne hd).trans (h₁.others d hd)
  · exact h.ran hran (h.onlyHere _ hcur) (h.own _ hcur)

/-! ## The start -/

theorem exclusive_booted (h : Booted s) : Exclusive s where
  inj c d e hc := by
    rw [Kernel.curenv, (h.cpus c).2] at hc
    cases hc
  executing c e hc := by
    rw [Kernel.curenv, (h.cpus c).2] at hc
    cases hc
  freeSlots := by
    refine ⟨List.finRange NENV, ?_, List.nodup_finRange _, fun e _ => by rw [h.envs]⟩
    have hpos : 0 < NENV := Nat.succ_pos _
    have hhead : s.envFreeList = some ⟨0, hpos⟩ := h.envFreeList
    rw [hhead]
    exact Chain.finRange hpos fun e => by rw [h.envs]

end JosSched
