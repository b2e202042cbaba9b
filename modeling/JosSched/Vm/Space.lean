import JosSched.Vm.Insert
import JosSched.Kern.EnvSpec

/-!
# Address spaces

What `kern/env.c` does to the page directories: `env_setup_vm` builds one, `sys_thread_create`
shares it, and `env_free` empties it and drops the reference of the environment.
-/

open Except

namespace JosSched

variable {pool : Set Ppn} {lost : Set (Ppn × Use)} {m m' m₁ : Mem} {dirs : Slot → Option Ppn}
  {use use' use'' : Ppn → Use} {d d' p pp q t : Ppn} {x : PteRef} {va va' w : Word} {e : Slot}
  {pdeno : Idx}

/-- No user page is mapped. -/
def Vacant (m : Mem) (d : Ppn) : Prop := ∀ k : Idx, k.val < PDX_UTOP → m.load (d, k) = 0

namespace Layout

/-- Only environments refer to a page directory. -/
theorem refs_pgdir_le (h : Layout pool lost m dirs none use) (hp : use p = .pgdir) :
    refs m dirs use p ≤ NENV := by
  have hplace : ∀ a, Sum.elim dirs (links m use) a = some p → ∃ e : Slot, Sum.inl e = a :=
    fun a ha => by
      rcases h.use_of_cell ha with ⟨-, e, rfl⟩ | ⟨huse | huse, -⟩
      · exact ⟨e, rfl⟩
      all_goals
        rw [hp] at huse
        cases huse
  calc refs m dirs use p ≤ Nat.card Slot := refCount_le hplace
    _ = NENV := Nat.card_fin NENV

/-! ## Page directories -/

/-- An environment without a page directory gets one. -/
theorem hang (h : Layout pool (insert (p, .pgdir) lost) m dirs none use) (hp : use p = .pgdir)
    (he : dirs e = none) :
    Layout pool lost (m.setRef p (m.ref p + 1)) (Function.update dirs e (some p)) none use := by
  have hlinks : links (m.setRef p (m.ref p + 1)) use = links m use := rfl
  refine h.link .setRef (fun _ => rfl) h.entries (fun t q ht => ?_) (a := .inl e) he ?_
    Mem.ref_setRef_self (fun q hq => Mem.ref_setRef_ne hq) ?_ (fun htable => ?_) le_rfl
  · by_cases hte : t = e
    · rw [hte, Function.update_self] at ht
      rw [← Option.some.inj ht, hp]
    · rw [Function.update_of_ne hte] at ht
      exact h.holders t q ht
  · rw [hlinks, Sum.update_elim_inl]
  · have hcount := h.counted p (h.mem_pool (by rw [hp]; decide))
    rw [if_neg (Option.some_ne_none p).symm, Nat.add_zero] at hcount
    have hle := h.refs_pgdir_le hp
    have hnenv : NENV = 1024 := rfl
    omega
  · rw [hp] at htable
    cases htable

/-- `env_setup_vm`: a page directory without user pages. -/
theorem newPgdir (h : Layout pool lost m dirs none use) (he : dirs e = none)
    (halloc : JosSched.pageAlloc m true = .ok (some p, m₁)) :
    use p = .free ∧ Vacant (JosSched.newPgdir m₁ p) p ∧
      (∀ x, x.1 ≠ p → (JosSched.newPgdir m₁ p).load x = m.load x) ∧
      Layout pool lost (JosSched.newPgdir m₁ p) (Function.update dirs e (some p)) none
        (Function.update use p .pgdir) := by
  rcases pageAlloc_eq_ok halloc with ⟨hnone, -⟩ | ⟨q, hq, hhead, rfl⟩
  · cases hnone
  obtain rfl := Option.some.inj hq
  rw [if_pos rfl]
  have hfree := h.use_of_head hhead
  have hpool : p ∈ pool := h.mem_pool (by rw [hfree]; decide)
  have hkern : m.kernPgdir ≠ p := fun heq => h.kernPgdir (heq ▸ hpool)
  obtain ⟨m₁, hm₁⟩ : ∃ m₁, m₁ = (takePage m p).fill p fun _ => 0 := ⟨_, rfl⟩
  rw [← hm₁]
  have hkern₁ : m₁.kernPgdir = m.kernPgdir := by
    rw [hm₁]
    rfl
  have hkeep : ∀ x, x.1 ≠ p → m₁.load x = m.load x := fun x hx => by
    rw [hm₁]
    exact load_fill_ne hx
  -- the reference is counted last
  let m₂ := (m₁.fill p (m₁.phys m₁.kernPgdir)).store (p, pdxUvpt) (page2pa p ||| PTE_P ||| PTE_U)
  have hm₂ : JosSched.newPgdir m₁ p = m₂.setRef p (m₂.ref p + 1) := rfl
  have hload : ∀ x, x.1 ≠ p → m₂.load x = m.load x := fun x hx => by
    have hne : x ≠ (p, pdxUvpt) := fun heq => hx (congrArg Prod.fst heq)
    exact (Mem.load_store_ne hne).trans ((load_fill_ne hx).trans (hkeep x hx))
  have hvacant : Vacant m₂ p := fun k hk => by
    have hne : (p, k) ≠ (p, pdxUvpt) := fun heq => by
      rw [(Prod.mk.inj heq).2] at hk
      exact absurd hk (by decide)
    have hfill : (m₁.fill p (m₁.phys m₁.kernPgdir)).load (p, k) = m₁.load (m₁.kernPgdir, k) :=
      load_fill_self
    rw [Mem.load_store_ne hne, hfill, hkern₁, hkeep (m.kernPgdir, k) hkern]
    exact h.template k hk
  have hpgdir : Function.update use p .pgdir p = .pgdir := Function.update_self ..
  rw [hm₂]
  refine ⟨hfree, hvacant, hload, Layout.hang ?_ hpgdir he⟩
  have hrest : m₁.npages = m.npages ∧ m₁.pages = (takePage m p).pages ∧
      m₁.pageFreeList = (m.pages p).ppLink := by
    rw [hm₁]
    exact ⟨rfl, rfl, rfl⟩
  refine h.take hhead (by decide) (by decide) hrest.1 hkern₁ hrest.2.1 hrest.2.2 hload
    fun k hentry => ?_
  rcases hentry with ⟨-, hk⟩ | htable
  · exact hvacant k hk
  · dsimp only at htable
    rw [hpgdir] at htable
    cases htable

/-- `sys_thread_create` shares the page directory of the creator. -/
theorem share (h : Layout pool lost m dirs none use) (hp : use p = .pgdir) (he : dirs e = none) :
    Layout pool lost (m.setRef p (m.ref p + 1)) (Function.update dirs e (some p)) none use :=
  (h.mono (Set.subset_insert (p, .pgdir) lost)).hang hp he

/-- An environment gives its page directory up. -/
theorem dropDir (h : Layout pool lost m dirs none use) (he : dirs e = some p)
    (hvacant : refs m dirs use p = 1 → Vacant m p) (hdec : pageDecref m p = .ok m') :
    ∃ use', Layout pool lost m' (Function.update dirs e none) none use' ∧ Released use use' p ∧
      (∀ x, m'.load x = m.load x) ∧ (use' = use → m'.ref p ≠ 0) := by
  have hp := h.holders e p he
  refine h.drop (a := .inl e) ⟨rfl, rfl, rfl, fun _ => rfl⟩ (fun _ => rfl) h.entries
    (fun t q ht => ?_) he Sum.update_elim_inl.symm (fun _ => rfl) (fun hone k hentry => ?_) hdec
  · by_cases hte : t = e
    · rw [hte, Function.update_self] at ht
      cases ht
    · rw [Function.update_of_ne hte] at ht
      exact h.holders t q ht
  · rcases hentry with ⟨-, hk⟩ | htable
    · exact hvacant hone k hk
    · dsimp only at htable
      rw [hp] at htable
      cases htable

end Layout

/-! ## Emptying an address space -/

/-- Frames of user data and page tables may have been freed, and nothing else has changed its
use. -/
def Frees (use use' : Ppn → Use) : Prop :=
  ∀ q, use' q = use q ∨ (use q = .data ∨ use q = .table) ∧ use' q = .free

theorem Frees.refl : Frees use use := fun _ => .inl rfl

theorem FreesData.frees (h : FreesData use use') : Frees use use' := fun q =>
  (h q).imp_right fun hand => ⟨.inl hand.1, hand.2⟩

theorem FreesData.trans (h : FreesData use use') (h' : FreesData use' use'') :
    FreesData use use'' := fun q => by
  rcases h' q with heq' | ⟨hdata', hfree'⟩
  · rw [heq']
    exact h q
  · rcases h q with heq | ⟨-, hfree⟩
    · exact .inr ⟨heq ▸ hdata', hfree'⟩
    · rw [hfree] at hdata'
      cases hdata'

theorem Frees.trans (h : Frees use use') (h' : Frees use' use'') : Frees use use'' := fun q => by
  rcases h' q with heq' | ⟨hused', hfree'⟩
  · rw [heq']
    exact h q
  · rcases h q with heq | ⟨-, hfree⟩
    · exact .inr ⟨heq ▸ hused', hfree'⟩
    · rw [hfree] at hused'
      rcases hused' with h | h <;> cases h

theorem Frees.pgdir (h : Frees use use') (hd : use d = .pgdir) : use' d = .pgdir := by
  rcases h d with heq | ⟨hused, -⟩
  · exact heq.trans hd
  · rw [hd] at hused
    rcases hused with h | h <;> cases h

theorem Frees.of_pgdir (h : Frees use use') (hd : use' d = .pgdir) : use d = .pgdir := by
  rcases h d with heq | ⟨-, hfree⟩
  · exact heq.symm.trans hd
  · rw [hfree] at hd
    cases hd

theorem pgaddr_lt (h : pdeno.val < PDX_UTOP) (k : Idx) : pgaddr pdeno k < UTOP := by
  have hk : k.val < 1024 := k.isLt
  have hpdeno : pdeno.val < 955 := h
  have htop : UTOP.toNat = 0xeec00000 := rfl
  show (pgaddr pdeno k).toNat < UTOP.toNat
  rw [toNat_pgaddr, htop]
  omega

/-- What the loops of `env_free` leave alone: the page directories, and the translations of
those other than `d`. -/
structure KeepsOthers (use : Ppn → Use) (m m' : Mem) (d : Ppn) : Prop where
  entries : ∀ d' k, use d' = .pgdir → d' ≠ d → m'.load (d', k) = m.load (d', k)
  leaves : ∀ d' va', use d' = .pgdir → va' < UTOP → d' ≠ d → leaf m' d' va' = leaf m d' va'

theorem KeepsOthers.refl : KeepsOthers use m m d := ⟨fun _ _ _ _ => rfl, fun _ _ _ _ _ => rfl⟩

theorem KeepsOthers.trans (h : KeepsOthers use m m₁ d) (h' : KeepsOthers use' m₁ m' d)
    (huse : ∀ q, use q = .pgdir → use' q = .pgdir) : KeepsOthers use m m' d where
  entries d' k hd' hne := (h'.entries d' k (huse d' hd') hne).trans (h.entries d' k hd' hne)
  leaves d' va' hd' hva' hne :=
    (h'.leaves d' va' (huse d' hd') hva' hne).trans (h.leaves d' va' hd' hva' hne)

/-- While the pages of the table of `pdeno` are unmapped, with `rest` still to come. -/
structure Emptying (pool : Set Ppn) (lost : Set (Ppn × Use)) (dirs : Slot → Option Ppn)
    (use : Ppn → Use) (m : Mem) (d : Ppn) (pdeno : Idx) (rest : List Idx) (m' : Mem) : Prop where
  layout : ∃ use', Layout pool lost m' dirs none use' ∧ FreesData use use'
  pdes : ∀ k, m'.load (d, k) = m.load (d, k)
  others : KeepsOthers use m m' d
  done : ∀ k, k ∉ rest → m'.load (pgnum (m.load (d, pdeno)), k) = 0

namespace Layout

theorem unmapTable (h : Layout pool lost m dirs none use) (hd : use d = .pgdir)
    (hpdeno : pdeno.val < PDX_UTOP) (hpde : m.load (d, pdeno) ≠ 0)
    (hunmap : JosSched.unmapTable m d pdeno (pgnum (m.load (d, pdeno))) = .ok m') :
    Emptying pool lost dirs use m d pdeno [] m' := by
  -- while it is emptied the frame stays a page table, because the directory names it
  have hpt : ∀ {m₁ use₁}, Layout pool lost m₁ dirs none use₁ → FreesData use use₁ →
      m₁.load (d, pdeno) = m.load (d, pdeno) → use₁ (pgnum (m.load (d, pdeno))) = .table :=
    fun h₁ hfrees heq => by
      have hva := pgaddr_lt hpdeno 0
      have htable := h₁.table_of_pde (hfrees.frees.pgdir hd) hva (by rwa [pdx_pgaddr, heq])
      rw [pdx_pgaddr, heq] at htable
      exact htable.1
  unfold JosSched.unmapTable at hunmap
  refine (Ensures.foldlM_rest (I := Emptying pool lost dirs use m d pdeno) (E := fun _ => True)
    (fun k rest m₁ hm₁ => ⟨fun m₂ hm₂ => ?_, fun _ _ => trivial⟩) _ m ?_).of_ok m' hunmap
  · obtain ⟨use₁, h₁, hfrees⟩ := hm₁.layout
    have htable := hpt h₁ hfrees (hm₁.pdes pdeno)
    have hva := pgaddr_lt hpdeno k
    have hd₁ := hfrees.frees.pgdir hd
    have hpde₁ : m₁.load (d, pdx (pgaddr pdeno k)) ≠ 0 := by rwa [pdx_pgaddr, hm₁.pdes]
    have hcell : cell m₁ d (pgaddr pdeno k) = (pgnum (m.load (d, pdeno)), k) := by
      rw [cell, pdx_pgaddr, ptx_pgaddr, hm₁.pdes]
    split at hm₂
    · obtain ⟨use₂, h₂, hfrees₂, hzero, hpde₂, hload, honly⟩ := h₁.pageRemove hd₁ hva hm₂
      have hcell₂ : cell m₂ d (pgaddr pdeno k) = (pgnum (m.load (d, pdeno)), k) := by
        rw [← hcell, cell, hpde₂, cell]
      rw [leaf_of_pde (by rwa [hpde₂]), hcell₂] at hzero
      rw [hcell] at hload
      have hdirs : ∀ d' k', use₁ d' = .pgdir → m₂.load (d', k') = m₁.load (d', k') :=
        fun d' k' hd' => hload _ fun heq => by
          rw [(Prod.mk.inj heq).1, htable] at hd'
          cases hd'
      refine ⟨⟨use₂, h₂, hfrees.trans hfrees₂⟩, fun k' => (hdirs d k' hd₁).trans (hm₁.pdes k'),
        hm₁.others.trans ⟨fun d' k' hd' _ => hdirs d' k' hd', fun d' va' hd' hva' hne => ?_⟩
          fun q hq => hfrees.frees.pgdir hq, fun k' hk' => ?_⟩
      · exact honly d' va' hd' hva' fun hand => hne hand.1
      · by_cases heq : k' = k
        · rw [heq]
          exact hzero
        · rw [hload _ fun h => heq (Prod.mk.inj h).2]
          refine hm₁.done k' fun hin => ?_
          exact (List.mem_cons.mp hin).elim heq hk'
    · next hpresent =>
        obtain rfl := Except.ok.inj hm₂
        refine ⟨hm₁.layout, hm₁.pdes, hm₁.others, fun k' hk' => ?_⟩
        by_cases heq : k' = k
        · by_contra hne
          obtain ⟨pp, perm, -, -, hentry⟩ := (h₁.entries _ (.inr htable)).of_table htable hne
          rw [heq] at hentry
          rw [hentry] at hpresent
          exact hpresent (userEntry_present pp perm)
        · refine hm₁.done k' fun hin => ?_
          exact (List.mem_cons.mp hin).elim heq hk'
  · exact ⟨⟨use, h, fun _ => .inl rfl⟩, fun _ => rfl, .refl,
      fun k hk => absurd (List.mem_finRange k) hk⟩

/-- One iteration of the outer loop of `env_free`: the table of `pdeno` is emptied and given
back. -/
theorem unmapPde (h : Layout pool lost m dirs none use) (hd : use d = .pgdir)
    (hpdeno : pdeno.val < PDX_UTOP) (hunmap : JosSched.unmapPde d m pdeno = .ok m') :
    ∃ use', Layout pool lost m' dirs none use' ∧ Frees use use' ∧ m'.load (d, pdeno) = 0 ∧
      (∀ k, k ≠ pdeno → m'.load (d, k) = m.load (d, k)) ∧ KeepsOthers use m m' d := by
  have hentry : IsEntry use (d, pdeno) := .inl ⟨hd, hpdeno⟩
  unfold JosSched.unmapPde at hunmap
  dsimp only at hunmap
  split at hunmap
  · next habsent =>
      obtain rfl := Except.ok.inj hunmap
      refine ⟨use, h, .refl, ?_, fun _ _ => rfl, .refl⟩
      by_contra hne
      obtain ⟨t, -, heq⟩ := (h.entries _ hentry).of_pgdir hd hne
      rw [heq] at habsent
      exact tableEntry_present t habsent
  · next hpresent =>
      have hpde := ne_zero_of_and hpresent
      obtain ⟨_, -, hunmap⟩ := bind_eq_ok.mp hunmap
      obtain ⟨m₁, htable, hunmap⟩ := bind_eq_ok.mp hunmap
      obtain ⟨pp, hpage, hdec⟩ := bind_eq_ok.mp hunmap
      have hpp : pgnum (m.load (d, pdeno)) = pp := by
        unfold pa2page at hpage
        split at hpage
        · cases hpage
        · exact Except.ok.inj hpage
      have hemptying := h.unmapTable hd hpdeno hpde htable
      obtain ⟨use₁, h₁, hfrees⟩ := hemptying.layout
      have hd₁ := hfrees.frees.pgdir hd
      have hentry₁ : IsEntry use₁ (d, pdeno) := .inl ⟨hd₁, hpdeno⟩
      have hpde₁ : m₁.load (d, pdeno) ≠ 0 := by rwa [hemptying.pdes]
      have hload : ∀ x, x ≠ (d, pdeno) → (m₁.store (d, pdeno) 0).load x = m₁.load x :=
        fun x hx => Mem.load_store_ne hx
      -- the loop has left the table in place, empty and with its one reference
      have hpp₁ : use₁ pp = .table := by
        obtain ⟨t, ht, heq⟩ := (h₁.entries _ hentry₁).of_pgdir hd₁ hpde₁
        rw [← hpp, ← hemptying.pdes, heq, pgnum_tableEntry]
        exact ht
      have hsome : Sum.elim dirs (links m₁ use₁) (.inr (d, pdeno)) = some pp :=
        links_eq_some.mpr ⟨hentry₁, hpde₁, by rw [hemptying.pdes, hpp]⟩
      have htarget : Sum.elim dirs (links (m₁.store (d, pdeno) 0) use₁) =
          Function.update (Sum.elim dirs (links m₁ use₁)) (.inr (d, pdeno)) none := by
        rw [links_store hentry₁, if_pos rfl, Sum.update_elim_inr]
      have hdp : d ≠ pp := fun heq => by
        rw [heq, hpp₁] at hd₁
        cases hd₁
      have hkern : ∀ k, (m₁.store (d, pdeno) 0).load (m₁.kernPgdir, k) =
          m₁.load (m₁.kernPgdir, k) := fun k => hload _ fun heq => by
        have hkernel := (h₁.kernel m₁.kernPgdir).mpr h₁.kernPgdir
        rw [(Prod.mk.inj heq).1, hd₁] at hkernel
        cases hkernel
      have hentries : ∀ x, IsEntry use₁ x → EntryOk use₁ x.1 ((m₁.store (d, pdeno) 0).load x) := by
        intro x hx
        by_cases hx' : x = (d, pdeno)
        · rw [hx', Mem.load_store_self]
          exact .empty rfl
        · rw [hload x hx']
          exact h₁.entries x hx
      have hempty : ∀ k, (m₁.store (d, pdeno) 0).load (pp, k) = 0 := fun k => by
        rw [hload _ fun heq => hdp (Prod.mk.inj heq).1.symm, ← hpp]
        exact hemptying.done k List.not_mem_nil
      -- so clearing the entry and giving the frame back is a drop of its only reference
      obtain ⟨use₂, h₂, hreleased, hsame, -⟩ := h₁.drop .store hkern hentries h₁.holders hsome
        htarget (fun _ => Mem.ref_store) (fun _ k _ => hempty k) hdec
      have hfrees₂ : Frees use₁ use₂ := fun q => by
        rcases hreleased with rfl | rfl
        · exact .inl rfl
        · by_cases hq : q = pp
          · rw [hq, Function.update_self]
            exact .inr ⟨.inr hpp₁, rfl⟩
          · rw [Function.update_of_ne hq]
            exact .inl rfl
      refine ⟨use₂, h₂, hfrees.frees.trans hfrees₂, (hsame _).trans Mem.load_store_self,
        fun k hk => ?_, hemptying.others.trans ⟨fun d' k _ hne => ?_, fun d' va' hd' hva' hne => ?_⟩
          fun q hq => hfrees.frees.pgdir hq⟩
      · have hne : (d, k) ≠ (d, pdeno) := fun heq => hk (Prod.mk.inj heq).2
        exact (hsame _).trans ((hload _ hne).trans (hemptying.pdes k))
      · exact (hsame _).trans (hload _ fun heq => hne (Prod.mk.inj heq).1)
      · have hstored : ∀ x, x.1 ≠ d → m'.load x = m₁.load x := fun x hx =>
          (hsame x).trans (hload x fun heq => hx (congrArg Prod.fst heq))
        refine leaf_congr (hstored _ hne) fun hpde' => hstored _ fun heq => ?_
        have htable' := (h₁.table_of_pde hd' hva' hpde').1
        have hcell : use₁ (cell m₁ d' va').1 = .table := htable'
        rw [heq, hd₁] at hcell
        cases hcell

/-- `env_free` leaves a page directory without user pages. -/
theorem unmapUser (h : Layout pool lost m dirs none use) (hd : use d = .pgdir)
    (hunmap : JosSched.unmapUser m d = .ok m') :
    ∃ use', Layout pool lost m' dirs none use' ∧ Frees use use' ∧ Vacant m' d ∧
      KeepsOthers use m m' d := by
  let I : List Idx → Mem → Prop := fun rest m₁ =>
    (∃ use₁, Layout pool lost m₁ dirs none use₁ ∧ Frees use use₁ ∧ KeepsOthers use m m₁ d) ∧
      (∀ k ∈ rest, k.val < PDX_UTOP) ∧
        ∀ k : Idx, k.val < PDX_UTOP → k ∉ rest → m₁.load (d, k) = 0
  have hstep : ∀ pdeno rest m₁, I (pdeno :: rest) m₁ →
      (JosSched.unmapPde d m₁ pdeno).Ensures (I rest) fun _ => True := by
    rintro pdeno rest m₁ ⟨⟨use₁, h₁, hfrees, hothers⟩, hrest, hdone⟩
    refine ⟨fun m₂ hm₂ => ?_, fun _ _ => trivial⟩
    obtain ⟨use₂, h₂, hfrees₂, hzero, hsame, hothers₂⟩ :=
      h₁.unmapPde (hfrees.pgdir hd) (hrest pdeno List.mem_cons_self) hm₂
    refine ⟨⟨use₂, h₂, hfrees.trans hfrees₂, hothers.trans hothers₂ fun q hq => hfrees.pgdir hq⟩,
      fun k hk => hrest k (List.mem_cons_of_mem _ hk), fun k hk hnot => ?_⟩
    by_cases heq : k = pdeno
    · rw [heq]
      exact hzero
    · rw [hsame k heq]
      exact hdone k hk fun hin => (List.mem_cons.mp hin).elim heq hnot
  have hstart : I ((List.finRange NPTENTRIES).filter fun k => k.val < PDX_UTOP) m := by
    refine ⟨⟨use, h, .refl, .refl⟩, fun k hk => ?_, fun k hk hnot => ?_⟩
    · exact of_decide_eq_true (List.mem_filter.mp hk).2
    · exact absurd (List.mem_filter.mpr ⟨List.mem_finRange k, decide_eq_true hk⟩) hnot
  unfold JosSched.unmapUser at hunmap
  obtain ⟨⟨use', h', hfrees, hothers⟩, -, hdone⟩ :=
    (Ensures.foldlM_rest hstep _ m hstart).of_ok m' hunmap
  exact ⟨use', h', hfrees, fun k hk => hdone k hk List.not_mem_nil, hothers⟩

end Layout

/-! ## Stores -/

/-- The memories hold the same page directories and page tables: they differ in the contents of
user pages at most. -/
structure SameTables (pool : Set Ppn) (lost : Set (Ppn × Use)) (dirs : Slot → Option Ppn)
    (use : Ppn → Use) (m m' : Mem) : Prop where
  layout : Layout pool lost m' dirs none use
  entries : ∀ x, use x.1 ≠ .data → m'.load x = m.load x
  rest : m'.pages = m.pages ∧ m'.pageFreeList = m.pageFreeList

namespace SameTables

theorem trans (h : SameTables pool lost dirs use m m₁) (h' : SameTables pool lost dirs use m₁ m') :
    SameTables pool lost dirs use m m' :=
  ⟨h'.layout, fun x hx => (h'.entries x hx).trans (h.entries x hx),
    h'.rest.1.trans h.rest.1, h'.rest.2.trans h.rest.2⟩

theorem leaf (hl : Layout pool lost m dirs none use) (h : SameTables pool lost dirs use m m')
    (hd : use d = .pgdir) (hva : va < UTOP) : leaf m' d va = JosSched.leaf m d va := by
  refine leaf_congr (h.entries _ (by rw [hd]; decide)) fun hpde => h.entries _ ?_
  have htable := (hl.table_of_pde hd hva hpde).1
  rw [cell, htable]
  decide

end SameTables

namespace Layout

/-- A word of a user page is written. -/
theorem storeData (h : Layout pool lost m dirs none use) (hx : use x.1 = .data) :
    SameTables pool lost dirs use m (m.store x w) := by
  have hload : ∀ y, use y.1 ≠ .data → (m.store x w).load y = m.load y := fun y hy =>
    Mem.load_store_ne fun heq => hy (heq ▸ hx)
  have hentry : ∀ {y}, IsEntry use y → use y.1 ≠ .data := fun hy => by
    rcases hy with ⟨huse, -⟩ | huse <;> rw [huse] <;> decide
  have hlinks : links (m.store x w) use = links m use :=
    links_store_of_not fun hentry' => hentry hentry' hx
  have hrefs : ∀ q, refs (m.store x w) dirs use q = refs m dirs use q := fun q => by
    rw [refs, hlinks, refs]
  refine ⟨h.rewire .store (fun k => hload _ ?_) (fun y hy => ?_) h.holders h.holding
    (fun q hq => ?_) (fun t ht => ?_) fun q hq hfree hzero hheld => ?_, hload, rfl, rfl⟩
  · rw [(h.kernel m.kernPgdir).mpr h.kernPgdir]
    decide
  · rw [hload y (hentry hy)]
    exact h.entries y hy
  · rw [hrefs]
    exact h.counted q hq
  · rw [hrefs]
    exact h.single t ht
  · rw [hrefs] at hzero
    exact h.found q hq hfree hzero hheld

theorem mmu_data (h : Layout pool lost m dirs none use) (hd : use d = .pgdir) (hva : va < UTOP)
    {flags : Word} (hmmu : mmu m d va = some (pp, flags)) : use pp = .data := by
  unfold mmu at hmmu
  dsimp only at hmmu
  split at hmmu
  · cases hmmu
  · next hpde =>
      split at hmmu
      · cases hmmu
      · next hpte =>
          obtain ⟨rfl, -⟩ := Prod.mk.inj (Option.some.inj hmmu)
          have hpde := ne_zero_of_and hpde
          have hcell : m.load (pgnum (m.load (d, pdx va)), ptx va) = leaf m d va :=
            (leaf_of_pde hpde).symm
          rw [hcell] at hpte ⊢
          obtain ⟨pp, perm, hdata, hperm, heq⟩ := h.data_of_leaf hd hva (ne_zero_of_and hpte)
          rw [heq, pgnum_userEntry hperm]
          exact hdata

/-- A store through a user address space reaches user data only. -/
theorem storeByte (h : Layout pool lost m dirs none use) (hd : use d = .pgdir) (hva : va < UTOP)
    {perm : Word} {b : BitVec 8} (hstore : JosSched.storeByte m d perm va b = some m') :
    SameTables pool lost dirs use m m' := by
  unfold JosSched.storeByte at hstore
  split at hstore
  · next pp flags hmmu =>
      split at hstore
      · obtain rfl := Option.some.inj hstore
        exact h.storeData (h.mmu_data hd hva hmmu)
      · cases hstore
  · cases hstore

theorem sameTables_self (h : Layout pool lost m dirs none use) :
    SameTables pool lost dirs use m m := ⟨h, fun _ _ => rfl, rfl, rfl⟩

theorem kernStore (h : Layout pool lost m dirs none use) (hd : use d = .pgdir)
    {bytes : List (BitVec 8)} (hva : va.toNat + bytes.length ≤ UTOP.toNat)
    (hstore : JosSched.kernStore m d va bytes = .ok m') :
    SameTables pool lost dirs use m m' := by
  induction bytes generalizing m va with
  | nil =>
      obtain rfl := Except.ok.inj hstore
      exact h.sameTables_self
  | cons b rest ih =>
      unfold JosSched.kernStore at hstore
      rw [List.length_cons] at hva
      split at hstore
      · cases hstore
      · next m₁ hbyte =>
          have hlt : va.toNat < UTOP.toNat := by omega
          have hfirst := h.storeByte hd hlt hbyte
          refine hfirst.trans (ih hfirst.layout ?_ hstore)
          have htop : UTOP.toNat = 0xeec00000 := rfl
          have hnext : (va + 1).toNat = va.toNat + 1 := by
            rw [htop] at hlt
            bv_omega
          omega

end Layout

end JosSched
