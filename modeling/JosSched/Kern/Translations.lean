import JosSched.Kern.MemoryActs

/-!
# Translations

Which translations an action changes.  Only the calls that map pages add mappings; those that
unmap pages or free a process take mappings away, from the page directory of their target.  A
new page directory has none, and freeing a thread changes none.
-/

open Except

namespace JosSched

variable {c : Cpu} {pool : Set Ppn} {lost : Set (Ppn × Use)} {s s' s₁ s₂ : Kernel}
  {use : Ppn → Use} {e t : Slot} {d p : Ppn} {m m' : Mem} {a : Act} {s₀ : Kernel}

/-- The action may unmap pages of page directory `d`. -/
def Act.Unmaps (s : Kernel) (d : Ppn) : Act → Prop
  | .pageDrop t _ | .freeProcess t _ => s.dirs t = some d
  | _ => False

/-- No page is mapped that was not mapped before; those of the page directories in `dropped` may
be unmapped. -/
structure LeavesKept (s s' : Kernel) (dropped : Ppn → Prop) : Prop where
  old : ∀ e d, s'.dirs e = some d → (∃ e', s.dirs e' = some d) ∨
    ∀ va, va < UTOP → leaf s'.mem d va = 0
  same : ∀ e d va, s.dirs e = some d → va < UTOP → ¬ dropped d →
    leaf s'.mem d va = leaf s.mem d va
  gone : ∀ e d va, s.dirs e = some d → va < UTOP →
    leaf s'.mem d va = leaf s.mem d va ∨ leaf s'.mem d va = 0

/-- A page that is mapped afterwards was mapped before. -/
theorem LeavesKept.mapped_before {dropped : Ppn → Prop} {va : Word}
    (h : LeavesKept s s' dropped) (hd : s'.dirs e = some d) (hva : va < UTOP)
    (hleaf : leaf s'.mem d va ≠ 0) :
    (∃ e', s.dirs e' = some d) ∧ leaf s'.mem d va = leaf s.mem d va := by
  rcases h.old e d hd with ⟨e', he'⟩ | hnone
  · exact ⟨⟨e', he'⟩, (h.gone e' d va he' hva).resolve_right hleaf⟩
  · exact absurd (hnone va hva) hleaf

/-- Nothing but entries of frames without page directories and page tables has changed. -/
theorem LeavesKept.of_same {dropped : Ppn → Prop}
    (hdirs : ∀ e d, s'.dirs e = some d → ∃ e', s.dirs e' = some d)
    (hleaf : ∀ e d va, s.dirs e = some d → va < UTOP → leaf s'.mem d va = leaf s.mem d va) :
    LeavesKept s s' dropped :=
  ⟨fun e d hd => .inl (hdirs e d hd), fun e d va hd hva _ => hleaf e d va hd hva,
    fun e d va hd hva => .inl (hleaf e d va hd hva)⟩

theorem LeavesKept.congr {dropped : Ppn → Prop} (h : LeavesKept s s₁ dropped)
    (hmem : s'.mem = s₁.mem) (hdirs : s'.dirs = s₁.dirs) : LeavesKept s s' dropped := by
  refine ⟨fun e d hd => ?_, fun e d va hd hva hnot => ?_, fun e d va hd hva => ?_⟩
  · rw [hdirs] at hd
    rw [hmem]
    exact h.old e d hd
  · rw [hmem]
    exact h.same e d va hd hva hnot
  · rw [hmem]
    exact h.gone e d va hd hva

theorem leaf_of_load (hload : ∀ x, m'.load x = m.load x) (va : Word) : leaf m' d va = leaf m d va :=
  leaf_congr (hload _) fun _ => hload _

theorem Vacant.leaf {va : Word} (h : Vacant m d) (hva : va < UTOP) : leaf m d va = 0 :=
  if_pos (h _ (pdx_lt hva))

namespace Mapped

/-- A frame that was free has been written. -/
theorem leaf_of_load_ne {va : Word} (h : Mapped pool lost s use) (hp : use p = .free)
    (hload : ∀ x, x.1 ≠ p → m.load x = s.mem.load x) (hd : s.dirs e = some d) (hva : va < UTOP) :
    leaf m d va = leaf s.mem d va := by
  have hne : ∀ {q}, use q ≠ .free → q ≠ p := fun hq heq => hq (heq ▸ hp)
  have hdir := h.layout.holders e d hd
  refine leaf_congr (hload _ (hne (by rw [hdir]; decide))) fun hpde => hload _ (hne ?_)
  rw [cell, (h.layout.table_of_pde hdir hva hpde).1]
  decide

/-- `env_alloc` adds an address space without mappings. -/
theorem leavesKept_envAlloc {parentId : Word} {dropped : Ppn → Prop} (h : Mapped pool lost s use)
    (hfree : (s.envs e).envStatus = .free)
    (halloc : JosSched.envAlloc s parentId = .ok (.ok e, s₁)) : LeavesKept s s₁ dropped := by
  obtain ⟨p, hp, -, hdirs, hvacant, hload⟩ := h.envAlloc hfree halloc
  refine ⟨fun t d hd => ?_, fun t d va hd hva _ => h.leaf_of_load_ne hp hload hd hva,
    fun t d va hd hva => .inl (h.leaf_of_load_ne hp hload hd hva)⟩
  rw [hdirs] at hd
  by_cases hte : t = e
  · rw [hte, Function.update_self] at hd
    obtain rfl := Option.some.inj hd
    exact .inr fun va hva => hvacant.leaf hva
  · rw [Function.update_of_ne hte] at hd
    exact .inl ⟨t, hd⟩

/-- A new thread has the address space of its creator. -/
theorem leavesKept_thread {parentId : Word} {cur : Slot} {own shared : Ppn} {f : Env → Env}
    {dropped : Ppn → Prop} (h : Mapped pool lost s use) (hfree : (s.envs t).envStatus = .free)
    (halloc : JosSched.envAlloc s parentId = .ok (.ok t, s₁))
    (hcur : (s.envs cur).envStatus ≠ .free) (hdrop : dropPgdir s₁ t own = .ok s₂)
    (hshared : (s₂.envs cur).envPgdir = some shared)
    (hf : ∀ env, (f env).envPgdir = some shared) :
    LeavesKept s ((s₂.setMem (s₂.mem.setRef shared (s₂.mem.ref shared + 1))).modEnv t f)
      dropped := by
  obtain ⟨p, hp, -, hdirs, -, hload⟩ := h.envAlloc hfree halloc
  obtain ⟨m, hdec, rfl⟩ := dropPgdir_eq_ok hdrop
  have hload' : ∀ x, m.load x = s₁.mem.load x := load_of_pageDecref hdec
  have hct : cur ≠ t := fun heq => hcur (heq ▸ hfree)
  have hcurdir : s.dirs cur = some shared := by
    rw [Kernel.setMem_envs, Kernel.modEnv_ne _ _ hct] at hshared
    have heq := congrFun hdirs cur
    rw [Function.update_of_ne hct] at heq
    exact heq.symm.trans hshared
  refine .of_same (fun e d hd => ?_) fun e d va hd hva => ?_
  · by_cases het : e = t
    · rw [het, Kernel.dirs, Kernel.modEnv_self, hf] at hd
      exact ⟨cur, hd ▸ hcurdir⟩
    · have heq := congrFun hdirs e
      rw [Function.update_of_ne het] at heq
      rw [Kernel.dirs, Kernel.modEnv_ne _ _ het, Kernel.setMem_envs, Kernel.setMem_envs,
        Kernel.modEnv_ne _ _ het] at hd
      exact ⟨e, heq.symm.trans hd⟩
  · exact h.leaf_of_load_ne hp (fun x hx => (hload' x).trans (hload x hx)) hd hva

theorem dirs_of_freed (hd : (forget c (JosSched.freed c s t m) t).dirs e = some d) :
    s.dirs e = some d := by
  rw [dirs_freed] at hd
  by_cases het : e = t
  · rw [het, Function.update_self] at hd
    cases hd
  · rwa [Function.update_of_ne het] at hd

/-- `env_free` on a thread changes no translation. -/
theorem leavesKept_freeThread {dropped : Ppn → Prop} (hfree : envFreeThread c s t = .ok s') :
    LeavesKept s (forget c s' t) dropped := by
  obtain ⟨d, m, -, hdec, rfl⟩ := envFreeThread_eq_ok hfree
  refine .of_same (fun e d hd => ⟨e, dirs_of_freed hd⟩) fun e d va _ _ => ?_
  rw [forget_mem, freed_mem]
  exact leaf_of_load (load_of_pageDecref hdec) va

/-- `env_free` on a process unmaps the pages of its address space. -/
theorem leavesKept_freeProcess (h : Mapped pool lost s use)
    (hfree : envFreeProcess c s t = .ok s') :
    LeavesKept s (forget c s' t) fun d => s.dirs t = some d := by
  obtain ⟨d, m₁, m, hd, hunmap, hdec, rfl⟩ := envFreeProcess_eq_ok hfree
  have hdir : s.dirs t = some d := hd
  obtain ⟨use₁, -, -, hvacant, hothers⟩ :=
    h.layout.unmapUser (h.layout.holders t d hdir) hunmap
  have hload : ∀ d' va, leaf m d' va = leaf m₁ d' va := fun d' va =>
    leaf_of_load (load_of_pageDecref hdec) va
  have hne : ∀ e d' va, s.dirs e = some d' → va < UTOP → d' ≠ d → leaf m d' va = leaf s.mem d' va :=
    fun e d' va hd' hva hne =>
      (hload d' va).trans (hothers.leaves d' va (h.layout.holders e d' hd') hva hne)
  refine ⟨fun e d' hd' => .inl ⟨e, dirs_of_freed hd'⟩, fun e d' va hd' hva hnot => ?_,
    fun e d' va hd' hva => ?_⟩
  · rw [forget_mem, freed_mem]
    exact hne e d' va hd' hva fun heq => hnot (heq ▸ hdir)
  · rw [forget_mem, freed_mem]
    by_cases heq : d' = d
    · rw [heq, hload]
      exact .inr (hvacant.leaf hva)
    · exact .inl (hne e d' va hd' hva heq)

theorem leavesKept_pageDrop {va : Word} (h : Mapped pool lost s use) (hva : va < UTOP)
    (hd : s.dirs t = some d) (hrm : pageRemove s.mem d va = .ok m) :
    LeavesKept s (s.setMem m) fun d' => s.dirs t = some d' := by
  obtain ⟨-, -, -, hzero, -, -, honly⟩ := h.layout.pageRemove (h.layout.holders t d hd) hva hrm
  refine ⟨fun e d' hd' => .inl ⟨e, hd'⟩, fun e d' va' hd' hva' hnot => ?_,
    fun e d' va' hd' hva' => ?_⟩
  · exact honly d' va' (h.layout.holders e d' hd') hva' fun hand => hnot (hand.1 ▸ hd)
  · by_cases hsame : d' = d ∧ SamePage va va'
    · refine .inr ?_
      rw [Kernel.setMem_mem, hsame.1, ← leaf_samePage hsame.2]
      exact hzero
    · exact .inl (honly d' va' (h.layout.holders e d' hd') hva' hsame)

theorem leavesKept_of_mem {dropped : Ppn → Prop} (hmem : s'.mem = s.mem)
    (hdirs : s'.dirs = s.dirs) :
    LeavesKept s s' dropped :=
  .of_same (fun e d hd => ⟨e, hdirs ▸ hd⟩) fun e d va _ _ => by rw [hmem]

theorem leavesKept_modEnv {f : Env → Env} {dropped : Ppn → Prop}
    (hf : ∀ env, (f env).envPgdir = env.envPgdir) : LeavesKept s (s.modEnv e f) dropped :=
  leavesKept_of_mem rfl (dirs_modEnv_eq hf)

/-- The actions that map no page keep translations, or drop them. -/
theorem leavesKept (h : Mapped pool lost s use) (hcustody : Custody c s₀ s) (hm : Micro c a s s')
    (ha : a.Tame s) :
    LeavesKept s s' fun d => a.Unmaps s d := by
  cases hm with
  | start => exact leavesKept_of_mem rfl rfl
  | save | ret | redirect | dying | status | deliver | ipcPerm | recving | block | sleep | priority
  | upcall | entry => exact leavesKept_modEnv fun _ => rfl
  | tick => exact leavesKept_of_mem rfl (funext fun e => wakeup_proj Env.envPgdir fun _ => rfl)
  | create halloc =>
      obtain ⟨p, m, hfree, -⟩ := envAlloc_eq_ok halloc
      exact h.leavesKept_envAlloc (hcustody.freeSlots.head hfree) halloc
  | exofork _ halloc =>
      obtain ⟨p, m, hfree, -⟩ := envAlloc_eq_ok halloc
      exact (h.leavesKept_envAlloc (hcustody.freeSlots.head hfree) halloc).congr rfl
        (dirs_modEnv_eq fun _ => rfl)
  | thread hcur _ _ halloc _ hdrop hshared =>
      obtain ⟨p, m, hfree, -⟩ := envAlloc_eq_ok halloc
      exact h.leavesKept_thread (hcustody.freeSlots.head hfree) halloc (hcustody.own _ hcur)
        hdrop hshared
        fun _ => rfl
  | freeThread _ _ _ hfree => exact leavesKept_freeThread hfree
  | freeProcess _ _ _ _ hfree => exact h.leavesKept_freeProcess hfree
  | pageNew | pageShare => exact absurd ha id
  | pageDrop _ hva hd hrm => exact h.leavesKept_pageDrop hva.1 hd hrm
  | kstore _ hd hva hstore =>
      have hsame := h.layout.kernStore (h.layout.holders _ _ hd) hva hstore
      exact .of_same (fun e d hd => ⟨e, hd⟩) fun e d va hd hva =>
        hsame.leaf h.layout (h.layout.holders e d hd) hva

end Mapped

end JosSched
