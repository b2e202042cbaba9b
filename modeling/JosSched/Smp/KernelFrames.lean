import JosSched.Smp.Window

/-!
# The frames of the kernel

Whatever runs after boot, no page is allocated on a frame that was not free then, no page table
refers to one below `UTOP`, and so neither the page functions of the kernel nor a program writes
there (`SameKernel`).

The kernel does write its own variables: `envs`, `pages`, the statistics and the kernel stacks.
They are fields of `Kernel` and `Mem` and no words of `Mem.phys`, so `SameKernel` says nothing of
the frames that hold them.  What is left of the frames kept at boot is its page directory and page
tables, and `Smp.AboveUtop` takes them from here.
-/

open Except

namespace JosSched

variable {c : Cpu} {pool : Set Ppn} {lost : Set (Ppn × Use)} {s s' s₁ s₂ s₀ : Kernel}
  {use : Ppn → Use} {e t cur : Slot} {d p pp q : Ppn} {m m' m₁ m₀ : Mem} {va perm : Word} {r : ℤ}
  {inp : Input} {tf : Trapframe}

/-- The words of `Mem.phys` in frames outside the pool are unchanged. -/
def SameKernel (pool : Set Ppn) (m m' : Mem) : Prop :=
  ∀ x : PteRef, x.1 ∉ pool → m'.load x = m.load x

namespace SameKernel

theorem refl : SameKernel pool m m := fun _ _ => rfl

theorem trans (h : SameKernel pool m m₁) (h' : SameKernel pool m₁ m') : SameKernel pool m m' :=
  fun x hx => (h' x hx).trans (h x hx)

theorem of_load (h : ∀ x, m'.load x = m.load x) : SameKernel pool m m' := fun x _ => h x

theorem of_upper (hm : Mapped pool lost s use) (h : SameUpper use s.mem m) :
    SameKernel pool s.mem m := fun x hx => h.kernel x ((hm.layout.kernel x.1).mpr hx)

end SameKernel

/-! ## Actions -/

namespace Mapped

theorem sameKernel_envAlloc {parentId : Word} (hm : Mapped pool lost s use)
    (halloc : JosSched.envAlloc s parentId = .ok (.ok e, s₁)) : SameKernel pool s.mem s₁.mem := by
  obtain ⟨p, m, -, hpage, rfl⟩ := envAlloc_eq_ok halloc
  exact .of_upper hm (SameUpper.newPgdir hm.layout hpage).1

theorem sameKernel_fresh {zero : Bool} (hm : Mapped pool lost s use)
    (hd : s.dirs t = some d) (hva : va < UTOP)
    (halloc : JosSched.pageAlloc s.mem zero = .ok (some p, m₁))
    (hins : JosSched.pageInsert m₁ d p va perm = .ok (r, m)) : SameKernel pool s.mem m := by
  obtain ⟨hfree, -, -, -, -, h₁⟩ := hm.layout.pageAllocData halloc
  have hdir := hm.layout.holders t d hd
  have hdir₁ : Function.update use p .data d = .pgdir := by
    rw [Function.update_of_ne (fun heq => by rw [heq, hfree] at hdir; cases hdir), hdir]
  have hsame := SameUpper.pageInsert h₁ hdir₁ hva hins
  refine (SameKernel.of_upper hm (.pageAlloc halloc (lower_of_use (.inl hfree)))).trans ?_
  exact fun x hx => hsame.kernel x ((h₁.kernel x.1).mpr hx)

theorem sameKernel_shared (hm : Mapped pool lost s use) (hd : s.dirs t = some d) (hva : va < UTOP)
    (hins : JosSched.pageInsert s.mem d pp va perm = .ok (r, m)) : SameKernel pool s.mem m :=
  .of_upper hm (.pageInsert hm.layout (hm.layout.holders t d hd) hva hins)

theorem sameKernel_freed (hsame : SameKernel pool s.mem m₁) (hdec : pageDecref m₁ q = .ok m) :
    SameKernel pool s.mem (forget c (JosSched.freed c s t m) t).mem := by
  rw [forget_mem, freed_mem]
  exact hsame.trans (.of_load fun x => load_of_pageDecref hdec x)

/-- No action of the kernel writes to its own frames. -/
theorem sameKernel_micro {a : Act} (hm : Mapped pool lost s use) (hstep : Micro c a s s') :
    SameKernel pool s.mem s'.mem := by
  cases hstep with
  | start | save | ret | redirect | dying | status | deliver | ipcPerm | recving | block | sleep
  | priority | upcall | entry | tick => exact .refl
  | create halloc => exact hm.sameKernel_envAlloc halloc
  | exofork _ halloc =>
      have hsame := hm.sameKernel_envAlloc halloc
      exact hsame
  | thread hcur _ _ halloc _ hdrop hshared =>
      obtain ⟨m, hdec, rfl⟩ := dropPgdir_eq_ok hdrop
      exact (hm.sameKernel_envAlloc halloc).trans (.of_load fun x => load_of_pageDecref hdec x)
  | freeThread _ _ _ hfree =>
      obtain ⟨d, m, -, hdec, rfl⟩ := envFreeThread_eq_ok hfree
      exact sameKernel_freed .refl hdec
  | freeProcess _ _ _ _ hfree =>
      obtain ⟨d, m₁, m, hd, hunmap, hdec, rfl⟩ := envFreeProcess_eq_ok hfree
      exact sameKernel_freed
        (.of_upper hm (.unmapUser hm.layout (hm.layout.holders _ d hd) hunmap)) hdec
  | pageNew _ hva _ hd halloc hins =>
      refine hm.sameKernel_fresh hd ?_ halloc hins
      rcases hva with hva | rfl
      · exact hva.1
      · exact (hm.dstva _).1
  | pageShare _ _ _ hva _ hd _ _ hins =>
      refine hm.sameKernel_shared hd ?_ hins
      rcases hva with hva | rfl
      · exact hva.1
      · exact (hm.dstva _).1
  | pageDrop _ hva hd hrm =>
      have hdir := hm.layout.holders _ _ hd
      exact .of_upper hm (.pageRemove (hm.layout.lowerTable hdir hva.1) hrm)
  | kstore _ hd hva hstore =>
      exact .of_upper hm (.kernStore hm.layout (hm.layout.holders _ _ hd) hva hstore)

/-! ## Calls that map pages -/

theorem keptByMap_sameKernel (hva : va < UTOP) :
    KeptByMap pool lost (fun s => SameKernel pool m₀ s.mem) t va where
  congr h hmem _ := by
    rw [hmem]
    exact h
  fresh hm hd halloc hins h := h.trans (hm.sameKernel_fresh hd hva halloc hins)
  shared hm hd hins h := h.trans (hm.sameKernel_shared hd hva hins)

end Mapped

/-! ## Steps and runs -/

theorem Resting.sameKernel {ev : Event} (hs : Resting pool lost s) (hstep : OrderlyStep s ev s') :
    SameKernel pool s.mem s'.mem := by
  obtain ⟨use, hm⟩ := hs.mapped
  obtain ⟨⟨henabled, hexec⟩, hyg, hord⟩ := hstep
  cases ev with
  | boot binary =>
      obtain ⟨use', -, h'⟩ := hm.envCreate_invariant (I := fun s₁ => SameKernel pool s.mem s₁.mem)
        hs.exclusive.freeSlots (envCreate_eq_ok hexec)
        (fun _ halloc => hm.sameKernel_envAlloc halloc)
        (fun hd => ⟨fun hm₁ hva halloc hins h₁ =>
            h₁.trans (hm₁.sameKernel_fresh hd hva halloc hins),
          fun hm₁ hva hstore h₁ => h₁.trans (.of_upper hm₁
            (.kernStore hm₁.layout (hm₁.layout.holders _ _ hd) hva hstore))⟩)
        fun _ _ h₁ => h₁
      exact h'
  | start c =>
      have hyield : schedYield c (started c s) = .leave s' := hexec
      have hmem := (schedYield_decided hyield).departed.mem
      rw [hmem]
      exact .refl
  | timer c =>
      have hyield : schedYield c (tick (started c s)) = .leave s' := hexec
      have hmem := (schedYield_decided hyield).departed.mem
      rw [hmem]
      exact .refl
  | trap c inp tf =>
      obtain ⟨⟨-, hsome⟩, -⟩ := henabled
      obtain ⟨cur, hcur⟩ := Option.isSome_iff_exists.mp hsome
      -- the calls that may fail half way have their own lemma
      by_cases hcall : (s.envs cur).envStatus ≠ .dying ∧ Delicate tf
      · exact hm.delicate_invariant (I := fun s₁ => SameKernel pool s.mem s₁.mem)
          (fun _ _ => Mapped.keptByMap_sameKernel) hcur hcall.1 hord hcall.2 .refl hexec
      · obtain ⟨s₁, use', h₁, hdep, -, -⟩ := hm.trap_invariant
          (J := fun s₁ => SameKernel pool s.mem s₁.mem) hs.exclusive hcur hyg (not_and.mp hcall)
          .refl (fun _ _ hstep _ hm₁ h₁ => h₁.trans (hm₁.sameKernel_micro hstep)) hexec
        rw [hdep.departed.mem]
        exact h₁
  | store c va byte =>
      obtain ⟨⟨-, hsome⟩, hva⟩ := henabled
      obtain ⟨cur, hcur⟩ := Option.isSome_iff_exists.mp hsome
      -- a store goes through the page directory of the process
      have hdir := hm.layout.holders cur _ (hs.cr3 c cur hcur)
      unfold Event.exec at hexec
      dsimp only at hexec
      split at hexec
      · next m hstore =>
          obtain rfl := Exit.leave.inj hexec
          exact .of_upper hm (.storeByte hm.layout hdir hva hstore)
      · obtain rfl := Exit.leave.inj hexec
        exact .refl

theorem sameKernel_of_run {evs : List Event} (hboot : Booted s₀)
    (hrun : Trace OrderlyStep s₀ evs s) : SameKernel (freeFrames s₀.mem) s₀.mem s.mem := by
  have hstart : Resting (freeFrames s₀.mem) leaks s₀ := resting_of_run hboot .nil
  refine (hrun.invariant (I := fun s => Resting (freeFrames s₀.mem) leaks s ∧
    SameKernel (freeFrames s₀.mem) s₀.mem s.mem) ⟨hstart, .refl⟩ fun s ev s' hinv hstep => ?_).2
  obtain ⟨hs, hsame⟩ := hinv
  exact ⟨hs.step hstep.1 hstep.2.1 hstep.2.2 (.inr subset_rfl), hsame.trans (hs.sameKernel hstep)⟩

end JosSched
