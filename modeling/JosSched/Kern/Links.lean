import JosSched.Vm.Links
import JosSched.Kern.EnvTable

/-!
# Links of pages in use, in a running kernel

Every action of the kernel relinks pages as `page_alloc` and `page_free` do.  So a page that was
on the free list when the kernel booted has no link whenever it is in use, in any run: the test of
`page_free` never stops the kernel.
-/

open Except

namespace JosSched

variable {c : Cpu} {L : Act → Prop} {s s' s₀ : Kernel} {q : Ppn} {ev : Event} {a : Act}

theorem relinked_envAlloc {parentId : Word} {e : Slot}
    (h : envAlloc s parentId = .ok (.ok e, s')) : Relinked s.mem s'.mem := by
  obtain ⟨p, m, -, halloc, rfl⟩ := envAlloc_eq_ok h
  exact .newPgdir halloc

theorem Micro.relinked (h : Micro c a s s') : Relinked s.mem s'.mem := by
  cases h with
  | start | save | ret | redirect | dying | status | deliver | ipcPerm | recving | block | sleep
  | priority | upcall | entry | tick => exact .refl
  | create halloc => exact relinked_envAlloc halloc
  | exofork _ halloc =>
      have hrelinked := relinked_envAlloc halloc
      exact hrelinked
  | thread _ _ _ halloc _ hdrop _ =>
      obtain ⟨m, hdec, rfl⟩ := dropPgdir_eq_ok hdrop
      have hrelinked := (relinked_envAlloc halloc).trans (.pageDecref hdec)
      exact hrelinked.trans .setRef
  | freeThread _ _ _ hfree =>
      obtain ⟨d, m, -, hdec, rfl⟩ := envFreeThread_eq_ok hfree
      rw [forget_mem, freed_mem]
      exact .pageDecref hdec
  | freeProcess _ _ _ _ hfree =>
      obtain ⟨d, m₁, m, -, hunmap, hdec, rfl⟩ := envFreeProcess_eq_ok hfree
      rw [forget_mem, freed_mem]
      exact (Relinked.unmapUser hunmap).trans (.pageDecref hdec)
  | pageNew _ _ _ _ halloc hins => exact (Relinked.pageAlloc halloc).trans (.pageInsert hins)
  | pageShare _ _ _ _ _ _ _ _ hins => exact .pageInsert hins
  | pageDrop _ _ _ hrm => exact .pageRemove hrm
  | kstore _ _ _ hstore => exact .kernStore hstore

theorem Path.relinked (h : Path c L s s') : Relinked s.mem s'.mem :=
  h.invariant (I := fun s₁ => Relinked s.mem s₁.mem) .refl
    fun _ _ _ _ hm hs => hs.trans hm.relinked

theorem Exit.Path.relinked {x : Exit} (h : x.Path c L s) (hx : x = .leave s') :
    Relinked s.mem s'.mem :=
  h.invariant (I := fun s₁ => Relinked s.mem s₁.mem) hx .refl
    (fun _ _ _ _ hm hs => hs.trans hm.relinked) fun _ _ hdep hs => by
      rw [hdep.departed.mem]
      exact hs

theorem Step.relinked (h : Step s ev s') : Relinked s.mem s'.mem := by
  obtain ⟨-, hexec⟩ := h
  cases ev with
  | boot binary =>
      obtain ⟨e, -, hpath⟩ := envCreate_path (c := 0) (envCreate_eq_ok hexec)
      exact hpath.relinked
  | start c => exact (mpMain_path s).relinked hexec
  | timer c => exact (trapHalted_path s).relinked hexec
  | trap c inp tf => exact (trap_path s inp tf).relinked hexec
  | store c va byte =>
      unfold Event.exec at hexec
      dsimp only at hexec
      split at hexec
      · next m hstore =>
          obtain rfl := Exit.leave.inj hexec
          exact .storeByte hstore
      · obtain rfl := Exit.leave.inj hexec
        exact .refl

theorem relinked_of_run {evs : List Event} (hrun : Trace Step s₀ evs s) :
    Relinked s₀.mem s.mem :=
  hrun.invariant (I := fun s => Relinked s₀.mem s.mem) .refl
    fun _ _ _ hs hstep => hs.trans hstep.relinked

end JosSched
