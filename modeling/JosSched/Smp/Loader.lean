import JosSched.Smp.Memory
import JosSched.Vm.Loading

/-!
# The first programs

With a free slot and enough free pages `env_create` never panics, whatever has run before.  The new
environment has a memory of its own, which holds the program and a page for the stack and behaves as
memory should, and it starts at the entry point (`Launched`, `program_loaded`).
-/

open Except PartialMemory

namespace JosSched

variable {pool : Set Ppn} {lost : Set (Ppn × Use)} {s s' s₀ : Kernel} {use : Ppn → Use}
  {m m' : Mem} {d p q : Ppn} {e : Slot} {l rest : List Ppn} {binary : Image} {evs : List Event}

/-- Environment `e` is ready to run a program: its memory below `UTOP` is the image, and a store
changes the byte that it names. -/
structure Launched (s : Kernel) (e : Slot) (d : Ppn) (binary : Image) : Prop where
  pgdir : s.dirs e = some d
  memory : Loads (fun _ => none) (userBytes s.mem d) binary.pieces
  store : ∀ va b, (userBytes s.mem d va).isSome →
    ∃ m, storeByte s.mem d (PTE_U ||| PTE_W) va b = some m ∧
      userBytes m d = Function.update (userBytes s.mem d) va (some b)
  status : (s.envs e).envStatus = .runnable
  entry : (s.envs e).envTf.tfEip = binary.entry
  stack : (s.envs e).envTf.tfEsp = USTACKTOP

/-- The page directory that `env_setup_vm` builds is an empty address space. -/
theorem userSpace_newPgdir (hlist : FreeList m (p :: rest)) (hnodup : (p :: rest).Nodup)
    (hmemory : ∀ q ∈ p :: rest, q.toNat < m.npages)
    (hvacant : Vacant (newPgdir ((takePage m p).fill p fun _ => 0) p) p) :
    UserSpace (newPgdir ((takePage m p).fill p fun _ => 0) p) p rest := by
  obtain ⟨rest', heq, hrest⟩ := hlist.takePage hlist.exists_head hnodup
  obtain rfl := (List.cons.inj heq).2
  have hfill : ∀ (m : Mem) f, SameList m (m.fill p f) := fun _ _ => ⟨rfl, rfl, rfl, fun _ => rfl⟩
  have hsame : SameList (takePage m p) (newPgdir ((takePage m p).fill p fun _ => 0) p) :=
    (hfill _ _).trans ((hfill _ _).trans (SameList.setRef.trans .store))
  have hleaf : ∀ va, va < UTOP → leaf (newPgdir ((takePage m p).fill p fun _ => 0) p) p va = 0 :=
    fun va hva => if_pos (hvacant _ (pdx_lt hva))
  exact {
    freeList := hrest.congr hsame
    nodup := (List.nodup_cons.mp hnodup).2
    dir := (List.nodup_cons.mp hnodup).1
    free := fun q hq => hmemory q (List.mem_cons_of_mem _ hq)
    tables := fun k hk hne => absurd (hvacant k hk) hne
    apart := fun k hk _ _ hne => absurd (hvacant k hk) hne
    pages := fun va hva hne => absurd (hleaf va hva) hne
    distinct := fun va _ hva _ hne => absurd (hleaf va hva) hne }

/-- `env_alloc` takes the first slot and the first page, and its address space is empty. -/
theorem Mapped.envAlloc_space {parentId : Word} (h : Mapped pool lost s use) (hslots : FreeSlots s)
    (hslot : s.envFreeList = some e) (hlist : FreeList s.mem (p :: rest)) :
    ∃ s₁, JosSched.envAlloc s parentId = .ok (.ok e, s₁) ∧ UserSpace s₁.mem p rest ∧
      (userBytes s₁.mem p = fun _ => none) ∧
      s₁.envs e = initEnv e parentId { s.envs e with envPgdir := some p } := by
  obtain ⟨l, hchain, hnodup, hfree⟩ := h.layout.freeList
  obtain rfl := Chain.unique hchain hlist
  have hmemory : ∀ q ∈ p :: rest, q.toNat < s.mem.npages := fun q hq =>
    h.layout.memory q (h.layout.mem_pool (by rw [(hfree q).mp hq]; decide))
  have hpage := pageAlloc_eq hlist.exists_head (hmemory p List.mem_cons_self)
  have hvacant := (h.layout.newPgdir (h.unused e (hslots.head hslot)) hpage).2.1
  have hspace := userSpace_newPgdir hlist hnodup hmemory hvacant
  refine ⟨_, envAlloc_eq hslot hpage, hspace, ?_, by simp⟩
  funext va
  by_cases hva : va < UTOP
  · exact (hspace.userBytes_eq_none hva).mpr (if_pos (hvacant _ (pdx_lt hva)))
  · exact if_neg hva

/-- `env_create`, where memory is in order. -/
theorem Mapped.envCreate_launched (h : Mapped pool lost s use) (hslots : FreeSlots s)
    (hslot : s.envFreeList = some e) (hlist : FreeList s.mem l)
    (hlen : 2 * binary.pages + 1 ≤ l.length) (hapart : binary.Apart) :
    ∃ s' d, JosSched.envCreate s binary = .ok s' ∧ Launched s' e d binary := by
  obtain ⟨p, rest, rfl⟩ := List.exists_cons_of_length_pos (Nat.lt_of_lt_of_le (Nat.succ_pos _) hlen)
  rw [List.length_cons] at hlen
  obtain ⟨s₁, halloc, hspace, hempty, henv⟩ := h.envAlloc_space hslots hslot hlist
  have hpgdir : envPgdirOf s₁ e = .ok p := by
    rw [envPgdirOf, henv]
    rfl
  obtain ⟨m', l', hload, hspace', hloads⟩ :=
    hspace.loadIcode (by omega) hapart fun va => congrFun hempty va
  rw [hempty] at hloads
  refine ⟨(s₁.setMem m').modEnv e fun env => { env with
    envTf := { env.envTf with tfEip := binary.entry }, envType := .user }, p, ?_, ?_⟩
  · unfold JosSched.envCreate
    rw [halloc]
    dsimp only [bind, Except.bind]
    rw [hpgdir]
    dsimp only
    rw [hload]
    rfl
  · exact {
      pgdir := by
        rw [Kernel.dirs, Kernel.modEnv_self, Kernel.setMem_envs, henv]
        rfl
      memory := hloads
      store := fun va b hva => by
        obtain ⟨m, hstore, -, hbytes⟩ := hspace'.storeByte _ BitVec.and_self hva b
        exact ⟨m, hstore, hbytes⟩
      status := by
        rw [Kernel.modEnv_self, Kernel.setMem_envs, henv]
        rfl
      entry := by
        rw [Kernel.modEnv_self]
      stack := by
        rw [Kernel.modEnv_self, Kernel.setMem_envs, henv]
        rfl }

/-- In any state of an orderly run, `env_create` makes an environment that is ready to run the
program. -/
theorem program_loaded (hboot : Booted s₀) (hrun : Trace OrderlyStep s₀ evs s)
    (hslot : s.envFreeList = some e) (hlist : FreeList s.mem l)
    (hlen : 2 * binary.pages + 1 ≤ l.length) (hapart : binary.Apart) :
    ∃ s' d, envCreate s binary = .ok s' ∧ Launched s' e d binary := by
  have hs := resting_of_run hboot hrun
  obtain ⟨use, hm⟩ := hs.mapped
  exact hm.envCreate_launched hs.exclusive.freeSlots hslot hlist hlen hapart

/-- Three bytes, and more than a page of zeros. -/
def smallSegment : Segment where
  va := 0x800020
  memsz := 0x1010
  bytes := [0x55, 0x89, 0xe5]
  fits := by decide
  below := by decide

def smallProgram : Image where
  segments := [smallSegment]
  entry := 0x800020

theorem apart_smallProgram : smallProgram.Apart := by
  refine List.pairwise_cons.mpr ⟨fun q hq => ?_, List.pairwise_singleton _ _⟩
  obtain rfl := List.mem_singleton.mp hq
  have hend : (roundup (0x800020 + 0x1010)).toNat ≤ (rounddown (USTACKTOP - PGSIZE)).toNat := by
    decide
  exact fun x hx hx' => absurd (hx.2.trans_le hend) (not_lt.mpr hx'.1)

theorem program_loaded_small : ∃ s' d,
    envCreate (bootedMachine .roundRobin 64) smallProgram = .ok s' ∧
      Launched s' 0 d smallProgram :=
  program_loaded (booted_bootedMachine .roundRobin (n := 64) (by decide) (by decide)) .nil rfl
    (chain_bootedFree (n := 64) (by decide) 55 8 le_rfl rfl) (by decide) apart_smallProgram

end JosSched
