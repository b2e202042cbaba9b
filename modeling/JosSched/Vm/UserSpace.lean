import JosSched.Kern.Printfmt
import JosSched.Lib.PartialMemory
import JosSched.User.View
import JosSched.Vm.Growing

/-!
# The address space of a new program

While `load_icode` runs, each page below `UTOP` has a frame of its own (`UserSpace`), so that what
the program sees there behaves like a memory: a store changes one byte (`UserSpace.storeByte`), and
mapping a page changes no other (`UserSpace.mapPage`).
-/

open Except PartialMemory

namespace JosSched

variable {m m' : Mem} {d p q t : Ppn} {l l' rest : List Ppn} {va va' w : Word} {k : Idx}

/-- The entries of a page directory for the program. -/
def userPart : Set Idx := { k | k.val < PDX_UTOP }

/-- Frame `q` is not free, and has no part in the translations below `UTOP`. -/
structure Outside (m : Mem) (d : Ppn) (l : List Ppn) (q : Ppn) : Prop where
  free : q ∉ l
  dir : q ≠ d
  table : ∀ k ∈ userPart, m.load (d, k) ≠ tableEntry q

/-- An address space below `UTOP` in the making, with free list `l`.  The pages are writable, and
their frames are all different. -/
structure UserSpace (m : Mem) (d : Ppn) (l : List Ppn) : Prop extends Growing userPart m d l where
  pages : ∀ va, va < UTOP → leaf m d va ≠ 0 →
    ∃ p, leaf m d va = userEntry p (PTE_U ||| PTE_W) ∧ Outside m d l p
  distinct : ∀ va va', va < UTOP → va' < UTOP → leaf m d va ≠ 0 →
    leaf m d va' = leaf m d va → va.toNat / 4096 = va'.toNat / 4096

/-- The bytes of the program with page directory `d`. -/
def userBytes (m : Mem) (d : Ppn) : Reader := fun va => if va < UTOP then loadByte m d va else none

theorem pgnum_loadedEntry (p : Ppn) : pgnum (userEntry p (PTE_U ||| PTE_W)) = p :=
  pgnum_userEntry (by decide)

theorem tableEntry_inj (h : tableEntry t = tableEntry q) : t = q := by
  rw [← pgnum_tableEntry t, h, pgnum_tableEntry]

/-- Page tables may have come from the free list. -/
theorem Outside.congr (h : Outside m d l q) (hsub : ∀ r ∈ l', r ∈ l)
    (htable : ∀ k ∈ userPart, m'.load (d, k) = m.load (d, k) ∨
      ∃ t ∈ l, m'.load (d, k) = tableEntry t) :
    Outside m' d l' q := by
  refine ⟨fun hin => h.free (hsub q hin), h.dir, fun k hk heq => ?_⟩
  rcases htable k hk with hsame | ⟨t, ht, hnew⟩
  · exact h.table k hk (hsame.symm.trans heq)
  · exact h.free (tableEntry_inj (hnew.symm.trans heq) ▸ ht)

/-- The free list loses its first frame. -/
theorem Growing.takePage {part : Set Idx} (h : Growing part m d (t :: rest)) :
    Growing part (takePage m t) d rest := by
  obtain ⟨rest', heq, hrest⟩ := h.freeList.takePage h.freeList.exists_head h.nodup
  obtain rfl := (List.cons.inj heq).2
  refine ⟨hrest, (List.nodup_cons.mp h.nodup).2, fun hin => h.dir (List.mem_cons_of_mem _ hin),
    fun pp hpp => h.free pp (List.mem_cons_of_mem _ hpp), fun k hk hne => ?_, h.apart⟩
  obtain ⟨t', heq', hdir, hnot, hlt⟩ := h.tables k hk hne
  exact ⟨t', heq', hdir, fun hin => hnot (List.mem_cons_of_mem _ hin), hlt⟩

namespace UserSpace

/-! ### Translations -/

theorem mmu_of_leaf (h : UserSpace m d l) (hva : va < UTOP)
    (hleaf : leaf m d va = userEntry p (PTE_U ||| PTE_W)) :
    ∃ flags, mmu m d va = some (p, flags) ∧ flags &&& (PTE_U ||| PTE_W) = PTE_U ||| PTE_W := by
  have hne : leaf m d va ≠ 0 := hleaf ▸ ne_zero_of_and (userEntry_present _ _)
  have hpde := pde_ne_zero_of_leaf hne
  obtain ⟨t, heq, -⟩ := h.tables _ (pdx_lt hva) hpde
  have hpte : m.load (cell m d va) = userEntry p (PTE_U ||| PTE_W) :=
    (leaf_of_pde hpde).symm.trans hleaf
  have hmmu := mmu_of_present (heq ▸ tableEntry_present t) (hpte ▸ userEntry_present _ _)
  rw [heq, hpte, pgnum_loadedEntry] at hmmu
  refine ⟨_, hmmu, ?_⟩
  have htable : tableEntry t &&& (PTE_U ||| PTE_W) = PTE_U ||| PTE_W := by
    have hmask : (PTE_U ||| PTE_W : Word) = (PTE_P ||| PTE_W ||| PTE_U) &&& (PTE_U ||| PTE_W) := by
      decide
    rw [hmask, ← BitVec.and_assoc, tableEntry_flags]
  have hentry : userEntry p (PTE_U ||| PTE_W) &&& (PTE_U ||| PTE_W) = PTE_U ||| PTE_W := by
    rw [userEntry, BitVec.or_assoc, BitVec.and_or_distrib_right]
    have hpage : page2pa p &&& (PTE_U ||| PTE_W) = 0 :=
      and_mask_of_aligned (pgoff_page2pa p) (by decide)
    rw [hpage]
    decide
  rw [BitVec.and_assoc, hentry, htable]

theorem mmu_eq_none (h : UserSpace m d l) (hva : va < UTOP) (hleaf : leaf m d va = 0) :
    mmu m d va = none := by
  have hzero : (0 : Word) &&& PTE_P = 0 := BitVec.zero_and
  unfold mmu
  dsimp only
  by_cases hpde : m.load (d, pdx va) = 0
  · rw [hpde, if_pos hzero]
  · have hpte : m.load (pgnum (m.load (d, pdx va)), ptx va) = 0 :=
      (leaf_of_pde hpde).symm.trans hleaf
    obtain ⟨t, heq, -⟩ := h.tables _ (pdx_lt hva) hpde
    rw [if_neg (heq ▸ tableEntry_present t), hpte, if_pos hzero]

theorem userBytes_of_leaf (h : UserSpace m d l) (hva : va < UTOP)
    (hleaf : leaf m d va = userEntry p (PTE_U ||| PTE_W)) :
    userBytes m d va = some (Bytes.byteOf (m.load (p, wordIdx va)) (va % 4).toNat) := by
  obtain ⟨flags, hmmu, -⟩ := h.mmu_of_leaf hva hleaf
  rw [userBytes, if_pos hva, loadByte, hmmu]
  rfl

theorem userBytes_eq_none (h : UserSpace m d l) (hva : va < UTOP) :
    userBytes m d va = none ↔ leaf m d va = 0 := by
  constructor
  · intro hnone
    by_contra hleaf
    obtain ⟨p, heq, -⟩ := h.pages va hva hleaf
    rw [h.userBytes_of_leaf hva heq] at hnone
    cases hnone
  · intro hleaf
    rw [userBytes, if_pos hva, loadByte, h.mmu_eq_none hva hleaf]
    rfl

/-- A page that is mapped. -/
theorem exists_page (h : UserSpace m d l) (hva : va < UTOP) (hsome : (userBytes m d va).isSome) :
    ∃ p, leaf m d va = userEntry p (PTE_U ||| PTE_W) ∧ Outside m d l p :=
  h.pages va hva fun hleaf => by
    rw [(h.userBytes_eq_none hva).mpr hleaf] at hsome
    cases hsome

/-! ### Where nothing changes -/

theorem congr (h : UserSpace m d l) (hgrow : Growing userPart m' d l') (hsub : ∀ r ∈ l', r ∈ l)
    (htable : ∀ k ∈ userPart, m'.load (d, k) = m.load (d, k) ∨
      ∃ t ∈ l, m'.load (d, k) = tableEntry t)
    (hleaf : ∀ va, va < UTOP → leaf m' d va = leaf m d va) : UserSpace m' d l' := by
  refine ⟨hgrow, fun va hva hne => ?_, fun va va' hva hva' hne heq => ?_⟩
  · rw [hleaf va hva] at hne ⊢
    obtain ⟨p, hp, hout⟩ := h.pages va hva hne
    exact ⟨p, hp, hout.congr hsub htable⟩
  · rw [hleaf va hva] at hne heq
    rw [hleaf va' hva'] at heq
    exact h.distinct va va' hva hva' hne heq

/-- The bytes of a page whose entry and frame are as before. -/
theorem userBytes_congr (h : UserSpace m d l) (h' : UserSpace m' d l')
    (hleaf : va < UTOP → leaf m' d va = leaf m d va)
    (hload : ∀ q, Outside m d l q → ∀ k, m'.load (q, k) = m.load (q, k)) :
    userBytes m' d va = userBytes m d va := by
  by_cases hva : va < UTOP
  · have hleaf := hleaf hva
    by_cases hzero : leaf m d va = 0
    · rw [(h.userBytes_eq_none hva).mpr hzero, (h'.userBytes_eq_none hva).mpr (hleaf.trans hzero)]
    · obtain ⟨p, hp, hout⟩ := h.pages va hva hzero
      rw [h.userBytes_of_leaf hva hp, h'.userBytes_of_leaf hva (hleaf.trans hp), hload p hout]
  · rw [userBytes, if_neg hva, userBytes, if_neg hva]

/-! ### Stores -/

/-- Writing to a page. -/
theorem storeData (h : UserSpace m d l) (hout : Outside m d l p) :
    UserSpace (m.store (p, k) w) d l ∧
      ∀ va, va < UTOP → leaf (m.store (p, k) w) d va = leaf m d va := by
  have hdir : ∀ k', (m.store (p, k) w).load (d, k') = m.load (d, k') := fun k' =>
    Mem.load_store_ne fun heq => hout.dir (Prod.mk.inj heq).1.symm
  have hleaf : ∀ va, va < UTOP → leaf (m.store (p, k) w) d va = leaf m d va := fun va hva => by
    refine leaf_congr (hdir _) fun hpde => Mem.load_store_ne fun heq => ?_
    obtain ⟨t, ht, -⟩ := h.tables _ (pdx_lt hva) hpde
    have hframe : pgnum (m.load (d, pdx va)) = p := (Prod.mk.inj heq).1
    rw [ht, pgnum_tableEntry] at hframe
    exact hout.table _ (pdx_lt hva) (hframe ▸ ht)
  exact ⟨h.congr (h.toGrowing.congr (h.freeList.congr .store) rfl hdir) (fun _ hr => hr)
    (fun k' _ => .inl (hdir k')) hleaf, hleaf⟩

/-- A store changes one byte. -/
theorem storeByte (h : UserSpace m d l) (perm : Word) (hperm : (PTE_U ||| PTE_W) &&& perm = perm)
    (hsome : (userBytes m d va).isSome) (b : BitVec 8) :
    ∃ m', storeByte m d perm va b = some m' ∧ UserSpace m' d l ∧
      userBytes m' d = Function.update (userBytes m d) va (some b) := by
  have hva : va < UTOP := by
    by_contra hno
    rw [userBytes, if_neg hno] at hsome
    cases hsome
  obtain ⟨p, hp, hout⟩ := h.exists_page hva hsome
  obtain ⟨flags, hmmu, hflags⟩ := h.mmu_of_leaf hva hp
  have hgrants : flags &&& perm = perm := by rw [← hperm, ← BitVec.and_assoc, hflags]
  obtain ⟨h', hleaf⟩ := h.storeData (k := wordIdx va)
    (w := setByte (m.load (p, wordIdx va)) va b) hout
  refine ⟨m.store (p, wordIdx va) (setByte (m.load (p, wordIdx va)) va b), ?_, h', ?_⟩
  · unfold JosSched.storeByte
    rw [hmmu]
    exact if_pos hgrants
  funext x
  have hmod : (x % 4).toNat < 4 := by
    rw [toNat_mod4]
    omega
  by_cases hx : x = va
  · rw [hx, Function.update_self, h'.userBytes_of_leaf hva ((hleaf va hva).trans hp),
      Mem.load_store_self, byteOf_setByte (hx ▸ hmod), if_pos rfl]
  rw [Function.update_of_ne hx]
  by_cases hbelow : x < UTOP
  · by_cases hzero : leaf m d x = 0
    · rw [(h.userBytes_eq_none hbelow).mpr hzero,
        (h'.userBytes_eq_none hbelow).mpr ((hleaf x hbelow).trans hzero)]
    · obtain ⟨q, hq, -⟩ := h.pages x hbelow hzero
      rw [h.userBytes_of_leaf hbelow hq, h'.userBytes_of_leaf hbelow ((hleaf x hbelow).trans hq)]
      by_cases hword : (q, wordIdx x) = (p, wordIdx va)
      · -- another byte of the same word
        obtain ⟨hqp, hidx⟩ := Prod.mk.inj hword
        have hpage := h.distinct va x hva hbelow (hp ▸ ne_zero_of_and (userEntry_present _ _))
          (by rw [hp, hq, hqp])
        have hbyte : (x % 4).toNat ≠ (va % 4).toNat := fun heq =>
          hx (wordIdx_inj hpage.symm hidx heq)
        rw [hword, Mem.load_store_self, byteOf_setByte hmod, if_neg hbyte]
      · rw [Mem.load_store_ne hword]
  · rw [userBytes, if_neg hbelow, userBytes, if_neg hbelow]

/-- The kernel stores consecutive bytes. -/
theorem kernStore : ∀ (bytes : List (BitVec 8)) (va : Word) {m : Mem}, UserSpace m d l →
    va.toNat + bytes.length < 2 ^ 32 →
    (∀ x : Word, va.toNat ≤ x.toNat → x.toNat < va.toNat + bytes.length →
      (userBytes m d x).isSome) →
    ∃ m', kernStore m d va bytes = .ok m' ∧ UserSpace m' d l ∧
      userBytes m' d = overwrite (userBytes m d) va bytes
  | [], _, m, h, _, _ => ⟨m, rfl, h, overwrite_nil.symm⟩
  | b :: bytes, va, m, h, hfits, hsome => by
      rw [List.length_cons] at hfits hsome
      obtain ⟨m₁, hstore, h₁, hbytes₁⟩ :=
        h.storeByte PTE_W (by decide) (hsome va le_rfl (by omega)) b
      have hnext : (va + 1).toNat = va.toNat + 1 := by
        rw [BitVec.toNat_add, show (1 : Word).toNat = 1 from rfl]
        omega
      obtain ⟨m', hrest, h', hbytes⟩ := kernStore bytes (va + 1) h₁ (by omega)
        fun x hlo hhi => by
          rw [hbytes₁]
          by_cases hx : x = va
          · rw [hx, Function.update_self]
            rfl
          · rw [Function.update_of_ne hx]
            exact hsome x (by omega) (by omega)
      refine ⟨m', ?_, h', ?_⟩
      · unfold JosSched.kernStore
        rw [hstore]
        exact hrest
      · rw [hbytes, hbytes₁, overwrite_cons (by omega)]

end UserSpace

end JosSched
