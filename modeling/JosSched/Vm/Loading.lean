import JosSched.Kern.Env
import JosSched.Vm.UserMem
import JosSched.Vm.UserSpace

/-!
# Loading a program

`region_alloc` maps the pages of a range and nothing else (`UserSpace.regionAlloc`).  With room for
its pages and their page tables, `load_icode` never panics, and the memory of the new environment
is the image: the bytes of the file, then zeros, and a page for the stack (`UserSpace.loadIcode`).
No two segments may touch one page, as the comment in `load_icode` asks.
-/

open Except PartialMemory

namespace JosSched

variable {m m' : Mem} {d p q t : Ppn} {l l' rest : List Ppn} {va len w : Word} {n : ℕ}

/-! ## The image -/

theorem toNat_utop : UTOP.toNat = 4005560320 := rfl

/-- The pages that a range touches. -/
def touched (va len : Word) : Set Word := between (rounddown va).toNat (roundup (va + len)).toNat

/-- How many they are. -/
def pagesTouched (va len : Word) : ℕ := ((roundup (va + len)).toNat - (rounddown va).toNat) / 4096

theorem toNat_roundup_below (h : va.toNat + len.toNat ≤ UTOP.toNat) :
    (roundup (va + len)).toNat = (va.toNat + len.toNat + 4095) / 4096 * 4096 := by
  rw [toNat_utop] at h
  rw [toNat_roundup, Nat.mod_eq_of_lt (by omega)]

theorem mem_touched (h : va.toNat + len.toNat ≤ UTOP.toNat) {i : ℕ} (hi : i < len.toNat) :
    va + BitVec.ofNat 32 i ∈ touched va len := by
  have hsum : (va + BitVec.ofNat 32 i).toNat = va.toNat + i := by
    rw [toNat_utop] at h
    rw [BitVec.toNat_add, BitVec.toNat_ofNat]
    omega
  have hlo := toNat_rounddown va
  have hhi := toNat_roundup_below h
  constructor
  · omega
  · omega

/-- A segment in memory. -/
def Segment.piece (ph : Segment) : Piece 32 (BitVec 8) where
  extent := touched ph.va ph.memsz
  start := ph.va
  cells := ph.bytes ++ List.replicate (ph.memsz.toNat - ph.bytes.length) 0
  covers i hi := by
    have hfits := ph.fits
    rw [List.length_append, List.length_replicate] at hi
    exact mem_touched ph.below (by omega)

/-- The page for the stack, with any contents. -/
def stackPiece : Piece 32 (BitVec 8) where
  extent := touched (USTACKTOP - PGSIZE) PGSIZE
  start := USTACKTOP - PGSIZE
  cells := []
  covers _ hi := absurd hi (Nat.not_lt_zero _)

namespace Image

/-- What a new environment has in its memory. -/
def pieces (binary : Image) : List (Piece 32 (BitVec 8)) :=
  binary.segments.map Segment.piece ++ [stackPiece]

/-- How many pages that takes. -/
def pages (binary : Image) : ℕ :=
  (binary.segments.map fun ph => pagesTouched ph.va ph.memsz).sum + 1

/-- No two segments touch the same page, nor does one touch the stack. -/
def Apart (binary : Image) : Prop := binary.pieces.Pairwise Piece.Apart

end Image

/-! ## Pages -/

/-- A page that is on the free list can be had. -/
theorem pageAlloc_plain (h : m.pageFreeList = some p) :
    pageAlloc m false = .ok (some p, takePage m p) := by
  unfold pageAlloc
  rw [h]
  rfl

namespace UserSpace

/-- `pgdir_walk` finds a page table, or makes one; the pages stay as they are. -/
theorem pgdirWalk_create (h : UserSpace m d l) (hlen : 1 ≤ l.length) (hva : va < UTOP) :
    ∃ m₁ l₁, pgdirWalk m d va true = .ok (some (cell m₁ d va), m₁) ∧ UserSpace m₁ d l₁ ∧
      l.length ≤ l₁.length + 1 ∧ SameLeaves userPart m m₁ d ∧ m₁.load (d, pdx va) ≠ 0 ∧
      ∀ q, Outside m d l q → Outside m₁ d l₁ q ∧ ∀ k, m₁.load (q, k) = m.load (q, k) := by
  have hpart : pdx va ∈ userPart := pdx_lt hva
  by_cases hpde : m.load (d, pdx va) = 0
  · obtain ⟨t, l₁, rfl⟩ := List.exists_cons_of_length_pos hlen
    have ht : t ∈ t :: l₁ := List.mem_cons_self
    have hsub : ∀ r ∈ l₁, r ∈ t :: l₁ := fun r hr => List.mem_cons_of_mem _ hr
    have htable : ∀ k ∈ userPart, (withTable m d t va).load (d, k) = m.load (d, k) ∨
        ∃ t' ∈ t :: l₁, (withTable m d t va).load (d, k) = tableEntry t' := fun k _ => by
      by_cases hk : k = pdx va
      · exact .inr ⟨t, ht, hk ▸ load_withTable_pde⟩
      · exact .inl (h.load_withTable_dir ht hk)
    have hsame := h.sameLeaves_withTable ht hpde
    refine ⟨_, l₁, h.pgdirWalk_new hpart hpde,
      h.congr h.addTable hsub htable fun va' hva' => hsame.leaf va' (pdx_lt hva'),
      le_of_eq (List.length_cons ..), hsame, ?_, fun q hq => ⟨hq.congr hsub htable, fun k => ?_⟩⟩
    · rw [load_withTable_pde]
      exact ne_zero_of_and (tableEntry_present t)
    · exact load_withTable_ne (fun heq => hq.dir (Prod.mk.inj heq).1) fun heq => hq.free (heq ▸ ht)
  · exact ⟨m, l, h.pgdirWalk_old hpart hpde, h, Nat.le_succ _, .refl, hpde, fun q hq =>
      ⟨hq, fun _ => rfl⟩⟩

/-- The entry of a page is written, with a frame that no other page has. -/
theorem writeEntry (h : UserSpace m d l) (hva : va < UTOP) (hpde : m.load (d, pdx va) ≠ 0)
    (hout : Outside m d l p)
    (hfresh : ∀ va, va < UTOP → leaf m d va ≠ userEntry p (PTE_U ||| PTE_W)) :
    UserSpace (m.store (cell m d va) (userEntry p (PTE_U ||| PTE_W))) d l := by
  have hpart : pdx va ∈ userPart := pdx_lt hva
  have hleaf := fun (va' : Word) (hva' : va' < UTOP) =>
    h.leaf_store (w := userEntry p (PTE_U ||| PTE_W)) hpart hpde (pdx_lt hva')
  have hkeep : ∀ q, Outside m d l q →
      Outside (m.store (cell m d va) (userEntry p (PTE_U ||| PTE_W))) d l q := fun q hq =>
    hq.congr (fun _ hr => hr) fun k _ => .inl (h.load_store_dir hpart hpde)
  refine ⟨h.toGrowing.store hpart hpde, fun va' hva' hne => ?_, fun x y hx hy hne heq => ?_⟩
  · rw [hleaf va' hva'] at hne ⊢
    by_cases hpage : va.toNat / 4096 = va'.toNat / 4096
    · rw [if_pos hpage]
      exact ⟨p, rfl, hkeep p hout⟩
    · rw [if_neg hpage] at hne ⊢
      obtain ⟨q, hq, hout'⟩ := h.pages va' hva' hne
      exact ⟨q, hq, hkeep q hout'⟩
  · rw [hleaf x hx] at hne heq
    rw [hleaf y hy] at heq
    by_cases hpx : va.toNat / 4096 = x.toNat / 4096
    · by_cases hpy : va.toNat / 4096 = y.toNat / 4096
      · exact hpx.symm.trans hpy
      · rw [if_pos hpx, if_neg hpy] at heq
        exact absurd heq (hfresh y hy)
    · rw [if_neg hpx] at hne heq
      by_cases hpy : va.toNat / 4096 = y.toNat / 4096
      · rw [if_pos hpy] at heq
        exact absurd heq.symm (hfresh x hx)
      · rw [if_neg hpy] at heq
        exact h.distinct x y hx hy hne heq

/-- `page_alloc` takes a frame that no page has. -/
theorem takePage (h : UserSpace m d (p :: rest)) :
    UserSpace (takePage m p) d rest ∧ Outside (JosSched.takePage m p) d rest p ∧
      ∀ q, Outside m d (p :: rest) q → Outside (JosSched.takePage m p) d rest q := by
  have hp : p ∈ p :: rest := List.mem_cons_self
  have hsub : ∀ r ∈ rest, r ∈ p :: rest := fun r hr => List.mem_cons_of_mem _ hr
  have htable : ∀ k ∈ userPart, (JosSched.takePage m p).load (d, k) = m.load (d, k) ∨
      ∃ t ∈ p :: rest, (JosSched.takePage m p).load (d, k) = tableEntry t := fun _ _ => .inl rfl
  exact ⟨h.congr h.toGrowing.takePage hsub htable fun _ _ => leaf_congr rfl fun _ => rfl,
    ⟨(List.nodup_cons.mp h.nodup).1, fun heq => h.dir (heq ▸ hp), fun k hk =>
      h.load_ne_tableEntry hp hk⟩, fun _ hq => hq.congr hsub htable⟩

theorem leaf_ne_of_free (h : UserSpace m d l) (hp : p ∈ l) (hva : va < UTOP) :
    leaf m d va ≠ userEntry p (PTE_U ||| PTE_W) := by
  intro heq
  obtain ⟨q, hq, hout⟩ := h.pages va hva (heq ▸ ne_zero_of_and (userEntry_present _ _))
  have hqp : q = p := by rw [← pgnum_loadedEntry q, ← hq, heq, pgnum_loadedEntry]
  exact hout.free (hqp ▸ hp)

/-- One page of `region_alloc`. -/
theorem mapPage (h : UserSpace m d l) (hlen : 2 ≤ l.length) (hva : va < UTOP)
    (hnone : userBytes m d va = none) :
    ∃ p m₁ m' l', pageAlloc m false = .ok (some p, m₁) ∧
      pageInsert m₁ d p va (PTE_U ||| PTE_W) = .ok (0, m') ∧ UserSpace m' d l' ∧
      l.length ≤ l'.length + 2 ∧
      Adds (userBytes m d) (userBytes m' d) {x | x < UTOP ∧ va.toNat / 4096 = x.toNat / 4096} := by
  obtain ⟨p, rest, rfl⟩ := List.exists_cons_of_length_pos (show 0 < l.length by omega)
  rw [List.length_cons] at hlen
  have hpart : pdx va ∈ userPart := pdx_lt hva
  obtain ⟨h₁, hout₁, hkeep₁⟩ := h.takePage
  -- `pgdir_walk`
  obtain ⟨m₂, l₂, hwalk, h₂, hlen₂, hsame, hpde, hkeep⟩ :=
    h₁.pgdirWalk_create (by omega) hva
  have hleaf₂ : ∀ va, va < UTOP → leaf m₂ d va = leaf m d va := fun va hva =>
    (hsame.leaf va (pdx_lt hva)).trans (leaf_congr rfl fun _ => rfl)
  have hfresh : ∀ va, va < UTOP → leaf m₂ d va ≠ userEntry p (PTE_U ||| PTE_W) := fun va hva => by
    rw [hleaf₂ va hva]
    exact h.leaf_ne_of_free List.mem_cons_self hva
  -- the count of the page goes up
  have h₃ : UserSpace (m₂.setRef p (m₂.ref p + 1)) d l₂ :=
    h₂.congr (h₂.toGrowing.congr (h₂.freeList.congr .setRef) rfl fun _ => rfl) (fun _ hr => hr)
      (fun _ _ => .inl rfl) fun va _ => leaf_congr rfl fun _ => rfl
  have hzero : leaf (m₂.setRef p (m₂.ref p + 1)) d va = 0 :=
    (hleaf₂ va hva).trans ((h.userBytes_eq_none hva).mp hnone)
  have h' := h₃.writeEntry hva hpde
    ((hkeep p hout₁).1.congr (fun _ hr => hr) fun _ _ => .inl rfl) hfresh
  refine ⟨p, JosSched.takePage m p, _, l₂, pageAlloc_plain h.freeList.exists_head, ?_, h',
    ?_, ?_, ?_⟩
  · unfold JosSched.pageInsert
    rw [hwalk]
    dsimp only [bind, Except.bind]
    rw [h₃.pageRemove_empty hpart hpde hzero]
    rfl
  · rw [List.length_cons]
    omega
  · rintro x ⟨hx, hpage⟩
    have hleaf := (h₃.leaf_store (w := userEntry p (PTE_U ||| PTE_W)) hpart hpde
      (pdx_lt hx)).trans (if_pos hpage)
    have hbytes := h'.userBytes_of_leaf hx hleaf
    exact Option.isSome_of_eq_some hbytes
  · intro x hx
    refine h.userBytes_congr h' (fun hbelow => ?_) fun q hq k => ?_
    · have hleaf := (h₃.leaf_store (w := userEntry p (PTE_U ||| PTE_W)) hpart hpde
        (pdx_lt hbelow)).trans (if_neg fun hpage => hx ⟨hbelow, hpage⟩)
      exact hleaf.trans (hleaf₂ x hbelow)
    · obtain ⟨hout, hload⟩ := hkeep q (hkeep₁ q hq)
      refine (Mem.load_store_ne fun heq => ?_).trans (hload k)
      obtain ⟨t, ht, -⟩ := h₂.tables _ hpart hpde
      have hqt : q = t := (Prod.mk.inj heq).1.trans (by
        show pgnum (m₂.load (d, pdx va)) = t
        rw [ht, pgnum_tableEntry])
      exact hout.table _ hpart (hqt ▸ ht)

/-! ## Regions -/

/-- `region_alloc` from `va` on, page by page. -/
theorem regionAllocFrom : ∀ (n : ℕ) (va : Word) {m : Mem} {l : List Ppn}, UserSpace m d l →
    va.toNat % 4096 = 0 → va.toNat + n * 4096 ≤ UTOP.toNat → 2 * n ≤ l.length →
    (∀ x ∈ between va.toNat (va.toNat + n * 4096), userBytes m d x = none) →
    ∃ m' l', regionAllocFrom m d n va = .ok m' ∧ UserSpace m' d l' ∧
      l.length ≤ l'.length + 2 * n ∧
      Adds (userBytes m d) (userBytes m' d) (between va.toNat (va.toNat + n * 4096))
  | 0, va, m, l, h, _, _, _, _ => by
      refine ⟨m, l, rfl, h, Nat.le_add_right _ _, ?_⟩
      rw [Nat.zero_mul, Nat.add_zero, between_self]
      exact .refl
  | n + 1, va, m, l, h, haligned, hbelow, hlen, hnone => by
      rw [toNat_utop] at hbelow
      have hva : va < UTOP := by
        show va.toNat < UTOP.toNat
        rw [toNat_utop]
        omega
      -- the first page takes at most two free frames, itself and its table
      obtain ⟨p, m₁, m₂, l₂, halloc, hins, h₂, hlen₂, hadds⟩ :=
        h.mapPage (by omega) hva (hnone va ⟨le_rfl, by omega⟩)
      -- the addresses of one page are an interval
      have hpage : {x | x < UTOP ∧ va.toNat / 4096 = x.toNat / 4096} =
          between va.toNat (va.toNat + 4096) := by
        ext x
        have hx : x < UTOP ↔ x.toNat < 4005560320 := Iff.rfl
        constructor
        · rintro ⟨-, heq⟩
          exact ⟨by omega, by omega⟩
        · rintro ⟨hlo, hhi⟩
          exact ⟨hx.mpr (by omega), by omega⟩
      rw [hpage] at hadds
      have hnext : (va + PGSIZE).toNat = va.toNat + 4096 := by
        rw [BitVec.toNat_add, show PGSIZE.toNat = 4096 from rfl]
        omega
      -- the page that was added lies below the rest
      obtain ⟨m', l', hrest, h', hlen', hadds'⟩ := regionAllocFrom n (va + PGSIZE) h₂
        (by omega) (by rw [hnext, toNat_utop]; omega) (by omega) fun x hx => by
          rw [hnext] at hx
          obtain ⟨hlo, hhi⟩ := hx
          rw [hadds.kept x fun hin => absurd hin.2 (not_lt.mpr hlo)]
          exact hnone x ⟨by omega, by omega⟩
      refine ⟨m', l', ?_, h', by omega, ?_⟩
      · unfold JosSched.regionAllocFrom
        rw [halloc]
        dsimp only [bind, Except.bind]
        rw [hins]
        dsimp only
        rw [if_neg (not_not.mpr rfl)]
        exact hrest
      · have hunion := hadds.trans hadds'
        rw [hnext, between_union (by omega) (by omega)] at hunion
        have hend : va.toNat + 4096 + n * 4096 = va.toNat + (n + 1) * 4096 := by omega
        rwa [hend] at hunion

theorem regionAlloc (va len : Word) (h : UserSpace m d l)
    (hbelow : va.toNat + len.toNat ≤ UTOP.toNat)
    (hlen : 2 * pagesTouched va len ≤ l.length)
    (hnone : ∀ x ∈ touched va len, userBytes m d x = none) :
    ∃ m' l', regionAlloc m d va len = .ok m' ∧ UserSpace m' d l' ∧
      l.length ≤ l'.length + 2 * pagesTouched va len ∧
      Adds (userBytes m d) (userBytes m' d) (touched va len) := by
  have hlo := toNat_rounddown va
  have hhi := toNat_roundup_below hbelow
  rw [toNat_utop] at hbelow
  have hend : (rounddown va).toNat + pagesTouched va len * 4096 = (roundup (va + len)).toNat := by
    rw [pagesTouched]
    omega
  have htop : ¬ UTOP < roundup (va + len) := by
    show ¬ UTOP.toNat < (roundup (va + len)).toNat
    rw [toNat_utop]
    omega
  rw [touched, ← hend] at hnone ⊢
  have hfits : (rounddown va).toNat + pagesTouched va len * 4096 ≤ UTOP.toNat := by
    rw [hend, toNat_utop]
    omega
  unfold JosSched.regionAlloc
  dsimp only
  rw [if_neg htop]
  exact UserSpace.regionAllocFrom _ _ h (by omega) hfits hlen hnone

/-! ## The program -/

/-- One segment: its pages are mapped and cleared, and the file is copied. -/
theorem loadSegment {ph : Segment} (h : UserSpace m d l)
    (hlen : 2 * pagesTouched ph.va ph.memsz ≤ l.length)
    (hnone : ∀ x ∈ ph.piece.extent, userBytes m d x = none) :
    ∃ m' l', loadSegment d m ph = .ok m' ∧ UserSpace m' d l' ∧
      l.length ≤ l'.length + 2 * pagesTouched ph.va ph.memsz ∧
      Loads (userBytes m d) (userBytes m' d) [ph.piece] := by
  have hfits := ph.fits
  have hbelow := ph.below
  have htop := toNat_utop
  obtain ⟨m₁, l₁, halloc, h₁, hlen₁, hadds⟩ := UserSpace.regionAlloc _ _ h hbelow hlen hnone
  have hzeros : (List.replicate ph.memsz.toNat (0 : BitVec 8)).length = ph.memsz.toNat :=
    List.length_replicate ..
  have hmapped : ∀ x : Word, ph.va.toNat ≤ x.toNat → x.toNat < ph.va.toNat + ph.memsz.toNat →
      x ∈ touched ph.va ph.memsz := fun x hlo hhi => by
    have hround := toNat_rounddown ph.va
    have hup := toNat_roundup_below hbelow
    exact ⟨by omega, by omega⟩
  obtain ⟨m₂, hzero, h₂, hbytes₂⟩ := UserSpace.kernStore
    (List.replicate ph.memsz.toNat 0) ph.va h₁ (by omega) fun x hlo hhi =>
      hadds.mapped x (hmapped x hlo (by omega))
  -- the zeros are mapped too
  have hadds₂ : Adds (userBytes m d) (userBytes m₂ d) (touched ph.va ph.memsz) := by
    rw [hbytes₂]
    refine hadds.overwrite fun x hx => ?_
    rw [hzeros] at hx
    have hcover := mem_touched hbelow hx
    rwa [BitVec.ofNat_toNat, BitVec.setWidth_eq, add_sub_cancel] at hcover
  obtain ⟨m', hcopy, h', hbytes⟩ := UserSpace.kernStore ph.bytes ph.va h₂ (by omega)
    fun x hlo hhi => hadds₂.mapped x (hmapped x hlo (by omega))
  refine ⟨m', l₁, ?_, h', hlen₁, ?_⟩
  · unfold JosSched.loadSegment
    rw [halloc]
    dsimp only [bind, Except.bind]
    rw [hzero]
    exact hcopy
  · rw [hbytes, hbytes₂, overwrite_overwrite, List.drop_replicate]
    refine Adds.loads (p := ph.piece) hadds ?_
    show (ph.bytes ++ List.replicate (ph.memsz.toNat - ph.bytes.length) 0).length ≤ 2 ^ 32
    rw [List.length_append, List.length_replicate]
    omega

/-- The segments, one after the other. -/
theorem loadSegments : ∀ {segments : List Segment} {m : Mem} {l : List Ppn}, UserSpace m d l →
    2 * (segments.map fun ph => pagesTouched ph.va ph.memsz).sum ≤ l.length →
    (segments.map Segment.piece).Pairwise Piece.Apart →
    (∀ ph ∈ segments, ∀ x ∈ ph.piece.extent, userBytes m d x = none) →
    ∃ m' l', segments.foldlM (JosSched.loadSegment d) m = .ok m' ∧ UserSpace m' d l' ∧
      l.length ≤ l'.length + 2 * (segments.map fun ph => pagesTouched ph.va ph.memsz).sum ∧
      Loads (userBytes m d) (userBytes m' d) (segments.map Segment.piece)
  | [], m, l, h, _, _, _ => ⟨m, l, rfl, h, Nat.le_add_right _ _, .nil⟩
  | ph :: segments, m, l, h, hlen, hapart, hnone => by
      rw [List.map_cons, List.sum_cons] at hlen
      rw [List.map_cons, List.pairwise_cons] at hapart
      obtain ⟨hhead, hapart⟩ := hapart
      obtain ⟨m₁, l₁, hload, h₁, hlen₁, hloads⟩ :=
        h.loadSegment (by omega) (hnone ph List.mem_cons_self)
      have hnone₁ : ∀ ph' ∈ segments, ∀ x ∈ ph'.piece.extent, userBytes m₁ d x = none :=
        fun ph' hph' x hx => by
          have hdisjoint := hhead _ (List.mem_map_of_mem hph')
          rw [hloads.kept x fun ⟨q, hq, hin⟩ => by
            obtain rfl := List.mem_singleton.mp hq
            exact hdisjoint x hin hx]
          exact hnone ph' (List.mem_cons_of_mem _ hph') x hx
      obtain ⟨m', l', hrest, h', hlen', hloads'⟩ := loadSegments h₁ (by omega) hapart hnone₁
      refine ⟨m', l', ?_, h', ?_, ?_⟩
      · rw [List.foldlM_cons, hload]
        exact hrest
      · rw [List.map_cons, List.sum_cons]
        omega
      · refine hloads.append hloads' fun p hp q hq => ?_
        obtain rfl := List.mem_singleton.mp hp
        exact hhead q hq

/-- `load_icode` makes the memory of the program that of the image. -/
theorem loadIcode {binary : Image} (h : UserSpace m d l) (hlen : 2 * binary.pages ≤ l.length)
    (hapart : binary.Apart) (hnone : ∀ x, userBytes m d x = none) :
    ∃ m' l', loadIcode m d binary = .ok m' ∧ UserSpace m' d l' ∧
      Loads (userBytes m d) (userBytes m' d) binary.pieces := by
  obtain ⟨hsegments, -, hstack⟩ := List.pairwise_append.mp hapart
  rw [Image.pages] at hlen
  obtain ⟨m₁, l₁, hload, h₁, hlen₁, hloads⟩ :=
    h.loadSegments (by omega) hsegments fun _ _ x _ => hnone x
  have hone : pagesTouched (USTACKTOP - PGSIZE) PGSIZE = 1 := by decide
  obtain ⟨m', l', halloc, h', -, hadds⟩ := UserSpace.regionAlloc (USTACKTOP - PGSIZE) PGSIZE h₁
    (by decide) (by omega) fun x hx => by
      rw [hloads.kept x fun ⟨p, hp, hin⟩ => hstack p hp stackPiece
        (List.mem_singleton_self _) x hin hx]
      exact hnone x
  refine ⟨m', l', ?_, h', hloads.append (hadds.loads (p := stackPiece) (Nat.zero_le _)) hstack⟩
  unfold JosSched.loadIcode
  rw [hload]
  exact halloc

end UserSpace

end JosSched
