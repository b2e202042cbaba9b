import JosSched.Kern.Syscall
import JosSched.Kern.Replay
import JosSched.Lib.Bytes

/-!
# Formatted output

`vprintfmt` of `lib/printfmt.c`, with all its flags and conversions, and what `sys_cputs` makes of
it.  A conversion writes to the console through `putch`; `%s` also reads memory, through a pointer
it takes from the argument list.  `Printed` collects both: the addresses `%s` reads and the bytes
that go to the console, in the order in which they are read and printed.

The loop of `%s` reads a character before it looks at the precision.  So it reads one byte more than
it prints (`strLoop_spec`), and `sys_cputs` either leaves its buffer or prints less than all of it.
-/

namespace JosSched

/-- Memory as the kernel reads it; a page that is not mapped faults. -/
abbrev Reader := Word → Option (BitVec 8)

/-- The byte at `va`, for the kernel on a CPU that has loaded `pgdir`. -/
def loadByte (m : Mem) (pgdir : Ppn) : Reader := fun va =>
  (mmu m pgdir va).map fun (pp, _) => Bytes.byteOf (m.load (pp, wordIdx va)) (va % 4).toNat

/-- Where the linker has put the strings of `printfmt.c`. -/
structure Rodata where
  /-- `"(null)"` -/
  null : Word
  /-- `error_string`, with a null pointer where it has no entry. -/
  errorString : ℕ → Word

def MAXERROR : ℕ := 9

structure Printed where
  reads : List Word := []
  out : List (BitVec 8) := []
  deriving Repr

def Printed.putch (p : Printed) (ch : BitVec 8) : Printed := { p with out := p.out ++ [ch] }

def Printed.read (p : Printed) (va : Word) : Printed := { p with reads := p.reads ++ [va] }

/-- `putch(padc)` as long as `width > 0`. -/
def Printed.pad (p : Printed) (padc : BitVec 8) (width : ℤ) : Printed :=
  { p with out := p.out ++ List.replicate width.toNat padc }

def byte (ch : Char) : BitVec 8 := BitVec.ofNat 8 ch.toNat

/-! ## Numbers -/

def digit (n : ℕ) : BitVec 8 := byte ("0123456789abcdef".toList.getD n '0')

/-- `printnum`: the digits of `num`, after the padding that is left at the first of them. -/
def printnum (num base : ℕ) (width : ℤ) (padc : BitVec 8) : List (BitVec 8) :=
  if base ≤ num ∧ 1 < base then
    printnum (num / base) base (width - 1) padc ++ [digit (num % base)]
  else List.replicate (width - 1).toNat padc ++ [digit (num % base)]
termination_by num
decreasing_by
  next h => exact Nat.div_lt_self (by omega) h.2

/-- `va_arg` of a word. -/
def vaArg : List Word → Option (Word × List Word)
  | [] => none
  | a :: ap => some (a, ap)

/-- `getuint`. -/
def getuint (ap : List Word) (lflag : ℕ) : Option (BitVec 64 × List Word) := do
  let (low, ap) ← vaArg ap
  if 2 ≤ lflag then
    let (high, ap) ← vaArg ap
    return (high ++ low, ap)
  else return (low.zeroExtend 64, ap)

/-- `getint`. -/
def getint (ap : List Word) (lflag : ℕ) : Option (BitVec 64 × List Word) := do
  let (low, ap) ← vaArg ap
  if 2 ≤ lflag then
    let (high, ap) ← vaArg ap
    return (high ++ low, ap)
  else return (low.signExtend 64, ap)

/-! ## Strings -/

/-- The flags of a conversion. -/
structure Spec where
  padc : Char := ' '
  width : ℤ := -1
  precision : ℤ := -1
  lflag : ℕ := 0
  altflag : Bool := false

/-- `process_precision`: the first number is the width. -/
def Spec.processPrecision (sp : Spec) (n : ℤ) : Spec :=
  if sp.width < 0 then { sp with width := n, precision := -1 } else { sp with precision := n }

section

variable (ro : Rodata) (rd : Reader)

/-- `strnlen`, where a negative size is a huge one. -/
def strnlen : ℕ → Word → ℤ → Printed → Option (ℤ × Printed)
  | 0, _, _, _ => none
  | fuel + 1, s, size, p =>
      if size = 0 then some (0, p)
      else do
        let ch ← rd s
        let p := p.read s
        if ch = 0 then return (0, p)
        let (n, p) ← strnlen fuel (s + 1) (size - 1) p
        return (n + 1, p)

/-- The loop of `%s`: what is left of the width. -/
def strLoop (altflag : Bool) : ℕ → Word → ℤ → ℤ → Printed → Option (ℤ × Printed)
  | 0, _, _, _, _ => none
  | fuel + 1, s, width, precision, p => do
      let ch ← rd s
      let p := p.read s
      if ch = 0 then return (width, p)
      let shown := if altflag ∧ (ch < byte ' ' ∨ byte '~' < ch) then byte '?' else ch
      if precision < 0 then strLoop altflag fuel (s + 1) (width - 1) precision (p.putch shown)
      else if 0 ≤ precision - 1 then
        strLoop altflag fuel (s + 1) (width - 1) (precision - 1) (p.putch shown)
      else return (width, p)

/-- `%s` -/
def printStr (fuel : ℕ) (sp : Spec) (s : Word) (p : Printed) : Option Printed := do
  let s := if s = 0 then ro.null else s
  let (width, p) ← if 0 < sp.width ∧ sp.padc ≠ '-' then do
      let (n, p) ← strnlen rd fuel s sp.precision p
      pure (min (sp.width - n) 0, p.pad (byte sp.padc) (sp.width - n))
    else pure (sp.width, p)
  let (width, p) ← strLoop rd sp.altflag fuel s width sp.precision p
  return p.pad (byte ' ') width

/-! ## Formats -/

/-- In the text, or in an escape sequence whose text starts at `start`. -/
inductive Mode where
  | text
  | escape (start : List Char) (sp : Spec)

def isDigit (ch : Char) : Bool := '0' ≤ ch ∧ ch ≤ '9'

/-- The number at the start of the list. -/
def decimal (digits : List Char) : ℤ :=
  digits.foldl (fun n ch => n * 10 + (ch.toNat - '0'.toNat : ℤ)) 0

/-- `vprintfmt`.  `fuel` bounds the steps. -/
def vprintfmt : ℕ → Mode → List Char → List Word → Printed → Option Printed
  | 0, _, _, _, _ => none
  | _ + 1, .text, [], _, p => some p
  | fuel + 1, .text, ch :: fmt, ap, p =>
      if ch = '%' then vprintfmt fuel (.escape fmt {}) fmt ap p
      else vprintfmt fuel .text fmt ap (p.putch (byte ch))
  -- the end of the format is not a conversion either
  | fuel + 1, .escape start _, [], ap, p => vprintfmt fuel .text start ap (p.putch (byte '%'))
  | fuel + 1, .escape start sp, ch :: fmt, ap, p =>
      let reswitch sp ap := vprintfmt fuel (.escape start sp) fmt ap p
      let number num base ap p :=
        vprintfmt fuel .text fmt ap
          { p with out := p.out ++ printnum num base sp.width (byte sp.padc) }
      match ch with
      | '-' => reswitch { sp with padc := '-' } ap
      | '0' => reswitch { sp with padc := '0' } ap
      | '*' => do
          let (a, ap) ← vaArg ap
          reswitch (sp.processPrecision a.toInt) ap
      | '.' => reswitch { sp with width := max sp.width 0 } ap
      | '#' => reswitch { sp with altflag := true } ap
      | 'l' => reswitch { sp with lflag := sp.lflag + 1 } ap
      | 'c' => do
          let (a, ap) ← vaArg ap
          vprintfmt fuel .text fmt ap (p.putch (a.setWidth 8))
      | 'e' => do
          let (a, ap) ← vaArg ap
          let err := a.toInt.natAbs
          let p ← if MAXERROR ≤ err ∨ ro.errorString err = 0 then
              vprintfmt fuel .text "error %d".toList [BitVec.ofNat 32 err] p
            else vprintfmt fuel .text "%s".toList [ro.errorString err] p
          vprintfmt fuel .text fmt ap p
      | 's' => do
          let (a, ap) ← vaArg ap
          let p ← printStr ro rd fuel sp a p
          vprintfmt fuel .text fmt ap p
      | 'd' => do
          let (num, ap) ← getint ap sp.lflag
          let p := if num.toInt < 0 then p.putch (byte '-') else p
          number num.toInt.natAbs 10 ap p
      | 'u' => do
          let (num, ap) ← getuint ap sp.lflag
          number num.toNat 10 ap p
      | 'o' => do
          let (num, ap) ← getuint ap sp.lflag
          number num.toNat 8 ap p
      | 'p' => do
          let (a, ap) ← vaArg ap
          number a.toNat 16 ap ((p.putch (byte '0')).putch (byte 'x'))
      | 'x' => do
          let (num, ap) ← getuint ap sp.lflag
          number num.toNat 16 ap p
      | '%' => vprintfmt fuel .text fmt ap (p.putch (byte ch))
      | _ =>
          -- `'1'` to `'9'`: a number, with all the digits that follow
          if isDigit ch then
            vprintfmt fuel
              (.escape start (sp.processPrecision (decimal (ch :: fmt.takeWhile isDigit))))
              (fmt.dropWhile isDigit) ap p
          else vprintfmt fuel .text start ap (p.putch (byte '%'))

/-- `cprintf` -/
def cprintf (fuel : ℕ) (fmt : String) (ap : List Word) : Option Printed :=
  vprintfmt ro rd fuel .text fmt.toList ap {}

end

/-! ## The loop of `%s` -/

variable {ro : Rodata} {rd : Reader} {p p' : Printed} {s len : Word} {fuel : ℕ}

/-- The first `n` addresses from `s` on. -/
def addresses (s : Word) (n : ℕ) : List Word := (List.range n).map fun i => s + BitVec.ofNat 32 i

theorem addresses_succ (s : Word) (n : ℕ) : addresses s (n + 1) = s :: addresses (s + 1) n := by
  unfold addresses
  rw [List.range_succ_eq_map, List.map_cons, List.map_map]
  congr 1
  · exact BitVec.add_zero s
  · refine List.map_congr_left fun i _ => ?_
    show s + BitVec.ofNat 32 (i + 1) = s + 1 + BitVec.ofNat 32 i
    rw [BitVec.ofNat_add]
    bv_omega

/-- However it ends, the loop has read one byte more than it has printed. -/
theorem strLoop_spec {altflag : Bool} {width precision w : ℤ}
    (h : strLoop rd altflag fuel s width precision p = some (w, p')) :
    ∃ n : ℕ, w = width - n ∧ p'.reads = p.reads ++ addresses s (n + 1) ∧
      p'.out.length = p.out.length + n := by
  induction fuel generalizing s width precision p with
  | zero => cases h
  | succ fuel ih =>
      rw [strLoop] at h
      obtain ⟨ch, -, h⟩ := Option.bind_eq_some_iff.mp h
      have hstop : ∀ {q : Printed}, some (width, p.read s) = some (w, q) →
          ∃ n : ℕ, w = width - n ∧ q.reads = p.reads ++ addresses s (n + 1) ∧
            q.out.length = p.out.length + n := by
        intro q hq
        obtain ⟨rfl, rfl⟩ := Prod.mk.inj (Option.some.inj hq)
        exact ⟨0, by simp, by simp [Printed.read, addresses], by simp [Printed.read]⟩
      have hgo : ∀ {precision shown}, strLoop rd altflag fuel (s + 1) (width - 1) precision
          ((p.read s).putch shown) = some (w, p') →
          ∃ n : ℕ, w = width - n ∧ p'.reads = p.reads ++ addresses s (n + 1) ∧
            p'.out.length = p.out.length + n := by
        intro precision shown hrest
        obtain ⟨n, hw, hreads, hout⟩ := ih hrest
        refine ⟨n + 1, by omega, ?_, ?_⟩
        · rw [hreads, addresses_succ s (n + 1)]
          simp [Printed.read, Printed.putch]
        · rw [hout]
          simp [Printed.read, Printed.putch]
          omega
      dsimp only at h
      split at h
      · exact hstop h
      · split at h
        · exact hgo h
        · split at h
          · exact hgo h
          · exact hstop h

/-- The format of `sys_cputs` comes down to that loop. -/
theorem cprintf_str (h : cprintf ro rd fuel "%.*s" [len, s] = some p) :
    ∃ fuel' w p', strLoop rd false fuel' (if s = 0 then ro.null else s) 0 len.toInt {} =
      some (w, p') ∧ p = p'.pad (byte ' ') w := by
  have hstep : ∀ {fuel mode ch fmt ap q}, vprintfmt ro rd fuel mode (ch :: fmt) ap q = some p →
      ∃ fuel', fuel = fuel' + 1 := by
    intro fuel mode ch fmt ap q h
    cases fuel with
    | zero => cases mode <;> cases h
    | succ fuel' => exact ⟨fuel', rfl⟩
  have hfmt : "%.*s".toList = ['%', '.', '*', 's'] := rfl
  rw [cprintf, hfmt] at h
  -- one step for each character of the format
  obtain ⟨fuel₁, rfl⟩ := hstep h
  rw [vprintfmt, if_pos rfl] at h
  obtain ⟨fuel₂, rfl⟩ := hstep h
  rw [vprintfmt] at h
  dsimp only at h
  obtain ⟨fuel₃, rfl⟩ := hstep h
  rw [vprintfmt] at h
  dsimp only [vaArg, Option.bind_eq_bind, Option.bind_some] at h
  obtain ⟨fuel₄, rfl⟩ := hstep h
  rw [vprintfmt] at h
  dsimp only [vaArg, Option.bind_eq_bind, Option.bind_some] at h
  obtain ⟨p₁, hstr, h⟩ := Option.bind_eq_some_iff.mp h
  have hend : p₁ = p := by
    cases fuel₄ with
    | zero => cases h
    | succ fuel => exact Option.some.inj h
  have hspec : ({ width := max (-1) 0 } : Spec).processPrecision len.toInt =
      { width := 0, precision := len.toInt } := rfl
  rw [hspec, printStr] at hstr
  dsimp only at hstr
  rw [if_neg fun hand => lt_irrefl _ hand.1] at hstr
  obtain ⟨⟨w₀, p₀⟩, hstart, hstr⟩ := Option.bind_eq_some_iff.mp hstr
  obtain ⟨rfl, rfl⟩ := Prod.mk.inj (Option.some.inj hstart)
  obtain ⟨⟨w, p'⟩, hloop, hstr⟩ := Option.bind_eq_some_iff.mp hstr
  exact ⟨fuel₄, w, p', hloop, hend.symm.trans (Option.some.inj hstr).symm⟩

/-! ## `sys_cputs` -/

/-- `sys_cputs` reads nothing but its buffer, and prints all of it. -/
def CputsExact (ro : Rodata) (rd : Reader) (s len : Word) : Prop :=
  ∃ fuel p, cprintf ro rd fuel "%.*s" [len, s] = some p ∧
    (∀ va ∈ p.reads, va ∈ Bytes.range s len.toNat) ∧
    p.out.map some = (addresses s len.toNat).map rd

/-- The addresses read are one more than the bytes printed, and all different. -/
theorem not_subset_range {ptr s : Word} {n : ℕ} (hn : n < 2 ^ 32) :
    ¬ ∀ va ∈ addresses ptr (n + 1), va ∈ Bytes.range s n := by
  intro hall
  have hat : ∀ i ≤ n, ((ptr - s).toNat + i) % 2 ^ 32 < n := by
    intro i hi
    have hmem : (ptr + BitVec.ofNat 32 i - s).toNat < n :=
      hall _ (List.mem_map.mpr ⟨i, List.mem_range.mpr (by omega), rfl⟩)
    have hcomm : ptr + BitVec.ofNat 32 i - s = ptr - s + BitVec.ofNat 32 i := by bv_omega
    rwa [hcomm, BitVec.toNat_add, BitVec.toNat_ofNat, Nat.add_mod_mod] at hmem
  have hfirst := hat 0 (Nat.zero_le n)
  rw [Nat.add_zero, Nat.mod_eq_of_lt (ptr - s).isLt] at hfirst
  -- the one that is `n` bytes after `s` is among them
  have hlast := hat (n - (ptr - s).toNat) (Nat.sub_le _ _)
  rw [Nat.add_sub_cancel' hfirst.le, Nat.mod_eq_of_lt hn] at hlast
  exact lt_irrefl n hlast

/-- `sys_cputs` never does what it is meant to, whatever the buffer and its contents. -/
theorem cputs_never_exact (ro : Rodata) (rd : Reader) (s len : Word) :
    ¬ CputsExact ro rd s len := by
  rintro ⟨fuel, p, hprint, hreads, hout⟩
  obtain ⟨fuel', w, p', hloop, rfl⟩ := cprintf_str hprint
  obtain ⟨n, rfl, hreads', hlen⟩ := strLoop_spec hloop
  have hpad : (p'.pad (byte ' ') (0 - n)).out = p'.out := by simp [Printed.pad]
  have hn : n = len.toNat := by
    have hlength := congrArg List.length hout
    rw [hpad, List.length_map, hlen] at hlength
    simpa [addresses] using hlength
  subst hn
  have hall : ∀ va ∈ addresses (if s = 0 then ro.null else s) (len.toNat + 1),
      va ∈ Bytes.range s len.toNat := fun va hva => hreads va (hreads'.symm ▸ hva)
  exact not_subset_range len.isLt hall

/-- The last byte of a page: with nothing mapped behind it the kernel faults. -/
theorem not_cputsExact_of_fault {ch : BitVec 8} (hs : s ≠ 0) (hbyte : rd s = some ch) (hch : ch ≠ 0)
    (hnext : rd (s + 1) = none) : ¬ CputsExact ro rd s 1 := by
  rintro ⟨fuel, p, hprint, -, -⟩
  obtain ⟨fuel', w, p', hloop, -⟩ := cprintf_str hprint
  rw [if_neg hs] at hloop
  cases fuel' with
  | zero => cases hloop
  | succ fuel' =>
      rw [strLoop, hbyte] at hloop
      dsimp only [Option.bind_eq_bind, Option.bind_some] at hloop
      rw [if_neg hch, if_neg (by decide), if_pos (by decide)] at hloop
      cases fuel' with
      | zero => cases hloop
      | succ fuel'' =>
          rw [strLoop, hnext] at hloop
          cases hloop

/-- A process stores an `'A'` in the last byte of its stack. -/
def lastByteStored : List Event := [.boot emptyImage, .start 0, .store 0 0xeebfdfff 0x41]

/-- `sys_cputs` accepts the buffer of that one byte, and the byte after it is not mapped. -/
theorem cputs_faults : ∃ s pgdir, Trace Step (bootedMachine .roundRobin 64) lastByteStored s ∧
    (s.curenv 0).bind (fun e => (s.envs e).envPgdir) = some pgdir ∧
    userMemCheck s.mem pgdir 0xeebfdfff 1 (PTE_P ||| PTE_W ||| PTE_U) = .ok 0 ∧
    ∀ ro, ¬ CputsExact ro (loadByte s.mem pgdir) 0xeebfdfff 1 := by
  have heval : (replay (fun _ _ => True) (bootedMachine .roundRobin 64) lastByteStored).any
      (fun s => decide ((s.curenv 0).bind (fun e => (s.envs e).envPgdir) = some 8 ∧
        userMemCheck s.mem 8 0xeebfdfff 1 (PTE_P ||| PTE_W ||| PTE_U) = .ok 0 ∧
        loadByte s.mem 8 0xeebfdfff = some 0x41 ∧ loadByte s.mem 8 0xeebfe000 = none)) = true := by
    decide +kernel
  obtain ⟨s, hrun, hs⟩ := exists_trace _ _ _ _ heval
  obtain ⟨hpgdir, haccept, hbyte, hnext⟩ := decide_eq_true_iff.mp hs
  have hrun' : Trace Step _ _ s := hrun.mono fun _ _ _ h => h.1
  exact ⟨s, 8, hrun', hpgdir, haccept, fun ro =>
    not_cputsExact_of_fault (by decide) hbyte (by decide) hnext⟩

end JosSched
