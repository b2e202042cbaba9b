import JosSched.Lib.Queue
import JosSched.Lib.Trace
import Mathlib.Data.List.Infix

/-!
# Console input

`cons_intr` puts what a device has to offer into a ring of `CONSBUFSIZE` characters, and
`cons_getc` takes the next one out.  Equal positions are read as an empty ring, and the positions
of a full one are equal too: a `cons_getc` that reads with `CONSBUFSIZE` characters unread returns
`0`, and the ring is empty from then on (`faithful_iff`).

A device is the list of what its `proc` returns before the `-1`.  The key maps of `kbd_proc_data`
and the ports are not modelled.
-/

namespace JosSched

abbrev CONSBUFSIZE : ℕ := 512

instance : NeZero CONSBUFSIZE := ⟨by decide⟩

/-- `cons`, the console input buffer. -/
structure Cons where
  buf : Fin CONSBUFSIZE → BitVec 8
  rpos : Fin CONSBUFSIZE
  wpos : Fin CONSBUFSIZE

/-- The static data of the console. -/
structure Console where
  cons : Cons
  serialExists : Bool

/-- `cons_intr`, with a device that has `input` to offer. -/
def consIntr (cons : Cons) : List (BitVec 8) → Cons
  | [] => cons
  | c :: input =>
      if c = 0 then consIntr cons input
      else
        consIntr
          { cons with
            buf := Function.update cons.buf cons.wpos c
            wpos := nextCell cons.wpos } input

/-- `serial_intr`. -/
def serialIntr (con : Console) (serial : List (BitVec 8)) : Console :=
  if con.serialExists then { con with cons := consIntr con.cons serial } else con

/-- `kbd_intr`. -/
def kbdIntr (con : Console) (kbd : List (BitVec 8)) : Console :=
  { con with cons := consIntr con.cons kbd }

/-- `cons_getc`, with what the two devices have to offer when it polls them. -/
def consGetc (con : Console) (serial kbd : List (BitVec 8)) : BitVec 8 × Console :=
  let con := kbdIntr (serialIntr con serial) kbd
  if con.cons.rpos ≠ con.cons.wpos then
    (con.cons.buf con.cons.rpos,
      { con with cons := { con.cons with rpos := nextCell con.cons.rpos } })
  else (0, con)

/-- What happens to the console input. -/
inductive ConsEvent
  | serialIntr (serial : List (BitVec 8))
  | kbdIntr (kbd : List (BitVec 8))
  | consGetc (serial kbd : List (BitVec 8))

/-- The console, with the characters delivered to it and those `cons_getc` has returned, without
the zeros. -/
structure ConsLog where
  console : Console
  delivered : List (BitVec 8)
  read : List (BitVec 8)

/-- The characters in what devices offer. -/
def chars (input : List (BitVec 8)) : List (BitVec 8) := input.filter (· ≠ 0)

namespace ConsLog

/-- The console after `cons_init`, with nothing in the buffer. -/
def start (serialExists : Bool) : ConsLog :=
  ⟨⟨⟨fun _ => 0, 0, 0⟩, serialExists⟩, [], []⟩

/-- The characters that an event delivers, `cons_getc` by polling. -/
def arriving (L : ConsLog) : ConsEvent → List (BitVec 8)
  | .serialIntr serial => if L.console.serialExists then chars serial else []
  | .kbdIntr kbd => chars kbd
  | .consGetc serial kbd => (if L.console.serialExists then chars serial else []) ++ chars kbd

/-- What an event returns to its caller: only `cons_getc` returns something. -/
def returned (L : ConsLog) : ConsEvent → List (BitVec 8)
  | .serialIntr _ => []
  | .kbdIntr _ => []
  | .consGetc serial kbd => [(consGetc L.console serial kbd).1]

/-- The console after an event. -/
def after (L : ConsLog) : ConsEvent → Console
  | .serialIntr serial => serialIntr L.console serial
  | .kbdIntr kbd => kbdIntr L.console kbd
  | .consGetc serial kbd => (consGetc L.console serial kbd).2

def next (L : ConsLog) (e : ConsEvent) : ConsLog :=
  { console := L.after e
    delivered := L.delivered ++ L.arriving e
    read := L.read ++ chars (L.returned e) }

/-- No more than `CONSBUFSIZE` characters are unread, not even before `cons_getc` has read. -/
def Fits (L : ConsLog) (e : ConsEvent) : Prop :=
  (L.next e).delivered.length ≤ L.read.length + CONSBUFSIZE

/-- The characters returned are the first of those delivered, and `0` says that there are no
more. -/
def Faithful (L : ConsLog) (e : ConsEvent) : Prop :=
  (L.next e).read <+: (L.next e).delivered ∧
    (0 ∈ L.returned e → (L.next e).read = (L.next e).delivered)

/-- A `cons_getc` that has polled the devices does not find `CONSBUFSIZE` characters unread. -/
inductive NotFull (L : ConsLog) : ConsEvent → Prop
  | serialIntr (serial : List (BitVec 8)) : NotFull L (.serialIntr serial)
  | kbdIntr (kbd : List (BitVec 8)) : NotFull L (.kbdIntr kbd)
  | consGetc {serial kbd : List (BitVec 8)} :
      (L.delivered ++ L.arriving (.consGetc serial kbd)).length ≠ L.read.length + CONSBUFSIZE →
        NotFull L (.consGetc serial kbd)

end ConsLog

/-! ## The ring as a queue -/

/-- The unread characters, as the ring holds them. -/
abbrev Cons.Holds (cons : Cons) (q : List (BitVec 8)) : Prop :=
  Queued cons.buf cons.rpos cons.wpos q

theorem ne_zero_of_mem_chars {input : List (BitVec 8)} {c : BitVec 8} (hc : c ∈ chars input) :
    c ≠ 0 := by
  have hkept := (List.mem_filter.mp hc).2
  simpa using hkept

/-- What a device offers goes to the end of the queue, as long as there is room. -/
theorem Cons.Holds.consIntr {cons : Cons} {q : List (BitVec 8)} (h : cons.Holds q)
    {input : List (BitVec 8)} (hroom : q.length + (chars input).length ≤ CONSBUFSIZE) :
    (consIntr cons input).Holds (q ++ chars input) := by
  induction input generalizing cons q with
  | nil => simpa [JosSched.consIntr, chars] using h
  | cons c input ih =>
      unfold JosSched.consIntr
      split
      · next hzero =>
          have hchars : chars (c :: input) = chars input :=
            List.filter_cons_of_neg (by simp [hzero])
          rw [hchars] at hroom ⊢
          exact ih h hroom
      · next hchar =>
          have hchars : chars (c :: input) = c :: chars input :=
            List.filter_cons_of_pos (decide_eq_true hchar)
          rw [hchars, List.length_cons] at hroom
          rw [hchars, List.append_cons]
          apply ih (h.push (by omega) c)
          rw [List.length_append, List.length_singleton]
          omega

theorem holds_serialIntr {con : Console} {q serial : List (BitVec 8)} (h : con.cons.Holds q)
    (hroom : q.length + (if con.serialExists then chars serial else []).length ≤ CONSBUFSIZE) :
    (serialIntr con serial).cons.Holds (q ++ if con.serialExists then chars serial else []) := by
  unfold serialIntr
  cases hexists : con.serialExists with
  | false => simpa [hexists] using h
  | true =>
      simp only [hexists, if_true] at hroom ⊢
      exact h.consIntr hroom

/-- `cons_getc` when the positions differ after polling: there is a first character. -/
theorem consGetc_of_ne {con : Console} {serial kbd q : List (BitVec 8)} {c : BitVec 8}
    (h : (kbdIntr (serialIntr con serial) kbd).cons.Holds (c :: q))
    (hfull : (c :: q).length ≠ CONSBUFSIZE) :
    (consGetc con serial kbd).1 = c ∧ (consGetc con serial kbd).2.cons.Holds q := by
  have hne : (kbdIntr (serialIntr con serial) kbd).cons.rpos ≠
      (kbdIntr (serialIntr con serial) kbd).cons.wpos := by
    intro heq
    rcases h.read_eq_write.mp heq with hnil | hlength
    · exact absurd hnil (List.cons_ne_nil c q)
    · exact hfull hlength
  unfold consGetc
  rw [if_pos hne]
  exact h.pop

/-- `cons_getc` when the positions are equal after polling. -/
theorem consGetc_of_eq {con : Console} {serial kbd q : List (BitVec 8)}
    (h : (kbdIntr (serialIntr con serial) kbd).cons.Holds q)
    (hsame : q = [] ∨ q.length = CONSBUFSIZE) :
    consGetc con serial kbd = (0, kbdIntr (serialIntr con serial) kbd) := by
  unfold consGetc
  rw [if_neg (not_not_intro (h.read_eq_write.mpr hsame))]

namespace ConsLog

/-- The invariant: what is delivered and not yet returned is in the ring. -/
structure Sound (L : ConsLog) (q : List (BitVec 8)) : Prop where
  unread : L.delivered = L.read ++ q
  ring : L.console.cons.Holds q
  nonzero : ∀ c ∈ L.delivered, c ≠ 0

theorem sound_start (serialExists : Bool) : (start serialExists).Sound [] :=
  ⟨rfl, Queued.nil _, fun _ hc => absurd hc List.not_mem_nil⟩

theorem ne_zero_of_mem_arriving {L : ConsLog} {e : ConsEvent} {c : BitVec 8}
    (hc : c ∈ L.arriving e) : c ≠ 0 := by
  have hserial : ∀ serial, c ∈ (if L.console.serialExists then chars serial else []) → c ≠ 0 := by
    intro serial hc
    split at hc
    · exact ne_zero_of_mem_chars hc
    · exact absurd hc List.not_mem_nil
  cases e with
  | serialIntr serial => exact hserial serial hc
  | kbdIntr kbd => exact ne_zero_of_mem_chars hc
  | consGetc serial kbd =>
      rcases List.mem_append.mp hc with hc | hc
      · exact hserial serial hc
      · exact ne_zero_of_mem_chars hc

theorem Sound.ne_zero {L : ConsLog} {q : List (BitVec 8)} (h : L.Sound q) {e : ConsEvent}
    {c : BitVec 8} (hc : c ∈ L.delivered ++ L.arriving e) : c ≠ 0 := by
  rcases List.mem_append.mp hc with hc | hc
  · exact h.nonzero c hc
  · exact ne_zero_of_mem_arriving hc

/-- There is room in the ring for what arrives. -/
theorem Sound.room {L : ConsLog} {q : List (BitVec 8)} (h : L.Sound q) {e : ConsEvent}
    (hfits : L.Fits e) : q.length + (L.arriving e).length ≤ CONSBUFSIZE := by
  have hlength : (L.delivered ++ L.arriving e).length ≤ L.read.length + CONSBUFSIZE := hfits
  rw [h.unread, List.length_append, List.length_append] at hlength
  omega

/-- An event whose caller gets the first of the queue leaves the rest in it. -/
theorem Sound.next {L : ConsLog} {q q' : List (BitVec 8)} (h : L.Sound q) {e : ConsEvent}
    (hqueue : q ++ L.arriving e = chars (L.returned e) ++ q') (hring : (L.after e).cons.Holds q') :
    (L.next e).Sound q' where
  unread := by
    show L.delivered ++ L.arriving e = L.read ++ chars (L.returned e) ++ q'
    rw [h.unread, List.append_assoc, hqueue, List.append_assoc]
  ring := hring
  nonzero := fun _ hc => h.ne_zero hc

theorem Sound.faithful {L : ConsLog} {q q' : List (BitVec 8)} (h : L.Sound q) {e : ConsEvent}
    (hqueue : q ++ L.arriving e = chars (L.returned e) ++ q') (hzero : 0 ∈ L.returned e → q' = []) :
    L.Faithful e := by
  have hread : (L.next e).read ++ q' = (L.next e).delivered := by
    show L.read ++ chars (L.returned e) ++ q' = L.delivered ++ L.arriving e
    rw [h.unread, List.append_assoc, List.append_assoc, hqueue]
  refine ⟨⟨q', hread⟩, fun hmem => ?_⟩
  rwa [hzero hmem, List.append_nil] at hread

/-- The ring after polling both devices. -/
theorem Sound.poll {L : ConsLog} {q serial kbd : List (BitVec 8)} (h : L.Sound q)
    (hfits : L.Fits (.consGetc serial kbd)) :
    (kbdIntr (serialIntr L.console serial) kbd).cons.Holds
      (q ++ L.arriving (.consGetc serial kbd)) := by
  have hroom := h.room hfits
  have harriving : L.arriving (.consGetc serial kbd) =
      (if L.console.serialExists then chars serial else []) ++ chars kbd := rfl
  rw [harriving, List.length_append] at hroom
  rw [harriving, ← List.append_assoc]
  apply (holds_serialIntr h.ring (by omega)).consIntr
  rw [List.length_append]
  omega

/-- An interrupt adds to the queue. -/
theorem Sound.interrupt {L : ConsLog} {q : List (BitVec 8)} (h : L.Sound q) {e : ConsEvent}
    (hreturned : L.returned e = []) (hring : (L.after e).cons.Holds (q ++ L.arriving e)) :
    L.Faithful e ∧ ∃ q', (L.next e).Sound q' := by
  have hqueue : q ++ L.arriving e = chars (L.returned e) ++ (q ++ L.arriving e) := by
    rw [hreturned]
    rfl
  refine ⟨h.faithful hqueue ?_, _, h.next hqueue hring⟩
  rw [hreturned]
  exact fun hmem => absurd hmem List.not_mem_nil

theorem returned_consGetc (L : ConsLog) (serial kbd : List (BitVec 8)) :
    L.returned (.consGetc serial kbd) = [(consGetc L.console serial kbd).1] := rfl

theorem after_consGetc (L : ConsLog) (serial kbd : List (BitVec 8)) :
    L.after (.consGetc serial kbd) = (consGetc L.console serial kbd).2 := rfl

/-- A `cons_getc` takes the first character out of a ring that is not full. -/
theorem Sound.getc {L : ConsLog} {q serial kbd : List (BitVec 8)} (h : L.Sound q)
    (hfits : L.Fits (.consGetc serial kbd))
    (hfull : (q ++ L.arriving (.consGetc serial kbd)).length ≠ CONSBUFSIZE) :
    L.Faithful (.consGetc serial kbd) ∧ ∃ q', (L.next (.consGetc serial kbd)).Sound q' := by
  have hpoll := h.poll hfits
  have hnonzero : ∀ c ∈ q ++ L.arriving (.consGetc serial kbd), c ≠ 0 := by
    intro c hc
    apply h.ne_zero (e := .consGetc serial kbd)
    rw [h.unread, List.append_assoc]
    exact List.mem_append_right _ hc
  cases hall : q ++ L.arriving (.consGetc serial kbd) with
  | nil =>
      rw [hall] at hpoll
      have hgetc := consGetc_of_eq hpoll (.inl rfl)
      have hqueue : q ++ L.arriving (.consGetc serial kbd) =
          chars (L.returned (.consGetc serial kbd)) ++ [] := by
        rw [hall, returned_consGetc, hgetc]
        rfl
      refine ⟨h.faithful hqueue fun _ => rfl, _, h.next hqueue ?_⟩
      rw [after_consGetc, hgetc]
      exact hpoll
  | cons c rest =>
      rw [hall] at hpoll hfull hnonzero
      obtain ⟨hget, hring⟩ := consGetc_of_ne hpoll hfull
      have hc : c ≠ 0 := hnonzero c List.mem_cons_self
      have hreturned : L.returned (.consGetc serial kbd) = [c] := by
        rw [returned_consGetc, hget]
      have hqueue : q ++ L.arriving (.consGetc serial kbd) =
          chars (L.returned (.consGetc serial kbd)) ++ rest := by
        rw [hall, hreturned]
        have hchars : chars [c] = [c] := List.filter_cons_of_pos (decide_eq_true hc)
        rw [hchars]
        rfl
      refine ⟨h.faithful hqueue ?_, _, h.next hqueue hring⟩
      rw [hreturned, List.mem_singleton]
      exact fun hzero => absurd hzero.symm hc

/-- A `cons_getc` that finds the ring full says that nothing is waiting. -/
theorem Sound.not_faithful {L : ConsLog} {q serial kbd : List (BitVec 8)} (h : L.Sound q)
    (hfits : L.Fits (.consGetc serial kbd))
    (hfull : (q ++ L.arriving (.consGetc serial kbd)).length = CONSBUFSIZE) :
    ¬ L.Faithful (.consGetc serial kbd) := by
  intro hfaithful
  have hreturned : L.returned (.consGetc serial kbd) = [0] := by
    rw [returned_consGetc, consGetc_of_eq (h.poll hfits) (.inr hfull)]
  have hzero : 0 ∈ L.returned (.consGetc serial kbd) := by
    rw [hreturned]
    exact List.mem_cons_self
  have hread : L.read ++ chars (L.returned (.consGetc serial kbd)) =
      L.delivered ++ L.arriving (.consGetc serial kbd) := hfaithful.2 hzero
  rw [hreturned, h.unread, List.append_assoc] at hread
  have hlength := congrArg List.length hread
  rw [List.length_append, List.length_append, hfull] at hlength
  have hnone : (chars [(0 : BitVec 8)]).length = 0 := rfl
  have hsize : CONSBUFSIZE = 512 := rfl
  omega

theorem Sound.notFull_iff {L : ConsLog} {q serial kbd : List (BitVec 8)} (h : L.Sound q) :
    (L.delivered ++ L.arriving (.consGetc serial kbd)).length ≠ L.read.length + CONSBUFSIZE ↔
      (q ++ L.arriving (.consGetc serial kbd)).length ≠ CONSBUFSIZE := by
  rw [h.unread, List.append_assoc, List.length_append]
  omega

/-- One step: short of a full ring the reader gets the next character, and the invariant is
kept. -/
theorem Sound.step {L : ConsLog} {q : List (BitVec 8)} (h : L.Sound q) {e : ConsEvent}
    (hfits : L.Fits e) (hfull : L.NotFull e) : L.Faithful e ∧ ∃ q', (L.next e).Sound q' := by
  have hroom := h.room hfits
  cases hfull with
  | serialIntr serial => exact h.interrupt rfl (holds_serialIntr h.ring hroom)
  | kbdIntr kbd => exact h.interrupt rfl (h.ring.consIntr hroom)
  | consGetc hlength => exact h.getc hfits (h.notFull_iff.mp hlength)

theorem Sound.faithful_iff_notFull {L : ConsLog} {q : List (BitVec 8)} (h : L.Sound q)
    {e : ConsEvent} (hfits : L.Fits e) : L.Faithful e ↔ L.NotFull e := by
  refine ⟨fun hfaithful => ?_, fun hfull => (h.step hfits hfull).1⟩
  cases e with
  | serialIntr serial => exact .serialIntr serial
  | kbdIntr kbd => exact .kbdIntr kbd
  | consGetc serial kbd =>
      apply NotFull.consGetc
      intro hlength
      refine h.not_faithful hfits ?_ hfaithful
      by_contra hne
      exact h.notFull_iff.mpr hne hlength

/-- In every run in which no more than `CONSBUFSIZE` characters are ever unread, `cons_getc`
returns the characters delivered, in order, and `0` only when there are no more, if and only if
it never reads with `CONSBUFSIZE` characters unread. -/
theorem faithful_iff (serialExists : Bool) (events : List ConsEvent)
    (hfits : Along next Fits (start serialExists) events) :
    Along next Faithful (start serialExists) events ↔
      Along next NotFull (start serialExists) events := by
  apply hfits.iff_of_invariant (fun L => ∃ q, L.Sound q) ⟨[], sound_start serialExists⟩
  · intro L e hsound hstep
    obtain ⟨q, hsound⟩ := hsound
    exact hsound.faithful_iff_notFull hstep
  · intro L e hsound hstep hfull
    obtain ⟨q, hsound⟩ := hsound
    exact (hsound.step hstep hfull).2

instance (L : ConsLog) (e : ConsEvent) : Decidable (L.Fits e) :=
  inferInstanceAs (Decidable ((L.next e).delivered.length ≤ L.read.length + CONSBUFSIZE))

instance (L : ConsLog) (e : ConsEvent) : Decidable (L.Faithful e) :=
  inferInstanceAs (Decidable (_ ∧ _))

theorem faithful_iff_hello :
    Along next Faithful (start true) [.consGetc [0x68, 0, 0x69] [], .consGetc [] []] ↔
      Along next NotFull (start true) [.consGetc [0x68, 0, 0x69] [], .consGetc [] []] :=
  faithful_iff true _ (by decide)

/-- `CONSBUFSIZE` characters that arrive before the first `cons_getc` are lost. -/
theorem full_ring_lost :
    ¬ ∀ (serialExists : Bool) (events : List ConsEvent),
      Along next Fits (start serialExists) events →
        Along next Faithful (start serialExists) events := by
  intro h
  have hfits : Along next Fits (start true) [.consGetc (List.replicate CONSBUFSIZE 0x61) []] := by
    decide +kernel
  have hlost : ¬ Along next Faithful (start true)
      [.consGetc (List.replicate CONSBUFSIZE 0x61) []] := by
    decide +kernel
  exact hlost (h true _ hfits)

end ConsLog

end JosSched
