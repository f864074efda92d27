import Lpi.Verified.Pieces
import Lpi.Verified.Run

/-!
# Relay loops

A loop reads into a buffer and writes what it has read, until a `read()` says
that there is no more.  It leaves for good if a `write()` does not take
everything, and what a program does behind it (`Statement`) is where the last
`read()` is looked at.

What is in the buffer between the two calls, what has been written and what is
still to be read make up the source (`Inv`).
-/

namespace Lpi.Verified.Relay

open Lpi.Verified.Pieces
open Lpi.Verified.Run

/-! ## Programs -/

/-- What may follow a loop: a test of its last `read()` and a `close()`, both of
which end the program if there was an error, and a `write()` that is not
checked. -/
inductive Statement where
  | testRead
  | close
  | write (text : List UInt8)
  deriving DecidableEq, Repr

/-- The size of the buffer, and what follows the loop. -/
structure Program where
  bufferSize : Nat
  after : List Statement
  pos : 0 < bufferSize
  tested : .testRead ∈ after

/-- What the statements write. -/
def texts : List Statement → List UInt8
  | [] => []
  | .write text :: rest => text ++ texts rest
  | .testRead :: rest | .close :: rest => texts rest

inductive Pc where
  | read
  | write
  | after
  | failed
  deriving DecidableEq, Repr

variable {p : Program}

/-- `unread` is what the source has still to give, `written` the output of the
loop and `trailer` the output behind it; `rest` are the statements that are left
then. -/
structure State (p : Program) where
  pc : Pc
  rest : List Statement
  numRead : Int
  buffer : Buffer p.bufferSize
  unread : List UInt8
  written : List UInt8
  trailer : List UInt8

/-- The results of a call: `count` for the bytes that were read or written. -/
inductive Answer where
  | ok
  | count (n : Nat)
  | err
  deriving DecidableEq, Repr

/-- Before the loop; neither variable has a value of the program yet. -/
def start (p : Program) (source : List UInt8) (buffer : Buffer p.bufferSize) (numRead : Int) :
    State p where
  pc := .read
  rest := p.after
  numRead := numRead
  buffer := buffer
  unread := source
  written := []
  trailer := []

/-- `while ((numRead = read(...)) > 0)`; nothing is read only at the end. -/
def readStep (s : State p) : Answer → Option (State p)
  | .count n =>
      if n ≤ p.bufferSize ∧ n ≤ s.unread.length ∧ (n = 0 → s.unread = []) then
        some { s with
          numRead := n
          buffer := s.buffer.fill (s.unread.take n)
          unread := s.unread.drop n
          pc := if 0 < n then .write else .after }
      else none
  | .err => some { s with numRead := -1, pc := .after }
  | .ok => none

/-- `if (write(fd, buffer, numRead) != numRead)` -/
def writeStep (s : State p) : Answer → Option (State p)
  | .count n =>
      if (n : Int) ≤ s.numRead then
        some { s with
          written := s.written ++ s.buffer.bytes.take n
          pc := if (n : Int) ≠ s.numRead then .failed else .read }
      else none
  | .err => some { s with pc := .failed }
  | .ok => none

/-- The next statement behind the loop; the result of a `write()` there has no
effect on the program. -/
def afterStep (s : State p) (a : Answer) : Option (State p) :=
  match s.rest, a with
  | .testRead :: rest, .ok =>
      some { s with rest := rest, pc := if s.numRead = -1 then .failed else .after }
  | .close :: rest, .ok => some { s with rest := rest }
  | .close :: rest, .err => some { s with rest := rest, pc := .failed }
  | .write text :: rest, .count n =>
      if n ≤ text.length then some { s with rest := rest, trailer := s.trailer ++ text.take n }
      else none
  | .write _ :: rest, .err => some { s with rest := rest }
  | _, _ => none

def step (p : Program) (s : State p) (a : Answer) : Option (State p) :=
  match s.pc with
  | .read => readStep s a
  | .write => writeStep s a
  | .after => afterStep s a
  | .failed => none

/-- The program has failed, or is through. -/
def State.Ended (s : State p) : Prop := s.pc = .failed ∨ s.pc = .after ∧ s.rest = []

/-- A read or a write of the loop is not what it has to be. -/
def LoopFails (s : State p) (a : Answer) : Prop :=
  s.pc = .read ∧ a = .err ∨ s.pc = .write ∧ ∀ n : Nat, (n : Int) = s.numRead → a ≠ .count n

/-- Some call that is checked fails. -/
def Fails (s : State p) (a : Answer) : Prop :=
  LoopFails s a ∨ s.pc = .after ∧ a = .err ∧ ∃ rest, s.rest = .close :: rest

/-- A write behind the loop does not write its text. -/
def LosesText (s : State p) (a : Answer) : Prop :=
  s.pc = .after ∧ ∃ text rest, s.rest = .write text :: rest ∧ text ≠ [] ∧ a ≠ .count text.length

/-! ## Steps -/

/-- What a step can do. -/
inductive Step (s : State p) : Answer → State p → Prop
  | readCount {n : Nat} (hpc : s.pc = .read) (hcap : n ≤ p.bufferSize)
      (hlen : n ≤ s.unread.length) (hend : n = 0 → s.unread = []) :
      Step s (.count n) { s with
        numRead := n
        buffer := s.buffer.fill (s.unread.take n)
        unread := s.unread.drop n
        pc := if 0 < n then .write else .after }
  | readErr (hpc : s.pc = .read) : Step s .err { s with numRead := -1, pc := .after }
  | writeCount {n : Nat} (hpc : s.pc = .write) (hle : (n : Int) ≤ s.numRead) :
      Step s (.count n) { s with
        written := s.written ++ s.buffer.bytes.take n
        pc := if (n : Int) ≠ s.numRead then .failed else .read }
  | writeErr (hpc : s.pc = .write) : Step s .err { s with pc := .failed }
  | testRead {rest : List Statement} (hpc : s.pc = .after) (hrest : s.rest = .testRead :: rest) :
      Step s .ok { s with rest := rest, pc := if s.numRead = -1 then .failed else .after }
  | closeOk {rest : List Statement} (hpc : s.pc = .after) (hrest : s.rest = .close :: rest) :
      Step s .ok { s with rest := rest }
  | closeErr {rest : List Statement} (hpc : s.pc = .after) (hrest : s.rest = .close :: rest) :
      Step s .err { s with rest := rest, pc := .failed }
  | textCount {text : List UInt8} {rest : List Statement} {n : Nat} (hpc : s.pc = .after)
      (hrest : s.rest = .write text :: rest) (hle : n ≤ text.length) :
      Step s (.count n) { s with rest := rest, trailer := s.trailer ++ text.take n }
  | textErr {text : List UInt8} {rest : List Statement} (hpc : s.pc = .after)
      (hrest : s.rest = .write text :: rest) : Step s .err { s with rest := rest }

theorem step_iff {s t : State p} {a : Answer} : step p s a = some t ↔ Step s a t := by
  constructor
  · intro h
    cases hpc : s.pc with
    | read =>
        rw [step, hpc] at h
        cases a with
        | ok => simp [readStep] at h
        | err =>
            simp only [readStep, Option.some.injEq] at h
            exact h ▸ .readErr hpc
        | count n =>
            simp only [readStep] at h
            split at h
            · rename_i hn
              simp only [Option.some.injEq] at h
              exact h ▸ .readCount hpc hn.1 hn.2.1 hn.2.2
            · cases h
    | write =>
        rw [step, hpc] at h
        cases a with
        | ok => simp [writeStep] at h
        | err =>
            simp only [writeStep, Option.some.injEq] at h
            exact h ▸ .writeErr hpc
        | count n =>
            simp only [writeStep] at h
            split at h
            · rename_i hn
              simp only [Option.some.injEq] at h
              exact h ▸ .writeCount hpc hn
            · cases h
    | after =>
        rw [step, hpc] at h
        simp only [afterStep] at h
        split at h
        · rename_i hrest
          exact Option.some.inj h ▸ .testRead hpc hrest
        · rename_i hrest
          exact Option.some.inj h ▸ .closeOk hpc hrest
        · rename_i hrest
          exact Option.some.inj h ▸ .closeErr hpc hrest
        · rename_i hrest
          split at h
          · rename_i hn
            exact Option.some.inj h ▸ .textCount hpc hrest hn
          · cases h
        · rename_i hrest
          exact Option.some.inj h ▸ .textErr hpc hrest
        · cases h
    | failed =>
        rw [step, hpc] at h
        cases h
  · intro h
    cases h with
    | readCount hpc hcap hlen hend =>
        rw [step, hpc]
        exact if_pos ⟨hcap, hlen, hend⟩
    | readErr hpc => simp only [step, hpc, readStep]
    | writeCount hpc hle => simp only [step, hpc, writeStep, if_pos hle]
    | writeErr hpc => simp only [step, hpc, writeStep]
    | testRead hpc hrest => simp only [step, hpc, afterStep, hrest]
    | closeOk hpc hrest => simp only [step, hpc, afterStep, hrest]
    | closeErr hpc hrest => simp only [step, hpc, afterStep, hrest]
    | textCount hpc hrest hle => simp only [step, hpc, afterStep, hrest, if_pos hle]
    | textErr hpc hrest => simp only [step, hpc, afterStep, hrest]

/-! ## The invariant -/

/-- What the buffer has for the next write. -/
def State.pending (s : State p) : List UInt8 := s.buffer.bytes.take s.numRead.toNat

/-- Nothing of the source is lost and nothing is added; and if the last read gave
none of it, then because there was no more or it has failed. -/
def Inv (source : List UInt8) (s : State p) : Prop :=
  match s.pc with
  | .read => s.written ++ s.unread = source ∧ s.rest = p.after
  | .write => s.written ++ s.pending ++ s.unread = source ∧ s.rest = p.after ∧ 0 < s.numRead
  | .after => s.written ++ s.unread = source ∧
      (s.numRead = -1 ∧ .testRead ∈ s.rest ∨ s.numRead = 0 ∧ s.unread = [])
  | .failed => s.written <+: source

theorem inv_start (source : List UInt8) (buffer : Buffer p.bufferSize) (numRead : Int) :
    Inv source (start p source buffer numRead) := ⟨rfl, rfl⟩

private theorem pending_fill {s : State p} {n : Nat} (hcap : n ≤ p.bufferSize)
    (hlen : n ≤ s.unread.length) :
    (s.buffer.fill (s.unread.take n)).bytes.take n = s.unread.take n := by
  have htake : ((s.unread.take n).take p.bufferSize) = s.unread.take n := by
    rw [List.take_take, Nat.min_eq_right hcap]
  have hn : ((s.unread.take n).take p.bufferSize).length = n := by
    rw [htake, List.length_take, Nat.min_eq_left hlen]
  have hfill := s.buffer.take_fill (s.unread.take n)
  rwa [hn, htake] at hfill

theorem inv_step {source : List UInt8} {s t : State p} {a : Answer} (hs : Inv source s)
    (h : step p s a = some t) : Inv source t := by
  cases step_iff.1 h with
  | @readCount n hpc hcap hlen hend =>
      simp only [Inv, hpc] at hs
      by_cases hn : 0 < n
      · have hsplit : s.written ++ s.unread.take n ++ s.unread.drop n = source := by
          rw [List.append_assoc, List.take_append_drop]
          exact hs.1
        simp only [Inv, if_pos hn, State.pending, Int.toNat_natCast, pending_fill hcap hlen]
        exact ⟨hsplit, hs.2, by omega⟩
      · have hzero : n = 0 := by omega
        subst hzero
        simp only [Inv, if_neg hn, List.drop_zero]
        exact ⟨hs.1, Or.inr ⟨rfl, hend rfl⟩⟩
  | readErr hpc =>
      simp only [Inv, hpc] at hs
      exact ⟨hs.1, Or.inl ⟨rfl, hs.2 ▸ p.tested⟩⟩
  | @writeCount n hpc hle =>
      simp only [Inv, hpc] at hs
      by_cases hn : (n : Int) = s.numRead
      · simp only [Inv, hn, ne_eq, not_true_eq_false, if_false]
        refine ⟨?_, hs.2.1⟩
        rw [← hs.1, State.pending, ← hn, Int.toNat_natCast]
      · simp only [Inv, ne_eq, hn, not_false_eq_true, if_true]
        have hpre : s.buffer.bytes.take n <+: s.pending :=
          List.take_prefix_take_left (by omega)
        rw [← hs.1, List.append_assoc]
        exact (List.prefix_append_right_inj s.written).2 (hpre.trans (List.prefix_append _ _))
  | writeErr hpc =>
      simp only [Inv, hpc] at hs
      simp only [Inv]
      rw [← hs.1, List.append_assoc]
      exact List.prefix_append _ _
  | testRead hpc hrest =>
      simp only [Inv, hpc, hrest] at hs
      by_cases hread : s.numRead = -1
      · simp only [Inv, if_pos hread]
        exact ⟨_, hs.1⟩
      · simp only [Inv, if_neg hread]
        exact ⟨hs.1, Or.inr (hs.2.resolve_left fun herr => hread herr.1)⟩
  | closeOk hpc hrest =>
      simp only [Inv, hpc, hrest] at hs ⊢
      simpa using hs
  | closeErr hpc hrest =>
      simp only [Inv, hpc] at hs ⊢
      exact ⟨_, hs.1⟩
  | textCount hpc hrest hle =>
      simp only [Inv, hpc, hrest] at hs ⊢
      simpa using hs
  | textErr hpc hrest =>
      simp only [Inv, hpc, hrest] at hs ⊢
      simpa using hs

theorem Inv.written_prefix {source : List UInt8} {s : State p} (hs : Inv source s) :
    s.written <+: source := by
  cases hpc : s.pc with
  | read =>
      simp only [Inv, hpc] at hs
      exact ⟨_, hs.1⟩
  | write =>
      simp only [Inv, hpc, List.append_assoc] at hs
      exact ⟨_, hs.1⟩
  | after =>
      simp only [Inv, hpc] at hs
      exact ⟨_, hs.1⟩
  | failed => simpa only [Inv, hpc] using hs

/-- Where the statements have been executed, the test of the read has been passed. -/
theorem Inv.written_eq {source : List UInt8} {s : State p} (hs : Inv source s)
    (hpc : s.pc = .after) (hrest : s.rest = []) : s.written = source ∧ s.numRead ≠ -1 := by
  simp only [Inv, hpc, hrest, List.not_mem_nil, and_false, false_or] at hs
  refine ⟨?_, by omega⟩
  rw [← hs.1, hs.2.2, List.append_nil]

/-! ## The end of a run -/

/-- Every step lowers this number. -/
def State.left (s : State p) : Nat :=
  match s.pc with
  | .read => 2 * s.unread.length + p.after.length + 1
  | .write => 2 * s.unread.length + p.after.length + 2
  | .after => s.rest.length
  | .failed => 0

theorem left_step {source : List UInt8} {s t : State p} {a : Answer} (hs : Inv source s)
    (h : step p s a = some t) : t.left < s.left := by
  cases step_iff.1 h with
  | @readCount n hpc hcap hlen hend =>
      simp only [Inv, hpc] at hs
      by_cases hn : 0 < n
      · simp only [State.left, hpc, if_pos hn, List.length_drop]
        omega
      · simp only [State.left, hpc, if_neg hn, hs.2]
        omega
  | readErr hpc =>
      simp only [Inv, hpc] at hs
      simp only [State.left, hpc, hs.2]
      omega
  | @writeCount n hpc hle =>
      by_cases hn : (n : Int) = s.numRead
      · simp [State.left, hpc, hn]
      · simp [State.left, hpc, hn]
  | writeErr hpc => simp [State.left, hpc]
  | testRead hpc hrest =>
      by_cases hread : s.numRead = -1
      · simp [State.left, hpc, hrest, hread]
      · simp [State.left, hpc, hrest, hread]
  | closeOk hpc hrest => simp [State.left, hpc, hrest]
  | closeErr hpc hrest => simp [State.left, hpc, hrest]
  | textCount hpc hrest hle => simp [State.left, hpc, hrest]
  | textErr hpc hrest => simp [State.left, hpc, hrest]

/-- Until then there is a next step, also without an error. -/
theorem exists_step {source : List UInt8} {s : State p} (hs : Inv source s) (hend : ¬ s.Ended) :
    ∃ a, a ≠ .err ∧ Enabled (step p) s a := by
  cases hpc : s.pc with
  | read =>
      have hcap := p.pos
      refine ⟨.count (min 1 s.unread.length), by simp, _, step_iff.2 (.readCount hpc ?_ ?_ ?_)⟩
      · omega
      · omega
      · intro hzero
        exact List.eq_nil_of_length_eq_zero (by omega)
  | write =>
      simp only [Inv, hpc] at hs
      exact ⟨.count s.numRead.toNat, by simp, _, step_iff.2 (.writeCount hpc (by omega))⟩
  | after =>
      cases hrest : s.rest with
      | nil => exact absurd (Or.inr ⟨hpc, hrest⟩) hend
      | cons statement rest =>
          cases statement with
          | testRead => exact ⟨.ok, by simp, _, step_iff.2 (.testRead hpc hrest)⟩
          | close => exact ⟨.ok, by simp, _, step_iff.2 (.closeOk hpc hrest)⟩
          | write text =>
              exact ⟨.count 0, by simp, _, step_iff.2 (.textCount hpc hrest (Nat.zero_le _))⟩
  | failed => exact absurd (Or.inl hpc) hend

/-! ## Failures -/

/-- The program has failed or is going to, at the test. -/
def State.Doomed (s : State p) : Prop := s.pc = .failed ∨ s.pc = .after ∧ s.numRead = -1

theorem doomed_step {s t : State p} {a : Answer} (h : step p s a = some t) :
    t.Doomed ↔ s.Doomed ∨ Fails s a := by
  cases step_iff.1 h with
  | @readCount n hpc hcap hlen hend =>
      by_cases hn : 0 < n
      · simp [State.Doomed, Fails, LoopFails, hpc, hn]
      · simp [State.Doomed, Fails, LoopFails, hpc, hn]
  | readErr hpc => simp [State.Doomed, Fails, LoopFails, hpc]
  | @writeCount n hpc hle =>
      by_cases hn : (n : Int) = s.numRead
      · simp [State.Doomed, Fails, LoopFails, hpc, hn]
      · have hshort : ∀ m : Nat, (m : Int) = s.numRead → n ≠ m := by
          intro m hm heq
          exact hn (heq ▸ hm)
        simpa [State.Doomed, Fails, LoopFails, hpc, hn] using hshort
  | writeErr hpc => simp [State.Doomed, Fails, LoopFails, hpc]
  | testRead hpc hrest =>
      by_cases hread : s.numRead = -1
      · simp [State.Doomed, Fails, LoopFails, hpc, hread]
      · simp [State.Doomed, Fails, LoopFails, hpc, hread]
  | closeOk hpc hrest => simp [State.Doomed, Fails, LoopFails, hpc]
  | closeErr hpc hrest => simp [State.Doomed, Fails, LoopFails, hpc, hrest]
  | textCount hpc hrest hle => simp [State.Doomed, Fails, LoopFails, hpc]
  | textErr hpc hrest => simp [State.Doomed, Fails, LoopFails, hpc, hrest]

/-! ## Texts -/

/-- A text has not been written whole. -/
def State.Lost (s : State p) : Prop :=
  s.trailer.length + (texts s.rest).length < (texts p.after).length

/-- Otherwise the texts have been written, as far as they are due. -/
def State.Trails (s : State p) : Prop :=
  s.trailer ++ texts s.rest = texts p.after ∨ s.Lost

private theorem length_le_of_trails {s : State p} (hs : s.Trails) :
    s.trailer.length + (texts s.rest).length ≤ (texts p.after).length := by
  cases hs with
  | inl heq =>
      rw [← heq, List.length_append]
  | inr hlost => exact Nat.le_of_lt hlost

theorem trails_step {s t : State p} {a : Answer} (hs : s.Trails) (h : step p s a = some t) :
    t.Trails := by
  have hle := length_le_of_trails hs
  cases step_iff.1 h with
  | readCount hpc hcap hlen hend => exact hs
  | readErr hpc => exact hs
  | writeCount hpc hle => exact hs
  | writeErr hpc => exact hs
  | testRead hpc hrest =>
      simpa only [State.Trails, State.Lost, hrest, texts] using hs
  | closeOk hpc hrest =>
      simpa only [State.Trails, State.Lost, hrest, texts] using hs
  | closeErr hpc hrest =>
      simpa only [State.Trails, State.Lost, hrest, texts] using hs
  | @textCount text rest n hpc hrest hn =>
      rw [hrest, texts, List.length_append] at hle
      by_cases hwhole : n = text.length
      · simpa only [State.Trails, State.Lost, hrest, texts, hwhole, List.take_length,
          List.append_assoc, List.length_append, Nat.add_assoc] using hs
      · apply Or.inr
        simp only [State.Lost, List.length_append, List.length_take]
        omega
  | @textErr text rest hpc hrest =>
      rw [hrest, texts, List.length_append] at hle
      by_cases hempty : text = []
      · simpa only [State.Trails, State.Lost, hrest, texts, hempty, List.nil_append] using hs
      · have hpos := List.length_pos_iff.2 hempty
        apply Or.inr
        show s.trailer.length + (texts rest).length < (texts p.after).length
        omega

theorem lost_step {s t : State p} {a : Answer} (hs : s.Trails) (h : step p s a = some t) :
    t.Lost ↔ s.Lost ∨ LosesText s a := by
  have hle := length_le_of_trails hs
  cases step_iff.1 h with
  | readCount hpc hcap hlen hend => simp [State.Lost, LosesText, hpc]
  | readErr hpc => simp [State.Lost, LosesText, hpc]
  | writeCount hpc hle => simp [State.Lost, LosesText, hpc]
  | writeErr hpc => simp [State.Lost, LosesText, hpc]
  | testRead hpc hrest => simp [State.Lost, LosesText, hrest, texts]
  | closeOk hpc hrest => simp [State.Lost, LosesText, hrest, texts]
  | closeErr hpc hrest => simp [State.Lost, LosesText, hrest, texts]
  | @textCount text rest n hpc hrest hn =>
      rw [hrest, texts, List.length_append] at hle
      have hevent : LosesText s (.count n) ↔ n < text.length := by
        simp only [LosesText, hpc, hrest, true_and, List.cons.injEq, Statement.write.injEq,
          ← List.length_pos_iff, ne_eq, Answer.count.injEq]
        constructor
        · rintro ⟨_, _, ⟨rfl, _⟩, hpos, hshort⟩
          omega
        · intro hshort
          exact ⟨text, rest, ⟨rfl, rfl⟩, by omega, by omega⟩
      rw [hevent]
      simp only [State.Lost, hrest, texts, List.length_append, List.length_take]
      omega
  | @textErr text rest hpc hrest =>
      rw [hrest, texts, List.length_append] at hle
      have hevent : LosesText s .err ↔ 0 < text.length := by
        simp [LosesText, hpc, hrest, List.length_pos_iff]
      rw [hevent]
      simp only [State.Lost, hrest, texts, List.length_append]
      omega

/-! ## Runs -/

/-- What the program has written. -/
def State.output (s : State p) : List UInt8 := s.written ++ s.trailer

/-- A run to the end, from any contents of the variables. -/
structure Complete (p : Program) (source : List UInt8) where
  buffer : Buffer p.bufferSize
  numRead : Int
  answers : List Answer
  final : State p
  run : exec (step p) (start p source buffer numRead) answers = some final
  ended : final.Ended

variable {source : List UInt8}

/-- The event occurs in the run. -/
def Complete.Occurs (r : Complete p source) (E : State p → Answer → Prop) : Prop :=
  Run.Occurs (step p) E (start p source r.buffer r.numRead) r.answers

/-- What a relay is for. -/
structure Complete.Relays (r : Complete p source) : Prop where
  throughout : Throughout (step p) (fun s => s.written <+: source)
    (start p source r.buffer r.numRead) r.answers
  whole : r.final.pc ≠ .failed → r.final.output = source ++ texts p.after
  fails : r.Occurs LoopFails → r.final.pc = .failed

/-- **A loop ends**, whatever the answers are: there is a bound on the number of
calls, and a run that has not ended can go on. -/
theorem exec_ends {buffer : Buffer p.bufferSize} {numRead : Int} {answers : List Answer}
    {t : State p} (h : exec (step p) (start p source buffer numRead) answers = some t) :
    answers.length ≤ 2 * source.length + p.after.length + 1 ∧
      ∃ answers' u, exec (step p) t answers' = some u ∧ u.Ended := by
  have hinv : ∀ s a t, Inv source s → step p s a = some t → Inv source t :=
    fun s a t hs => inv_step hs
  have hlt : ∀ s a t, Inv source s → step p s a = some t → t.left < s.left :=
    fun s a t hs => left_step hs
  have hstart := inv_start source buffer numRead
  constructor
  · have hlength := exec_length_add_le hinv hlt hstart h
    have hleft : (start p source buffer numRead).left =
        2 * source.length + p.after.length + 1 := rfl
    omega
  · apply exists_exec_done hinv hlt
    · intro s hs hend
      rcases exists_step hs hend with ⟨a, _, ha⟩
      exact ⟨a, ha⟩
    · exact Reachable.invariant hinv hstart ⟨answers, h⟩

theorem Complete.inv (r : Complete p source) : Inv source r.final :=
  Reachable.invariant (fun _ _ _ hs => inv_step hs) (inv_start source r.buffer r.numRead)
    ⟨r.answers, r.run⟩

/-- **A complete run ends with a failure if a call that is checked has failed.** -/
theorem Complete.failed_iff (r : Complete p source) :
    r.final.pc = .failed ↔ r.Occurs Fails := by
  have hdoomed : r.final.Doomed ↔ r.Occurs Fails :=
    latch_iff_occurs (I := fun _ => True) (fun _ _ _ _ _ => trivial)
      (fun _ _ _ _ => doomed_step) trivial (by simp [State.Doomed, start]) r.run
  rw [← hdoomed]
  constructor
  · exact Or.inl
  · rintro (hfailed | ⟨hpc, hread⟩)
    · exact hfailed
    · cases r.ended with
      | inl hfailed => exact hfailed
      | inr hafter => exact absurd hread (r.inv.written_eq hpc hafter.2).2

theorem Complete.lost_iff (r : Complete p source) : r.final.Lost ↔ r.Occurs LosesText :=
  latch_iff_occurs (I := State.Trails) (fun _ _ _ => trails_step) (fun _ _ _ => lost_step)
    (Or.inl rfl) (by simp [State.Lost, start]) r.run

theorem Complete.output_eq_iff (r : Complete p source) (h : r.final.pc ≠ .failed) :
    r.final.output = source ++ texts p.after ↔ ¬ r.final.Lost := by
  have hafter := r.ended.resolve_left h
  have hwritten := (r.inv.written_eq hafter.1 hafter.2).1
  have htrails : r.final.Trails := Reachable.invariant (I := State.Trails)
    (fun _ _ _ => trails_step) (Or.inl rfl) ⟨r.answers, r.run⟩
  rw [State.output, hwritten, List.append_cancel_left_eq]
  rw [State.Trails, State.Lost, hafter.2, texts, List.append_nil] at htrails
  rw [State.Lost, hafter.2, texts]
  constructor
  · intro heq
    rw [heq]
    exact Nat.lt_irrefl _
  · exact htrails.resolve_right

/-- **A run relays its source** exactly if no text behind the loop is lost in it,
or a call that is checked fails in it. -/
theorem Complete.relays_iff (r : Complete p source) :
    r.Relays ↔ (r.Occurs LosesText → r.Occurs Fails) := by
  rw [← r.failed_iff, ← r.lost_iff]
  constructor
  · intro hrelays hlost
    apply Classical.byContradiction
    intro hpc
    exact (r.output_eq_iff hpc).1 (hrelays.whole hpc) hlost
  · intro hlost
    refine ⟨?_, ?_, ?_⟩
    · exact throughout_of_invariant (fun _ _ _ hs => inv_step hs)
        (fun _ hs => hs.written_prefix) (inv_start source r.buffer r.numRead) r.answers
    · intro hpc
      exact (r.output_eq_iff hpc).2 (fun h => hpc (hlost h))
    · intro hfails
      rw [r.failed_iff]
      exact hfails.mono fun _ _ => Or.inl

/-- Where nothing is written behind the loop, no text is lost. -/
theorem Complete.relays_of_texts (r : Complete p source) (h : texts p.after = []) : r.Relays := by
  rw [r.relays_iff, ← r.lost_iff]
  intro hlost
  rw [State.Lost, h] at hlost
  exact absurd hlost (Nat.not_lt_zero _)

end Lpi.Verified.Relay
