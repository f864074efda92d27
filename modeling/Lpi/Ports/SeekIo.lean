import Lpi.Ports.NumericArgs
import Lpi.Verified.CData
import Lpi.Verified.FileObject
import Lpi.Verified.Hex

/-!
# Seeking, reading and writing (`fileio/src/seek_io.c`)

The program opens a file and executes its remaining arguments as commands:
`r<length>` and `R<length>` read and display bytes as text or in hexadecimal,
`w<string>` writes, `s<offset>` seeks.  A command either leads to the next one
or ends the program.

Whether `lseek` has failed is decided by a comparison of its result with the
offset that was asked for.  `seek_honest_iff` says which offset passes this
test without having been reached.
-/

namespace Lpi.Ports.SeekIo

open Lpi.Verified.CData
open Lpi.Verified.CInt
open Lpi.Verified.CString
open Lpi.Verified.FileObject
open Lpi.Verified.Hex

/-! ## The system -/

/-- The open file: its bytes and the file offset. -/
structure File where
  content : List UInt8
  offset : Nat
  deriving DecidableEq, Repr

/-- What the system does with the calls of one command.  `error` is the text
of `errno` if `read()` or `write()` fails, and `short` cuts a transfer to at
most that many bytes and one more. -/
structure Answer where
  malloc : Bool
  error : Option (List UInt8)
  short : Option Nat
  deriving DecidableEq, Repr

/-- Everything is granted, and as much is transferred as possible. -/
def Answer.willing : Answer := ⟨true, none, none⟩

/-- What is transferred of `bs`. -/
def Answer.transfer (a : Answer) (bs : List UInt8) : List UInt8 :=
  match a.short with
  | none => bs
  | some n => bs.take (n + 1)

/-- `malloc`, which never grants more than `PTRDIFF_MAX` bytes. -/
def Answer.allocates (a : Answer) (length : Nat) : Bool :=
  a.malloc && length < 2 ^ 63

/-- The bytes that `read(fd, buffer, length)` stores in the buffer. -/
def Answer.read (a : Answer) (file : File) (length : Nat) : List UInt8 :=
  a.transfer ((file.content.drop file.offset).take length)

/-- `lseek(fd, offset, SEEK_SET)`: the result, and the file after it. -/
def lseek (file : File) (offset : Int) : Int × File :=
  if 0 ≤ offset then (offset, { file with offset := offset.toNat })
  else (-1, file)

/-! ## The commands -/

/-- A command leads to the next one or ends the program.  Both have a file and
what was printed on standard output, a failure also a message. -/
inductive Outcome where
  | next (file : File) (out : List UInt8)
  | fail (file : File) (out message : List UInt8)
  deriving DecidableEq, Repr

inductive DisplayType where
  | text
  | hex
  deriving DecidableEq, Repr

/-- `isprint` in the C locale. -/
def isprint (b : UInt8) : Bool := 32 ≤ b && b ≤ 126

/-- The value of `(unsigned int) buffer[j]`. -/
def promote (b : UInt8) : Nat := (IntType.uint.wrap (IntType.char.wrap b.toNat)).toNat

/-- The two loops over the buffer.  An `int` can count as many bytes as one
`read()` returns. -/
def display : DisplayType → List UInt8 → List UInt8
  | .text, bs => bs.map fun b => if isprint b then b else 63
  | .hex, bs => bs.flatMap fun b => hex02 (promote b) ++ [32]

def mallocFailed (length : Nat) : List UInt8 :=
  ascii "Failed to malloc " ++ decimal (IntType.long.wrap length) ++ ascii " bytes\n"

def readFailed (e : List UInt8) (length : Nat) : List UInt8 :=
  e ++ ascii ": Failed to read " ++ decimal (IntType.long.wrap length) ++ ascii " bytes\n"

def readDisplayBytes (a : Answer) (file : File) (length : Nat) (type : DisplayType) :
    Outcome :=
  if a.allocates length = false then .fail file [] (mallocFailed length)
  else match a.error with
    | some e => .fail file [] (readFailed e length)
    | none =>
        let bs := a.read file length
        if bs = [] then .next file (ascii "End-of-file\n")
        else .next { file with offset := file.offset + bs.length } (display type bs)

def writeFailed (e : List UInt8) (filepath : CStr) : List UInt8 :=
  e ++ ascii ": Failed to write to " ++ filepath.bytes ++ ascii "\n"

/-- `Wrote %lu bytes to %s\n`. -/
def wrote (n : Nat) (filepath : CStr) : List UInt8 :=
  ascii "Wrote " ++ decimal n ++ ascii " bytes to " ++ filepath.bytes ++ ascii "\n"

/-- `case 'w'`. -/
def writeString (a : Answer) (filepath : CStr) (file : File) (str : CStr) : Outcome :=
  match a.error with
  | some e => .fail file [] (writeFailed e filepath)
  | none =>
      let bs := a.transfer str.bytes
      .next ⟨writeAt file.offset bs file.content, file.offset + bs.length⟩
        (wrote bs.length filepath)

def seekFailed (offset : Int) : List UInt8 :=
  ascii "Failed to seek to offset " ++ decimal offset ++ ascii "\n"

/-- `Seeked to offset %ld\n`. -/
def seeked (offset : Int) : List UInt8 :=
  ascii "Seeked to offset " ++ decimal offset ++ ascii "\n"

/-- `case 's'`, after the conversion. -/
def seek (file : File) (offset : Int) : Outcome :=
  let (offsetSeeked, file') := lseek file offset
  if offsetSeeked ≠ offset then .fail file' [] (seekFailed offset)
  else .next file' (seeked offsetSeeked)

/-- What follows the letter of a command, `&argv[i][1]`. -/
def operand (arg : CStr) : CStr :=
  ⟨arg.bytes.tail, fun h => arg.nulFree (List.mem_of_mem_tail h)⟩

def usage (program : CStr) : List UInt8 :=
  ascii "Usage: " ++ program.bytes ++
    ascii " <file> \x7br<length>|R<length>|w<string>|s<offset> ...\x7d\n"

def unknownCommand (arg : CStr) : List UInt8 :=
  ascii "Command-line usage error - Argument must start with [rRws]: " ++ arg.bytes ++
    ascii "\n"

/-- One round of the loop. -/
def command (a : Answer) (program filepath : CStr) (file : File) (arg : CStr) :
    Outcome :=
  if arg.bytes.length < 2 then .fail file [] (usage program)
  else if arg.bytes.head? = some 114 then
    match NumericArgs.SeekIo.getUnsignedLong (operand arg) with
    | .error e => .fail file [] e
    | .ok length => readDisplayBytes a file length.toNat .text
  else if arg.bytes.head? = some 82 then
    match NumericArgs.SeekIo.getUnsignedLong (operand arg) with
    | .error e => .fail file [] e
    | .ok length => readDisplayBytes a file length.toNat .hex
  else if arg.bytes.head? = some 119 then writeString a filepath file (operand arg)
  else if arg.bytes.head? = some 115 then
    match NumericArgs.SeekIo.getLong (operand arg) with
    | .error e => .fail file [] e
    | .ok offset => seek file offset
  else .fail file [] (unknownCommand arg)

/-- Print before everything else. -/
def Outcome.after (out : List UInt8) : Outcome → Outcome
  | .next file out' => .next file (out ++ out')
  | .fail file out' message => .fail file (out ++ out') message

/-- The loop.  `sys i` is what the system does in its `i`-th round. -/
def commands (sys : Nat → Answer) (program filepath : CStr) :
    Nat → List CStr → File → Outcome
  | _, [], file => .next file []
  | i, arg :: args, file =>
      match command (sys i) program filepath file arg with
      | .fail file out message => .fail file out message
      | .next file out => (commands sys program filepath (i + 1) args file).after out

/-- How a run ends, with the bytes of the file. -/
structure Result where
  exit : Exit
  stdout : List UInt8
  stderr : List UInt8
  content : List UInt8
  deriving DecidableEq, Repr

/-- `main` on a file with the given bytes, empty if it did not exist.
`openError` and `closeError` are the text of `errno` if one of these calls
fails. -/
def main (sys : Nat → Answer) (openError closeError : Option (List UInt8))
    (program : CStr) (args : List CStr) (content : List UInt8) : Result :=
  match args with
  | filepath :: arg :: rest =>
      if filepath.bytes = ascii "--help" then ⟨.failure, [], usage program, content⟩
      else match openError with
        | some e => ⟨.failure, [],
            e ++ ascii ": Failed to open " ++ filepath.bytes ++ ascii "\n", content⟩
        | none =>
          match commands sys program filepath 0 (arg :: rest) ⟨content, 0⟩ with
          | .fail file out message => ⟨.failure, out, message, file.content⟩
          | .next file out =>
            match closeError with
            | some e => ⟨.failure, out,
                e ++ ascii ": Failed to close " ++ filepath.bytes ++ ascii "\n",
                file.content⟩
            | none => ⟨.success, out, [], file.content⟩
  | _ => ⟨.failure, [], usage program, content⟩

/-! ## Runs of the loop -/

section Loop

variable {sys : Nat → Answer} {program filepath : CStr} {file file' : File}
  {out out' message : List UInt8}

@[simp] theorem Outcome.after_next :
    (Outcome.next file out').after out = .next file (out ++ out') := rfl

@[simp] theorem Outcome.after_fail :
    (Outcome.fail file out' message).after out = .fail file (out ++ out') message :=
  rfl

theorem Outcome.after_after (o : Outcome) :
    (o.after out').after out = o.after (out ++ out') := by
  cases o <;> simp

@[simp] theorem Outcome.after_nil (o : Outcome) : o.after [] = o := by
  cases o <;> simp

theorem commands_next {i : Nat} {arg : CStr} {args : List CStr}
    (h : command (sys i) program filepath file arg = .next file' out) :
    commands sys program filepath i (arg :: args) file =
      (commands sys program filepath (i + 1) args file').after out := by
  rw [commands, h]

theorem commands_fail {i : Nat} {arg : CStr} {args : List CStr}
    (h : command (sys i) program filepath file arg = .fail file' out message) :
    commands sys program filepath i (arg :: args) file = .fail file' out message := by
  rw [commands, h]

/-- The commands of a list are executed where those before them have led. -/
theorem commands_append {i : Nat} {args : List CStr} (rest : List CStr)
    (h : commands sys program filepath i args file = .next file' out) :
    commands sys program filepath i (args ++ rest) file =
      (commands sys program filepath (i + args.length) rest file').after out := by
  induction args generalizing i file out with
  | nil =>
      simp only [commands, Outcome.next.injEq] at h
      obtain ⟨rfl, rfl⟩ := h
      simp
  | cons arg args ih =>
      cases hcommand : command (sys i) program filepath file arg with
      | fail file₁ out₁ message =>
          rw [commands_fail hcommand] at h
          exact absurd h (by simp)
      | next file₁ out₁ =>
          rw [commands_next hcommand] at h
          cases hrest : commands sys program filepath (i + 1) args file₁ with
          | fail file₂ out₂ message =>
              rw [hrest, Outcome.after_fail] at h
              exact absurd h (by simp)
          | next file₂ out₂ =>
              rw [hrest, Outcome.after_next, Outcome.next.injEq] at h
              obtain ⟨rfl, rfl⟩ := h
              rw [List.cons_append, commands_next hcommand, ih hrest,
                Outcome.after_after, List.length_cons, Nat.add_right_comm,
                Nat.add_assoc]

end Loop

/-- A read that is granted depends on what it reads only. -/
theorem readDisplayBytes_granted {a : Answer} {file : File} {length : Nat}
    (halloc : a.allocates length = true) (herror : a.error = none)
    (type : DisplayType) :
    readDisplayBytes a file length type =
      if a.read file length = [] then .next file (ascii "End-of-file\n")
      else .next { file with offset := file.offset + (a.read file length).length }
        (display type (a.read file length)) := by
  simp only [readDisplayBytes, halloc, herror, Bool.true_eq_false, if_false]

/-! ## Seeking -/

section Seek

variable {a : Answer} {program filepath arg : CStr} {file : File} {n : Int}

theorem seek_of_nonneg (h : 0 ≤ n) :
    seek file n = .next { file with offset := n.toNat } (seeked n) := by
  simp [seek, lseek, h]

theorem seek_of_neg (h : n < 0) (hn : n ≠ -1) :
    seek file n = .fail file [] (seekFailed n) := by
  have hneg : ¬ 0 ≤ n := by omega
  simp [seek, lseek, hneg, hn.symm]

/-- The offset that `lseek` returns for a failure. -/
theorem seek_neg_one : seek file (-1) = .next file (seeked (-1)) := by
  simp [seek, lseek]

/-- There is no number in an empty string. -/
theorem operand_ne_nil {message : List UInt8 → Lpi.Verified.Strtol.Errno → List UInt8}
    {wide t : IntType}
    (h : NumericArgs.getNumber NumericArgs.rangeOrNothing message wide t .decimal
      (operand arg) = .ok n) : 2 ≤ arg.bytes.length := by
  by_contra hshort
  have hempty : (operand arg).bytes = [] := by
    apply List.length_eq_zero_iff.1
    rw [operand, List.length_tail]
    omega
  simp [NumericArgs.getNumber, hempty, NumericArgs.rangeOrNothing,
    Lpi.Verified.Strtol.convert, Lpi.Verified.Strtol.scan,
    Lpi.Verified.Strtol.takeSign, Lpi.Verified.Strtol.scanMagnitude,
    Lpi.Verified.Strtol.hexPrefix, Lpi.Verified.Strtol.scanDigits] at h

theorem command_seek (hs : arg.bytes.head? = some 115)
    (hn : NumericArgs.SeekIo.getLong (operand arg) = .ok n) :
    command a program filepath file arg = seek file n := by
  have hlength := operand_ne_nil hn
  simp [command, hs, hn, Nat.not_lt.2 hlength]

end Seek

/-- A run of the loop deals with a seek to `n` in `file` as it says: it goes on
with the commands `post` at the offset `n` after having printed so, or it has
printed nothing more, and fails with the file as it was. -/
def Honest (file : File) (n : Int) (post : File → Outcome) (out : List UInt8)
    (run : Outcome) : Prop :=
  (∃ file', file'.content = file.content ∧ (file'.offset : Int) = n ∧
    run = (post file').after (out ++ seeked n)) ∨
  ∃ message, run = .fail file out message

/-- **When a seek is reported.**  For every list of commands, every command
`s<n>` in it and every file that the commands before it lead to: the program
reports the seek only if it has happened, and fails with the offset unchanged
otherwise, if and only if `n` is not -1. -/
theorem seek_honest_iff (sys : Nat → Answer) (program filepath : CStr)
    (file₀ file : File) (pre post : List CStr) (arg : CStr) (out : List UInt8)
    (n : Int) (hpre : commands sys program filepath 0 pre file₀ = .next file out)
    (hs : arg.bytes.head? = some 115)
    (hn : NumericArgs.SeekIo.getLong (operand arg) = .ok n) :
    Honest file n (commands sys program filepath (pre.length + 1) post) out
      (commands sys program filepath 0 (pre ++ arg :: post) file₀) ↔ n ≠ -1 := by
  have hcommand : command (sys (0 + pre.length)) program filepath file arg =
      seek file n := command_seek hs hn
  rw [commands_append (arg :: post) hpre]
  constructor
  · rintro hhonest rfl
    rw [seek_neg_one] at hcommand
    rw [commands_next hcommand, Outcome.after_after] at hhonest
    rcases hhonest with ⟨file', _, hoffset, _⟩ | ⟨message, hfail⟩
    · omega
    · -- What was printed is too long for a run that ended before the seek.
      cases hpost : commands sys program filepath (0 + pre.length + 1) post file with
      | next file' out' =>
          rw [hpost, Outcome.after_next] at hfail
          exact absurd hfail (by simp)
      | fail file' out' message' =>
          rw [hpost, Outcome.after_fail, Outcome.fail.injEq] at hfail
          have hlength := congrArg List.length hfail.2.1
          simp [seeked, ascii] at hlength
  · intro hne
    by_cases hnonneg : 0 ≤ n
    · rw [seek_of_nonneg hnonneg] at hcommand
      left
      refine ⟨{ file with offset := n.toNat }, rfl, Int.toNat_of_nonneg hnonneg, ?_⟩
      rw [commands_next hcommand, Outcome.after_after, Nat.zero_add]
    · rw [seek_of_neg (by omega) hne] at hcommand
      right
      refine ⟨seekFailed n, ?_⟩
      rw [commands_fail hcommand, Outcome.after_fail, List.append_nil]

def seekIoName : CStr := ⟨ascii "seek_io", by decide⟩
def dataFile : CStr := ⟨ascii "data", by decide⟩
def writeAB : CStr := ⟨ascii "wAB", by decide⟩
def seekSeven : CStr := ⟨ascii "s7", by decide⟩
def seekMinusOne : CStr := ⟨ascii "s-1", by decide⟩

/-- Two bytes are written, and then the offset is set to 7. -/
theorem seek_honest_seven :
    Honest ⟨[65, 66], 2⟩ 7
      (commands (fun _ => .willing) seekIoName dataFile 2 [])
      (ascii "Wrote 2 bytes to data\n")
      (commands (fun _ => .willing) seekIoName dataFile 0 [writeAB, seekSeven] ⟨[], 0⟩) :=
  (seek_honest_iff (fun _ => .willing) seekIoName dataFile ⟨[], 0⟩ ⟨[65, 66], 2⟩
    [writeAB] [] seekSeven (ascii "Wrote 2 bytes to data\n") 7
    (by decide) (by decide) (by decide)).2 (by decide)

/-- A seek to -1 is reported, though the offset is still 0. -/
theorem seek_to_minus_one_reported :
    commands (fun _ => .willing) seekIoName dataFile 0 [seekMinusOne] ⟨[], 0⟩ =
        .next ⟨[], 0⟩ (ascii "Seeked to offset -1\n") ∧
      ¬ Honest ⟨[], 0⟩ (-1) (commands (fun _ => .willing) seekIoName dataFile 1 []) []
        (commands (fun _ => .willing) seekIoName dataFile 0 [seekMinusOne] ⟨[], 0⟩) := by
  have hrun : commands (fun _ => .willing) seekIoName dataFile 0 [seekMinusOne] ⟨[], 0⟩ =
      .next ⟨[], 0⟩ (ascii "Seeked to offset -1\n") := by decide
  refine ⟨hrun, ?_⟩
  rw [hrun]
  rintro (⟨file', _, hoffset, _⟩ | ⟨message, hfail⟩)
  · omega
  · exact absurd hfail (by simp)

end Lpi.Ports.SeekIo
