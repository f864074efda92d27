import Lpi.Ports.NumericArgsNarrowing
import Lpi.Ports.SeekIo
import Lpi.Verified.Run
import Mathlib.Data.List.Forall2

/-!
# The commands of `seek_io` against a reference

The reference interprets commands, not arguments, over the bytes of the file
and an offset.  It looks at the size of the file to see whether the end is
reached, where the program looks at what `read()` returns, and it says byte by
byte what a write leaves.

The two agree on every command but one: a read of no bytes returns none, which
the program takes for the end of the file.  `commands_eq_iff` gives this for a
run of commands, `interpreter_faithful_iff` for the program.
-/

namespace Lpi.Ports.SeekIo

open Lpi.Verified.CData
open Lpi.Verified.CInt
open Lpi.Verified.CString
open Lpi.Verified.FileObject
open Lpi.Verified.Run
open Lpi.Verified.Strtol

/-! ## The reference -/

inductive Command where
  | read (length : Nat)
  | write (str : List UInt8)
  | seek (offset : Nat)
  deriving DecidableEq, Repr

/-- The bytes after a write of `str` at `offset`: those of `str` where it was
written, the old ones elsewhere, and zeros in a gap. -/
def overwrite (offset : Nat) (str old : List UInt8) : List UInt8 :=
  (List.range (max old.length (offset + str.length))).map fun i =>
    if offset ≤ i ∧ i < offset + str.length then str.getD (i - offset) 0
    else old.getD i 0

/-- One command: the file after it and what is printed. -/
def Command.interpret (filepath : CStr) (file : File) : Command → File × List UInt8
  | .read length =>
      if file.content.length ≤ file.offset then (file, ascii "End-of-file\n")
      else
        let n := min length (file.content.length - file.offset)
        ({ file with offset := file.offset + n },
          ((file.content.drop file.offset).take n).map fun b =>
            if isprint b then b else 63)
  | .write str =>
      (⟨overwrite file.offset str file.content, file.offset + str.length⟩,
        wrote str.length filepath)
  | .seek offset => ({ file with offset := offset }, seeked offset)

/-- A list of commands. -/
def interpretAll (filepath : CStr) : List Command → File → File × List UInt8
  | [], file => (file, [])
  | c :: cs, file =>
      let (file', out) := c.interpret filepath file
      let (file'', out') := interpretAll filepath cs file'
      (file'', out ++ out')

/-- The argument is a well-formed spelling of the command. -/
def Command.Spells (arg : CStr) : Command → Prop
  | .read length => arg.bytes.head? = some 114 ∧
      ∃ n, IsNumeral .decimal (operand arg).bytes n ∧ n.value = length
  | .write str => arg.bytes.head? = some 119 ∧ (operand arg).bytes = str ∧ str ≠ []
  | .seek offset => arg.bytes.head? = some 115 ∧ offset < 2 ^ 63 ∧
      ∃ n, IsNumeral .decimal (operand arg).bytes n ∧ n.value = offset

/-- `malloc` succeeds for what the command reads. -/
def Command.Allocates : Command → Prop
  | .read length => Answer.willing.allocates length = true
  | .write _ | .seek _ => True

/-- A read of no bytes before the end of the file. -/
def EmptyRead (file : File) (c : Command) : Prop :=
  c = .read 0 ∧ file.offset < file.content.length

instance (file : File) (c : Command) : Decidable (EmptyRead file c) :=
  inferInstanceAs (Decidable (_ ∧ _))

/-- No command of the list is an empty read at the place where the reference
executes it. -/
def NoEmptyRead (filepath : CStr) (file : File) (cs : List Command) : Prop :=
  Along (fun file c => some (c.interpret filepath file).1)
    (fun file c => ¬ EmptyRead file c) file cs

instance (filepath : CStr) (file : File) (cs : List Command) :
    Decidable (NoEmptyRead filepath file cs) :=
  inferInstanceAs (Decidable (Along _ _ _ _))

/-! ## What a write leaves -/

/-- `write()` leaves what the reference says. -/
theorem writeAt_eq_overwrite {offset : Nat} {str : List UInt8} (hne : str ≠ [])
    (old : List UInt8) : writeAt offset str old = overwrite offset str old := by
  have hpos : 0 < str.length := List.length_pos_iff.2 hne
  apply List.ext_getElem?
  intro i
  unfold writeAt overwrite
  rw [List.getElem?_map, List.append_assoc]
  by_cases hbefore : i < offset
  · have hi : i < max old.length (offset + str.length) := by omega
    rw [List.getElem?_append_left (by rw [length_resize]; exact hbefore),
      getElem?_resize, if_pos hbefore, List.getElem?_range hi, Option.map_some,
      if_neg (by omega)]
  · rw [List.getElem?_append_right (by rw [length_resize]; omega), length_resize]
    by_cases hin : i < offset + str.length
    · have hi : i < max old.length (offset + str.length) := by omega
      have hlt : i - offset < str.length := by omega
      rw [List.getElem?_append_left hlt, List.getElem?_range hi, Option.map_some,
        if_pos ⟨by omega, hin⟩, List.getElem?_eq_getElem hlt,
        List.getD_eq_getElem?_getD, List.getElem?_eq_getElem hlt, Option.getD_some]
    · have hdrop : offset + str.length + (i - offset - str.length) = i := by omega
      rw [List.getElem?_append_right (by omega), List.getElem?_drop, hdrop]
      by_cases hlen : i < old.length
      · rw [List.getElem?_range (by omega), Option.map_some, if_neg (by omega),
          List.getElem?_eq_getElem hlen, List.getD_eq_getElem?_getD,
          List.getElem?_eq_getElem hlen, Option.getD_some]
      · rw [List.getElem?_eq_none (by omega),
          List.getElem?_eq_none (by rw [List.length_range]; omega), Option.map_none]

/-! ## One command -/

section OneCommand

variable {program filepath arg : CStr} {file : File} {c : Command}

/-- What the program prints and the reference does not. -/
def surplus (file : File) (c : Command) : List UInt8 :=
  if EmptyRead file c then ascii "End-of-file\n" else []

theorem getNumber_numeral {message : List UInt8 → Errno → List UInt8} {t : IntType}
    {str : CStr} {n : Numeral} (h : IsNumeral .decimal str.bytes n)
    (hfits : t.Fits n.value) :
    NumericArgs.getNumber NumericArgs.rangeOrNothing message t t .decimal str =
      .ok n.value := by
  unfold NumericArgs.getNumber
  rw [NumericArgs.convert_numeral h hfits]
  simp [NumericArgs.rangeOrNothing_numeral h, IntType.wrap_of_fits hfits]

/-- A number has at least one digit. -/
theorem two_le_length {n : Numeral} (h : IsNumeral .decimal (operand arg).bytes n) :
    2 ≤ arg.bytes.length := by
  have hpos := List.length_pos_iff.2 h.ne_nil
  rw [operand, List.length_tail] at hpos
  omega

theorem command_read {length : Nat} (hspells : (Command.read length).Spells arg)
    (halloc : (Command.read length).Allocates) :
    command .willing program filepath file arg =
      readDisplayBytes .willing file length .text := by
  obtain ⟨hhead, n, hn, hvalue⟩ := hspells
  have hlength := two_le_length hn
  have hsmall : length < 2 ^ 63 := by
    simpa [Command.Allocates, Answer.allocates, Answer.willing] using halloc
  have hfits : IntType.ulong.Fits n.value := by
    simp only [IntType.Fits, IntType.low, IntType.ulong, Bool.false_eq_true, if_false]
    omega
  have hget : NumericArgs.SeekIo.getUnsignedLong (operand arg) = .ok (length : Int) := by
    rw [← hvalue]
    exact getNumber_numeral hn hfits
  simp [command, hhead, hget, Nat.not_lt.2 hlength]

/-- The bytes a willing system reads are those the reference takes. -/
theorem read_willing (length : Nat) :
    Answer.willing.read file length = (file.content.drop file.offset).take
      (min length (file.content.length - file.offset)) := by
  rw [Answer.read, Answer.willing, Answer.transfer]
  dsimp only
  rw [List.take_eq_take_iff, List.length_drop]
  omega

theorem readDisplayBytes_eq {length : Nat} (halloc : (Command.read length).Allocates) :
    readDisplayBytes .willing file length .text =
      .next ((Command.read length).interpret filepath file).1
        (surplus file (.read length) ++
          ((Command.read length).interpret filepath file).2) := by
  have hread : Answer.willing.read file length = _ := read_willing length
  rw [readDisplayBytes_granted halloc rfl]
  by_cases hend : file.content.length ≤ file.offset
  · -- at the end nothing is read, whatever the length
    have hnone : Answer.willing.read file length = [] := by
      rw [hread, List.drop_eq_nil_of_le hend, List.take_nil]
    simp [hnone, surplus, EmptyRead, Command.interpret, hend, Nat.not_lt.2 hend]
  · by_cases hzero : length = 0
    · subst hzero
      have hnone : Answer.willing.read file 0 = [] := by
        rw [hread, Nat.zero_min, List.take_zero]
      simp [hnone, surplus, EmptyRead, Command.interpret, hend, Nat.not_le.1 hend]
    · have hlength : (Answer.willing.read file length).length =
          min length (file.content.length - file.offset) := by
        rw [hread, List.length_take, List.length_drop]
        omega
      have hsome : Answer.willing.read file length ≠ [] := by
        apply List.ne_nil_of_length_pos
        omega
      have hsurplus : surplus file (.read length) = [] := by
        simp [surplus, EmptyRead, hzero]
      rw [if_neg hsome, hsurplus, hlength, hread]
      simp [Command.interpret, hend, display]

theorem command_write {str : List UInt8} (hspells : (Command.write str).Spells arg) :
    command .willing program filepath file arg =
      .next ((Command.write str).interpret filepath file).1
        ((Command.write str).interpret filepath file).2 := by
  obtain ⟨hhead, hstr, hne⟩ := hspells
  have hlength : ¬ arg.bytes.length < 2 := by
    have hpos := List.length_pos_iff.2 hne
    rw [← hstr, operand, List.length_tail] at hpos
    omega
  simp [command, hhead, hlength, writeString, Answer.willing, Answer.transfer, hstr,
    Command.interpret, writeAt_eq_overwrite hne]

theorem command_seek_nat {offset : Nat} (hspells : (Command.seek offset).Spells arg) :
    command .willing program filepath file arg =
      .next ((Command.seek offset).interpret filepath file).1
        ((Command.seek offset).interpret filepath file).2 := by
  obtain ⟨hhead, hsmall, n, hn, hvalue⟩ := hspells
  have hfits : IntType.long.Fits n.value := by
    simp only [IntType.Fits, IntType.low, IntType.long, if_true]
    omega
  have hget : NumericArgs.SeekIo.getLong (operand arg) = .ok (offset : Int) := by
    rw [← hvalue]
    exact getNumber_numeral hn hfits
  rw [command_seek hhead hget, seek_of_nonneg (Int.natCast_nonneg offset)]
  rfl

/-- The program does to the file what the reference does, and prints the same
but for the surplus. -/
theorem command_eq (hspells : c.Spells arg) (halloc : c.Allocates) :
    command .willing program filepath file arg =
      .next (c.interpret filepath file).1
        (surplus file c ++ (c.interpret filepath file).2) := by
  cases c with
  | read length => rw [command_read hspells halloc, readDisplayBytes_eq halloc]
  | write str =>
      have hsurplus : surplus file (.write str) = [] := by simp [surplus, EmptyRead]
      rw [command_write hspells, hsurplus, List.nil_append]
  | seek offset =>
      have hsurplus : surplus file (.seek offset) = [] := by simp [surplus, EmptyRead]
      rw [command_seek_nat hspells, hsurplus, List.nil_append]

end OneCommand

/-! ## Whole runs -/

/-- Whatever is printed too much, the output does not get shorter, so it is
that of the reference only if there was no surplus. -/
theorem commands_eq_iff {program filepath : CStr} {args : List CStr}
    {cs : List Command} (hspells : List.Forall₂ (fun arg c => Command.Spells arg c) args cs)
    (halloc : ∀ c ∈ cs, c.Allocates) (i : Nat) (file : File) :
    ∃ out, commands (fun _ => .willing) program filepath i args file =
        .next (interpretAll filepath cs file).1 out ∧
      (interpretAll filepath cs file).2.length ≤ out.length ∧
      (out = (interpretAll filepath cs file).2 ↔ NoEmptyRead filepath file cs) := by
  induction hspells generalizing i file with
  | nil => exact ⟨[], rfl, Nat.le_refl _, iff_of_true rfl trivial⟩
  | @cons arg c args cs hc _ ih =>
      have hcommand : command .willing program filepath file arg = _ :=
        command_eq hc (halloc c (by simp))
      obtain ⟨out, hrun, hle, hiff⟩ := ih (fun d hd => halloc d (by simp [hd])) (i + 1)
        (c.interpret filepath file).1
      refine ⟨surplus file c ++ (c.interpret filepath file).2 ++ out, ?_, ?_, ?_⟩
      · rw [commands_next hcommand, hrun, Outcome.after_next]
        rfl
      · simp only [interpretAll, List.length_append]
        omega
      · simp only [interpretAll, NoEmptyRead, Along, Option.some.injEq, forall_eq']
        by_cases hempty : EmptyRead file c
        · refine iff_of_false ?_ (fun h => h.1 hempty)
          intro heq
          have hlength := congrArg List.length heq
          simp only [surplus, hempty, if_true, List.length_append] at hlength
          have hmessage : (ascii "End-of-file\n").length = 12 := rfl
          omega
        · simp only [surplus, hempty, if_false, List.nil_append,
            List.append_cancel_left_eq, not_false_eq_true, true_and]
          exact hiff

/-- **When the program reads faithfully.**  For every file and every list of
well-formed commands, with `malloc` succeeding and every transfer as large as
possible: the program ends successfully with the output and the file of the
reference if and only if no command of it is a read of no bytes before the end
of the file. -/
theorem interpreter_faithful_iff (program filepath : CStr) (content : List UInt8)
    (args : List CStr) (cs : List Command)
    (hpath : filepath.bytes ≠ ascii "--help") (hne : args ≠ [])
    (hspells : List.Forall₂ (fun arg c => Command.Spells arg c) args cs)
    (halloc : ∀ c ∈ cs, c.Allocates) :
    main (fun _ => .willing) none none program (filepath :: args) content =
        ⟨.success, (interpretAll filepath cs ⟨content, 0⟩).2, [],
          (interpretAll filepath cs ⟨content, 0⟩).1.content⟩ ↔
      NoEmptyRead filepath ⟨content, 0⟩ cs := by
  obtain ⟨out, hrun, _, hiff⟩ : ∃ out,
      commands (fun _ => .willing) program filepath 0 args ⟨content, 0⟩ = _ ∧ _ :=
    commands_eq_iff hspells halloc 0 ⟨content, 0⟩
  cases args with
  | nil => exact absurd rfl hne
  | cons arg rest =>
      simp only [main, hpath, if_false, hrun, Result.mk.injEq, true_and, and_true]
      exact hiff

def seekFour : CStr := ⟨ascii "s4", by decide⟩
def writeC : CStr := ⟨ascii "wC", by decide⟩
def seekOne : CStr := ⟨ascii "s1", by decide⟩
def readNine : CStr := ⟨ascii "r9", by decide⟩
def readNothing : CStr := ⟨ascii "r0", by decide⟩

theorem spells_read {arg : CStr} {length : Nat} (hhead : arg.bytes.head? = some 114)
    (hscan : scan .decimal (operand arg).bytes = some (⟨false, length⟩, [])) :
    (Command.read length).Spells arg :=
  ⟨hhead, ⟨false, length⟩, isNumeral_iff_scan.2 hscan, rfl⟩

theorem spells_seek {arg : CStr} {offset : Nat} (hhead : arg.bytes.head? = some 115)
    (hsmall : offset < 2 ^ 63)
    (hscan : scan .decimal (operand arg).bytes = some (⟨false, offset⟩, [])) :
    (Command.seek offset).Spells arg :=
  ⟨hhead, hsmall, ⟨false, offset⟩, isNumeral_iff_scan.2 hscan, rfl⟩

/-- A write beyond the end, a read across the gap and one at the end. -/
theorem interpreter_faithful_gap :
    main (fun _ => .willing) none none seekIoName
        [dataFile, writeAB, seekFour, writeC, seekOne, readNine, readNine] [] =
      ⟨.success, ascii ("Wrote 2 bytes to data\nSeeked to offset 4\nWrote 1 bytes to data\n" ++
        "Seeked to offset 1\nB??CEnd-of-file\n"), [], [65, 66, 0, 0, 67]⟩ :=
  (interpreter_faithful_iff seekIoName dataFile []
    [writeAB, seekFour, writeC, seekOne, readNine, readNine]
    [.write [65, 66], .seek 4, .write [67], .seek 1, .read 9, .read 9]
    (by decide) (by decide)
    (.cons ⟨rfl, rfl, by decide⟩ (.cons (spells_seek (by decide) (by decide) (by decide))
      (.cons ⟨rfl, rfl, by decide⟩ (.cons (spells_seek (by decide) (by decide) (by decide))
        (.cons (spells_read (by decide) (by decide))
          (.cons (spells_read (by decide) (by decide)) .nil))))))
    (by simp [Command.Allocates, Answer.allocates, Answer.willing])).2 (by decide)

/-- A read of no bytes at the start of a file of one byte is taken for one at
its end. -/
theorem empty_read_reported_as_end :
    (Command.read 0).Spells readNothing ∧
    main (fun _ => .willing) none none seekIoName [dataFile, readNothing] [65] =
      ⟨.success, ascii "End-of-file\n", [], [65]⟩ ∧
    interpretAll dataFile [.read 0] ⟨[65], 0⟩ = (⟨[65], 0⟩, []) :=
  ⟨spells_read (by decide) (by decide), by decide, by decide⟩

end Lpi.Ports.SeekIo
