import Lpi.Ports.SeekIo
import Lpi.Ports.XattrView

/-!
# The two hexadecimal dumps

`R<length>` of `seek_io.c` and `printValueHex` of `xattr_view.c` both print
each byte with `%02x`.  The first one converts a `char` to `unsigned int`, the
second one reads the bytes as `unsigned char`.  `hex_dumps_agree_iff` says for
which bytes this is the same.
-/

namespace Lpi.Ports.HexDumps

open Lpi.Verified.CData
open Lpi.Verified.CInt
open Lpi.Verified.CString
open Lpi.Verified.Hex
open Lpi.Ports.SeekIo

/-! ## Bytes as numbers -/

theorem promote_of_lt {b : UInt8} (h : b < 128) : promote b = b.toNat := by
  have hb : b.toNat < 128 := h
  have hchar : IntType.char.wrap b.toNat = b.toNat :=
    IntType.wrap_of_fits (by simp [IntType.Fits, IntType.low, IntType.char]; omega)
  have huint : IntType.uint.wrap b.toNat = b.toNat :=
    IntType.wrap_of_fits (by simp [IntType.Fits, IntType.low, IntType.uint]; omega)
  rw [promote, hchar, huint, Int.toNat_natCast]

/-- A byte with the top bit set is a negative `char`, and a large
`unsigned int`. -/
theorem le_promote {b : UInt8} (h : 128 ≤ b) : 256 ≤ promote b := by
  have hlow : 128 ≤ b.toNat := h
  have hhigh := b.toNat_lt
  simp only [promote, IntType.wrap, IntType.low, IntType.char, IntType.uint, if_true,
    Bool.false_eq_true, if_false]
  omega

/-! ## Dumps of byte strings -/

theorem display_hex_eq_dump {bs : List UInt8} (h : ∀ b ∈ bs, b < 128) :
    display .hex bs = dump bs := by
  rw [display, dump]
  apply List.flatMap_congr
  intro b hb
  rw [promote_of_lt (h b hb)]

/-- No group is shorter than two digits. -/
theorem two_le_length_hex02 (n : Nat) : 2 ≤ (hex02 n).length := by
  rw [hex02, List.length_append, List.length_replicate]
  omega

theorem le_length_display (bs : List UInt8) :
    3 * bs.length ≤ (display .hex bs).length := by
  induction bs with
  | nil => exact Nat.le_refl 0
  | cons b bs ih =>
      have hgroup := two_le_length_hex02 (promote b)
      rw [display, List.flatMap_cons, List.length_append, List.length_append]
      rw [display] at ih
      simp only [List.length_cons, List.length_nil]
      omega

/-- A byte with the top bit set makes the text longer than a dump. -/
theorem lt_length_display {bs : List UInt8} {b : UInt8} (hb : b ∈ bs) (htop : 128 ≤ b) :
    3 * bs.length < (display .hex bs).length := by
  obtain ⟨pre, post, rfl⟩ := List.append_of_mem hb
  have hpre := le_length_display pre
  have hpost := le_length_display post
  have hgroup := two_lt_length_hex02 (le_promote htop)
  simp only [display, List.flatMap_append, List.flatMap_cons, List.length_append,
    List.length_cons, List.length_nil] at hpre hpost ⊢
  omega

theorem display_hex_eq_dump_iff {bs : List UInt8} :
    display .hex bs = dump bs ↔ ∀ b ∈ bs, b < 128 := by
  constructor
  · intro heq b hb
    by_contra htop
    have hlt := lt_length_display hb (UInt8.not_lt.1 htop)
    rw [heq, length_dump] at hlt
    exact Nat.lt_irrefl _ hlt
  · exact display_hex_eq_dump

/-- `printValueHex` prints a dump of the value, whatever the buffer holds behind
it. -/
theorem printValueHex_eq (bs old : List UInt8) :
    XattrView.printValueHex bs.length (overlay bs old) = dump bs ++ ascii "\n" := by
  rw [XattrView.printValueHex, take_overlay, dump]

/-! ## The programs -/

section Programs

variable {a : Answer} {program filepath arg : CStr} {file : File} {length : Int}

theorem command_hex (hR : arg.bytes.head? = some 82)
    (hlength : NumericArgs.SeekIo.getUnsignedLong (operand arg) = .ok length) :
    command a program filepath file arg =
      readDisplayBytes a file length.toNat .hex := by
  have htwo := operand_ne_nil hlength
  simp [command, hR, hlength, Nat.not_lt.2 htwo]

end Programs

/-- **Where the dumps agree.**  For every non-empty byte string that an `R`
command reads: the text that it prints is the text that `printValueHex` prints
for the same value, up to the newline, and can be decoded, if and only if no
byte has its top bit set. -/
theorem hex_dumps_agree_iff (a : Answer) (program filepath arg : CStr) (file : File)
    (length : Int) (b old : List UInt8) (hR : arg.bytes.head? = some 82)
    (hlength : NumericArgs.SeekIo.getUnsignedLong (operand arg) = .ok length)
    (halloc : a.allocates length.toNat = true) (herror : a.error = none)
    (hread : a.read file length.toNat = b) (hne : b ≠ []) :
    (∃ file' text, command a program filepath file arg = .next file' text ∧
        XattrView.printValueHex b.length (overlay b old) = text ++ ascii "\n" ∧
        decodeDump text = some b) ↔
      ∀ x ∈ b, x < 128 := by
  rw [command_hex hR hlength, readDisplayBytes_granted halloc herror, hread, if_neg hne,
    printValueHex_eq]
  constructor
  · rintro ⟨file', text, hnext, hagree, _⟩
    obtain ⟨_, rfl⟩ := Outcome.next.inj hnext
    exact display_hex_eq_dump_iff.1 (List.append_cancel_right hagree).symm
  · intro hsmall
    have hdump := display_hex_eq_dump hsmall
    exact ⟨_, _, rfl, by rw [hdump], by rw [hdump, decodeDump_dump]⟩

def readTwo : CStr := ⟨ascii "R2", by decide⟩

/-- Two bytes without the top bit, over an older and longer value. -/
theorem hex_dumps_agree_newline :
    ∃ file' text, command .willing seekIoName dataFile ⟨[65, 10], 0⟩ readTwo =
        .next file' text ∧
      XattrView.printValueHex 2 (overlay [65, 10] [1, 2, 3]) = text ++ ascii "\n" ∧
      decodeDump text = some [65, 10] :=
  (hex_dumps_agree_iff .willing seekIoName dataFile readTwo ⟨[65, 10], 0⟩ 2 [65, 10]
    [1, 2, 3] (by decide) (by decide) (by decide) rfl (by decide) (by decide)).2
    (by simp)

/-- The byte 80 (in hexadecimal) is printed as an `int` that is negative. -/
theorem hex_dumps_differ :
    command .willing seekIoName dataFile ⟨[128], 0⟩ readTwo =
        .next ⟨[128], 1⟩ (ascii "ffffff80 ") ∧
      XattrView.printValueHex 1 [128] = ascii "80 \n" ∧
      ascii "80 \n" ≠ ascii "ffffff80 " ++ ascii "\n" ∧
      decodeDump (ascii "ffffff80 ") ≠ some [128] := by
  decide

end Lpi.Ports.HexDumps
