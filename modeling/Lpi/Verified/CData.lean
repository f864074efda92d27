import Mathlib.Data.List.Basic
import Mathlib.Data.Nat.Digits.Defs

/-!
# C data: integers, their bytes, exit statuses

A C `int` of the modelled programs is an `Int32`: addition wraps, and
`toInt` is the number a `%d` prints.  On the wire an `int` is its four
little-endian bytes; a `read()` into the variable may fill only the first of
them and leave the others as they were, which is `overlay`.

`intOfBytes_bytesOfInt` is the round trip; `overlay_full` says that a read of
the whole object leaves nothing of the old contents.
-/

namespace Lpi.Verified.CData

/-- `EXIT_SUCCESS` and `EXIT_FAILURE`. -/
inductive Exit where
  | success
  | failure
  deriving DecidableEq, Repr

/-- `sizeof(int)`. -/
def sizeofInt : Nat := 4

/-- The object representation of an `int`, least significant byte first. -/
def bytesOfInt (x : Int32) : List UInt8 :=
  (List.range sizeofInt).map fun i => UInt8.ofNat (x.toBitVec.toNat / 256 ^ i)

/-- The `int` with the given object representation. -/
def intOfBytes (bs : List UInt8) : Int32 :=
  .ofBitVec (BitVec.ofNat 32 (Nat.ofDigits 256 (bs.map UInt8.toNat)))

@[simp] theorem length_bytesOfInt (x : Int32) : (bytesOfInt x).length = 4 := by
  simp [bytesOfInt, sizeofInt]

@[simp] theorem intOfBytes_bytesOfInt (x : Int32) :
    intOfBytes (bytesOfInt x) = x := by
  have hlt : x.toBitVec.toNat < 2 ^ 32 := x.toBitVec.isLt
  have hdigits : Nat.ofDigits 256 ((bytesOfInt x).map UInt8.toNat) =
      x.toBitVec.toNat := by
    simp only [bytesOfInt, sizeofInt, List.range_succ, List.range_zero,
      List.nil_append, List.cons_append, List.map_cons, List.map_nil,
      UInt8.toNat_ofNat', Nat.ofDigits_cons, Nat.ofDigits_nil]
    omega
  rw [intOfBytes, hdigits, BitVec.ofNat_toNat, BitVec.setWidth_eq]
  rfl

theorem bytesOfInt_injective : Function.Injective bytesOfInt :=
  Function.LeftInverse.injective intOfBytes_bytesOfInt

/-- The contents of an object after a `read()` stored `bs` at its start:
bytes past `bs` keep their old value. -/
def overlay (bs old : List UInt8) : List UInt8 := bs ++ old.drop bs.length

theorem take_overlay (bs old : List UInt8) :
    (overlay bs old).take bs.length = bs := by
  simp [overlay]

theorem overlay_full {bs old : List UInt8} (h : old.length ≤ bs.length) :
    overlay bs old = bs := by
  simp [overlay, List.drop_eq_nil_of_le h]

/-- A non-negative number that fits is not mistaken for zero. -/
theorem ofNat_eq_zero {n : Nat} (h : n < 2 ^ 31) :
    Int32.ofNat n = 0 ↔ n = 0 := by
  rw [← Int32.toInt_inj, Int32.toInt_ofNat_of_lt h, Int32.toInt_zero]
  omega

/-- Nor for the error return `-1`. -/
theorem ofNat_ne_neg_one {n : Nat} (h : n < 2 ^ 31) : Int32.ofNat n ≠ -1 := by
  intro hn
  have htoInt := congrArg Int32.toInt hn
  rw [Int32.toInt_ofNat_of_lt h] at htoInt
  have hneg : (-1 : Int32).toInt = -1 := by decide
  omega

end Lpi.Verified.CData
