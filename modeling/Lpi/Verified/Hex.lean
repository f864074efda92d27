import Lpi.Verified.Strtol
import Mathlib.Data.Nat.Digits.Lemmas

/-!
# Hexadecimal output

`hex02` is what `printf` prints for `%02x`: the digits of an `unsigned int`,
at least two of them.  A dump is one such group and a space for each byte, and
`decodeDump` reads it back.  For the values of a byte a group has two digits
(`hex02_eq`), so that the dump can be decoded (`decodeDump_dump`); for larger
ones it has more (`two_lt_length_hex02`).
-/

namespace Lpi.Verified.Hex

open Lpi.Verified.Strtol

/-- The lower-case digit for a value below 16. -/
def hexDigit (n : Nat) : UInt8 :=
  if n < 10 then UInt8.ofNat (48 + n) else UInt8.ofNat (87 + n)

/-- What `%x` prints. -/
def hexDigits (n : Nat) : List UInt8 :=
  if n = 0 then [48] else ((Nat.digits 16 n).map hexDigit).reverse

/-- What `%02x` prints. -/
def hex02 (n : Nat) : List UInt8 :=
  List.replicate (2 - (hexDigits n).length) 48 ++ hexDigits n

/-- A group and a space for each byte. -/
def dump (bs : List UInt8) : List UInt8 :=
  bs.flatMap fun b => hex02 b.toNat ++ [32]

def isLowerHex (b : UInt8) : Bool :=
  (48 ≤ b && b ≤ 57) || (97 ≤ b && b ≤ 102)

/-- The bytes of a text that consists of groups of two lower-case digits and a
space. -/
def decodeDump : List UInt8 → Option (List UInt8)
  | [] => some []
  | h :: l :: sp :: rest =>
      if isLowerHex h && isLowerHex l && sp == 32 then
        (decodeDump rest).map (UInt8.ofNat (16 * digit h + digit l) :: ·)
      else none
  | _ => none

theorem hex02_eq {n : Nat} (h : n < 256) :
    hex02 n = [hexDigit (n / 16), hexDigit (n % 16)] := by
  unfold hex02 hexDigits
  by_cases hzero : n = 0
  · subst hzero
    decide
  · rw [if_neg hzero]
    by_cases hsmall : n < 16
    · rw [Nat.digits_of_lt 16 n hzero hsmall, Nat.div_eq_of_lt hsmall,
        Nat.mod_eq_of_lt hsmall]
      rfl
    · have hdiv : n / 16 ≠ 0 := by omega
      rw [Nat.digits_def' (by decide) (by omega),
        Nat.digits_of_lt 16 (n / 16) hdiv (by omega)]
      rfl

/-- A value above those of a byte needs more than two digits. -/
theorem two_lt_length_hex02 {n : Nat} (h : 256 ≤ n) : 2 < (hex02 n).length := by
  have hne : n ≠ 0 := by omega
  have hdigits : 2 < (Nat.digits 16 n).length := by
    rw [Nat.lt_digits_length_iff (by decide)]
    omega
  rw [hex02, hexDigits, if_neg hne, List.length_append, List.length_reverse,
    List.length_map]
  omega

theorem digit_hexDigit {n : Nat} (h : n < 16) :
    digit (hexDigit n) = n ∧ isLowerHex (hexDigit n) = true := by
  interval_cases n <;> decide

theorem decodeDump_cons (b : UInt8) (text : List UInt8) :
    decodeDump (hex02 b.toNat ++ 32 :: text) = (decodeDump text).map (b :: ·) := by
  have hb := b.toNat_lt
  obtain ⟨hhigh, hhex⟩ := digit_hexDigit (show b.toNat / 16 < 16 by omega)
  obtain ⟨hlow, hlex⟩ := digit_hexDigit (show b.toNat % 16 < 16 by omega)
  have hbyte : UInt8.ofNat (16 * (b.toNat / 16) + b.toNat % 16) = b := by
    rw [Nat.div_add_mod, UInt8.ofNat_toNat]
  rw [hex02_eq hb]
  simp [decodeDump, hhex, hlex, hhigh, hlow, hbyte]

/-- A dump can be decoded. -/
theorem decodeDump_dump (bs : List UInt8) : decodeDump (dump bs) = some bs := by
  induction bs with
  | nil => rfl
  | cons b bs ih =>
      have hcons : dump (b :: bs) = hex02 b.toNat ++ 32 :: dump bs := by
        simp [dump]
      rw [hcons, decodeDump_cons, ih, Option.map_some]

theorem length_dump (bs : List UInt8) : (dump bs).length = 3 * bs.length := by
  induction bs with
  | nil => rfl
  | cons b bs ih =>
      have hgroup : (hex02 b.toNat).length = 2 := by
        rw [hex02_eq b.toNat_lt]
        rfl
      rw [dump, List.flatMap_cons, List.length_append, List.length_append, hgroup]
      rw [dump] at ih
      rw [ih]
      simp only [List.length_cons, List.length_nil]
      omega

end Lpi.Verified.Hex
