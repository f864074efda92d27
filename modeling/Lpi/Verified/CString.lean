import Mathlib.Data.List.Basic
import Mathlib.Data.List.TakeWhile
import Mathlib.Data.Nat.Digits.Lemmas

/-!
# C strings in fixed arrays

An argument of a program is a NUL-free byte string (`CStr`).  Copied into a
`char` array it is padded or cut, and read back up to the first NUL.  Names
made from a number (`%ld`) are told apart by the number
(`decimal_injective`).
-/

namespace Lpi.Verified.CString

/-- A C string without its terminating NUL. -/
structure CStr where
  bytes : List UInt8
  nulFree : 0 ∉ bytes
  deriving DecidableEq

theorem zero_notMem_nil : (0 : UInt8) ∉ [] := List.not_mem_nil

/-- The empty string. -/
def CStr.empty : CStr := ⟨[], zero_notMem_nil⟩

/-- The bytes of an ASCII text of the source. -/
def ascii (text : String) : List UInt8 :=
  text.toList.map fun c => UInt8.ofNat c.toNat

/-- The C string at the start of a `char` array. -/
def cString (array : List UInt8) : List UInt8 := array.takeWhile (· ≠ 0)

/-- The `n` bytes that `strncpy(dst, src, n)` stores. -/
def strncpy (src : List UInt8) (n : Nat) : List UInt8 :=
  src.take n ++ List.replicate (n - src.length) 0

/-- What `snprintf(dst, size, ...)` leaves in `dst` of its whole text, the
terminating NUL not counted. -/
def snprintf (size : Nat) (text : List UInt8) : List UInt8 :=
  text.take (size - 1)

private theorem takeWhile_append_zero {src : List UInt8} (h : 0 ∉ src)
    (pad : List UInt8) (hpad : pad.head? = some 0) :
    (src ++ pad).takeWhile (· ≠ 0) = src := by
  induction src with
  | nil =>
      cases pad with
      | nil => rfl
      | cons b bs =>
          simp only [List.head?_cons, Option.some.injEq] at hpad
          simp [hpad]
  | cons b src ih =>
      simp only [List.mem_cons, not_or] at h
      have hb : b ≠ 0 := fun hb => h.1 hb.symm
      rw [List.cons_append, List.takeWhile_cons, if_pos (by simpa using hb),
        ih h.2]

theorem zero_notMem_cString (array : List UInt8) : 0 ∉ cString array := by
  intro h
  have hne := List.mem_takeWhile_imp h
  simp at hne

/-- A string is read up to its NUL, whatever follows. -/
theorem cString_append_zero {src : List UInt8} (h : 0 ∉ src) (rest : List UInt8) :
    cString (src ++ 0 :: rest) = src :=
  takeWhile_append_zero h (0 :: rest) rfl

/-- A string is the beginning of its array. -/
theorem getElem?_cString {array : List UInt8} {i : Nat} (h : i < (cString array).length) :
    array[i]? = (cString array)[i]? := by
  obtain ⟨rest, hrest⟩ : cString array <+: array := List.takeWhile_prefix _
  calc array[i]? = (cString array ++ rest)[i]? := by rw [hrest]
    _ = (cString array)[i]? := List.getElem?_append_left h

/-- A NUL in the place of the last character shortens a string. -/
theorem cString_set_last (array : List UInt8) (hne : cString array ≠ []) :
    cString (array.set ((cString array).length - 1) 0) = (cString array).dropLast := by
  have hsplit : array = cString array ++ array.dropWhile (· ≠ 0) :=
    List.takeWhile_append_dropWhile.symm
  have hnul := zero_notMem_cString array
  generalize cString array = src at hne hsplit hnul ⊢
  rw [hsplit]
  rcases List.eq_nil_or_concat src with rfl | ⟨init, b, rfl⟩
  · exact absurd rfl hne
  · rw [List.concat_eq_append] at hnul ⊢
    rw [List.dropLast_concat, List.length_append, List.length_singleton,
      Nat.add_sub_cancel, List.append_assoc, List.set_append_right _ _ (Nat.le_refl _),
      Nat.sub_self]
    apply cString_append_zero
    exact fun hmem => hnul (List.mem_append_left _ hmem)

/-- Without a NUL, a string goes on behind its beginning. -/
theorem cString_append {src : List UInt8} (h : 0 ∉ src) (rest : List UInt8) :
    cString (src ++ rest) = src ++ cString rest := by
  apply List.takeWhile_append_of_pos
  intro b hb
  simpa using fun hzero : b = 0 => h (hzero ▸ hb)

/-- If there is a NUL, the string ends before it. -/
theorem length_cString_lt {array : List UInt8} (h : 0 ∈ array) :
    (cString array).length < array.length := by
  obtain ⟨src, rest, rfl, hsrc⟩ := List.eq_append_cons_of_mem h
  rw [cString_append_zero hsrc, List.length_append, List.length_cons]
  omega

/-- Then what follows the array is not read. -/
theorem cString_append_of_mem {array : List UInt8} (h : 0 ∈ array) (more : List UInt8) :
    cString (array ++ more) = cString array := by
  obtain ⟨src, rest, rfl, hsrc⟩ := List.eq_append_cons_of_mem h
  rw [List.append_assoc, List.cons_append, cString_append_zero hsrc,
    cString_append_zero hsrc]

/-- A string that fits is read back as it was copied: `strncpy` into all but
the last byte of the array, and a NUL there. -/
theorem cString_strncpy (s : CStr) {n : Nat} (hlen : s.bytes.length ≤ n) :
    cString (strncpy s.bytes n ++ [0]) = s.bytes := by
  rw [cString, strncpy, List.take_of_length_le hlen, List.append_assoc]
  apply takeWhile_append_zero s.nulFree
  rw [List.head?_append]
  cases n - s.bytes.length with
  | zero => rfl
  | succ m => rfl

theorem snprintf_eq_self {size : Nat} {text : List UInt8}
    (h : text.length < size) : snprintf size text = text := by
  apply List.take_of_length_le
  omega

/-! ## Numbers in names -/

/-- The decimal digits of `n`, most significant first. -/
def digitChars (n : Nat) : List UInt8 :=
  if n = 0 then [48]
  else ((Nat.digits 10 n).map fun d => UInt8.ofNat (48 + d)).reverse

/-- What `%ld` prints. -/
def decimal (x : Int) : List UInt8 :=
  if x < 0 then 45 :: digitChars x.natAbs else digitChars x.natAbs

private theorem toNat_digitChar {d : Nat} (h : d < 10) :
    (UInt8.ofNat (48 + d)).toNat = 48 + d := by
  rw [UInt8.toNat_ofNat']
  omega

/-- The number can be read off its digits. -/
private theorem ofDigits_digitChars (n : Nat) :
    Nat.ofDigits 10 ((digitChars n).reverse.map fun b => b.toNat - 48) = n := by
  unfold digitChars
  split
  · rename_i hn
    rw [hn]
    decide
  · rw [List.reverse_reverse, List.map_map]
    have hdigits : (Nat.digits 10 n).map
        ((fun b : UInt8 => b.toNat - 48) ∘ fun d => UInt8.ofNat (48 + d)) =
        Nat.digits 10 n := by
      conv_rhs => rw [← List.map_id (Nat.digits 10 n)]
      apply List.map_congr_left
      intro d hd
      have hlt : d < 10 := Nat.digits_lt_base (by decide) hd
      rw [Function.comp_apply, toNat_digitChar hlt, id]
      omega
    rw [hdigits, Nat.ofDigits_digits]

theorem digitChars_injective : Function.Injective digitChars := by
  intro m n h
  rw [← ofDigits_digitChars m, h, ofDigits_digitChars]

private theorem sign_notMem_digitChars (n : Nat) : 45 ∉ digitChars n := by
  unfold digitChars
  split
  · decide
  · rw [List.mem_reverse, List.mem_map]
    rintro ⟨d, hd, hsign⟩
    have hlt : d < 10 := Nat.digits_lt_base (by decide) hd
    have htoNat := congrArg UInt8.toNat hsign
    rw [toNat_digitChar hlt] at htoNat
    have hsignNat : (45 : UInt8).toNat = 45 := rfl
    omega

theorem length_digitChars_le {n k : Nat} (hk : 0 < k) (hn : n < 10 ^ k) :
    (digitChars n).length ≤ k := by
  unfold digitChars
  split
  · exact hk
  · rw [List.length_reverse, List.length_map]
    exact (Nat.digits_length_le_iff (by decide) n).2 hn

theorem decimal_injective : Function.Injective decimal := by
  intro x y h
  unfold decimal at h
  split at h <;> split at h
  · have habs := digitChars_injective (List.cons.inj h).2
    omega
  · exact absurd (h ▸ List.mem_cons_self) (sign_notMem_digitChars _)
  · exact absurd (h ▸ List.mem_cons_self) (sign_notMem_digitChars _)
  · have habs := digitChars_injective h
    omega

theorem length_decimal_le {x : Int} {k : Nat} (hk : 0 < k)
    (hx : x.natAbs < 10 ^ k) : (decimal x).length ≤ k + 1 := by
  have hdigits := length_digitChars_le hk hx
  unfold decimal
  split
  · simpa using hdigits
  · omega

/-- A process identifier has at most ten digits and a sign, so a name made
from it fits if there is room for eleven bytes more. -/
theorem snprintf_pid {size : Nat} {pre : List UInt8}
    (h : pre.length + 11 < size) (pid : Int32) :
    snprintf size (pre ++ decimal pid.toInt) = pre ++ decimal pid.toInt := by
  apply snprintf_eq_self
  have hlow : -2 ^ 31 ≤ pid.toInt := pid.le_toInt
  have hhigh : pid.toInt < 2 ^ 31 := pid.toInt_lt
  have hdigits : (decimal pid.toInt).length ≤ 10 + 1 :=
    length_decimal_le (by decide) (by omega)
  rw [List.length_append]
  omega

/-- Then different processes have different names. -/
theorem snprintf_pid_injective {size : Nat} {pre : List UInt8}
    (h : pre.length + 11 < size) :
    Function.Injective fun pid : Int32 =>
      snprintf size (pre ++ decimal pid.toInt) := by
  intro p q hpq
  simp only [snprintf_pid h, List.append_cancel_left_eq] at hpq
  exact Int32.toInt_inj.1 (decimal_injective hpq)

end Lpi.Verified.CString
