import Lpi.Verified.CInt
import Mathlib.Data.List.TakeWhile

/-!
# `strtol` and `strtoul`

The conversion of the start of a string to an integer, as the C standard and
glibc define it in the C locale: white space is skipped, a sign may follow,
then a base prefix, then as many digits as there are.  The value is unbounded
at first (`scan`) and then brought into the range of the result type, with
`ERANGE` where it does not fit.

The standard describes what is converted as the longest initial part of the
string that has the form of a number.  `IsNumeral` is this form and
`IsLeading` the longest such part; `scan_eq_some_iff` says that the scanner
finds it.

`strtol` stores in `*endptr` the place where the number ends.  Here that is
the rest of the string from there on, so that `*endptr == '\0'` reads
`endptr = []`; as it is a rest of the string, `endptr == str` reads
`endptr = str`.
-/

namespace Lpi.Verified.Strtol

open Lpi.Verified.CInt

/-- The base a caller asks for; 0 leaves it to the string. -/
structure Base where
  val : Nat
  valid : val = 0 ∨ 2 ≤ val ∧ val ≤ 36
  deriving DecidableEq

namespace Base

def auto : Base := ⟨0, by decide⟩
def octal : Base := ⟨8, by decide⟩
def decimal : Base := ⟨10, by decide⟩

end Base

/-! ## The scanner -/

/-- `isspace` in the C locale. -/
def isspace (b : UInt8) : Bool := b == 32 || (9 ≤ b && b ≤ 13)

/-- The value of a digit or a letter, and 36 for all other bytes. -/
def digit (b : UInt8) : Nat :=
  if 48 ≤ b ∧ b ≤ 57 then b.toNat - 48
  else if 97 ≤ b ∧ b ≤ 122 then b.toNat - 87
  else if 65 ≤ b ∧ b ≤ 90 then b.toNat - 55
  else 36

def isDigit (radix : Nat) (b : UInt8) : Bool := digit b < radix

/-- The number that digits stand for. -/
def number (radix : Nat) (ds : List UInt8) : Nat :=
  ds.foldl (fun n d => n * radix + digit d) 0

/-- What a number is without its spelling: `-0` is not `0`. -/
structure Numeral where
  negative : Bool
  magnitude : Nat
  deriving DecidableEq, Repr

def Numeral.value (n : Numeral) : Int :=
  if n.negative then -(n.magnitude : Int) else n.magnitude

/-- The sign, if there is one, and what follows. -/
def takeSign : List UInt8 → Bool × List UInt8
  | [] => (false, [])
  | b :: s => if b = 45 then (true, s) else if b = 43 then (false, s) else (false, b :: s)

/-- Digits without a prefix are decimal unless the base is given or they start
with a 0. -/
def plainRadix (base : Base) (s : List UInt8) : Nat :=
  if base.val ≠ 0 then base.val
  else if s.head? = some 48 then 8
  else 10

/-- `0x` or `0X`, which is a prefix only in front of a hexadecimal digit. -/
def hexPrefix (base : Base) : List UInt8 → Bool
  | zero :: x :: d :: _ =>
      (base.val == 0 || base.val == 16) && zero == 48 && (x == 120 || x == 88) &&
        isDigit 16 d
  | _ => false

/-- The digits of a radix at the start of `s`, and the rest. -/
def scanDigits (radix : Nat) (s : List UInt8) : Option (Nat × List UInt8) :=
  if s.takeWhile (isDigit radix) = [] then none
  else some (number radix (s.takeWhile (isDigit radix)), s.dropWhile (isDigit radix))

def scanMagnitude (base : Base) (s : List UInt8) : Option (Nat × List UInt8) :=
  if hexPrefix base s then scanDigits 16 (s.drop 2)
  else scanDigits (plainRadix base s) s

/-- The number at the start of `s` and what follows it, if there is one. -/
def scan (base : Base) (s : List UInt8) : Option (Numeral × List UInt8) :=
  let t := takeSign (s.dropWhile isspace)
  (scanMagnitude base t.2).map fun r => (⟨t.1, r.1⟩, r.2)

/-! ## The form of a number -/

/-- A number without white space and sign. -/
inductive IsMagnitude (base : Base) : List UInt8 → Nat → Prop
  | plain {ds : List UInt8} (hds : ds ≠ [])
      (hdigits : ∀ d ∈ ds, isDigit (plainRadix base ds) d = true) :
      IsMagnitude base ds (number (plainRadix base ds) ds)
  | hex {x : UInt8} {ds : List UInt8} (hbase : base.val = 0 ∨ base.val = 16)
      (hx : x = 120 ∨ x = 88) (hds : ds ≠ [])
      (hdigits : ∀ d ∈ ds, isDigit 16 d = true) :
      IsMagnitude base (48 :: x :: ds) (number 16 ds)

inductive IsSign : List UInt8 → Bool → Prop
  | none : IsSign [] false
  | plus : IsSign [43] false
  | minus : IsSign [45] true

/-- White space, a sign, a prefix and digits, at least one of them. -/
def IsNumeral (base : Base) (s : List UInt8) (n : Numeral) : Prop :=
  ∃ space sign digits, s = space ++ (sign ++ digits) ∧
    (∀ b ∈ space, isspace b = true) ∧ IsSign sign n.negative ∧
    IsMagnitude base digits n.magnitude

/-- The longest initial part of `s` that is a number; `rest` is what
follows. -/
def IsLeading (base : Base) (s : List UInt8) (n : Numeral) (rest : List UInt8) :
    Prop :=
  ∃ p, s = p ++ rest ∧ IsNumeral base p n ∧
    ∀ q, q <+: s → (∃ m, IsNumeral base q m) → q.length ≤ p.length

/-! ## What the scanner finds has the form -/

theorem scanDigits_sound {radix m : Nat} {s rest : List UInt8}
    (h : scanDigits radix s = some (m, rest)) :
    ∃ ds, s = ds ++ rest ∧ ds ≠ [] ∧ (∀ d ∈ ds, isDigit radix d = true) ∧
      m = number radix ds := by
  simp only [scanDigits, Option.ite_none_left_eq_some, Option.some.injEq,
    Prod.mk.injEq] at h
  obtain ⟨hne, rfl, rfl⟩ := h
  refine ⟨s.takeWhile (isDigit radix), ?_, hne, ?_, rfl⟩
  · exact List.takeWhile_append_dropWhile.symm
  · intro d hd
    exact List.mem_takeWhile_imp hd

theorem hexPrefix_eq_true {base : Base} {s : List UInt8}
    (h : hexPrefix base s = true) :
    ∃ x d t, s = 48 :: x :: d :: t ∧ (base.val = 0 ∨ base.val = 16) ∧
      (x = 120 ∨ x = 88) ∧ isDigit 16 d = true := by
  unfold hexPrefix at h
  split at h
  · rename_i zero x d t
    simp only [Bool.and_eq_true, Bool.or_eq_true, beq_iff_eq] at h
    obtain ⟨⟨⟨hbase, rfl⟩, hx⟩, hd⟩ := h
    exact ⟨x, d, t, rfl, hbase, hx, hd⟩
  · cases h

/-- The radix is decided by the first digit. -/
theorem plainRadix_append (base : Base) {ds : List UInt8} (hds : ds ≠ [])
    (t : List UInt8) : plainRadix base (ds ++ t) = plainRadix base ds := by
  obtain ⟨d, ds, rfl⟩ := List.exists_cons_of_ne_nil hds
  rfl

theorem scanMagnitude_sound {base : Base} {m : Nat} {s rest : List UInt8}
    (h : scanMagnitude base s = some (m, rest)) :
    ∃ p, s = p ++ rest ∧ IsMagnitude base p m := by
  unfold scanMagnitude at h
  split at h
  · rename_i hhex
    obtain ⟨x, d, t, rfl, hbase, hx, _⟩ := hexPrefix_eq_true hhex
    obtain ⟨ds, hsplit, hne, hdigits, rfl⟩ := scanDigits_sound h
    refine ⟨48 :: x :: ds, ?_, .hex hbase hx hne hdigits⟩
    show 48 :: x :: (d :: t) = 48 :: x :: (ds ++ rest)
    rw [← hsplit]
    rfl
  · obtain ⟨ds, rfl, hne, hdigits, rfl⟩ := scanDigits_sound h
    rw [plainRadix_append base hne] at hdigits ⊢
    exact ⟨ds, rfl, .plain hne hdigits⟩

theorem takeSign_of_ne {b : UInt8} (hminus : b ≠ 45) (hplus : b ≠ 43)
    (s : List UInt8) : takeSign (b :: s) = (false, b :: s) := by
  simp only [takeSign, if_neg hminus, if_neg hplus]

theorem takeSign_sound (s : List UInt8) :
    ∃ sign, s = sign ++ (takeSign s).2 ∧ IsSign sign (takeSign s).1 := by
  cases s with
  | nil => exact ⟨[], rfl, .none⟩
  | cons b s =>
      by_cases hminus : b = 45
      · subst hminus
        exact ⟨[45], rfl, .minus⟩
      · by_cases hplus : b = 43
        · subst hplus
          exact ⟨[43], rfl, .plus⟩
        · rw [takeSign_of_ne hminus hplus]
          exact ⟨[], rfl, .none⟩

theorem scan_sound {base : Base} {s rest : List UInt8} {n : Numeral}
    (h : scan base s = some (n, rest)) :
    ∃ p, s = p ++ rest ∧ IsNumeral base p n := by
  simp only [scan, Option.map_eq_some_iff, Prod.mk.injEq] at h
  obtain ⟨⟨m, rest'⟩, hmagnitude, rfl, rfl⟩ := h
  obtain ⟨digits, hdigits, hform⟩ := scanMagnitude_sound hmagnitude
  obtain ⟨sign, hsplit, hsign⟩ := takeSign_sound (s.dropWhile isspace)
  refine ⟨s.takeWhile isspace ++ (sign ++ digits), ?_, s.takeWhile isspace,
    sign, digits, rfl, ?_, hsign, hform⟩
  · rw [List.append_assoc, List.append_assoc, ← hdigits, ← hsplit,
      List.takeWhile_append_dropWhile]
  · intro b hb
    exact List.mem_takeWhile_imp hb

/-! ## Everything of that form is found -/

/-- The result of scanning a string in front of which `a` stands, `t` being
what follows `a`: the scan goes at least to the end of `a`, and yields it if
nothing follows. -/
def ReadsPast {α : Type} (a : α) (t : List UInt8)
    (result : Option (α × List UInt8)) : Prop :=
  ∃ b rest, result = some (b, rest) ∧ rest <:+ t ∧ (t = [] → b = a)

theorem scanDigits_append {radix : Nat} {ds : List UInt8} (hds : ds ≠ [])
    (hdigits : ∀ d ∈ ds, isDigit radix d = true) (t : List UInt8) :
    ReadsPast (number radix ds) t (scanDigits radix (ds ++ t)) := by
  have htake : (ds ++ t).takeWhile (isDigit radix) =
      ds ++ t.takeWhile (isDigit radix) := List.takeWhile_append_of_pos hdigits
  have hne : (ds ++ t).takeWhile (isDigit radix) ≠ [] := by
    rw [htake]
    exact List.append_ne_nil_of_left_ne_nil hds _
  refine ⟨_, _, if_neg hne, ?_, ?_⟩
  · rw [List.dropWhile_append_of_pos hdigits]
    exact List.dropWhile_suffix _
  · rintro rfl
    rw [htake, List.takeWhile_nil, List.append_nil]

/-- No `x` is a digit where `0x` could be a prefix. -/
theorem isDigit_x {base : Base} {x : UInt8} {t : List UInt8}
    (hbase : base.val = 0 ∨ base.val = 16) (hx : x = 120 ∨ x = 88) :
    isDigit (plainRadix base (48 :: t)) x = false := by
  rcases hbase with hbase | hbase <;> rcases hx with rfl | rfl <;>
    simp [plainRadix, hbase, isDigit, digit]

theorem scanMagnitude_append {base : Base} {p : List UInt8} {m : Nat}
    (h : IsMagnitude base p m) (t : List UInt8) :
    ReadsPast m t (scanMagnitude base (p ++ t)) := by
  cases h with
  | hex hbase hx hds hdigits =>
      rename_i x ds
      obtain ⟨d, ds, rfl⟩ := List.exists_cons_of_ne_nil hds
      have hhex : hexPrefix base (48 :: x :: (d :: ds) ++ t) = true := by
        have hd := hdigits d List.mem_cons_self
        simp [hexPrefix, hbase, hx, hd]
      unfold scanMagnitude
      rw [if_pos hhex]
      exact scanDigits_append hds hdigits t
  | plain hds hdigits =>
      unfold scanMagnitude
      split
      · -- the digits are a single 0, and the prefix goes on behind them
        rename_i hhex
        obtain ⟨x, d, u, hsplit, hbase, hx, hd⟩ := hexPrefix_eq_true hhex
        obtain ⟨zero, ds, rfl⟩ := List.exists_cons_of_ne_nil hds
        obtain ⟨rfl, htail⟩ := List.cons.inj hsplit
        cases ds with
        | cons y ds =>
            obtain ⟨rfl, _⟩ := List.cons.inj htail
            have hdigit := hdigits y (by simp)
            rw [isDigit_x hbase hx] at hdigit
            cases hdigit
        | nil =>
            obtain rfl : t = x :: d :: u := htail
            have hone : ∀ e ∈ [d], isDigit 16 e = true := by
              simpa using hd
            obtain ⟨n, rest, hscan, hsuffix, _⟩ :=
              scanDigits_append (List.cons_ne_nil d []) hone u
            refine ⟨n, rest, hscan, ?_, by simp⟩
            exact hsuffix.trans (List.suffix_append [x, d] u)
      · rw [plainRadix_append base hds]
        exact scanDigits_append hds hdigits t

theorem plainRadix_le (base : Base) (s : List UInt8) : plainRadix base s ≤ 36 := by
  have hvalid := base.valid
  unfold plainRadix
  split
  · omega
  · split <;> omega

/-- White space and signs are not digits. -/
theorem not_space_of_digit {b : UInt8} (h : digit b < 36) :
    isspace b = false ∧ b ≠ 45 ∧ b ≠ 43 := by
  have hrange : (48 ≤ b.toNat ∧ b.toNat ≤ 57) ∨ (97 ≤ b.toNat ∧ b.toNat ≤ 122) ∨
      (65 ≤ b.toNat ∧ b.toNat ≤ 90) := by
    unfold digit at h
    split at h
    · rename_i hdecimal
      exact Or.inl hdecimal
    · split at h
      · rename_i hlower
        exact Or.inr (Or.inl hlower)
      · split at h
        · rename_i hupper
          exact Or.inr (Or.inr hupper)
        · omega
  refine ⟨?_, ?_, ?_⟩
  · simp only [isspace, Bool.or_eq_false_iff, Bool.and_eq_false_iff,
      beq_eq_false_iff_ne, decide_eq_false_iff_not, UInt8.le_iff_toNat_le]
    refine ⟨?_, ?_⟩
    · rintro rfl
      simp at hrange
    · have hthirteen : (13 : UInt8).toNat = 13 := rfl
      omega
  · rintro rfl
    simp at hrange
  · rintro rfl
    simp at hrange

/-- The first byte of a number is neither white space nor a sign. -/
theorem IsMagnitude.head {base : Base} {p : List UInt8} {m : Nat}
    (h : IsMagnitude base p m) :
    ∃ b s, p = b :: s ∧ isspace b = false ∧ b ≠ 45 ∧ b ≠ 43 := by
  cases h with
  | hex hbase hx hds hdigits => exact ⟨48, _, rfl, by decide, by decide, by decide⟩
  | plain hds hdigits =>
      obtain ⟨d, ds, rfl⟩ := List.exists_cons_of_ne_nil hds
      have hd := of_decide_eq_true (hdigits d List.mem_cons_self)
      exact ⟨d, ds, rfl,
        not_space_of_digit (Nat.lt_of_lt_of_le hd (plainRadix_le _ _))⟩

/-- Behind the white space, sign and digits are taken apart where they were
put together. -/
theorem takeSign_append {base : Base} {sign digits : List UInt8} {neg : Bool}
    {m : Nat} (hsign : IsSign sign neg) (hdigits : IsMagnitude base digits m)
    (t : List UInt8) :
    takeSign ((sign ++ (digits ++ t)).dropWhile isspace) = (neg, digits ++ t) := by
  obtain ⟨b, s, rfl, hspace, hminus, hplus⟩ := hdigits.head
  cases hsign with
  | none =>
      rw [List.nil_append, List.cons_append, List.dropWhile_cons_of_neg (by simp [hspace]),
        takeSign_of_ne hminus hplus]
  | plus => rfl
  | minus => rfl

theorem scan_append {base : Base} {p : List UInt8} {n : Numeral}
    (h : IsNumeral base p n) (t : List UInt8) :
    ReadsPast n t (scan base (p ++ t)) := by
  obtain ⟨space, sign, digits, rfl, hspace, hsign, hdigits⟩ := h
  obtain ⟨m, rest, hscan, hsuffix, hexact⟩ := scanMagnitude_append hdigits t
  refine ⟨⟨n.negative, m⟩, rest, ?_, hsuffix, ?_⟩
  · unfold scan
    rw [List.append_assoc, List.append_assoc,
      List.dropWhile_append_of_pos hspace, takeSign_append hsign hdigits t]
    show (scanMagnitude base (digits ++ t)).map _ = _
    rw [hscan]
    rfl
  · intro ht
    rw [hexact ht]

/-! ## The scanner finds the longest number -/

theorem IsNumeral.scan_eq {base : Base} {s : List UInt8} {n : Numeral}
    (h : IsNumeral base s n) : scan base s = some (n, []) := by
  obtain ⟨m, rest, hscan, hsuffix, hexact⟩ := scan_append h []
  rw [List.append_nil] at hscan
  rw [hscan, hexact rfl, List.suffix_nil.1 hsuffix]

theorem IsNumeral.unique {base : Base} {s : List UInt8} {n m : Numeral}
    (hn : IsNumeral base s n) (hm : IsNumeral base s m) : n = m := by
  have h := hn.scan_eq
  rw [hm.scan_eq] at h
  exact (Prod.mk.inj (Option.some.inj h)).1.symm

theorem scan_eq_some_iff {base : Base} {s rest : List UInt8} {n : Numeral} :
    scan base s = some (n, rest) ↔ IsLeading base s n rest := by
  constructor
  · intro h
    obtain ⟨p, rfl, hp⟩ := scan_sound h
    refine ⟨p, rfl, hp, ?_⟩
    rintro q ⟨t, hqt⟩ ⟨m, hq⟩
    obtain ⟨m', rest', hscan, hsuffix, _⟩ := scan_append hq t
    rw [hqt, h] at hscan
    obtain rfl : rest = rest' := (Prod.mk.inj (Option.some.inj hscan)).2
    have hlen := congrArg List.length hqt
    have hle := hsuffix.length_le
    rw [List.length_append, List.length_append] at hlen
    omega
  · rintro ⟨p, rfl, hp, hlongest⟩
    obtain ⟨m, rest', hscan, hsuffix, _⟩ := scan_append hp rest
    obtain ⟨q, hsplit, hq⟩ := scan_sound hscan
    have hle := hlongest q ⟨rest', hsplit.symm⟩ ⟨m, hq⟩
    have hlen := congrArg List.length hsplit
    have hsuffixLen := hsuffix.length_le
    rw [List.length_append, List.length_append] at hlen
    obtain rfl : rest' = rest := hsuffix.eq_of_length (by omega)
    obtain rfl : p = q := List.append_cancel_right hsplit
    rw [hscan, hp.unique hq]

/-- A string is a number if and only if nothing follows the leading one. -/
theorem isNumeral_iff_leading {base : Base} {s : List UInt8} {n : Numeral} :
    IsNumeral base s n ↔ IsLeading base s n [] := by
  constructor
  · intro h
    exact scan_eq_some_iff.1 h.scan_eq
  · rintro ⟨p, rfl, hp, _⟩
    rw [List.append_nil]
    exact hp

theorem isNumeral_iff_scan {base : Base} {s : List UInt8} {n : Numeral} :
    IsNumeral base s n ↔ scan base s = some (n, []) := by
  rw [isNumeral_iff_leading, scan_eq_some_iff]

theorem scan_eq_none_iff {base : Base} {s : List UInt8} :
    scan base s = none ↔ ∀ n rest, ¬ IsLeading base s n rest := by
  simp only [← scan_eq_some_iff, Option.eq_none_iff_forall_ne_some, ne_eq,
    Prod.forall]

/-- There is one leading number, the one that was scanned. -/
theorem isLeading_iff {base : Base} {s rest rest' : List UInt8} {n n' : Numeral}
    (h : scan base s = some (n, rest)) :
    IsLeading base s n' rest' ↔ n' = n ∧ rest' = rest := by
  rw [← scan_eq_some_iff, h, Option.some.injEq, Prod.mk.injEq]
  exact and_congr eq_comm eq_comm

theorem IsLeading.unique {base : Base} {s rest rest' : List UInt8} {n n' : Numeral}
    (h : IsLeading base s n rest) (h' : IsLeading base s n' rest') :
    n' = n ∧ rest' = rest :=
  (isLeading_iff (scan_eq_some_iff.2 h)).1 h'

theorem exists_leading_iff {base : Base} {s rest : List UInt8} {n : Numeral}
    (h : scan base s = some (n, rest)) {P : Numeral → List UInt8 → Prop} :
    (∃ n' rest', IsLeading base s n' rest' ∧ P n' rest') ↔ P n rest := by
  constructor
  · rintro ⟨n', rest', hleading, hP⟩
    obtain ⟨rfl, rfl⟩ := (isLeading_iff h).1 hleading
    exact hP
  · intro hP
    exact ⟨n, rest, scan_eq_some_iff.1 h, hP⟩

theorem forall_leading_iff {base : Base} {s rest : List UInt8} {n : Numeral}
    (h : scan base s = some (n, rest)) {P : Numeral → List UInt8 → Prop} :
    (∀ n' rest', IsLeading base s n' rest' → P n' rest') ↔ P n rest := by
  constructor
  · intro hall
    exact hall n rest (scan_eq_some_iff.1 h)
  · rintro hP n' rest' hleading
    obtain ⟨rfl, rfl⟩ := (isLeading_iff h).1 hleading
    exact hP

theorem not_isNumeral_of_tail {base : Base} {s rest : List UInt8} {n : Numeral}
    (h : scan base s = some (n, rest)) (hrest : rest ≠ []) (m : Numeral) :
    ¬ IsNumeral base s m := by
  rw [isNumeral_iff_leading, isLeading_iff h]
  rintro ⟨_, hnil⟩
  exact hrest hnil.symm

theorem not_isNumeral_of_none {base : Base} {s : List UInt8}
    (h : scan base s = none) (m : Numeral) : ¬ IsNumeral base s m := by
  rw [isNumeral_iff_scan, h]
  simp

theorem ne_nil_of_scan {base : Base} {s rest : List UInt8} {n : Numeral}
    (h : scan base s = some (n, rest)) : s ≠ [] := by
  rintro rfl
  cases h

theorem IsNumeral.ne_nil {base : Base} {s : List UInt8} {n : Numeral}
    (h : IsNumeral base s n) : s ≠ [] :=
  ne_nil_of_scan h.scan_eq

/-! ## The two functions -/

/-- What `errno` is after a conversion. -/
inductive Errno where
  | zero
  | ERANGE
  deriving DecidableEq, Repr

/-- `strerror`. -/
def strerror : Errno → String
  | .zero => "Success"
  | .ERANGE => "Numerical result out of range"

/-- What a conversion returns, stores in `*endptr` and leaves in `errno`. -/
structure Result where
  value : Int
  endptr : List UInt8
  errno : Errno
  deriving DecidableEq, Repr

/-- The numbers that can be converted: for a signed type those that fit, for
an unsigned one those whose absolute value does. -/
def Numeral.InRange (n : Numeral) (t : IntType) : Prop :=
  t.Fits (if t.signed then n.value else n.magnitude)

instance (n : Numeral) (t : IntType) : Decidable (n.InRange t) :=
  inferInstanceAs (Decidable (t.Fits _))

/-- The conversion to one of the two types.  A number with a minus sign is
negated in an unsigned type too. -/
def convert (t : IntType) (str : List UInt8) (base : Base) : Result :=
  match scan base str with
  | none => ⟨0, str, .zero⟩
  | some (n, rest) =>
      if n.InRange t then ⟨t.wrap n.value, rest, .zero⟩
      else if t.signed ∧ n.negative then ⟨t.low, rest, .ERANGE⟩
      else ⟨t.high, rest, .ERANGE⟩

def strtol (str : List UInt8) (base : Base) : Result :=
  convert IntType.long str base

def strtoul (str : List UInt8) (base : Base) : Result :=
  convert IntType.ulong str base

variable {t : IntType} {str rest : List UInt8} {base : Base} {n : Numeral}

theorem convert_none (h : scan base str = none) :
    convert t str base = ⟨0, str, .zero⟩ := by
  unfold convert
  rw [h]

theorem convert_inRange (h : scan base str = some (n, rest)) (hn : n.InRange t) :
    convert t str base = ⟨t.wrap n.value, rest, .zero⟩ := by
  unfold convert
  rw [h]
  exact if_pos hn

theorem convert_outOfRange (h : scan base str = some (n, rest))
    (hn : ¬ n.InRange t) :
    (convert t str base).endptr = rest ∧ (convert t str base).errno = .ERANGE := by
  unfold convert
  rw [h]
  simp only [if_neg hn]
  split <;> exact ⟨rfl, rfl⟩

/-- A conversion consumes nothing only where there is no number. -/
theorem scan_rest_ne (h : scan base str = some (n, rest)) : rest ≠ str := by
  rintro rfl
  obtain ⟨p, hsplit, space, sign, digits, rfl, _, _, hdigits⟩ := scan_sound h
  obtain ⟨b, s, rfl, _⟩ := hdigits.head
  have hlen := congrArg List.length hsplit
  simp only [List.length_append, List.length_cons] at hlen
  omega

theorem Numeral.inRange_signed (ht : t.signed = true) :
    n.InRange t ↔ t.Fits n.value := by
  unfold Numeral.InRange
  rw [if_pos ht]

/-- A number that fits can be converted. -/
theorem Numeral.inRange_of_fits (h : t.Fits n.value) : n.InRange t := by
  by_cases ht : t.signed = true
  · exact (inRange_signed ht).2 h
  · have hlow : t.low = 0 := if_neg ht
    have hvalue : n.value = n.magnitude := by
      have hnonneg := h.1
      rw [hlow] at hnonneg
      unfold Numeral.value at hnonneg ⊢
      split at hnonneg <;> simp_all
    unfold Numeral.InRange
    rw [if_neg ht, ← hvalue]
    exact h

/-- Without a minus sign, the numbers that can be converted are those that
fit. -/
theorem Numeral.fits_of_inRange (h : n.InRange t)
    (hsign : t.signed = false → n.negative = false) : t.Fits n.value := by
  by_cases ht : t.signed = true
  · exact (inRange_signed ht).1 h
  · have hplus := hsign (Bool.eq_false_iff.2 ht)
    unfold Numeral.InRange at h
    rw [if_neg ht] at h
    unfold Numeral.value
    rw [hplus]
    exact h

end Lpi.Verified.Strtol
