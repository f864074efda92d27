import Mathlib.Data.Int.ModEq

/-!
# The integer types of C

A type is a range of `2 ^ width` consecutive integers.  `IntType.wrap` is the
conversion of a value to the type, which keeps it modulo `2 ^ width`, as the
compilers the programs are built with do it for signed types too.  It keeps
the value itself exactly when the value fits (`wrap_eq_iff`), and a
conversion by way of a wider type is the same conversion (`wrap_wrap`).
-/

namespace Lpi.Verified.CInt

/-- An integer type by its width in bits. -/
structure IntType where
  width : Nat
  signed : Bool
  deriving DecidableEq, Repr

namespace IntType

/-- `char`, which is signed on the target. -/
def char : IntType := ⟨8, true⟩
def short : IntType := ⟨16, true⟩
def ushort : IntType := ⟨16, false⟩
def int : IntType := ⟨32, true⟩
def uint : IntType := ⟨32, false⟩
def long : IntType := ⟨64, true⟩
def ulong : IntType := ⟨64, false⟩

/-- The least value of the type. -/
def low (t : IntType) : Int := if t.signed then -2 ^ (t.width - 1) else 0

def Fits (t : IntType) (v : Int) : Prop :=
  t.low ≤ v ∧ v < t.low + 2 ^ t.width

instance (t : IntType) (v : Int) : Decidable (t.Fits v) :=
  inferInstanceAs (Decidable (_ ∧ _))

/-- The conversion of `v` to the type. -/
def wrap (t : IntType) (v : Int) : Int := (v - t.low) % 2 ^ t.width + t.low

/-- The greatest value of the type. -/
def high (t : IntType) : Int := t.low + 2 ^ t.width - 1

variable {t u : IntType} {v : Int}

theorem pow_width_pos (t : IntType) : (0 : Int) < 2 ^ t.width :=
  Int.pow_pos (by decide)

theorem wrap_fits (t : IntType) (v : Int) : t.Fits (t.wrap v) := by
  have hpos := t.pow_width_pos
  have hnonneg := Int.emod_nonneg (v - t.low) hpos.ne'
  have hlt := Int.emod_lt_of_pos (v - t.low) hpos
  unfold Fits wrap
  omega

theorem wrap_of_fits (h : t.Fits v) : t.wrap v = v := by
  obtain ⟨hlow, hhigh⟩ := h
  unfold wrap
  rw [Int.emod_eq_of_lt (by omega) (by omega)]
  omega

theorem wrap_eq_iff : t.wrap v = v ↔ t.Fits v := by
  constructor
  · intro h
    rw [← h]
    exact t.wrap_fits v
  · exact wrap_of_fits

/-- Two conversions of a value, at least one of them to a type that holds it,
agree only if the other type holds it as well. -/
theorem wrap_eq_wrap_iff {wide : IntType} (h : t = u ∨ t = wide ∨ u = wide)
    (hv : wide.Fits v) :
    t.wrap v = u.wrap v ↔ t = u ∨ (t.Fits v ∧ u.Fits v) := by
  constructor
  · intro heq
    rcases h with h | h | h
    · exact Or.inl h
    · subst h
      rw [wrap_of_fits hv] at heq
      exact Or.inr ⟨hv, wrap_eq_iff.1 heq.symm⟩
    · subst h
      rw [wrap_of_fits hv] at heq
      exact Or.inr ⟨wrap_eq_iff.1 heq, hv⟩
  · rintro (rfl | ⟨ht, hu⟩)
    · rfl
    · rw [wrap_of_fits ht, wrap_of_fits hu]

theorem fits_long_of_int (h : int.Fits v) : long.Fits v := by
  simp only [Fits, low, int, long, if_true] at h ⊢
  omega

theorem fits_ulong_of_uint (h : uint.Fits v) : ulong.Fits v := by
  simp only [Fits, low, uint, ulong, Bool.false_eq_true, if_false] at h ⊢
  omega

theorem wrap_wrap (h : t.width ≤ u.width) : t.wrap (u.wrap v) = t.wrap v := by
  have hdvd : (2 : Int) ^ t.width ∣ 2 ^ u.width := pow_dvd_pow 2 h
  have hmod : (v - u.low) % 2 ^ u.width ≡ v - u.low [ZMOD 2 ^ t.width] :=
    (Int.mod_modEq _ _).of_dvd hdvd
  have hshift := hmod.add_right (u.low - t.low)
  unfold wrap
  congr 1
  calc ((v - u.low) % 2 ^ u.width + u.low - t.low) % 2 ^ t.width
      = ((v - u.low) % 2 ^ u.width + (u.low - t.low)) % 2 ^ t.width := by
        rw [Int.add_sub_assoc]
    _ = (v - u.low + (u.low - t.low)) % 2 ^ t.width := hshift
    _ = (v - t.low) % 2 ^ t.width := by
        congr 1
        omega

end IntType

end Lpi.Verified.CInt
