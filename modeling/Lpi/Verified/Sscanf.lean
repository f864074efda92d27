import Lpi.Verified.Strtol
import Mathlib.Data.List.DropRight

/-!
# `sscanf`

A format is a list of directives: white space, which skips any amount of white
space, `%c` and `%lld`.  The conversions are made one after the other, until
one of them finds nothing to convert; `conversions` lists the values of those
that were made.

A `%c` takes the next byte as it is, and a `%lld` the longest number at the
start of what is left (`conversions_lld_eq_cons`), behind white space.  A
number that does not fit becomes the end of the range that is nearest to it,
as glibc has it.
-/

namespace Lpi.Verified.Sscanf

open Lpi.Verified.CInt
open Lpi.Verified.Strtol

inductive Directive where
  | space
  | c
  | lld
  deriving DecidableEq, Repr

/-- A value that a conversion stores. -/
inductive Value where
  | char (b : UInt8)
  | longLong (v : Int)
  deriving DecidableEq, Repr

/-- The value of the type that is nearest to `v`. -/
def clamp (t : IntType) (v : Int) : Int := max t.low (min v t.high)

/-- The values of the conversions that are made. -/
def conversions : List Directive → List UInt8 → List Value
  | [], _ => []
  | .space :: ds, s => conversions ds (s.dropWhile isspace)
  | .c :: _, [] => []
  | .c :: ds, b :: s => .char b :: conversions ds s
  | .lld :: ds, s =>
      match scan .decimal s with
      | none => []
      | some (n, rest) => .longLong (clamp .long n.value) :: conversions ds rest

/-- What `sscanf` returns for a format with a conversion: their number, or `EOF`
if the string ended before the first one. -/
def result (ds : List Directive) (s : List UInt8) : Int :=
  if conversions ds s = [] ∧ s.dropWhile isspace = [] then -1
  else (conversions ds s).length

variable {ds : List Directive} {s : List UInt8} {v : Value} {vs : List Value}

@[simp] theorem conversions_space :
    conversions (.space :: ds) s = conversions ds (s.dropWhile isspace) := by
  rw [conversions]

/-- White space in front of a number is skipped anyway. -/
@[simp] theorem conversions_space_lld :
    conversions (.space :: .lld :: ds) s = conversions (.lld :: ds) s := by
  simp only [conversions, scan, List.dropWhile_idempotent]

theorem conversions_c_eq_cons :
    conversions (.c :: ds) s = v :: vs ↔
      ∃ b t, s = b :: t ∧ v = .char b ∧ vs = conversions ds t := by
  cases s with
  | nil => simp [conversions]
  | cons b s =>
      simp only [conversions, List.cons.injEq]
      constructor
      · rintro ⟨rfl, rfl⟩
        exact ⟨b, s, ⟨rfl, rfl⟩, rfl, rfl⟩
      · rintro ⟨_, _, ⟨rfl, rfl⟩, rfl, rfl⟩
        exact ⟨rfl, rfl⟩

theorem conversions_lld_eq_cons :
    conversions (.lld :: ds) s = v :: vs ↔
      ∃ n rest, IsLeading .decimal s n rest ∧ v = .longLong (clamp .long n.value) ∧
        vs = conversions ds rest := by
  simp only [conversions, ← scan_eq_some_iff]
  cases h : scan .decimal s with
  | none => simp
  | some r =>
      obtain ⟨n, rest⟩ := r
      simp only [List.cons.injEq, Option.some.injEq, Prod.mk.injEq]
      constructor
      · rintro ⟨rfl, rfl⟩
        exact ⟨n, rest, ⟨rfl, rfl⟩, rfl, rfl⟩
      · rintro ⟨_, _, ⟨rfl, rfl⟩, rfl, rfl⟩
        exact ⟨rfl, rfl⟩

/-- A `%c` stores a byte of the string. -/
theorem mem_of_char_mem {b : UInt8} (h : .char b ∈ conversions ds s) : b ∈ s := by
  induction ds generalizing s with
  | nil => simp [conversions] at h
  | cons d ds ih =>
      cases d with
      | space =>
          rw [conversions_space] at h
          exact (List.dropWhile_suffix isspace).subset (ih h)
      | c =>
          cases s with
          | nil => simp [conversions] at h
          | cons b' s =>
              simp only [conversions, List.mem_cons, Value.char.injEq] at h
              rcases h with rfl | h
              · exact List.mem_cons_self
              · exact List.mem_cons_of_mem _ (ih h)
      | lld =>
          simp only [conversions] at h
          split at h
          · simp at h
          · rename_i n rest hscan
            simp only [List.mem_cons, reduceCtorEq, false_or] at h
            obtain ⟨p, hsplit, _⟩ := scan_sound hscan
            rw [hsplit]
            exact List.mem_append_right p (ih h)

end Lpi.Verified.Sscanf
