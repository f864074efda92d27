import Mathlib.Data.List.Basic

/-!
# Queues of expected values

Values are declared one after the other, each with a count, and asked for one
after the other.  A positive count is how often the value is given; -1 means that
it is given from then on, at least once, and anything below from then on or never.
What is declared behind such a value is never given.

Which value the next question gets, and what is left, depend on the declarations
so far and on the number of questions before (`given`, `remaining`); a queue that
is kept up to date by `push` and `pop` is one way to have that
(`remaining_push`, `pop_remaining`).
-/

namespace Lpi.Verified.Expectations

/-- Values with how often each is still to be given. -/
abbrev Queue (α : Type*) := List (α × Int)

variable {α : Type*}

/-! ## The queue -/

def push (q : Queue α) (a : α) (count : Int) : Queue α := q ++ [(a, count)]

/-- The value in front with its count, and the queue without one use of it. -/
def pop : Queue α → Option ((α × Int) × Queue α)
  | [] => none
  | (a, count) :: rest => some ((a, count),
      if count - 1 = 0 then rest
      else if count > -2 then (a, count - 1) :: rest
      else (a, count) :: rest)

/-- A value in front that may be given but need not, or need not any more. -/
def dropOptional : Queue α → Queue α
  | [] => []
  | (a, count) :: rest => if count < -1 then rest else (a, count) :: rest

/-! ## The same from the declarations -/

/-- What the question with the number `i` is answered, from 0 on. -/
def given : List (α × Int) → Nat → Option α
  | [], _ => none
  | (a, count) :: rest, i =>
      if 0 < count then
        if i < count.toNat then some a else given rest (i - count.toNat)
      else if count = 0 then none
      else some a

/-- After `i` questions nothing is left that has to be given. -/
def satisfied : List (α × Int) → Nat → Prop
  | [], _ => True
  | (_, count) :: rest, i =>
      if 0 < count then count.toNat ≤ i ∧ satisfied rest (i - count.toNat)
      else if count = 0 then False
      else rest = [] ∧ (count = -1 → 0 < i)

/-- The queue after `i` questions. -/
def remaining : List (α × Int) → Nat → Queue α
  | [], _ => []
  | (a, count) :: rest, i =>
      if 0 < count then
        if i < count.toNat then (a, count - i) :: rest else remaining rest (i - count.toNat)
      else if count = -1 ∧ 0 < i then (a, -2) :: rest
      else (a, count) :: rest

variable {ds : List (α × Int)} {i : Nat} {a : α} {count : Int}

theorem remaining_zero (ds : List (α × Int)) : remaining ds 0 = ds := by
  cases ds with
  | nil => rfl
  | cons d rest =>
      rcases d with ⟨a, count⟩
      simp only [remaining]
      split
      · rw [if_pos (by omega)]
        simp
      · simp

/-- What was given stays so, whatever is declared later. -/
theorem given_push (h : given ds i = some a) (b : α) (count : Int) :
    given (push ds b count) i = some a := by
  induction ds generalizing i with
  | nil => cases h
  | cons d rest ih =>
      rcases d with ⟨c, n⟩
      simp only [push, List.cons_append, given] at h ih ⊢
      by_cases hpos : 0 < n
      · rw [if_pos hpos] at h ⊢
        by_cases hi : i < n.toNat
        · rwa [if_pos hi] at h ⊢
        · rw [if_neg hi] at h ⊢
          exact ih h
      · rwa [if_neg hpos] at h ⊢

/-- A declaration goes to the end of the queue, if all questions so far were
answered. -/
theorem remaining_push (hgiven : ∀ j < i, given ds j ≠ none) (b : α) (count : Int) :
    remaining (push ds b count) i = push (remaining ds i) b count := by
  induction ds generalizing i with
  | nil =>
      have hi : i = 0 := by
        by_contra hne
        exact hgiven 0 (by omega) rfl
      subst hi
      exact remaining_zero _
  | cons d rest ih =>
      rcases d with ⟨c, n⟩
      simp only [push, List.cons_append, remaining] at ih ⊢
      split
      · rename_i hpos
        split
        · rfl
        · rename_i hle
          apply ih
          intro j hj
          have h := hgiven (j + n.toNat) (by omega)
          simpa only [given, if_pos hpos, Nat.add_sub_cancel,
            if_neg (show ¬ j + n.toNat < n.toNat by omega)] using h
      · split <;> rfl

/-- A question takes the value in front. -/
theorem pop_remaining (h : given ds i = some a) :
    ∃ count, count ≠ 0 ∧ pop (remaining ds i) = some ((a, count), remaining ds (i + 1)) := by
  induction ds generalizing i with
  | nil => cases h
  | cons d rest ih =>
      rcases d with ⟨c, n⟩
      simp only [given] at h
      simp only [remaining]
      split at h
      · rename_i hpos
        simp only [if_pos hpos]
        split at h
        · rename_i hi
          rw [if_pos hi]
          rw [Option.some.injEq] at h
          subst h
          refine ⟨n - i, by omega, ?_⟩
          rw [pop]
          by_cases hlast : i + 1 < n.toNat
          · rw [if_pos hlast, if_neg (by omega), if_pos (by omega)]
            congr 4
            push_cast
            omega
          · have hn : i + 1 - n.toNat = 0 := by omega
            rw [if_neg hlast, if_pos (by omega), hn, remaining_zero]
        · rename_i hi
          rw [if_neg hi, if_neg (by omega)]
          have hnext : i + 1 - n.toNat = i - n.toNat + 1 := by omega
          rw [hnext]
          exact ih h
      · rename_i hneg
        simp only [if_neg hneg]
        split at h
        · cases h
        · rename_i hzero
          rw [Option.some.injEq] at h
          subst h
          by_cases hone : n = -1
          · subst hone
            by_cases hi : 0 < i
            · simp [hi, pop]
            · simp [hi, pop]
          · refine ⟨n, hzero, ?_⟩
            have hlt : n < -1 := by omega
            simp only [hone, false_and, if_false, pop]
            rw [if_neg (by omega), if_neg (by omega)]

/-- No value is left, or one that is not to be given at all. -/
theorem pop_remaining_none (h : given ds i = none) :
    pop (remaining ds i) = none ∨
      ∃ a rest, pop (remaining ds i) = some ((a, 0), rest) := by
  induction ds generalizing i with
  | nil => exact Or.inl rfl
  | cons d rest ih =>
      rcases d with ⟨c, n⟩
      simp only [given] at h
      simp only [remaining]
      split at h
      · rename_i hpos
        rw [if_pos hpos]
        split at h
        · cases h
        · rename_i hi
          rw [if_neg hi]
          exact ih h
      · rename_i hneg
        rw [if_neg hneg]
        split at h
        · rename_i hzero
          subst hzero
          simp [pop]
        · cases h

/-- At the end only a value in front may be left, and only an optional one. -/
theorem dropOptional_remaining (hgiven : ∀ j < i, given ds j ≠ none) :
    dropOptional (remaining ds i) = [] ↔ satisfied ds i := by
  induction ds generalizing i with
  | nil => exact iff_of_true rfl trivial
  | cons d rest ih =>
      rcases d with ⟨c, n⟩
      simp only [remaining, satisfied]
      split
      · rename_i hpos
        split
        · rename_i hi
          rw [dropOptional, if_neg (by omega)]
          exact iff_of_false (by simp) (by omega)
        · rename_i hi
          rw [ih]
          · exact (and_iff_right (by omega)).symm
          · intro j hj
            have h := hgiven (j + n.toNat) (by omega)
            simpa only [given, if_pos hpos, Nat.add_sub_cancel,
              if_neg (show ¬ j + n.toNat < n.toNat by omega)] using h
      · rename_i hneg
        by_cases hzero : n = 0
        · subst hzero
          simp [dropOptional]
        by_cases hone : n = -1
        · subst hone
          by_cases hi : 0 < i
          · simp [hi, dropOptional]
          · simp [hi, dropOptional]
        · have hlt : n < -1 := by omega
          simp [hone, hzero, dropOptional, hlt]

end Lpi.Verified.Expectations
