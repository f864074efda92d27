import Mathlib.Data.Fintype.Basic

/-!
# Shared and exclusive locks

Some owners have locks, each at most one, and some of them are rivals: their locks
are on the same thing.  A lock is granted if it goes with those of all rivals, and so
no exclusive lock is ever held next to another one (`Consistent.acquire`).
-/

namespace Lpi.Verified.SharedLock

inductive Mode where
  | shared
  | exclusive
  deriving DecidableEq, Repr

/-- Two rivals can have these locks at the same time. -/
def Compatible (a b : Option Mode) : Prop :=
  a = none ∨ b = none ∨ a = some .shared ∧ b = some .shared

instance (a b : Option Mode) : Decidable (Compatible a b) :=
  inferInstanceAs (Decidable (_ ∨ _ ∨ _ ∧ _))

theorem Compatible.symm {a b : Option Mode} (h : Compatible a b) : Compatible b a := by
  rcases h with ha | hb | ⟨ha, hb⟩
  · exact Or.inr (Or.inl ha)
  · exact Or.inl hb
  · exact Or.inr (Or.inr ⟨hb, ha⟩)

variable {κ : Type*} (rival : κ → κ → Prop)

/-- The locks of rivals go together. -/
def Consistent (held : κ → Option Mode) : Prop :=
  ∀ i j, rival i j → Compatible (held i) (held j)

/-- The lock can be granted to `k`. -/
def Free (held : κ → Option Mode) (k : κ) (mode : Mode) : Prop :=
  ∀ j, rival k j → Compatible (some mode) (held j)

instance [Fintype κ] [DecidableRel rival] (held : κ → Option Mode) (k : κ) (mode : Mode) :
    Decidable (Free rival held k mode) :=
  inferInstanceAs (Decidable (∀ j, rival k j → Compatible (some mode) (held j)))

variable {rival} {held : κ → Option Mode} {k : κ} {mode : Mode} [DecidableEq κ]

theorem Consistent.acquire (hs : Consistent rival held) (hirrefl : ∀ i, ¬ rival i i)
    (hsymm : ∀ i j, rival i j → rival j i) (hfree : Free rival held k mode) :
    Consistent rival (Function.update held k (some mode)) := by
  intro i j hij
  by_cases hi : i = k
  · subst hi
    have hj : j ≠ i := fun hj => hirrefl i (hj ▸ hij)
    rw [Function.update_self, Function.update_of_ne hj]
    exact hfree j hij
  · rw [Function.update_of_ne hi]
    by_cases hj : j = k
    · subst hj
      rw [Function.update_self]
      exact (hfree i (hsymm i j hij)).symm
    · rw [Function.update_of_ne hj]
      exact hs i j hij

theorem Consistent.release (hs : Consistent rival held) :
    Consistent rival (Function.update held k none) := by
  intro i j hij
  by_cases hi : i = k
  · subst hi
    rw [Function.update_self]
    exact Or.inl rfl
  · rw [Function.update_of_ne hi]
    by_cases hj : j = k
    · subst hj
      rw [Function.update_self]
      exact Or.inr (Or.inl rfl)
    · rw [Function.update_of_ne hj]
      exact hs i j hij

omit [DecidableEq κ] in
/-- Who does not get a lock has a rival with a lock. -/
theorem exists_of_not_free (h : ¬ Free rival held k mode) :
    ∃ j, rival k j ∧ held j ≠ none := by
  apply Classical.byContradiction
  intro hnone
  apply h
  intro j hj
  apply Or.inr (Or.inl _)
  apply Classical.byContradiction
  intro hheld
  exact hnone ⟨j, hj, hheld⟩

end Lpi.Verified.SharedLock
