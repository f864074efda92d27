import Mathlib.Data.List.Basic

/-!
# Latches

A flag is set by some of the events of a list and cleared by others, and keeps its
value in between.  At the end it is set exactly if an event has set it that no event
has followed that clears it, or it was set before and no event clears it at all
(`latch_iff`).  What happens while the flag is set (`Meets`) is told by the events
before it (`meets_iff`).
-/

namespace Lpi.Verified.Latch

variable {α : Type*} (sets clears : α → Bool)

/-- The flag after one event.  An event that sets and clears it leaves it cleared. -/
def next (flag : Bool) (a : α) : Bool := !clears a && (flag || sets a)

/-- The flag after some events. -/
def latch (flag : Bool) (l : List α) : Bool := l.foldl (next sets clears) flag

/-- An event with the events behind it is in `P`, and the flag is set when it happens. -/
def Meets (P : α → List α → Prop) : Bool → List α → Prop
  | _, [] => False
  | flag, a :: l => (flag = true ∧ P a l) ∨ Meets P (next sets clears flag a) l

variable {sets clears} {flag : Bool} {l l' : List α} {P : α → List α → Prop}

@[simp]
theorem latch_nil : latch sets clears flag [] = flag := rfl

@[simp]
theorem latch_cons {a : α} :
    latch sets clears flag (a :: l) = latch sets clears (next sets clears flag a) l := rfl

theorem latch_append :
    latch sets clears flag (l ++ l') = latch sets clears (latch sets clears flag l) l' :=
  List.foldl_append

/-- **When a latch is set**, by the last event that has set it. -/
theorem latch_iff : latch sets clears flag l = true ↔
    (flag = true ∧ ∀ a ∈ l, clears a = false) ∨
    ∃ before a after, l = before ++ a :: after ∧ sets a = true ∧
      ∀ b ∈ a :: after, clears b = false := by
  induction l generalizing flag with
  | nil => simp
  | cons a l ih =>
      rw [latch_cons, ih]
      constructor
      · rintro (⟨hflag, hall⟩ | ⟨before, b, after, rfl, hsets, hall⟩)
        · simp only [next, Bool.and_eq_true, Bool.not_eq_true', Bool.or_eq_true] at hflag
          rcases hflag with ⟨hclears, hflag | hsets⟩
          · exact Or.inl ⟨hflag, List.forall_mem_cons.2 ⟨hclears, hall⟩⟩
          · exact Or.inr ⟨[], a, l, rfl, hsets, List.forall_mem_cons.2 ⟨hclears, hall⟩⟩
        · exact Or.inr ⟨a :: before, b, after, rfl, hsets, hall⟩
      · rintro (⟨hflag, hall⟩ | ⟨before, b, after, heq, hsets, hall⟩)
        · rw [List.forall_mem_cons] at hall
          exact Or.inl ⟨by simp [next, hflag, hall.1], hall.2⟩
        · cases before with
          | nil =>
              rw [List.nil_append, List.cons.injEq] at heq
              rw [← heq.1, ← heq.2, List.forall_mem_cons] at hall
              rw [← heq.1] at hsets
              exact Or.inl ⟨by simp [next, hsets, hall.1], hall.2⟩
          | cons c before =>
              rw [List.cons_append, List.cons.injEq] at heq
              exact Or.inr ⟨before, b, after, heq.2, hsets, hall⟩

theorem meets_iff : Meets sets clears P flag l ↔
    ∃ before a after, l = before ++ a :: after ∧ latch sets clears flag before = true ∧
      P a after := by
  induction l generalizing flag with
  | nil => simp [Meets]
  | cons a l ih =>
      rw [Meets, ih]
      constructor
      · rintro (⟨hflag, hP⟩ | ⟨before, b, after, rfl, hset, hP⟩)
        · exact ⟨[], a, l, rfl, hflag, hP⟩
        · exact ⟨a :: before, b, after, rfl, hset, hP⟩
      · rintro ⟨before, b, after, heq, hset, hP⟩
        cases before with
        | nil =>
            rw [List.nil_append, List.cons.injEq] at heq
            exact Or.inl ⟨hset, by rw [heq.1, heq.2]; exact hP⟩
        | cons c before =>
            rw [List.cons_append, List.cons.injEq] at heq
            rw [← heq.1, latch_cons] at hset
            exact Or.inr ⟨before, b, after, heq.2, hset, hP⟩

/-- Lists one after the other, where the second one makes no difference to `P` in the
first one. -/
theorem meets_append (hP : ∀ before a after, l = before ++ a :: after →
      (P a (after ++ l') ↔ P a after)) :
    Meets sets clears P flag (l ++ l') ↔
      Meets sets clears P flag l ∨ Meets sets clears P (latch sets clears flag l) l' := by
  induction l generalizing flag with
  | nil => simp [Meets]
  | cons a l ih =>
      rw [List.cons_append, Meets, Meets, latch_cons, hP [] a l rfl, or_assoc]
      rw [ih fun before b after heq => hP (a :: before) b after (by rw [heq]; rfl)]

end Lpi.Verified.Latch
