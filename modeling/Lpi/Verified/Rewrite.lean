import Mathlib.Data.List.Lex
import Mathlib.Data.Set.Finite.List
import Mathlib.Order.WellFoundedSet
import Mathlib.SetTheory.Cardinal.Order

/-!
# Rewriting with one rule

An occurrence of `u` in a string is replaced by `v`, again and again.  Among the
strings of a bounded length that comes to an end for `u ≠ v` (`wellFounded`): a
longer or shorter `v` changes the length of the string, and one that is as long
moves it up each time, or down each time, in the order of the dictionary.

The letters are finitely many; which order they have makes no difference.
-/

namespace Lpi.Verified.Rewrite

variable {α : Type*}

/-- `t` is `s` with an occurrence of `u` replaced by `v`. -/
def Step (u v s t : List α) : Prop := ∃ l r, s = l ++ u ++ r ∧ t = l ++ v ++ r

variable {u v s t : List α}

theorem Step.length (h : Step u v s t) : t.length + u.length = s.length + v.length := by
  rcases h with ⟨l, r, rfl, rfl⟩
  simp only [List.length_append]
  omega

theorem Step.eq (h : Step u u s t) : t = s := by
  rcases h with ⟨l, r, rfl, rfl⟩
  rfl

theorem Step.swap (h : Step u v s t) : Step v u t s := by
  rcases h with ⟨l, r, hs, ht⟩
  exact ⟨l, r, ht, hs⟩

/-! ## It ends -/

section Order

variable [LinearOrder α]

theorem append_lt_append (hlen : u.length = v.length) (huv : u < v) (r : List α) :
    u ++ r < v ++ r := by
  induction u generalizing v with
  | nil =>
      rw [List.length_eq_zero_iff.1 hlen.symm] at huv
      exact absurd huv (lt_irrefl _)
  | cons a u ih =>
      cases v with
      | nil => simp at hlen
      | cons b v =>
          rw [List.cons_append, List.cons_append, List.cons_lt_cons_iff]
          rcases List.cons_lt_cons_iff.1 huv with hab | ⟨hab, hrest⟩
          · exact Or.inl hab
          · exact Or.inr ⟨hab, ih (Nat.succ.inj hlen) hrest⟩

/-- A replacement that is as long moves the string the way it moves what it
replaces. -/
theorem Step.lt (h : Step u v s t) (hlen : u.length = v.length) (huv : u < v) : s < t := by
  rcases h with ⟨l, r, rfl, rfl⟩
  rw [List.append_assoc, List.append_assoc]
  exact List.append_left_lt (append_lt_append hlen huv r)

end Order

/-- **Among strings of a bounded length rewriting ends**, unless nothing is
changed. -/
theorem wellFounded [Finite α] (h : u ≠ v) (n : Nat) :
    WellFounded fun t s => Step u v s t ∧ t.length ≤ n := by
  let _ : LinearOrder α := IsWellOrder.linearOrder WellOrderingRel
  rcases lt_trichotomy u.length v.length with hlen | hlen | hlen
  · refine Subrelation.wf ?_ (measure fun s : List α => n - s.length).wf
    rintro t s ⟨hstep, hle⟩
    have := hstep.length
    show n - t.length < n - s.length
    omega
  · have hfin : {s : List α | s.length ≤ n}.Finite := List.finite_length_le α n
    rcases lt_or_gt_of_ne h with huv | hvu
    · refine Subrelation.wf ?_ (Set.wellFoundedOn_iff.1 (hfin.wellFoundedOn (r := (· > ·))))
      rintro t s ⟨hstep, hle⟩
      have := hstep.length
      exact ⟨hstep.lt hlen huv, hle, by show s.length ≤ n; omega⟩
    · refine Subrelation.wf ?_ (Set.wellFoundedOn_iff.1 (hfin.wellFoundedOn (r := (· < ·))))
      rintro t s ⟨hstep, hle⟩
      have := hstep.length
      exact ⟨hstep.swap.lt hlen.symm hvu, hle, by show s.length ≤ n; omega⟩
  · refine Subrelation.wf ?_ (measure fun s : List α => s.length).wf
    rintro t s ⟨hstep, _⟩
    have := hstep.length
    show t.length < s.length
    omega

end Lpi.Verified.Rewrite
