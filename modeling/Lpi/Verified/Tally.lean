import Mathlib.Algebra.GroupWithZero.Nat
import Mathlib.Data.Fintype.Card

/-!
# Counting the members of a finite family

How many of finitely many processes are in some situation, as an integer, so
that a counter that is a little ahead or behind can be written with `+ 1`
and `- 1`.  A step moves one process at a time: `tally_enter` is the rule for
the one that comes to satisfy the predicate, and read the other way for the
one that leaves it.  Processes that come and go are a list instead, counted
with `List.countP`; `countP_set_add` is the rule for a step of one of them.
-/

namespace Lpi.Verified.Tally

variable {ι : Type*} [Fintype ι]

/-- The number of indices that satisfy `P`. -/
def tally (P : ι → Prop) [DecidablePred P] : Int :=
  ((Finset.univ.filter P).card : Int)

variable {P Q : ι → Prop} [DecidablePred P] [DecidablePred Q]

theorem tally_congr (h : ∀ i, P i ↔ Q i) : tally P = tally Q := by
  unfold tally
  rw [Finset.filter_congr fun i _ => h i]

/-- One index comes to satisfy the predicate. -/
theorem tally_enter [DecidableEq ι] (i : ι) (hP : ¬ P i) (hQ : Q i)
    (hother : ∀ j, j ≠ i → (P j ↔ Q j)) : tally Q = tally P + 1 := by
  have hinsert : Finset.univ.filter Q = insert i (Finset.univ.filter P) := by
    ext j
    rw [Finset.mem_insert, Finset.mem_filter, Finset.mem_filter]
    by_cases hj : j = i
    · subst hj
      simp [hQ]
    · simp [hj, hother j hj]
  have hnew : i ∉ Finset.univ.filter P := by
    simp [hP]
  unfold tally
  rw [hinsert, Finset.card_insert_of_notMem hnew]
  rfl

/-- A positive count has a member. -/
theorem exists_of_tally_pos (h : 0 < tally P) : ∃ i, P i := by
  have hcard : 0 < (Finset.univ.filter P).card := Int.natCast_pos.1 h
  obtain ⟨i, hi⟩ := Finset.card_pos.1 hcard
  exact ⟨i, (Finset.mem_filter.1 hi).2⟩

theorem tally_pos (i : ι) (h : P i) : 0 < tally P := by
  apply Int.natCast_pos.2
  exact Finset.card_pos.2 ⟨i, by simp [h]⟩

theorem tally_eq_card (h : ∀ i, P i) : tally P = Fintype.card ι := by
  unfold tally
  rw [Finset.filter_true_of_mem fun i _ => h i, Finset.card_univ]

theorem tally_eq_zero (h : ∀ i, ¬ P i) : tally P = 0 := by
  unfold tally
  rw [Finset.filter_false_of_mem fun i _ => h i, Finset.card_empty]
  rfl

/-! ## A list of processes -/

theorem countP_set_add {α : Type*} {p : α → Bool} {l : List α} {i : Nat}
    {a b : α} (hget : l[i]? = some a) :
    (l.set i b).countP p + (p a).toNat = l.countP p + (p b).toNat := by
  induction l generalizing i with
  | nil => simp at hget
  | cons x l ih =>
      cases i with
      | zero =>
          simp only [List.getElem?_cons_zero, Option.some.injEq] at hget
          subst hget
          rw [List.set_cons_zero, List.countP_cons, List.countP_cons]
          cases p x <;> cases p b <;> simp
      | succ i =>
          rw [List.getElem?_cons_succ] at hget
          have hrest := ih hget
          rw [List.set_cons_succ, List.countP_cons, List.countP_cons]
          omega

/-- A sum over processes after one of them has moved. -/
theorem sum_map_add {α : Type*} {l : List α} (hnodup : l.Nodup) {c : α}
    (hc : c ∈ l) {f g : α → Nat} (hother : ∀ d, d ≠ c → g d = f d) :
    (l.map g).sum + f c = (l.map f).sum + g c := by
  induction l with
  | nil => cases hc
  | cons x l ih =>
      rw [List.nodup_cons] at hnodup
      rw [List.map_cons, List.map_cons, List.sum_cons, List.sum_cons]
      by_cases hx : x = c
      · subst hx
        have hrest : l.map g = l.map f := by
          apply List.map_congr_left
          intro d hd
          exact hother d fun hdx => hnodup.1 (hdx ▸ hd)
        rw [hrest]
        omega
      · have hmem : c ∈ l := by
          rw [List.mem_cons] at hc
          exact hc.resolve_left fun hcx => hx hcx.symm
        have hrest := ih hnodup.2 hmem
        have hsame := hother x hx
        omega

end Lpi.Verified.Tally
