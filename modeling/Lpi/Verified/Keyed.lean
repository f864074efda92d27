import Mathlib.Data.List.Nodup

/-!
# Lists with distinct keys

A table whose rows are told apart by a key: replacing a row by one with the
same key keeps the keys, and leaves every row with another key alone.
-/

namespace Lpi.Verified.Keyed

variable {α κ : Type*} (key : α → κ)

theorem map_set {l : List α} {i : Nat} {a b : α} (hget : l[i]? = some a)
    (hkey : key b = key a) : (l.set i b).map key = l.map key := by
  rw [List.map_set, hkey]
  apply List.ext_getElem?
  intro j
  by_cases hj : i = j
  · subst hj
    rw [List.getElem?_set_self', List.getElem?_map, hget]
    rfl
  · rw [List.getElem?_set_ne hj]

/-- A row of the changed table is the new row or an old one with another
key. -/
theorem mem_set {l : List α} (hnodup : (l.map key).Nodup) {i : Nat} {a b x : α}
    (hget : l[i]? = some a) (hx : x ∈ l.set i b) :
    x = b ∨ x ∈ l ∧ key x ≠ key a := by
  obtain ⟨j, hj⟩ := List.mem_iff_getElem?.1 hx
  have hi : i < l.length := (List.getElem?_eq_some_iff.1 hget).1
  by_cases hij : i = j
  · subst hij
    rw [List.getElem?_set_self hi, Option.some.injEq] at hj
    exact Or.inl hj.symm
  · rw [List.getElem?_set_ne hij] at hj
    refine Or.inr ⟨List.mem_of_getElem? hj, ?_⟩
    intro hkey
    apply hij
    rw [← List.getElem?_inj (by simpa using hi) hnodup]
    rw [List.getElem?_map, List.getElem?_map, hget, hj, Option.map_some,
      Option.map_some, hkey]

/-- Two rows with one key are the same row. -/
theorem eq_of_key_eq {l : List α} (hnodup : (l.map key).Nodup) {a b : α}
    (ha : a ∈ l) (hb : b ∈ l) (hkey : key a = key b) : a = b :=
  List.inj_on_of_nodup_map hnodup ha hb hkey

/-- At most one row has a given key. -/
theorem filter_key [DecidableEq κ] {l : List α} (hnodup : (l.map key).Nodup)
    (k : κ) :
    l.filter (key · = k) = [] ∨
      ∃ a ∈ l, key a = k ∧ l.filter (key · = k) = [a] := by
  induction l with
  | nil => exact Or.inl rfl
  | cons b l ih =>
      rw [List.map_cons, List.nodup_cons] at hnodup
      by_cases hb : key b = k
      · have hrest : l.filter (key · = k) = [] := by
          rw [List.filter_eq_nil_iff]
          intro a ha hkey
          rw [decide_eq_true_iff, ← hb] at hkey
          exact hnodup.1 (List.mem_map.2 ⟨a, ha, hkey⟩)
        exact Or.inr ⟨b, List.mem_cons_self, hb, by simp [hb, hrest]⟩
      · rcases ih hnodup.2 with hnone | ⟨a, ha, hkey, hone⟩
        · exact Or.inl (by simp [hb, hnone])
        · exact Or.inr ⟨a, List.mem_cons_of_mem _ ha, hkey, by simp [hb, hone]⟩

end Lpi.Verified.Keyed
