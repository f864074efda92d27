import Mathlib

/-!
# A counter that hands out numbers

A server hands out the value of a machine counter and then advances it by an
amount that came with the request.  What it did is a log: each entry has the
number it was given (`num`) and, if it advanced the counter, by how much
(`inc`).  `Numbered` says that the numbers are those of the counter.

Machine addition wraps, so the numbers say nothing about each other unless
the amounts are positive and their total fits; then the entries are given
disjoint ranges and no addition wraps (`Numbered.allotted`).
-/

namespace Lpi.Verified.Counter

/-- The counter after adding every amount in turn. -/
def counter (base : Int32) (amounts : List Int32) : Int32 :=
  amounts.foldl (· + ·) base

@[simp] theorem counter_nil (base : Int32) : counter base [] = base := rfl

@[simp] theorem counter_cons (base x : Int32) (xs : List Int32) :
    counter base (x :: xs) = counter (base + x) xs := rfl

@[simp] theorem counter_append (base : Int32) (xs ys : List Int32) :
    counter base (xs ++ ys) = counter (counter base xs) ys := by
  simp [counter]

/-- The sum of the amounts as numbers. -/
def total (amounts : List Int32) : Int := (amounts.map Int32.toInt).sum

@[simp] theorem total_nil : total [] = 0 := rfl

@[simp] theorem total_cons (x : Int32) (xs : List Int32) :
    total (x :: xs) = x.toInt + total xs := by
  simp [total]

@[simp] theorem total_append (xs ys : List Int32) :
    total (xs ++ ys) = total xs + total ys := by
  simp [total]

theorem total_nonneg {xs : List Int32} (h : ∀ x ∈ xs, 0 ≤ x.toInt) :
    0 ≤ total xs := by
  induction xs with
  | nil => simp
  | cons x xs ih =>
      have hx := h x (by simp)
      have hxs := ih fun y hy => h y (by simp [hy])
      rw [total_cons]
      omega

theorem toInt_add_of_lt {x y : Int32} (hy : 0 ≤ y.toInt)
    (hsum : x.toInt + y.toInt < 2 ^ 31) :
    (x + y).toInt = x.toInt + y.toInt := by
  have hx : -2 ^ 31 ≤ x.toInt := x.le_toInt
  rw [Int32.toInt_add]
  apply Int.bmod_eq_of_le <;> omega

/-- While the total fits, the machine counter counts. -/
theorem toInt_counter {base : Int32} {xs : List Int32}
    (hpos : ∀ x ∈ xs, 0 ≤ x.toInt) (hmax : base.toInt + total xs < 2 ^ 31) :
    (counter base xs).toInt = base.toInt + total xs := by
  induction xs generalizing base with
  | nil => simp
  | cons x xs ih =>
      have hx := hpos x (by simp)
      have hxs : ∀ y ∈ xs, 0 ≤ y.toInt := fun y hy => hpos y (by simp [hy])
      have hrest := total_nonneg hxs
      rw [total_cons] at hmax
      have hadd : (base + x).toInt = base.toInt + x.toInt := by
        apply toInt_add_of_lt hx
        omega
      rw [counter_cons, ih hxs (by omega), hadd, total_cons]
      omega

section

variable {α : Type*} (num : α → Int32) (inc : α → Option Int32)

/-- Every entry of the log was given the value the counter had before it. -/
def Numbered (base : Int32) (log : List α) : Prop :=
  ∀ k e, log[k]? = some e → num e = counter base ((log.take k).filterMap inc)

variable {num inc}

theorem numbered_nil (base : Int32) : Numbered num inc base [] := by
  intro k e h
  simp at h

theorem Numbered.concat {base : Int32} {log : List α} {e : α}
    (h : Numbered num inc base log)
    (he : num e = counter base (log.filterMap inc)) :
    Numbered num inc base (log ++ [e]) := by
  intro k d hk
  by_cases hlt : k < log.length
  · rw [List.getElem?_append_left hlt] at hk
    rw [List.take_append_of_le_length hlt.le]
    exact h k d hk
  · have hend : k = log.length := by
      have hbound := (List.getElem?_eq_some_iff.1 hk).1
      rw [List.length_append, List.length_singleton] at hbound
      omega
    subst hend
    rw [List.getElem?_concat_length, Option.some.injEq] at hk
    rw [List.take_left', ← hk, he]
    rfl

/-- The two numbers differ, and so do all numbers of the half-open ranges
that start at them. -/
def Apart (m k n l : Int32) : Prop :=
  m ≠ n ∧ Disjoint (Set.Ico m.toInt (m.toInt + k.toInt))
    (Set.Ico n.toInt (n.toInt + l.toInt))

section

variable {base : Int32} {log : List α} (h : Numbered num inc base log)
  (hpos : ∀ x ∈ log.filterMap inc, 0 ≤ x.toInt)
  (hmax : base.toInt + total (log.filterMap inc) < 2 ^ 31)

include h hpos hmax

/-- The number of an entry, without wrapping. -/
theorem Numbered.toInt_num {i : Nat} {a : α} (ha : log[i]? = some a) :
    (num a).toInt = base.toInt + total ((log.take i).filterMap inc) := by
  have hsplit : log.filterMap inc =
      (log.take i).filterMap inc ++ (log.drop i).filterMap inc := by
    rw [← List.filterMap_append, List.take_append_drop]
  have hrest : 0 ≤ total ((log.drop i).filterMap inc) := by
    apply total_nonneg
    intro x hx
    apply hpos
    rw [hsplit]
    exact List.mem_append_right _ hx
  rw [h i a ha]
  apply toInt_counter
  · intro x hx
    apply hpos
    rw [hsplit]
    exact List.mem_append_left _ hx
  · rw [hsplit, total_append] at hmax
    omega

/-- Advancing the counter past an entry's range does not wrap. -/
theorem Numbered.add_lt {i : Nat} {a : α} {len : Int32}
    (ha : log[i]? = some a) (hlen : inc a = some len) :
    (num a).toInt + len.toInt < 2 ^ 31 := by
  obtain ⟨hi, hget⟩ := List.getElem?_eq_some_iff.1 ha
  have hsplit : log.filterMap inc = (log.take i).filterMap inc ++
      len :: (log.drop (i + 1)).filterMap inc := by
    conv_lhs => rw [← List.take_append_drop i log, List.drop_eq_getElem_cons hi]
    rw [hget, List.filterMap_append, List.filterMap_cons_some hlen]
  have hrest : 0 ≤ total ((log.drop (i + 1)).filterMap inc) := by
    apply total_nonneg
    intro x hx
    apply hpos
    rw [hsplit]
    exact List.mem_append_right _ (List.mem_cons_of_mem _ hx)
  rw [h.toInt_num hpos hmax ha]
  rw [hsplit, total_append, total_cons] at hmax
  omega

/-- A later entry's number is past the whole range of an earlier one. -/
theorem Numbered.add_le {i j : Nat} {a b : α} {len : Int32} (hij : i < j)
    (ha : log[i]? = some a) (hb : log[j]? = some b) (hlen : inc a = some len) :
    (num a).toInt + len.toInt ≤ (num b).toInt := by
  obtain ⟨hi, hget⟩ := List.getElem?_eq_some_iff.1 ha
  have hsplit : (log.take j).filterMap inc = (log.take i).filterMap inc ++
      len :: ((log.take j).drop (i + 1)).filterMap inc := by
    have hi' : i < (log.take j).length := by
      have hj := (List.getElem?_eq_some_iff.1 hb).1
      rw [List.length_take]
      omega
    conv_lhs => rw [← List.take_append_drop i (log.take j),
      List.drop_eq_getElem_cons hi']
    rw [List.getElem_take, hget, List.filterMap_append,
      List.filterMap_cons_some hlen, List.take_take, min_eq_left hij.le]
  have hmid : 0 ≤ total (((log.take j).drop (i + 1)).filterMap inc) := by
    apply total_nonneg
    intro x hx
    apply hpos
    obtain ⟨e, he, hx⟩ := List.mem_filterMap.1 hx
    exact List.mem_filterMap.2
      ⟨e, List.mem_of_mem_take (List.mem_of_mem_drop he), hx⟩
  rw [h.toInt_num hpos hmax ha, h.toInt_num hpos hmax hb, hsplit,
    total_append, total_cons]
  omega

end

theorem Apart.symm {m k n l : Int32} (h : Apart m k n l) : Apart n l m k :=
  ⟨h.1.symm, h.2.symm⟩

theorem apart_of_le {m k n l : Int32} (hk : 1 ≤ k.toInt)
    (hle : m.toInt + k.toInt ≤ n.toInt) : Apart m k n l := by
  constructor
  · rintro rfl
    omega
  · rw [Set.disjoint_left]
    intro x hm hn
    have hbelow : x < m.toInt + k.toInt := hm.2
    have habove : n.toInt ≤ x := hn.1
    omega

variable (num inc) in
/-- The entries that advanced the counter have numbers and ranges of their
own, and advancing it was exact. -/
structure Allotted (log : List α) : Prop where
  apart : ∀ (i j : Nat) (a b : α) (k l : Int32), i ≠ j → log[i]? = some a →
    log[j]? = some b → inc a = some k → inc b = some l →
    Apart (num a) k (num b) l
  add_exact : ∀ a ∈ log, ∀ k, inc a = some k →
    (num a + k).toInt = (num a).toInt + k.toInt

/-- Positive amounts whose total fits are allotted. -/
theorem Numbered.allotted {base : Int32} {log : List α}
    (h : Numbered num inc base log)
    (hone : ∀ x ∈ log.filterMap inc, 1 ≤ x.toInt)
    (hmax : base.toInt + total (log.filterMap inc) < 2 ^ 31) :
    Allotted num inc log := by
  have hpos : ∀ x ∈ log.filterMap inc, 0 ≤ x.toInt := by
    intro x hx
    have := hone x hx
    omega
  have hamount : ∀ (i : Nat) (a : α) (k : Int32), log[i]? = some a →
      inc a = some k → 1 ≤ k.toInt := by
    intro i a k ha hk
    exact hone k (List.mem_filterMap.2 ⟨a, List.mem_of_getElem? ha, hk⟩)
  constructor
  · intro i j a b k l hij ha hb hk hl
    rcases Nat.lt_or_gt_of_ne hij with hlt | hlt
    · exact apart_of_le (hamount i a k ha hk) (h.add_le hpos hmax hlt ha hb hk)
    · exact (apart_of_le (hamount j b l hb hl)
        (h.add_le hpos hmax hlt hb ha hl)).symm
  · intro a ha k hk
    obtain ⟨i, hi⟩ := List.mem_iff_getElem?.1 ha
    apply toInt_add_of_lt
    · have := hamount i a k hi hk
      omega
    · exact h.add_lt hpos hmax hi hk

end

end Lpi.Verified.Counter
