/-!
# Flags

A word of flags is made with `|`, and a flag is looked for with `&`, which leaves
nothing but the flag if it is a single bit (`and_single`).  `union`
is the word made of a list of flags; it has the flags that are in one of the
list (`has_union`), and neither the order nor the number of times they are in
it matters (`union_congr`).
-/

namespace Lpi.Verified.Flags

variable {w : Nat}

/-- The flag is set in the word. -/
def Has (flags flag : BitVec w) : Prop := flags &&& flag ≠ 0#w

instance (flags flag : BitVec w) : Decidable (Has flags flag) :=
  inferInstanceAs (Decidable (_ ≠ _))

/-- All the flags of a list. -/
def union : List (BitVec w) → BitVec w
  | [] => 0#w
  | flag :: flags => flag ||| union flags

/-- A mask that has the flag keeps it. -/
theorem has_and {word mask flag : BitVec w} (h : mask &&& flag = flag) :
    Has (word &&& mask) flag ↔ Has word flag := by
  rw [Has, Has, BitVec.and_assoc, h]

/-- `&` with a single bit gives that bit, or nothing. -/
theorem and_single {word flag : BitVec w} (hflag : ∃ i, flag = BitVec.twoPow w i) :
    word &&& flag = if Has word flag then flag else 0#w := by
  rcases hflag with ⟨i, rfl⟩
  by_cases h : Has word (BitVec.twoPow w i)
  · rw [if_pos h, BitVec.and_twoPow]
    have hbit : word.getLsbD i = true := by
      rw [Has, BitVec.and_twoPow] at h
      exact Decidable.byContradiction fun hbit => h (if_neg hbit)
    rw [if_pos hbit]
  · rw [if_neg h]
    exact Decidable.not_not.1 h

theorem not_has_zero (flag : BitVec w) : ¬ Has 0#w flag := by
  simp [Has]

theorem has_or {a b flag : BitVec w} : Has (a ||| b) flag ↔ Has a flag ∨ Has b flag := by
  simp only [Has, BitVec.and_or_distrib_right, ne_eq]
  rw [BitVec.or_eq_zero_iff, Decidable.not_and_iff_not_or_not]

theorem has_union {flags : List (BitVec w)} {flag : BitVec w} :
    Has (union flags) flag ↔ ∃ f ∈ flags, Has f flag := by
  induction flags with
  | nil => simp [union, not_has_zero]
  | cons f flags ih => simp only [union, has_or, ih, List.mem_cons, exists_eq_or_imp]

private theorem getLsbD_union (flags : List (BitVec w)) (i : Nat) :
    (union flags).getLsbD i = flags.any (·.getLsbD i) := by
  induction flags with
  | nil => simp [union]
  | cons f flags ih => rw [union, BitVec.getLsbD_or, ih, List.any_cons]

theorem union_congr {flags flags' : List (BitVec w)} (h : ∀ f, f ∈ flags ↔ f ∈ flags') :
    union flags = union flags' := by
  apply BitVec.eq_of_getLsbD_eq
  intro i _
  rw [getLsbD_union, getLsbD_union, Bool.eq_iff_iff, List.any_eq_true, List.any_eq_true]
  simp only [h]

private theorem and_or_self (a b : BitVec w) : a &&& b ||| b = b := by
  apply BitVec.eq_of_getLsbD_eq
  intro i _
  rw [BitVec.getLsbD_or, BitVec.getLsbD_and]
  cases a.getLsbD i <;> simp

/-- The word has each flag whole. -/
theorem union_and_of_mem {flags : List (BitVec w)} {flag : BitVec w} (h : flag ∈ flags) :
    union flags &&& flag = flag := by
  induction flags with
  | nil => simp at h
  | cons f flags ih =>
      rw [union, BitVec.and_or_distrib_right]
      rcases List.mem_cons.1 h with rfl | hmem
      · rw [BitVec.and_self, BitVec.or_comm]
        exact and_or_self (union flags) flag
      · rw [ih hmem]
        exact and_or_self f flag

/-- The flags that are added one after the other. -/
theorem or_union_cons (word flag : BitVec w) (flags : List (BitVec w)) :
    word ||| flag ||| union flags = word ||| union (flag :: flags) := by
  rw [union, BitVec.or_assoc]

end Lpi.Verified.Flags
