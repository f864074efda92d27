import Lpi.Verified.CString

/-!
# Listings

A listing is the text of one record after the other.  It can be read back if the
text of a record tells where it ends, which means that no two records have texts of
which one is the beginning of the other (`PrefixFree`).  A number with something
behind it that is no digit is such a text, and with it all that starts in that way;
and so is a line, if what is in it can be read back.
-/

namespace Lpi.Verified.Listing

open Lpi.Verified.CString

variable {α β : Type*} {P : α → Prop}

/-- The record can be read off the beginning of a text, if it is one of `P`. -/
def PrefixFree (P : α → Prop) (f : α → List β) : Prop :=
  ∀ a b x y, P a → P b → f a ++ x = f b ++ y → a = b

theorem PrefixFree.after {f : α → List β} (h : PrefixFree P f) (pre : List β) :
    PrefixFree P fun a => pre ++ f a := by
  intro a b x y ha hb heq
  rw [List.append_assoc, List.append_assoc] at heq
  exact h a b x y ha hb (List.append_cancel_left heq)

theorem PrefixFree.before {f : α → List β} (h : PrefixFree P f) (post : α → List β) :
    PrefixFree P fun a => f a ++ post a := by
  intro a b x y ha hb heq
  rw [List.append_assoc, List.append_assoc] at heq
  exact h a b _ _ ha hb heq

/-- **A listing can be read back.** -/
theorem PrefixFree.flatMap_inj {f : α → List β} (h : PrefixFree P f) (hne : ∀ a, f a ≠ [])
    {l l' : List α} (hl : ∀ a ∈ l, P a) (hl' : ∀ a ∈ l', P a)
    (heq : l.flatMap f = l'.flatMap f) : l = l' := by
  induction l generalizing l' with
  | nil =>
      cases l' with
      | nil => rfl
      | cons b l' =>
          rw [List.flatMap_nil, List.flatMap_cons] at heq
          exact absurd (List.append_eq_nil_iff.1 heq.symm).1 (hne b)
  | cons a l ih =>
      cases l' with
      | nil =>
          rw [List.flatMap_nil, List.flatMap_cons] at heq
          exact absurd (List.append_eq_nil_iff.1 heq).1 (hne a)
      | cons b l' =>
          rw [List.forall_mem_cons] at hl hl'
          rw [List.flatMap_cons, List.flatMap_cons] at heq
          have hab := h a b _ _ hl.1 hl'.1 heq
          subst hab
          rw [ih hl.2 hl'.2 (List.append_cancel_left heq)]

/-! ## Where a part of a text ends -/

/-- A part of a text ends with the first byte that is not of its kind. -/
theorem append_inj_of_kind {kind : β → Bool} {a b x y : List β} (ha : ∀ c ∈ a, kind c = true)
    (hb : ∀ c ∈ b, kind c = true) (hx : ∀ c ∈ x.head?, kind c = false)
    (hy : ∀ c ∈ y.head?, kind c = false) (h : a ++ x = b ++ y) : a = b ∧ x = y := by
  have hend : ∀ z : List β, (∀ c ∈ z.head?, kind c = false) → z.takeWhile kind = [] := by
    intro z hz
    cases z with
    | nil => rfl
    | cons c z => exact List.takeWhile_cons_of_neg (by simp [hz c rfl])
  have hparts := congrArg (List.takeWhile kind) h
  rw [List.takeWhile_append_of_pos ha, List.takeWhile_append_of_pos hb, hend x hx, hend y hy,
    List.append_nil, List.append_nil] at hparts
  subst hparts
  exact ⟨rfl, List.append_cancel_left h⟩

/-- A line ends with the first newline. -/
theorem prefixFree_line {f : α → List UInt8} (hline : ∀ a, P a → 10 ∉ f a)
    (hinj : ∀ a b, P a → P b → f a = f b → a = b) : PrefixFree P fun a => f a ++ [10] := by
  have hkind : ∀ a, P a → ∀ c ∈ f a, decide (c ≠ 10) = true := by
    intro a ha c hc
    rw [decide_eq_true_iff]
    intro hten
    exact hline a ha (hten ▸ hc)
  intro a b x y ha hb heq
  rw [List.append_assoc, List.append_assoc] at heq
  exact hinj a b ha hb (append_inj_of_kind (hkind a ha) (hkind b hb) (by simp) (by simp) heq).1

/-! ## Numbers -/

def isDigit (c : UInt8) : Bool := 48 ≤ c && c ≤ 57

theorem isDigit_of_mem_digitChars {n : Nat} {c : UInt8} (h : c ∈ digitChars n) :
    isDigit c = true := by
  unfold digitChars at h
  by_cases hn : n = 0
  · rw [if_pos hn, List.mem_singleton] at h
    rw [h]
    rfl
  · rw [if_neg hn, List.mem_reverse, List.mem_map] at h
    rcases h with ⟨d, hd, rfl⟩
    have hlt : d < 10 := Nat.digits_lt_base (by decide) hd
    have hall : ∀ d < 10, isDigit (UInt8.ofNat (48 + d)) = true := by decide
    exact hall d hlt

theorem digitChars_ne_nil (n : Nat) : digitChars n ≠ [] := by
  unfold digitChars
  by_cases hn : n = 0
  · simp [hn]
  · simp [hn, Nat.digits_ne_nil_iff_ne_zero]

/-- The bytes of a number that may be negative. -/
theorem mem_decimal {x : Int} {c : UInt8} (h : c ∈ decimal x) : isDigit c = true ∨ c = 45 := by
  unfold decimal at h
  by_cases hx : x < 0
  · rw [if_pos hx, List.mem_cons] at h
    exact h.symm.imp_left isDigit_of_mem_digitChars
  · rw [if_neg hx] at h
    exact Or.inl (isDigit_of_mem_digitChars h)

end Lpi.Verified.Listing
