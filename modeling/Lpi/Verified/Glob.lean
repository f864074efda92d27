import Mathlib.Computability.Language
import Mathlib.Order.CompletePartialOrder

/-!
# Patterns with wildcards

A pattern is a sequence of letters, of wildcards for one letter and of wildcards
for any number of them, and denotes the language of the words it matches
(`lang`).  Words of a language are taken apart by the piece in front
(`mem_lang_one`, `mem_lang_many_cons`).

The shortest word of a language has a letter for each piece that is not a wildcard
for many (`weight`).
-/

namespace Lpi.Verified.Glob

variable {α : Type*}

/-- A piece of a pattern: one of the letters in a set, or any number of letters. -/
inductive Piece (α : Type*) where
  | one (letters : Set α)
  | many

/-- The words a piece matches. -/
def Piece.lang : Piece α → Language α
  | .one letters => {w | ∃ a ∈ letters, w = [a]}
  | .many => ⊤

/-- The words a pattern matches. -/
def lang (p : List (Piece α)) : Language α := (p.map Piece.lang).prod

@[simp] theorem lang_nil : lang ([] : List (Piece α)) = 1 := rfl

theorem lang_cons (c : Piece α) (p : List (Piece α)) : lang (c :: p) = c.lang * lang p := by
  simp [lang]

variable {p q : List (Piece α)} {letters : Set α} {w : List α} {a : α}

/-! ## The piece in front -/

theorem nil_notMem_lang_one : [] ∉ lang (.one letters :: p) := by
  rw [lang_cons, Language.mem_mul]
  rintro ⟨u, ⟨b, _, rfl⟩, v, _, huv⟩
  simp at huv

theorem mem_lang_one : a :: w ∈ lang (.one letters :: p) ↔ a ∈ letters ∧ w ∈ lang p := by
  rw [lang_cons, Language.mem_mul]
  constructor
  · rintro ⟨u, ⟨b, hb, rfl⟩, v, hv, huv⟩
    rw [List.singleton_append, List.cons.injEq] at huv
    exact ⟨huv.1 ▸ hb, huv.2 ▸ hv⟩
  · rintro ⟨ha, hw⟩
    exact ⟨[a], ⟨a, ha, rfl⟩, w, hw, rfl⟩

theorem mem_lang_many_cons : w ∈ lang (.many :: p) ↔ ∃ v, v <:+ w ∧ v ∈ lang p := by
  rw [lang_cons, Language.mem_mul]
  constructor
  · rintro ⟨u, _, v, hv, rfl⟩
    exact ⟨v, List.suffix_append u v, hv⟩
  · rintro ⟨v, ⟨u, rfl⟩, hv⟩
    exact ⟨u, Set.mem_univ u, v, hv, rfl⟩

theorem lang_many : lang [.many] = (⊤ : Language α) := by
  rw [lang_cons, lang_nil, mul_one, Piece.lang]

/-- Two wildcards for many are one. -/
theorem lang_many_many : lang (.many :: .many :: p) = lang (.many :: p) := by
  ext w
  rw [mem_lang_many_cons, mem_lang_many_cons]
  constructor
  · rintro ⟨v, hv, hmany⟩
    rcases mem_lang_many_cons.1 hmany with ⟨u, hu, hp⟩
    exact ⟨u, hu.trans hv, hp⟩
  · rintro ⟨v, hv, hp⟩
    exact ⟨v, hv, mem_lang_many_cons.2 ⟨v, List.suffix_refl v, hp⟩⟩

/-! ## The shortest words -/

/-- The pieces that match one letter. -/
def weight : List (Piece α) → Nat
  | [] => 0
  | .one _ :: p => weight p + 1
  | .many :: p => weight p

theorem weight_le_length (h : w ∈ lang p) : weight p ≤ w.length := by
  induction p generalizing w with
  | nil => exact Nat.zero_le _
  | cons c p ih =>
      cases c with
      | one letters =>
          cases w with
          | nil => exact absurd h nil_notMem_lang_one
          | cons a w => exact Nat.succ_le_succ (ih (mem_lang_one.1 h).2)
      | many =>
          rcases mem_lang_many_cons.1 h with ⟨v, hv, hp⟩
          exact (ih hp).trans hv.length_le

/-- Only a pattern for many letters matches no letters. -/
theorem weight_eq_zero_of_nil_mem (h : [] ∈ lang p) : weight p = 0 :=
  Nat.le_zero.1 (weight_le_length h)

end Lpi.Verified.Glob
