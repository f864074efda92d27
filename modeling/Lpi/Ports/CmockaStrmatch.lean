import Lpi.Verified.CString
import Lpi.Verified.Glob

/-!
# The patterns of test names (`c_strmatch`, `extern/cmocka/src/cmocka.c`)

A test runs if its name matches the filter pattern and does not match the skip
pattern.  In a pattern `?` stands for one character and `*` for any number.

Behind a `*` the loop tries the rest of the pattern at each character of the string,
but not at its end.  That is no matter as long as the rest needs a character, or is
empty, which is tested before.  If it is a `*` again then one character is missed:
the stars at the end of a pattern, if there are several, are read as `?*`
(`reading`, `strmatch_iff`).
-/

namespace Lpi.Ports.CmockaStrmatch

open Lpi.Verified.CString
open Lpi.Verified.Glob

/-- `'*'`. -/
def star : UInt8 := 42

/-- `'?'`. -/
def question : UInt8 := 63

/-- `for (; *str != '\0'; str++)`, with the recursive call. -/
def tryEach (call : List UInt8 → Bool) : List UInt8 → Bool
  | [] => false
  | c :: str => if call (c :: str) then true else tryEach call str

/-- The loop over a pattern. -/
def strmatch : List UInt8 → List UInt8 → Bool
  | [], str => str.isEmpty
  | p :: pattern, str =>
      if p = star then
        if pattern.isEmpty then true
        else tryEach (strmatch pattern) str
      else
        match str with
        | [] => false
        | c :: str => if p ≠ question ∧ c ≠ p then false else strmatch pattern str

/-- `c_strmatch`; either argument may be `NULL`. -/
def cStrmatch (str pattern : Option CStr) : Int :=
  match str, pattern with
  | some str, some pattern => if strmatch pattern.bytes str.bytes then 1 else 0
  | _, _ => 0

/-! ## What the patterns mean -/

/-- What a character of a pattern stands for. -/
def piece (p : UInt8) : Piece UInt8 :=
  if p = star then .many else if p = question then .one Set.univ else .one {p}

def pieces (pattern : List UInt8) : List (Piece UInt8) := pattern.map piece

/-- What `c_strmatch` makes of a pattern: several stars at its end are `?*`. -/
def reading : List UInt8 → List UInt8
  | [] => []
  | p :: pattern =>
      if p = star ∧ pattern ≠ [] ∧ pattern.all (· = star) then [question, star]
      else p :: reading pattern

theorem pieces_cons (p : UInt8) (pattern : List UInt8) :
    pieces (p :: pattern) = piece p :: pieces pattern := rfl

@[simp] theorem piece_star : piece star = .many := by
  simp [piece]

theorem piece_of_ne {p : UInt8} (hp : p ≠ star) :
    ∃ letters, piece p = .one letters ∧ p ∈ letters ∧
      ∀ c, c ∈ letters ↔ ¬ (p ≠ question ∧ c ≠ p) := by
  by_cases hq : p = question
  · exact ⟨Set.univ, by simp [piece, hq, question, star], Set.mem_univ p, by simp [hq]⟩
  · exact ⟨{p}, by simp [piece, hp, hq], rfl, by simp [hq]⟩

variable {p : UInt8} {pattern str : List UInt8}

theorem strmatch_star : strmatch (star :: pattern) str =
    if pattern.isEmpty then true else tryEach (strmatch pattern) str := by
  rw [strmatch.eq_def]
  exact if_pos rfl

theorem strmatch_nil_of_ne (hp : p ≠ star) : strmatch (p :: pattern) [] = false := by
  rw [strmatch.eq_def]
  exact if_neg hp

theorem strmatch_cons_of_ne {c : UInt8} (hp : p ≠ star) : strmatch (p :: pattern) (c :: str) =
    if p ≠ question ∧ c ≠ p then false else strmatch pattern str := by
  rw [strmatch.eq_def]
  exact if_neg hp

theorem reading_star_of_not (h : ¬ pattern.all (· = star) = true) :
    reading (star :: pattern) = star :: reading pattern := by
  rw [reading, if_neg]
  exact fun hall => h hall.2.2

theorem reading_of_ne (hp : p ≠ star) : reading (p :: pattern) = p :: reading pattern := by
  rw [reading, if_neg]
  exact fun hall => hp hall.1

/-- Stars only, and more than one. -/
theorem reading_stars (hne : pattern ≠ []) (hall : pattern.all (· = star) = true) :
    reading (star :: pattern) = [question, star] := by
  rw [reading, if_pos ⟨rfl, hne, hall⟩]

/-- A pattern with something else than stars matches no empty string. -/
theorem weight_reading_pos (h : ¬ pattern.all (· = star) = true) :
    0 < weight (pieces (reading pattern)) := by
  induction pattern with
  | nil => exact absurd rfl h
  | cons p pattern ih =>
      by_cases hp : p = star
      · subst hp
        have hrest : ¬ pattern.all (· = star) = true := by simpa using h
        rw [reading_star_of_not hrest, pieces_cons, piece_star, weight]
        exact ih hrest
      · rcases piece_of_ne hp with ⟨letters, hpiece, _⟩
        rw [reading_of_ne hp, pieces_cons, hpiece, weight]
        exact Nat.succ_pos _

theorem mem_lang_question_star : str ∈ lang (pieces [question, star]) ↔ str ≠ [] := by
  have hpieces : pieces [question, star] = [.one Set.univ, .many] := by
    simp [pieces, piece, question, star]
  rw [hpieces]
  cases str with
  | nil => exact iff_of_false nil_notMem_lang_one (by simp)
  | cons c str =>
      rw [mem_lang_one, lang_many]
      exact iff_of_true ⟨Set.mem_univ c, Set.mem_univ str⟩ (by simp)

/-! ## What `c_strmatch` accepts -/

theorem tryEach_iff {call : List UInt8 → Bool} :
    tryEach call str = true ↔ ∃ v, v <:+ str ∧ v ≠ [] ∧ call v = true := by
  induction str with
  | nil => simp [tryEach]
  | cons c str ih =>
      rw [tryEach]
      by_cases hcall : call (c :: str) = true
      · rw [if_pos hcall]
        exact iff_of_true rfl ⟨c :: str, List.suffix_refl _, by simp, hcall⟩
      · rw [if_neg hcall, ih]
        constructor
        · rintro ⟨v, hv, hne, htrue⟩
          exact ⟨v, hv.trans (List.suffix_cons c str), hne, htrue⟩
        · rintro ⟨v, hv, hne, htrue⟩
          rcases List.suffix_cons_iff.1 hv with rfl | hv
          · exact absurd htrue hcall
          · exact ⟨v, hv, hne, htrue⟩

/-- The strings a run of stars matches behind a star: all but the empty one. -/
theorem tryEach_stars (hne : pattern ≠ []) (hall : pattern.all (· = star) = true)
    (ih : ∀ v, strmatch pattern v = true ↔ v ∈ lang (pieces (reading pattern))) :
    tryEach (strmatch pattern) str = true ↔ str ≠ [] := by
  rw [tryEach_iff]
  constructor
  · rintro ⟨v, hv, hvne, _⟩ rfl
    exact hvne (List.suffix_nil.1 hv)
  · intro hstr
    refine ⟨str, List.suffix_refl str, hstr, (ih str).2 ?_⟩
    cases pattern with
    | nil => exact absurd rfl hne
    | cons q pattern =>
        simp only [List.all_cons, Bool.and_eq_true, decide_eq_true_eq] at hall
        rcases hall with ⟨rfl, hrest⟩
        by_cases hempty : pattern = []
        · subst hempty
          rw [show reading [star] = [star] from rfl, pieces_cons, piece_star]
          exact lang_many ▸ Set.mem_univ str
        · rw [reading_stars hempty hrest]
          exact mem_lang_question_star.2 hstr

theorem strmatch_iff : strmatch pattern str = true ↔ str ∈ lang (pieces (reading pattern)) := by
  induction pattern generalizing str with
  | nil => simp [strmatch, reading, pieces, Language.mem_one]
  | cons p pattern ih =>
      by_cases hp : p = star
      · subst hp
        rw [strmatch_star]
        by_cases hne : pattern = []
        · subst hne
          have hlang : str ∈ lang (pieces (reading [star])) := by
            rw [show reading [star] = [star] from rfl, pieces_cons, piece_star]
            exact lang_many ▸ Set.mem_univ str
          exact iff_of_true rfl hlang
        rw [if_neg (by simpa using hne)]
        by_cases hall : pattern.all (· = star) = true
        · rw [tryEach_stars hne hall fun v => ih, reading_stars hne hall, mem_lang_question_star]
        · rw [reading_star_of_not hall, pieces_cons, piece_star, mem_lang_many_cons, tryEach_iff]
          constructor
          · rintro ⟨v, hv, _, htrue⟩
            exact ⟨v, hv, ih.1 htrue⟩
          · rintro ⟨v, hv, hmem⟩
            refine ⟨v, hv, ?_, ih.2 hmem⟩
            rintro rfl
            have hzero := weight_eq_zero_of_nil_mem hmem
            have hpos := weight_reading_pos hall
            omega
      · rcases piece_of_ne hp with ⟨letters, hpiece, _, hletters⟩
        rw [reading_of_ne hp, pieces_cons, hpiece]
        cases str with
        | nil =>
            rw [strmatch_nil_of_ne hp]
            exact iff_of_false (by simp) nil_notMem_lang_one
        | cons c str =>
            rw [strmatch_cons_of_ne hp, mem_lang_one, hletters c]
            by_cases hc : p ≠ question ∧ c ≠ p
            · simp [hc]
            · rw [if_neg hc, ih]
              exact (and_iff_right hc).symm

/-! ## Where that is what the pattern means -/

/-- A run of stars matches everything. -/
theorem lang_stars (hne : pattern ≠ []) (hall : pattern.all (· = star) = true) :
    lang (pieces pattern) = ⊤ := by
  induction pattern with
  | nil => exact absurd rfl hne
  | cons p pattern ih =>
      simp only [List.all_cons, Bool.and_eq_true, decide_eq_true_eq] at hall
      rcases hall with ⟨rfl, hrest⟩
      rw [pieces_cons, piece_star]
      cases pattern with
      | nil => exact lang_many
      | cons q pattern =>
          have hq : q = star := by simpa using (List.all_eq_true.1 hrest) q (by simp)
          rw [pieces_cons, hq, piece_star, lang_many_many, ← piece_star, ← hq, ← pieces_cons]
          exact ih (by simp) hrest

/-- Nothing is accepted that the pattern does not match. -/
theorem lang_reading_le (pattern : List UInt8) :
    lang (pieces (reading pattern)) ≤ lang (pieces pattern) := by
  induction pattern with
  | nil => exact le_refl _
  | cons p pattern ih =>
      rw [reading]
      split
      · rename_i hstars
        have htop : lang (pieces (p :: pattern)) = ⊤ :=
          lang_stars (by simp) (by simp [hstars.1, hstars.2.2])
        rw [htop]
        exact le_top
      · rw [pieces_cons, pieces_cons, lang_cons, lang_cons]
        exact mul_le_mul_right ih _

theorem stars_suffix (hne : pattern ≠ []) (hall : pattern.all (· = star) = true) :
    [star, star] <:+ star :: pattern := by
  have hstars : star :: pattern = List.replicate (pattern.length + 1) star := by
    rw [List.eq_replicate_iff]
    exact ⟨by simp, by simpa using hall⟩
  have hlen : 0 < pattern.length := List.length_pos_iff.2 hne
  refine ⟨List.replicate (pattern.length - 1) star, ?_⟩
  rw [hstars, show [star, star] = List.replicate 2 star from rfl, List.replicate_append_replicate]
  congr 1
  omega

theorem reading_eq_self (h : ¬ [star, star] <:+ pattern) : reading pattern = pattern := by
  induction pattern with
  | nil => rfl
  | cons p pattern ih =>
      have hrest : ¬ [star, star] <:+ pattern := fun hs => h (hs.trans (List.suffix_cons p pattern))
      rw [reading, if_neg, ih hrest]
      rintro ⟨rfl, hne, hall⟩
      exact h (stars_suffix hne hall)

theorem weight_pieces_cons (p : UInt8) (pattern : List UInt8) : weight (pieces (p :: pattern)) =
    weight (pieces pattern) + if p = star then 0 else 1 := by
  by_cases hp : p = star
  · rw [pieces_cons, hp, piece_star, weight, if_pos rfl, Nat.add_zero]
  · rcases piece_of_ne hp with ⟨letters, hpiece, _⟩
    rw [pieces_cons, hpiece, weight, if_neg hp]

theorem weight_pieces (pattern : List UInt8) :
    weight (pieces pattern) = (pattern.filter (· ≠ star)).length := by
  induction pattern with
  | nil => rfl
  | cons p pattern ih =>
      rw [weight_pieces_cons, ih, List.filter_cons]
      by_cases hp : p = star <;> simp [hp]

/-- A pattern without its stars is one of the shortest strings it matches. -/
theorem filter_mem_lang (pattern : List UInt8) :
    pattern.filter (· ≠ star) ∈ lang (pieces pattern) := by
  induction pattern with
  | nil => exact Language.nil_mem_one
  | cons p pattern ih =>
      by_cases hp : p = star
      · rw [List.filter_cons_of_neg (by simp [hp]), pieces_cons, hp, piece_star,
          mem_lang_many_cons]
        exact ⟨_, List.suffix_refl _, ih⟩
      · rcases piece_of_ne hp with ⟨letters, hpiece, hmem, _⟩
        rw [List.filter_cons_of_pos (by simp [hp]), pieces_cons, hpiece, mem_lang_one]
        exact ⟨hmem, ih⟩

/-- One more character is asked for where a pattern ends in two stars. -/
theorem weight_reading (h : [star, star] <:+ pattern) :
    weight (pieces (reading pattern)) = weight (pieces pattern) + 1 := by
  induction pattern with
  | nil => simp at h
  | cons p pattern ih =>
      rw [reading]
      split
      · rename_i hstars
        have hnone : pattern.filter (· ≠ star) = [] := by
          rw [List.filter_eq_nil_iff]
          intro q hq
          simpa using (List.all_eq_true.1 hstars.2.2) q hq
        rw [weight_pieces_cons p, if_pos hstars.1, weight_pieces pattern, hnone, weight_pieces]
        rfl
      · rename_i hstars
        have hrest : [star, star] <:+ pattern := by
          rcases List.suffix_cons_iff.1 h with heq | hrest
          · rw [List.cons.injEq] at heq
            exact absurd ⟨heq.1.symm, by simp [← heq.2], by simp [← heq.2]⟩ hstars
          · exact hrest
        rw [weight_pieces_cons, weight_pieces_cons, ih hrest]
        omega

/-- **The strings `c_strmatch` accepts**: never one that the pattern does not match,
and every one that it does, exactly for the patterns that do not end in two
stars. -/
theorem cStrmatch_iff (pattern : CStr) :
    (∀ str : CStr, cStrmatch (some str) (some pattern) = 1 ↔
      str.bytes ∈ lang (pieces (reading pattern.bytes))) ∧
    (∀ str : CStr, cStrmatch (some str) (some pattern) = 1 →
      str.bytes ∈ lang (pieces pattern.bytes)) ∧
    ((∀ str : CStr, cStrmatch (some str) (some pattern) = 1 ↔
      str.bytes ∈ lang (pieces pattern.bytes)) ↔ ¬ [star, star] <:+ pattern.bytes) := by
  have hexact : ∀ str : CStr, cStrmatch (some str) (some pattern) = 1 ↔
      str.bytes ∈ lang (pieces (reading pattern.bytes)) := by
    intro str
    rw [← strmatch_iff, cStrmatch]
    by_cases htrue : strmatch pattern.bytes str.bytes = true <;> simp [htrue]
  refine ⟨hexact, fun str h => lang_reading_le _ ((hexact str).1 h), ?_⟩
  constructor
  · intro hall hstars
    let shortest : CStr := ⟨pattern.bytes.filter (· ≠ star),
      fun hzero => pattern.nulFree (List.mem_of_mem_filter hzero)⟩
    have hmem := (hexact shortest).1 ((hall shortest).2 (filter_mem_lang pattern.bytes))
    have hle := weight_le_length hmem
    rw [weight_reading hstars, weight_pieces] at hle
    exact absurd hle (Nat.not_succ_le_self _)
  · intro hstars str
    rw [hexact, reading_eq_self hstars]

example : cStrmatch (some ⟨ascii "ab", by decide⟩) (some ⟨ascii "ab**", by decide⟩) = 0 := by decide

end Lpi.Ports.CmockaStrmatch
