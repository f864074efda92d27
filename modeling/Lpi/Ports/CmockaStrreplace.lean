import Lpi.Verified.CString
import Lpi.Verified.Pieces
import Lpi.Verified.Rewrite
import Mathlib.Data.FinEnum

/-!
# Replacing in a buffer (`c_strreplace`, `extern/cmocka/src/cmocka.c`)

The name of the file for the XML output may contain `%g`, for which the name of the
test group is put in.  `c_strreplace` replaces the first occurrence and searches
again from the start, until there is none or the buffer might be too small.

Every access is checked in the model, and none is outside of the buffer
(`body_eq`).  A round is a step of rewriting with one rule, so the loop comes to an
end unless the replacement is the pattern itself (`returns_iff`).
-/

namespace Lpi.Ports.CmockaStrreplace

open Lpi.Verified
open Lpi.Verified.CString
open Lpi.Verified.Pieces

variable {srcLen : Nat}

/-! ## Strings and memory -/

/-- The index of the first occurrence. -/
def strstr (str pattern : List UInt8) : Option Nat :=
  (List.range (str.length + 1)).find? fun of => pattern.isPrefixOf (str.drop of)

/-- Store bytes from an index on, all of them inside of the buffer. -/
def memcpy (src : Buffer srcLen) (dst : Nat) (bs : List UInt8) : Option (Buffer srcLen) :=
  if h : dst + bs.length ≤ srcLen then
    some ⟨src.bytes.take dst ++ (bs ++ src.bytes.drop (dst + bs.length)), by
      have hlen := src.length_eq
      simp only [List.length_append, List.length_take, List.length_drop]
      omega⟩
  else none

/-- Both ranges may overlap. -/
def memmove (src : Buffer srcLen) (dst start n : Nat) : Option (Buffer srcLen) :=
  if start + n ≤ srcLen then memcpy src dst ((src.bytes.drop start).take n) else none

/-- The string in the buffer. -/
def content (src : Buffer srcLen) : List UInt8 := cString src.bytes

/-- The buffer has a NUL. -/
def Terminated (src : Buffer srcLen) : Prop := 0 ∈ src.bytes

/-! ## The program -/

/-- `fault` is an access outside of the buffer. -/
inductive Result (srcLen : Nat) where
  | returned (rc : Int) (src : Buffer srcLen) (strReplaced : Option Int)
  | fault

/-- Make room behind the occurrence, and put the replacement there. -/
def body (pattern repl : List UInt8) (src : Buffer srcLen) (of : Nat) : Option (Buffer srcLen) :=
  let l := (content src).length
  let pl := pattern.length
  let rl := repl.length
  (if rl ≠ pl then memmove src (of + rl) (of + pl) (l - of - pl + 1) else some src).bind
    fun src => memcpy src of repl

/-- The `do` loop, for as many rounds as there is fuel; `str_replaced` may be
`NULL`. -/
def loop (pattern repl : List UInt8) :
    Nat → Buffer srcLen → Nat → Option Int → Option (Result srcLen)
  | 0, _, _, _ => none
  | fuel + 1, src, of, strReplaced =>
      if srcLen ≤ (content src).length + max pattern.length repl.length + 1 then
        some (.returned (-1) src strReplaced)
      else
        match body pattern repl src of with
        | none => some .fault
        | some src =>
          let strReplaced := strReplaced.map fun _ => 1
          match strstr (content src) pattern with
          | none => some (.returned 0 src strReplaced)
          | some of => loop pattern repl fuel src of strReplaced

def cStrreplace (fuel : Nat) (src : Buffer srcLen) (pattern repl : CStr)
    (strReplaced : Option Int) : Option (Result srcLen) :=
  match strstr (content src) pattern.bytes with
  | none => some (.returned (-1) src strReplaced)
  | some of => loop pattern.bytes repl.bytes fuel src of strReplaced

/-! ## Occurrences -/

theorem strstr_eq_none {str pattern : List UInt8} :
    strstr str pattern = none ↔ ¬ pattern <:+: str := by
  rw [strstr, List.find?_eq_none]
  constructor
  · rintro h ⟨a, c, hstr⟩
    have hof : a.length < str.length + 1 := by
      rw [← hstr]
      simp only [List.length_append]
      omega
    apply h a.length (List.mem_range.2 hof)
    rw [List.isPrefixOf_iff_prefix, ← hstr, List.append_assoc, List.drop_left]
    exact List.prefix_append pattern c
  · intro h of _ hpre
    rw [List.isPrefixOf_iff_prefix] at hpre
    exact h (hpre.isInfix.trans (List.drop_suffix of str).isInfix)

theorem split_of_strstr {str pattern : List UInt8} {of : Nat} (h : strstr str pattern = some of) :
    ∃ a c, str = a ++ (pattern ++ c) ∧ a.length = of := by
  have hpre := List.find?_some h
  have hmem := List.mem_of_find?_eq_some h
  rw [List.isPrefixOf_iff_prefix] at hpre
  rcases hpre with ⟨c, hc⟩
  refine ⟨str.take of, c, ?_, ?_⟩
  · rw [hc, List.take_append_drop]
  · have := List.mem_range.1 hmem
    rw [List.length_take]
    omega

/-! ## One round -/

theorem bytes_eq {src : Buffer srcLen} (h : Terminated src) :
    ∃ rest, src.bytes = content src ++ 0 :: rest := by
  rcases List.eq_append_cons_of_mem h with ⟨str, rest, hbytes, hstr⟩
  refine ⟨rest, ?_⟩
  rw [content, hbytes, cString_append_zero hstr]

theorem bytes_memcpy (src : Buffer srcLen) {dst : Nat} {bs : List UInt8}
    (h : dst + bs.length ≤ srcLen) : ∃ src', memcpy src dst bs = some src' ∧
      src'.bytes = src.bytes.take dst ++ (bs ++ src.bytes.drop (dst + bs.length)) := by
  rw [memcpy, dif_pos h]
  exact ⟨_, rfl, rfl⟩

/-- What is behind the occurrence has moved to where it belongs, and nothing before
it has changed. -/
theorem exists_move {src : Buffer srcLen} {pattern repl a c : List UInt8} (h : Terminated src)
    (hcontent : content src = a ++ (pattern ++ c))
    (hroom : ¬ srcLen ≤ (content src).length + max pattern.length repl.length + 1) :
    ∃ src' rest, (if repl.length ≠ pattern.length then
        memmove src (a.length + repl.length) (a.length + pattern.length)
          ((content src).length - a.length - pattern.length + 1)
      else some src) = some src' ∧
      src'.bytes.take a.length = a ∧
      src'.bytes.drop (a.length + repl.length) = c ++ 0 :: rest := by
  rcases bytes_eq h with ⟨rest, hbytes⟩
  have hlen := src.length_eq
  rw [hcontent] at hbytes hroom ⊢
  have hdrop : src.bytes.drop (a.length + pattern.length) = c ++ 0 :: rest := by
    rw [hbytes, ← List.append_assoc, List.append_assoc _ c, ← List.length_append, List.drop_left]
  have htake : src.bytes.take a.length = a := by
    rw [hbytes, List.append_assoc, List.take_left]
  by_cases heq : repl.length = pattern.length
  · rw [if_neg (not_not.2 heq)]
    exact ⟨src, rest, rfl, htake, by rw [heq, hdrop]⟩
  · rw [if_pos heq]
    simp only [List.length_append] at hroom ⊢
    have hn : a.length + (pattern.length + c.length) - a.length - pattern.length + 1 =
        (c ++ [0]).length := by
      simp only [List.length_append, List.length_singleton]
      omega
    have hmoved : (src.bytes.drop (a.length + pattern.length)).take (c ++ [0]).length =
        c ++ [0] := by
      rw [hdrop, List.append_cons c 0 rest, List.take_left]
    have hstart : a.length + pattern.length + (c ++ [0]).length ≤ srcLen := by
      simp only [List.length_append, List.length_singleton]
      omega
    have hto : a.length + repl.length + (c ++ [0]).length ≤ srcLen := by
      simp only [List.length_append, List.length_singleton]
      omega
    rw [hn, memmove, if_pos hstart, hmoved]
    rcases bytes_memcpy src hto with ⟨src', hsrc', hbytes'⟩
    have hfront : (src.bytes.take (a.length + repl.length)).length = a.length + repl.length := by
      rw [List.length_take]
      omega
    refine ⟨src', src.bytes.drop (a.length + repl.length + (c ++ [0]).length), hsrc', ?_, ?_⟩
    · rw [hbytes', List.take_append_of_le_length (by omega), List.take_take,
        Nat.min_eq_left (by omega), htake]
    · rw [hbytes', List.drop_left' hfront, List.append_assoc]
      rfl

/-- **A round stays inside of the buffer**, and replaces one occurrence of the
pattern in its string. -/
theorem body_eq {src : Buffer srcLen} {pattern repl : CStr} {a c : List UInt8}
    (h : Terminated src) (hcontent : content src = a ++ (pattern.bytes ++ c))
    (hroom : ¬ srcLen ≤ (content src).length + max pattern.bytes.length repl.bytes.length + 1) :
    ∃ src', body pattern.bytes repl.bytes src a.length = some src' ∧ Terminated src' ∧
      content src' = a ++ (repl.bytes ++ c) := by
  rcases exists_move h hcontent hroom with ⟨moved, rest, hmoved, htake, hdrop⟩
  have hfits : a.length + repl.bytes.length ≤ srcLen := by
    rw [hcontent] at hroom
    simp only [List.length_append] at hroom
    omega
  rcases bytes_memcpy moved hfits with ⟨src', hsrc', hbytes'⟩
  have hnul : 0 ∉ a ++ (repl.bytes ++ c) := by
    have hzero : 0 ∉ content src := zero_notMem_cString _
    rw [hcontent] at hzero
    simp only [List.mem_append, not_or] at hzero ⊢
    exact ⟨hzero.1, repl.nulFree, hzero.2.2⟩
  have hbytes : src'.bytes = a ++ (repl.bytes ++ c) ++ 0 :: rest := by
    rw [hbytes', htake, hdrop]
    simp only [List.append_assoc]
  refine ⟨src', ?_, ?_, ?_⟩
  · rw [body, hmoved, Option.bind_some, hsrc']
  · rw [Terminated, hbytes]
    simp
  · rw [content, hbytes, cString_append_zero hnul]

/-! ## The loop -/

/-- Another round might be too much for the buffer. -/
def Full (pattern repl : CStr) (src : Buffer srcLen) : Prop :=
  srcLen ≤ (content src).length + max pattern.bytes.length repl.bytes.length + 1

/-- What a call has done when it returns: nothing, as there is no occurrence or no
room, or some rounds until that is so. -/
structure Correct (pattern repl : CStr) (src : Buffer srcLen) (strReplaced : Option Int) (rc : Int)
    (src' : Buffer srcLen) (strReplaced' : Option Int) : Prop where
  terminated : Terminated src'
  done : rc = -1 ∧ src' = src ∧ strReplaced' = strReplaced ∨
    Relation.TransGen (Rewrite.Step pattern.bytes repl.bytes) (content src) (content src') ∧
      strReplaced' = strReplaced.map fun _ => 1
  left : rc = 0 ∧ ¬ pattern.bytes <:+: content src' ∨
    rc = -1 ∧ (Full pattern repl src' ∨ src' = src ∧ ¬ pattern.bytes <:+: content src)

variable {pattern repl : CStr} {src : Buffer srcLen} {of : Nat}

/-- A round of the loop, in which there is room. -/
theorem exists_round (h : Terminated src) (hof : strstr (content src) pattern.bytes = some of)
    (hroom : ¬ Full pattern repl src) :
    ∃ src', body pattern.bytes repl.bytes src of = some src' ∧ Terminated src' ∧
      Rewrite.Step pattern.bytes repl.bytes (content src) (content src') := by
  rcases split_of_strstr hof with ⟨a, c, hcontent, rfl⟩
  rcases body_eq h hcontent hroom with ⟨src', hbody, hnul, hcontent'⟩
  exact ⟨src', hbody, hnul, a, c, by rw [hcontent, List.append_assoc],
    by rw [hcontent', List.append_assoc]⟩

theorem loop_full {fuel : Nat} {strReplaced : Option Int} (hfull : Full pattern repl src) :
    loop pattern.bytes repl.bytes (fuel + 1) src of strReplaced =
      some (.returned (-1) src strReplaced) := by
  unfold Full at hfull
  rw [loop, if_pos hfull]

theorem loop_round {fuel : Nat} {strReplaced : Option Int} {src' : Buffer srcLen}
    (hroom : ¬ Full pattern repl src)
    (hbody : body pattern.bytes repl.bytes src of = some src') :
    loop pattern.bytes repl.bytes (fuel + 1) src of strReplaced =
      match strstr (content src') pattern.bytes with
      | none => some (.returned 0 src' (strReplaced.map fun _ => 1))
      | some of => loop pattern.bytes repl.bytes fuel src' of (strReplaced.map fun _ => 1) := by
  unfold Full at hroom
  rw [loop, if_neg hroom, hbody]

theorem infix_of_strstr (hof : strstr (content src) pattern.bytes = some of) :
    pattern.bytes <:+: content src := by
  by_contra hnone
  rw [strstr_eq_none.2 hnone] at hof
  cases hof

theorem loop_correct (fuel : Nat) {strReplaced : Option Int} {r : Result srcLen}
    (h : Terminated src) (hof : strstr (content src) pattern.bytes = some of)
    (hloop : loop pattern.bytes repl.bytes fuel src of strReplaced = some r) :
    ∃ rc src' strReplaced', r = .returned rc src' strReplaced' ∧
      Correct pattern repl src strReplaced rc src' strReplaced' := by
  induction fuel generalizing src of strReplaced with
  | zero => cases hloop
  | succ fuel ih =>
      by_cases hfull : Full pattern repl src
      · rw [loop_full hfull, Option.some.injEq] at hloop
        exact ⟨-1, src, strReplaced, hloop.symm, h, Or.inl ⟨rfl, rfl, rfl⟩,
          Or.inr ⟨rfl, Or.inl hfull⟩⟩
      rcases exists_round h hof hfull with ⟨mid, hbody, hmid, hstep⟩
      rw [loop_round hfull hbody] at hloop
      cases hnext : strstr (content mid) pattern.bytes with
      | none =>
          rw [hnext, Option.some.injEq] at hloop
          exact ⟨0, mid, _, hloop.symm, hmid, Or.inr ⟨.single hstep, rfl⟩,
            Or.inl ⟨rfl, strstr_eq_none.1 hnext⟩⟩
      | some of' =>
          rw [hnext] at hloop
          rcases ih hmid hnext hloop with ⟨rc, src', strReplaced', hr, hcorrect⟩
          refine ⟨rc, src', strReplaced', hr, hcorrect.terminated, Or.inr ?_, ?_⟩
          · rcases hcorrect.done with ⟨_, rfl, hflag⟩ | ⟨hmore, hflag⟩
            · exact ⟨.single hstep, hflag⟩
            · exact ⟨.head hstep hmore, by rw [hflag, Option.map_map]; rfl⟩
          · rcases hcorrect.left with hnone | ⟨hrc, hfull | ⟨_, hnone⟩⟩
            · exact Or.inl hnone
            · exact Or.inr ⟨hrc, Or.inl hfull⟩
            · exact absurd (infix_of_strstr hnext) hnone

/-- The loop ends if the replacement is another string than the pattern. -/
theorem exists_loop (hne : pattern.bytes ≠ repl.bytes) (strReplaced : Option Int)
    (h : Terminated src) (hof : strstr (content src) pattern.bytes = some of) :
    ∃ fuel r, loop pattern.bytes repl.bytes fuel src of strReplaced = some r := by
  induction hs : content src using (Rewrite.wellFounded hne srcLen).induction
    generalizing src of strReplaced with
  | _ str ih =>
      subst hs
      by_cases hfull : Full pattern repl src
      · exact ⟨1, _, loop_full hfull⟩
      rcases exists_round h hof hfull with ⟨mid, hbody, hmid, hstep⟩
      cases hnext : strstr (content mid) pattern.bytes with
      | none => exact ⟨1, _, by rw [loop_round hfull hbody, hnext]⟩
      | some of' =>
          have hlen : (content mid).length ≤ srcLen := by
            have := hstep.length
            unfold Full at hfull
            omega
          rcases ih (content mid) ⟨hstep, hlen⟩ _ hmid hnext rfl with ⟨fuel, r, hloop⟩
          exact ⟨fuel + 1, r, by rw [loop_round hfull hbody, hnext]; exact hloop⟩

/-- It does not if it is the same, and there is room for it. -/
theorem loop_self (heq : pattern.bytes = repl.bytes) (fuel : Nat) {strReplaced : Option Int}
    (h : Terminated src) (hof : strstr (content src) pattern.bytes = some of)
    (hroom : ¬ Full pattern repl src) :
    loop pattern.bytes repl.bytes fuel src of strReplaced = none := by
  induction fuel generalizing src of strReplaced with
  | zero => rfl
  | succ fuel ih =>
      rcases exists_round h hof hroom with ⟨mid, hbody, hmid, hstep⟩
      rw [← heq] at hstep
      have hcontent := hstep.eq
      have hroom' : ¬ Full pattern repl mid := by rwa [Full, hcontent]
      rw [loop_round hroom hbody, hcontent, hof]
      exact ih hmid (hcontent ▸ hof) hroom'

/-! ## The whole call -/

/-- **`c_strreplace` never leaves its buffer, and returns unless it replaces the
pattern by itself**: what it returns is `Correct`, and it returns exactly if the
pattern does not occur, is another string than its replacement, or there is no room
for a round. -/
theorem cStrreplace_correct (h : Terminated src) (pattern repl : CStr) (strReplaced : Option Int) :
    (∀ fuel r, cStrreplace fuel src pattern repl strReplaced = some r →
      ∃ rc src' strReplaced', r = .returned rc src' strReplaced' ∧
        Correct pattern repl src strReplaced rc src' strReplaced') ∧
    ((∃ fuel r, cStrreplace fuel src pattern repl strReplaced = some r) ↔
      ¬ pattern.bytes <:+: content src ∨ pattern.bytes ≠ repl.bytes ∨ Full pattern repl src) := by
  cases hof : strstr (content src) pattern.bytes with
  | none =>
      have hnone := strstr_eq_none.1 hof
      have hcall : ∀ fuel, cStrreplace fuel src pattern repl strReplaced =
          some (.returned (-1) src strReplaced) := by
        intro fuel
        rw [cStrreplace, hof]
      refine ⟨?_, iff_of_true ⟨0, _, hcall 0⟩ (Or.inl hnone)⟩
      intro fuel r hr
      rw [hcall, Option.some.injEq] at hr
      exact ⟨-1, src, strReplaced, hr.symm, h, Or.inl ⟨rfl, rfl, rfl⟩,
        Or.inr ⟨rfl, Or.inr ⟨rfl, hnone⟩⟩⟩
  | some of =>
      have hcall : ∀ fuel, cStrreplace fuel src pattern repl strReplaced =
          loop pattern.bytes repl.bytes fuel src of strReplaced := by
        intro fuel
        rw [cStrreplace, hof]
      refine ⟨fun fuel r hr => loop_correct fuel h hof (hcall fuel ▸ hr), ?_⟩
      constructor
      · rintro ⟨fuel, r, hr⟩
        by_contra hnot
        simp only [not_or, not_not] at hnot
        rw [hcall, loop_self hnot.2.1 fuel h hof hnot.2.2] at hr
        cases hr
      · rintro (hnone | hne | hfull)
        · exact absurd (infix_of_strstr hof) hnone
        · rcases exists_loop hne strReplaced h hof with ⟨fuel, r, hr⟩
          exact ⟨fuel, r, (hcall fuel).trans hr⟩
        · exact ⟨1, _, (hcall 1).trans (loop_full hfull)⟩

/-- The buffer of the XML output, shortened, for a file `%g.xml`. -/
def fileName : Buffer 12 := ⟨ascii "%g.xml" ++ List.replicate 6 0, by decide⟩

theorem terminated_fileName : Terminated fileName := by
  unfold Terminated
  decide

/-- A group with the name `%g` is replaced for ever. -/
theorem cStrreplace_group_name : ¬ ∃ fuel r, cStrreplace fuel fileName ⟨ascii "%g", by decide⟩
    ⟨ascii "%g", by decide⟩ none = some r := by
  rw [(cStrreplace_correct terminated_fileName _ _ none).2]
  unfold Full
  decide

end Lpi.Ports.CmockaStrreplace
