import Lpi.Verified.CString
import Lpi.Verified.Flags

/-!
# `getopt`

An argument that begins with `-` and goes on holds the letters of options, one
behind the other.  A letter that takes a value takes the rest of its argument
or, if there is none, the next argument.  The other arguments are the operands;
the GNU version finds the options behind them too.  The argument `--` ends the
options.

`getopt options argv` is what the calls of `getopt` return, one after the
other, and the operands, which are what is behind `optind` in the end.  Its
arguments are those behind the name of the program.  `getopt_spell` says that
options that are written down one by one are found as they are, and
`consistent_of_mem_getopt` that nothing else is found than what the string of
the options has.  `loop` is what a program makes of the options.
-/

namespace Lpi.Verified.Getopt

open Lpi.Verified.CString
open Lpi.Verified.Flags

/-- What a call returns: a letter, a letter with its value in `optarg`, or `?`
for a letter that is not an option or lacks its value. -/
inductive Found where
  | flag (c : UInt8)
  | value (c : UInt8) (optarg : CStr)
  | unknown (c : UInt8)
  | missing (c : UInt8)
  deriving DecidableEq

/-- The result of the call. -/
def Found.opt : Found → UInt8
  | .flag c | .value c _ => c
  | .unknown _ | .missing _ => 63

def Found.isError : Found → Bool
  | .unknown _ | .missing _ => true
  | .flag _ | .value _ _ => false

/-- What the call prints on standard error. -/
def Found.diagnostic (program : CStr) : Found → List UInt8
  | .unknown c => program.bytes ++ ascii ": invalid option -- '" ++ [c] ++ ascii "'\n"
  | .missing c =>
      program.bytes ++ ascii ": option requires an argument -- '" ++ [c] ++ ascii "'\n"
  | .flag _ | .value _ _ => []

/-- Whether the letter takes a value, if it is an option. -/
def takesValue (options : List UInt8) (c : UInt8) : Option Bool :=
  if c = 58 ∨ c = 59 then none
  else match options.dropWhile (· ≠ c) with
    | [] => none
    | _ :: more => some (more.head? = some 58)

theorem mem_of_takesValue {options : List UInt8} {c : UInt8} {takes : Bool}
    (h : takesValue options c = some takes) : c ∈ options ∧ c ≠ 58 ∧ c ≠ 59 := by
  unfold takesValue at h
  split at h
  · cases h
  · rename_i hcolon
    refine ⟨?_, not_or.1 hcolon⟩
    by_contra hc
    have hnone : options.dropWhile (· ≠ c) = [] := by
      rw [List.dropWhile_eq_nil_iff]
      intro c' hc'
      exact decide_eq_true fun heq : c' = c => hc (heq ▸ hc')
    rw [hnone] at h
    cases h

/-- The options of a string, and whether they take a value. -/
def letterTable (options : List UInt8) : List (UInt8 × Bool) :=
  options.filterMap fun c => (takesValue options c).map fun takes => (c, takes)

theorem mem_letterTable {options : List UInt8} {c : UInt8} {takes : Bool}
    (h : takesValue options c = some takes) : (c, takes) ∈ letterTable options :=
  List.mem_filterMap.2 ⟨c, (mem_of_takesValue h).1, by rw [h, Option.map_some]⟩

/-- The letters of one argument: what they are, and the last of them if it takes
its value from the next argument. -/
def letters (options : List UInt8) : (cs : List UInt8) → 0 ∉ cs → List Found × Option UInt8
  | [], _ => ([], none)
  | c :: cs, h =>
      have hcs : 0 ∉ cs := fun hmem => h (List.mem_cons_of_mem c hmem)
      match takesValue options c with
      | none => ((.unknown c) :: (letters options cs hcs).1, (letters options cs hcs).2)
      | some false => ((.flag c) :: (letters options cs hcs).1, (letters options cs hcs).2)
      | some true => if cs = [] then ([], some c) else ([.value c ⟨cs, hcs⟩], none)

/-- The argument holds letters of options, or it is `--`. -/
def isOption (arg : CStr) : Bool := arg.bytes.head? = some 45 && arg.bytes ≠ [45]

theorem nulFree_tail (arg : CStr) : 0 ∉ arg.bytes.tail :=
  fun h => arg.nulFree (List.mem_of_mem_tail h)

/-- The letters of an argument. -/
def argLetters (options : List UInt8) (arg : CStr) : List Found × Option UInt8 :=
  letters options arg.bytes.tail (nulFree_tail arg)

/-- All calls for the arguments: what is found, and the operands. -/
def getopt (options : List UInt8) : List CStr → List Found × List CStr
  | [] => ([], [])
  | [arg] =>
      if arg.bytes = ascii "--" then ([], [])
      else if isOption arg then
        ((argLetters options arg).1 ++ ((argLetters options arg).2.map Found.missing).toList,
          [])
      else ([], [arg])
  | arg :: next :: rest =>
      if arg.bytes = ascii "--" then ([], next :: rest)
      else if isOption arg then
        match (argLetters options arg).2 with
        | none =>
            ((argLetters options arg).1 ++ (getopt options (next :: rest)).1,
              (getopt options (next :: rest)).2)
        | some c =>
            ((argLetters options arg).1 ++ .value c next :: (getopt options rest).1,
              (getopt options rest).2)
      else ((getopt options (next :: rest)).1, arg :: (getopt options (next :: rest)).2)

/-- The loop of a program over the options: each one changes the variables, or
it ends the program. -/
def loop {V E : Type} (turn : V → Found → Except E V) : List Found → V → Except E V
  | [], v => .ok v
  | f :: found, v =>
      match turn v f with
      | .error e => .error e
      | .ok v => loop turn found v

/-- What every option keeps, the loop keeps. -/
theorem loop_invariant {V E : Type} {turn : V → Found → Except E V} {I : V → Prop}
    (hturn : ∀ v f v', I v → turn v f = .ok v' → I v') {found : List Found} {v v' : V}
    (hv : I v) (h : loop turn found v = .ok v') : I v' := by
  induction found generalizing v with
  | nil =>
      rw [loop, Except.ok.injEq] at h
      exact h ▸ hv
  | cons f found ih =>
      rw [loop] at h
      cases hf : turn v f with
      | error e => simp [hf] at h
      | ok w =>
          rw [hf] at h
          exact ih (hturn v f w hv hf) h

/-- An option that always ends the program ends it. -/
theorem loop_error {V E : Type} {turn : V → Found → Except E V} {found : List Found}
    (h : ∃ f ∈ found, ∀ v, ∃ e, turn v f = .error e) (v : V) :
    ∃ e, loop turn found v = .error e := by
  induction found generalizing v with
  | nil =>
      obtain ⟨f, hf, -⟩ := h
      exact absurd hf List.not_mem_nil
  | cons f found ih =>
      rw [loop]
      cases hturn : turn v f with
      | error e => exact ⟨e, rfl⟩
      | ok v' =>
          obtain ⟨f', hf', hends⟩ := h
          cases List.mem_cons.1 hf' with
          | inl heq =>
              obtain ⟨e, he⟩ := hends v
              rw [heq, hturn] at he
              cases he
          | inr hmem => exact ih ⟨f', hmem, hends⟩ v'

/-! ## What is found -/

/-- What an option that is found can be. -/
inductive Valid (options : List UInt8) : Found → Prop where
  | flag {c : UInt8} (hc : c ≠ 0) (h : takesValue options c = some false) :
      Valid options (.flag c)
  | value {c : UInt8} (hc : c ≠ 0) (optarg : CStr) (h : takesValue options c = some true) :
      Valid options (.value c optarg)

/-- A letter is an option, or it is reported. -/
def Consistent (options : List UInt8) (found : Found) : Prop :=
  found.isError = true ∨ Valid options found

/-- The letters of an argument are consistent, and the last of them takes a
value if one is missing. -/
private theorem consistent_letters (options : List UInt8) (cs : List UInt8) (h : 0 ∉ cs) :
    (∀ found ∈ (letters options cs h).1, Consistent options found) ∧
      ∀ c ∈ (letters options cs h).2, c ≠ 0 ∧ takesValue options c = some true := by
  induction cs with
  | nil => exact ⟨fun _ hmem => absurd hmem List.not_mem_nil, fun _ hmem => nomatch hmem⟩
  | cons c cs ih =>
      have hc : c ≠ 0 := fun hzero => h (hzero ▸ List.mem_cons_self)
      have hcs : 0 ∉ cs := fun hmem => h (List.mem_cons_of_mem c hmem)
      obtain ⟨hfound, hlast⟩ := ih hcs
      cases htakes : takesValue options c with
      | none =>
          simp only [letters, htakes, List.forall_mem_cons]
          exact ⟨⟨.inl rfl, hfound⟩, hlast⟩
      | some takes =>
          cases takes with
          | false =>
              simp only [letters, htakes, List.forall_mem_cons]
              exact ⟨⟨.inr (.flag hc htakes), hfound⟩, hlast⟩
          | true =>
              simp only [letters, htakes]
              split
              · refine ⟨fun _ hmem => absurd hmem List.not_mem_nil, fun c' hc' => ?_⟩
                obtain rfl : c = c' := Option.some.inj hc'
                exact ⟨hc, htakes⟩
              · rw [List.forall_mem_singleton]
                exact ⟨.inr (.value hc _ htakes), fun _ hmem => nomatch hmem⟩

private theorem consistent_argLetters (options : List UInt8) (arg : CStr) :
    (∀ found ∈ (argLetters options arg).1, Consistent options found) ∧
      ∀ c ∈ (argLetters options arg).2, c ≠ 0 ∧ takesValue options c = some true :=
  consistent_letters options _ _

/-- Everything that is found is an option of the string, with a value if it
takes one, or it is reported. -/
theorem consistent_of_mem_getopt {options : List UInt8} {argv : List CStr} :
    ∀ found ∈ (getopt options argv).1, Consistent options found := by
  fun_induction getopt options argv with
  | case1 | case2 | case4 | case5 => exact fun _ hmem => absurd hmem List.not_mem_nil
  | case3 arg hend harg =>
      obtain ⟨hfound, hlast⟩ := consistent_argLetters options arg
      rw [List.forall_mem_append]
      refine ⟨hfound, fun found hmem => ?_⟩
      cases hmissing : (argLetters options arg).2 with
      | none => simp [hmissing] at hmem
      | some c =>
          simp only [hmissing, Option.map_some, Option.toList_some, List.mem_singleton] at hmem
          exact .inl (hmem ▸ rfl)
  | case6 arg next rest hend harg hnone ih =>
      rw [List.forall_mem_append]
      exact ⟨(consistent_argLetters options arg).1, ih⟩
  | case7 arg next rest hend harg c hsome ih =>
      obtain ⟨hfound, hlast⟩ := consistent_argLetters options arg
      obtain ⟨hc, htakes⟩ := hlast c hsome
      rw [List.forall_mem_append, List.forall_mem_cons]
      exact ⟨hfound, .inr (.value hc next htakes), ih⟩
  | case8 arg next rest hend harg ih => exact ih

/-! ## Options that are flags -/

/-- The flag of an option, from the table of the letters with one. -/
def flagIn {w : Nat} (table : List (UInt8 × BitVec w)) : Found → Option (BitVec w)
  | .flag c => (table.find? (·.1 = c)).map Prod.snd
  | _ => none

/-- A flag is set if and only if one of the letters that bring it is found. -/
theorem has_union_flagIn_iff {w : Nat} {table : List (UInt8 × BitVec w)}
    {letters : List UInt8} {flag : BitVec w}
    (honly : table.all fun e => Has e.2 flag ↔ e.1 ∈ letters)
    (hletters : letters.all fun c => table.any fun e => e.1 = c) (found : List Found) :
    Has (union (found.filterMap (flagIn table))) flag ↔ ∃ c ∈ letters, .flag c ∈ found := by
  have htable : ∀ e ∈ table, Has e.2 flag ↔ e.1 ∈ letters := by
    simpa only [List.all_eq_true, decide_eq_true_eq] using honly
  rw [has_union]
  constructor
  · rintro ⟨x, hx, hflag⟩
    obtain ⟨f, hf, hfx⟩ := List.mem_filterMap.1 hx
    cases f with
    | flag c =>
        obtain ⟨e, he, rfl⟩ := Option.map_eq_some_iff.1 hfx
        have hletter : e.1 ∈ letters := (htable e (List.mem_of_find?_eq_some he)).1 hflag
        have hfind : e.1 = c := by simpa using List.find?_some he
        exact ⟨c, hfind ▸ hletter, hf⟩
    | value c optarg | unknown c | missing c => cases hfx
  · rintro ⟨c, hc, hf⟩
    obtain ⟨e, he⟩ : ∃ e, table.find? (·.1 = c) = some e := by
      have hany := List.all_eq_true.1 hletters c hc
      exact Option.isSome_iff_exists.1 (List.find?_isSome.2 (List.any_eq_true.1 hany))
    refine ⟨e.2, List.mem_filterMap.2 ⟨_, hf, by rw [flagIn, he]; rfl⟩, ?_⟩
    have hfind : e.1 = c := by simpa using List.find?_some he
    exact (htable e (List.mem_of_find?_eq_some he)).2 (hfind ▸ hc)

/-- If only one letter brings the flag, it says whether that one is found. -/
theorem has_union_flagIn {w : Nat} {table : List (UInt8 × BitVec w)} {c : UInt8}
    {flag : BitVec w} (honly : table.all fun e => Has e.2 flag ↔ e.1 ∈ [c])
    (hletter : [c].all fun c => table.any fun e => e.1 = c) (found : List Found) :
    Has (union (found.filterMap (flagIn table))) flag ↔ .flag c ∈ found := by
  rw [has_union_flagIn_iff honly hletter]
  simp

/-! ## The order of the options -/

def Found.letter : Found → UInt8
  | .flag c | .value c _ | .unknown c | .missing c => c

/-- The same options, those of each letter in the same order. -/
def SameOptions (found found' : List Found) : Prop :=
  ∀ c, found.filter (·.letter = c) = found'.filter (·.letter = c)

theorem SameOptions.mem_iff {found found' : List Found} (h : SameOptions found found')
    (f : Found) : f ∈ found ↔ f ∈ found' := by
  have hmem : ∀ fs : List Found, f ∈ fs ↔ f ∈ fs.filter (·.letter = f.letter) := by
    intro fs
    simp
  rw [hmem found, h f.letter, ← hmem found']

/-- The values given with one letter. -/
def optargs (c : UInt8) (found : List Found) : List CStr :=
  found.filterMap fun
    | .value c' optarg => if c' = c then some optarg else none
    | _ => none

theorem mem_optargs {c : UInt8} {optarg : CStr} {found : List Found} :
    optarg ∈ optargs c found ↔ .value c optarg ∈ found := by
  rw [optargs, List.mem_filterMap]
  constructor
  · rintro ⟨f, hf, heq⟩
    cases f with
    | value c' optarg' =>
        simp only [Option.ite_none_right_eq_some, Option.some.injEq] at heq
        exact heq.1 ▸ heq.2 ▸ hf
    | flag c' | unknown c' | missing c' => cases heq
  · exact fun h => ⟨_, h, by simp⟩

theorem optargs_filter_letter (c : UInt8) (found : List Found) :
    optargs c (found.filter (·.letter = c)) = optargs c found := by
  rw [optargs, optargs, List.filterMap_filter]
  congr 1
  funext f
  cases f with
  | value c' optarg =>
      by_cases hc : c' = c
      · simp [Found.letter, hc]
      · simp [hc]
  | flag c' | unknown c' | missing c' => simp

theorem optargs_filter_letter_ne {c c' : UInt8} (h : c ≠ c') (found : List Found) :
    optargs c (found.filter (·.letter = c')) = [] := by
  rw [List.eq_nil_iff_forall_not_mem]
  intro optarg hmem
  rw [mem_optargs, List.mem_filter] at hmem
  exact h (of_decide_eq_true hmem.2)

theorem SameOptions.optargs_eq {found found' : List Found} (h : SameOptions found found')
    (c : UInt8) : optargs c found = optargs c found' := by
  rw [← optargs_filter_letter, h c, optargs_filter_letter]

theorem optargs_append (c : UInt8) (found found' : List Found) :
    optargs c (found ++ found') = optargs c found ++ optargs c found' :=
  List.filterMap_append

/-- The options of a letter can be moved behind the others. -/
theorem sameOptions_move (c : UInt8) (found : List Found) :
    SameOptions found (found.filter (·.letter ≠ c) ++ found.filter (·.letter = c)) := by
  intro c'
  rw [List.filter_append, List.filter_filter, List.filter_filter]
  by_cases hc : c' = c
  · subst hc
    have hnone : found.filter (fun f => decide (f.letter = c') && decide (f.letter ≠ c')) = [] := by
      simp
    rw [hnone, List.nil_append]
    simp
  · have hnone : found.filter (fun f => decide (f.letter = c') && decide (f.letter = c)) = [] := by
      rw [List.filter_eq_nil_iff]
      intro f _
      simp only [Bool.and_eq_true, decide_eq_true_eq, not_and]
      exact fun hf hf' => hc (hf.symm.trans hf')
    rw [hnone, List.append_nil]
    apply List.filter_congr
    intro f _
    by_cases hf : f.letter = c'
    · simp [hf, hc]
    · simp [hf]

/-! ## Options written down -/

/-- The argument with one letter. -/
def dash (c : UInt8) : CStr := ⟨cString [45, c], zero_notMem_cString _⟩

/-- The arguments for what is to be found. -/
def spell : Found → List CStr
  | .flag c | .unknown c | .missing c => [dash c]
  | .value c optarg => [dash c, optarg]

theorem bytes_dash {c : UInt8} (hc : c ≠ 0) : (dash c).bytes = [45, c] := by
  simp [dash, cString, hc]

private theorem isOption_dash {c : UInt8} (hc : c ≠ 0) : isOption (dash c) = true := by
  simp [isOption, bytes_dash hc]

private theorem dash_ne_end {c : UInt8} (hc : c ≠ 0) (hsign : c ≠ 45) :
    (dash c).bytes ≠ ascii "--" := by
  have hbytes : ascii "--" = [45, 45] := by decide
  rw [bytes_dash hc, hbytes]
  simpa using hsign

/-- An option that is written down is found, whatever follows. -/
private theorem getopt_spell_append {options : List UInt8} {found : Found}
    (hvalid : Valid options found) (hsign : takesValue options 45 = none) (rest : List CStr) :
    getopt options (spell found ++ rest) =
      (found :: (getopt options rest).1, (getopt options rest).2) := by
  cases hvalid with
  | @flag c hc h =>
      have hne : c ≠ 45 := by rintro rfl; simp [hsign] at h
      have hletters : argLetters options (dash c) = ([.flag c], none) := by
        simp only [argLetters, bytes_dash hc, List.tail_cons, letters, h]
      cases rest with
      | nil =>
          simp [spell, getopt, dash_ne_end hc hne, isOption_dash hc, hletters]
      | cons next rest =>
          rw [spell, List.singleton_append, getopt, if_neg (dash_ne_end hc hne),
            if_pos (isOption_dash hc), hletters]
          rfl
  | @value c hc optarg h =>
      have hne : c ≠ 45 := by rintro rfl; simp [hsign] at h
      have hletters : argLetters options (dash c) = ([], some c) := by
        simp only [argLetters, bytes_dash hc, List.tail_cons, letters, h, if_pos]
      rw [spell, List.cons_append, List.singleton_append, getopt,
        if_neg (dash_ne_end hc hne), if_pos (isOption_dash hc), hletters]
      rfl

/-- The argument that ends the options. -/
def endOfOptions : CStr := ⟨ascii "--", by decide⟩

theorem getopt_endOfOptions (options : List UInt8) (operands : List CStr) :
    getopt options (endOfOptions :: operands) = ([], operands) := by
  have hend : endOfOptions.bytes = ascii "--" := rfl
  cases operands with
  | nil => rw [getopt, if_pos hend]
  | cons next rest => rw [getopt, if_pos hend]

/-- **Options that are written down are found**, in their order, and behind
them the operands. -/
theorem getopt_spell {options : List UInt8} {found : List Found}
    (hvalid : ∀ f ∈ found, Valid options f) (hsign : takesValue options 45 = none)
    (operands : List CStr) :
    getopt options (found.flatMap spell ++ endOfOptions :: operands) = (found, operands) := by
  induction found with
  | nil => exact getopt_endOfOptions options operands
  | cons f found ih =>
      rw [List.forall_mem_cons] at hvalid
      rw [List.flatMap_cons, List.append_assoc, getopt_spell_append hvalid.1 hsign,
        ih hvalid.2]

/-- Options that were found in some arguments can be written down in any order
and number. -/
theorem getopt_spell_of_mem {options : List UInt8} {argv : List CStr} {found : List Found}
    (hsign : takesValue options 45 = none)
    (hmem : ∀ f ∈ found, f ∈ (getopt options argv).1 ∧ f.isError = false)
    (operands : List CStr) :
    getopt options (found.flatMap spell ++ endOfOptions :: operands) = (found, operands) := by
  apply getopt_spell _ hsign
  intro f hf
  obtain ⟨hfound, hvalid⟩ := hmem f hf
  cases consistent_of_mem_getopt f hfound with
  | inl herror => exact absurd (hvalid.symm.trans herror) Bool.false_ne_true
  | inr hvalid => exact hvalid

end Lpi.Verified.Getopt
