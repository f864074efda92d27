import Lpi.Ports.IFcntlLockingParse

/-!
# The language of `i_fcntl_locking.c`

`Accepts` describes the lines that the program passes to `fcntl`, and with
which values.  It is wider than the format that the program prints as a help:
`sscanf` does not need white space between the parts, nothing is read behind
the whence, and a number that does not fit is not refused.
`commands_accepted` says that it is exact.
-/

namespace Lpi.Ports.IFcntlLocking

open Lpi.Verified.CInt
open Lpi.Verified.CString
open Lpi.Verified.Sscanf
open Lpi.Verified.Strtol

/-! ## The language of the commands -/

def AllSpace (s : List UInt8) : Prop := ∀ b ∈ s, isspace b = true

/-- The whence of a line, of what follows its numbers: nothing, or the first
letter there. -/
def IsWhence (tail : List UInt8) (whence : Int) : Prop :=
  (AllSpace tail ∧ whence = SEEK_SET) ∨
    ∃ gap w rest, tail = gap ++ w :: rest ∧ AllSpace gap ∧ (w, whence) ∈ whenceCases

/-- The lines that make a request: the letter of the command at the very
beginning, the letter of the lock, two numbers, and maybe the letter of the
whence with anything behind it.  Before all but the first there may be white
space.  A number that does not fit stands for the nearest one that does. -/
def Accepts (line : List UInt8) (r : Request) : Prop :=
  ∃ c gap l numbers n more m tail, line = c :: (gap ++ l :: numbers) ∧ AllSpace gap ∧
    (c, r.cmd) ∈ cmdCases ∧ (l, r.type) ∈ lockCases ∧
    IsLeading .decimal numbers n more ∧ IsLeading .decimal more m tail ∧
    r.start = clamp .long n.value ∧ r.len = clamp .long m.value ∧ IsWhence tail r.whence

theorem lookup_eq_some_iff {cases : List (UInt8 × Int)}
    (hkeys : (cases.map Prod.fst).Nodup) {c : UInt8} {v : Int} :
    cases.lookup c = some v ↔ (c, v) ∈ cases := by
  induction cases with
  | nil => simp
  | cons p cases ih =>
      obtain ⟨c', v'⟩ := p
      simp only [List.map_cons, List.nodup_cons] at hkeys
      rw [List.lookup_cons, List.mem_cons, Prod.mk.injEq]
      by_cases hc : c = c'
      · subst hc
        have hnot : (c, v) ∉ cases := fun h => hkeys.1 (List.mem_map_of_mem h)
        simp [hnot, eq_comm]
      · rw [beq_false_of_ne hc]
        simp [hc, ih hkeys.2]

/-- Skipping white space up to a byte that is none. -/
theorem dropWhile_isspace_eq_cons {s t : List UInt8} {b : UInt8} (hb : isspace b = false) :
    s.dropWhile isspace = b :: t ↔ ∃ gap, s = gap ++ b :: t ∧ AllSpace gap := by
  constructor
  · intro h
    refine ⟨s.takeWhile isspace, ?_, fun _ hmem => List.mem_takeWhile_imp hmem⟩
    rw [← h, List.takeWhile_append_dropWhile]
  · rintro ⟨gap, rfl, hgap⟩
    rw [List.dropWhile_append_of_pos hgap, List.dropWhile_cons_of_neg (by simp [hb])]

/-- The letters of the cases are not white space. -/
theorem isspace_of_mem {c : UInt8} {v : Int}
    (h : (c, v) ∈ lockCases ∨ (c, v) ∈ whenceCases) : isspace c = false := by
  simp only [lockCases, whenceCases, List.mem_cons, Prod.mk.injEq, List.not_mem_nil,
    or_false] at h
  rcases h with (⟨rfl, _⟩ | ⟨rfl, _⟩ | ⟨rfl, _⟩) | ⟨rfl, _⟩ | ⟨rfl, _⟩ | ⟨rfl, _⟩ <;> decide

theorem isWhence_iff {tail : List UInt8} {whence : Int} :
    IsWhence tail whence ↔
      whenceCases.lookup ((whence? tail).getD 115) = some whence := by
  rw [lookup_eq_some_iff (by decide)]
  constructor
  · rintro (⟨hspace, rfl⟩ | ⟨gap, w, rest, htail, hgap, hw⟩)
    · have hnone : whence? tail = none := by
        rw [whence?, List.dropWhile_eq_nil_iff.2 hspace, List.head?_nil]
      rw [hnone]
      decide
    · have hsome : whence? tail = some w := by
        rw [whence?, (dropWhile_isspace_eq_cons (isspace_of_mem (Or.inr hw))).2
          ⟨gap, htail, hgap⟩, List.head?_cons]
      rw [hsome]
      exact hw
  · intro h
    cases htail : tail.dropWhile isspace with
    | nil =>
        rw [whence?, htail] at h
        refine Or.inl ⟨List.dropWhile_eq_nil_iff.1 htail, ?_⟩
        simpa [whenceCases] using h
    | cons w rest =>
        rw [whence?, htail] at h
        obtain ⟨gap, hsplit, hgap⟩ :=
          (dropWhile_isspace_eq_cons (isspace_of_mem (Or.inr h))).1 htail
        exact Or.inr ⟨gap, w, rest, hsplit, hgap, h⟩

theorem accepts_iff {line : List UInt8} {r : Request} :
    Accepts line r ↔ Requests line r := by
  simp only [Accepts, Requests, Reads, isWhence_iff, ← lookup_eq_some_iff (show
    (cmdCases.map Prod.fst).Nodup by decide)]
  constructor
  · rintro ⟨c, gap, l, numbers, n, more, m, tail, hline, hgap, hc, hl, hn, hm, hstart, hlen,
      hwhence⟩
    have hlock := (lookup_eq_some_iff (by decide)).2 hl
    exact ⟨c, l, n, m, tail, ⟨_, numbers, more, hline,
      (dropWhile_isspace_eq_cons (isspace_of_mem (Or.inl hl))).2 ⟨gap, rfl, hgap⟩, hn, hm⟩,
      hc, hlock, hwhence, hstart, hlen⟩
  · rintro ⟨c, l, n, m, tail, ⟨s₁, s₂, s₃, hline, hdrop, hn, hm⟩, hc, hlock, hwhence, hstart,
      hlen⟩
    have hl := (lookup_eq_some_iff (by decide)).1 hlock
    obtain ⟨gap, rfl, hgap⟩ :=
      (dropWhile_isspace_eq_cons (isspace_of_mem (Or.inl hl))).1 hdrop
    exact ⟨c, gap, l, s₂, n, s₃, m, tail, hline, hgap, hc, hl, hn, hm, hstart, hlen, hwhence⟩

/-- **The language of the commands.**  A line makes a request, and this one, if
and only if it is accepted; otherwise nothing is locked, and a line that is
neither blank nor begins with `?` is called invalid. -/
theorem commands_accepted (k : Kernel) (s : State) :
    (∀ r, Accepts (cString s.line) r ↔
      (s.execute k).state.requests = s.requests ++ [r]) ∧
    ((¬ ∃ r, Accepts (cString s.line) r) →
      ∃ t, s.execute k = .next t ∧ t.requests = s.requests ∧
        t.stdout = s.stdout ++ reply (cString s.line)) := by
  simp only [accepts_iff]
  constructor
  · intro r
    refine ⟨requests_execute, ?_⟩
    intro hrequests
    by_cases h : ∃ r', Requests (cString s.line) r'
    · obtain ⟨r', hr'⟩ := h
      rw [requests_execute hr', List.append_cancel_left_eq, List.cons.injEq] at hrequests
      rw [← hrequests.1]
      exact hr'
    · obtain ⟨t, hexecute, ht, _⟩ := execute_of_not_requests (k := k) (not_exists.1 h)
      rw [hexecute, Round.state, ht] at hrequests
      simp at hrequests
  · intro h
    exact execute_of_not_requests (not_exists.1 h)

/-! ## The format of the help -/

/-- The parts of a line between white space. -/
def tokens (line : List UInt8) : List (List UInt8) :=
  (line.splitOnP isspace).filter (· ≠ [])

/-- The lines of the format that `printCmdFormat` shows, and what they stand
for. -/
def Documented (line : List UInt8) (r : Request) : Prop :=
  ∃ c l start length n m whence, tokens line = [c] :: [l] :: start :: length :: whence ∧
    (c, r.cmd) ∈ cmdCases ∧ (l, r.type) ∈ lockCases ∧
    IsNumeral .decimal start n ∧ IntType.long.Fits n.value ∧ r.start = n.value ∧
    IsNumeral .decimal length m ∧ IntType.long.Fits m.value ∧ r.len = m.value ∧
    ((whence = [] ∧ r.whence = SEEK_SET) ∨
      ∃ w, whence = [[w]] ∧ (w, r.whence) ∈ whenceCases)

/-- The state in which a line is executed, the variables being zero. -/
def typed (line : String) : State :=
  ⟨ascii line ++ [0], zeroFrame, [], [], [], [], []⟩

/-- A line makes a request though it does not have the format. -/
def Undocumented (line : String) (r : Request) : Prop :=
  ((typed line).execute granting).state.requests = [r] ∧
    ∀ r, ¬ Documented (ascii line) r

theorem documented_space :
    Documented (ascii " g r 0 0") ⟨F_GETLK, F_RDLCK, SEEK_SET, 0, 0⟩ :=
  ⟨103, 114, [48], [48], ⟨false, 0⟩, ⟨false, 0⟩, [], by decide, by decide, by decide,
    isNumeral_iff_scan.2 (by decide), by decide, by decide,
    isNumeral_iff_scan.2 (by decide), by decide, by decide, Or.inl ⟨rfl, rfl⟩⟩

theorem undocumented_glued : Undocumented "gr0 0" ⟨F_GETLK, F_RDLCK, SEEK_SET, 0, 0⟩ := by
  refine ⟨by decide, ?_⟩
  rintro r ⟨c, l, start, length, n, m, whence, htokens, _⟩
  have hglued : tokens (ascii "gr0 0") = [[103, 114, 48], [48]] := by decide
  rw [hglued] at htokens
  simp at htokens

theorem undocumented_tail :
    Undocumented "g r 0 0 s x" ⟨F_GETLK, F_RDLCK, SEEK_SET, 0, 0⟩ := by
  refine ⟨by decide, ?_⟩
  rintro r ⟨c, l, start, length, n, m, whence, htokens, _, _, _, _, _, _, _, _, hwhence⟩
  have htail : tokens (ascii "g r 0 0 s x") =
      [[103], [114], [48], [48], [115], [120]] := by decide
  rw [htail] at htokens
  rcases hwhence with ⟨rfl, _⟩ | ⟨w, rfl, _⟩
  · simp at htokens
  · simp at htokens

theorem undocumented_large : Undocumented "g r 9223372036854775808 0"
    ⟨F_GETLK, F_RDLCK, SEEK_SET, 9223372036854775807, 0⟩ := by
  refine ⟨by decide, ?_⟩
  rintro r ⟨c, l, start, length, n, m, whence, htokens, _, _, hstart, hfits, _⟩
  have hlarge : tokens (ascii "g r 9223372036854775808 0") =
      [[103], [114], ascii "9223372036854775808", [48]] := by decide
  rw [hlarge] at htokens
  obtain ⟨_, _, hdigits, _⟩ : [103] = [c] ∧ [114] = [l] ∧ ascii "9223372036854775808" = start ∧
      [48] = length ∧ [] = whence := by
    simpa only [List.cons.injEq] using htokens
  have hnumeral : IsNumeral .decimal (ascii "9223372036854775808") ⟨false, 2 ^ 63⟩ :=
    isNumeral_iff_scan.2 (by decide)
  rw [← hdigits] at hstart
  rw [hstart.unique hnumeral] at hfits
  exact absurd hfits (by decide)

/-- Lines without white space between their parts, with more behind them and
with numbers that do not fit make requests, though they do not have the format;
a line with white space in front of its parts is invalid, though it does; and a
line that begins with `?` is not called invalid. -/
theorem undocumented_accepted :
    Undocumented "gr0 0" ⟨F_GETLK, F_RDLCK, SEEK_SET, 0, 0⟩ ∧
    Undocumented "g r 0 0 s x" ⟨F_GETLK, F_RDLCK, SEEK_SET, 0, 0⟩ ∧
    Undocumented "g r 9223372036854775808 0"
      ⟨F_GETLK, F_RDLCK, SEEK_SET, 9223372036854775807, 0⟩ ∧
    (((typed " g r 0 0").execute granting).state.requests = [] ∧
      Documented (ascii " g r 0 0") ⟨F_GETLK, F_RDLCK, SEEK_SET, 0, 0⟩) ∧
    ((typed "?x").execute granting).state.stdout = cmdFormat :=
  ⟨undocumented_glued, undocumented_tail, undocumented_large, ⟨by decide, documented_space⟩,
    rfl⟩

end Lpi.Ports.IFcntlLocking
