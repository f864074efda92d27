import Lpi.Ports.NumericArgs

/-!
# Which arguments the converters accept

What a converter does with an argument is decided by the number the argument
starts with: whether there is one, whether it is in the range of `strtol` or
`strtoul`, and whether anything follows it.  This is worked out once for each
of the checks and then used at all the converters that have it.
-/

namespace Lpi.Ports.NumericArgs

open Lpi.Verified.CInt
open Lpi.Verified.CString
open Lpi.Verified.Strtol

/-! ## What a converter should do -/

/-- The converter returns normally if and only if the argument as a whole is a
number that fits type `wide`, and then returns this number. -/
def Exact (run : CStr → Outcome) (base : Base) (wide : IntType) (str : CStr) :
    Prop :=
  ∀ v, run str = .ok v ↔
    ∃ n, IsNumeral base str.bytes n ∧ wide.Fits n.value ∧ v = n.value

section Exact

variable {run : CStr → Outcome} {base : Base} {wide : IntType} {str : CStr}
  {n : Numeral} {rest : List UInt8}

theorem forall_ne_ok_iff {o : Outcome} : (∀ v, o ≠ .ok v) ↔ ∃ e, o = .error e := by
  cases o with
  | error e => simp
  | ok v => simp

/-- An argument that is not a number should be refused. -/
theorem exact_of_not_numeral (h : ∀ n, ¬ IsNumeral base str.bytes n) :
    Exact run base wide str ↔ ∃ e, run str = .error e := by
  rw [← forall_ne_ok_iff]
  simp [Exact, h]

/-- A number should be refused if it does not fit, and be returned if it
does. -/
theorem exact_of_numeral (h : IsNumeral base str.bytes n) :
    Exact run base wide str ↔
      (wide.Fits n.value ∧ run str = .ok n.value) ∨
      (¬ wide.Fits n.value ∧ ∃ e, run str = .error e) := by
  have hunique : ∀ m, IsNumeral base str.bytes m ↔ m = n := fun m =>
    ⟨fun hm => hm.unique h, fun hm => hm ▸ h⟩
  simp only [Exact, hunique, exists_eq_left]
  by_cases hfits : wide.Fits n.value
  · simp only [hfits, true_and, not_true_eq_false, false_and, or_false]
    constructor
    · intro hall
      exact (hall n.value).2 rfl
    · intro hok v
      rw [hok, Except.ok.injEq]
      exact eq_comm
  · simp only [hfits, false_and, iff_false, not_false_eq_true, true_and, false_or]
    exact forall_ne_ok_iff

end Exact

/-! ## The outcome of a conversion -/

section Outcome

variable {fails : List UInt8 → Result → Bool}
  {message : List UInt8 → Errno → List UInt8} {wide t : IntType} {base : Base}
  {str : CStr} {n : Numeral} {rest : List UInt8}

theorem getNumber_ok (h : fails str.bytes (convert wide str.bytes base) = false) :
    getNumber fails message wide t base str =
      .ok (t.wrap (convert wide str.bytes base).value) := by
  simp [getNumber, h]

theorem getNumber_error
    (h : fails str.bytes (convert wide str.bytes base) = true) :
    ∃ e, getNumber fails message wide t base str = .error e := by
  simp [getNumber, h]

/-- A number that fits the type of the result comes out as it is. -/
theorem wrap_convert (hscan : scan base str.bytes = some (n, rest))
    (hwide : wide.Fits n.value) :
    t.wrap (convert wide str.bytes base).value = t.wrap n.value := by
  rw [convert_inRange hscan (Numeral.inRange_of_fits hwide),
    IntType.wrap_of_fits hwide]

/-- With `&&`, only a number out of range with something behind it is
refused. -/
theorem rangeAndTail_eq_true_iff :
    rangeAndTail str.bytes (convert wide str.bytes base) = true ↔
      ∃ n rest, IsLeading base str.bytes n rest ∧ rest ≠ [] ∧ ¬ n.InRange wide := by
  cases hscan : scan base str.bytes with
  | none =>
      rw [convert_none hscan]
      simp [rangeAndTail, scan_eq_none_iff.1 hscan]
  | some r =>
      obtain ⟨n, rest⟩ := r
      rw [exists_leading_iff hscan]
      by_cases hn : n.InRange wide
      · rw [convert_inRange hscan hn]
        simp [rangeAndTail, hn]
      · obtain ⟨hend, herrno⟩ := convert_outOfRange hscan hn
        simp [rangeAndTail, hend, herrno, hn]

/-- The converters with `&&`. -/
theorem rangeAndTail_exact_iff (hsub : ∀ v, t.Fits v → wide.Fits v) :
    Exact (getNumber rangeAndTail message wide t base) base wide str ↔
      ∃ n rest, IsLeading base str.bytes n rest ∧
        ((rest = [] ∧ t.Fits n.value) ∨ (rest ≠ [] ∧ ¬ n.InRange wide)) := by
  have hfails : rangeAndTail str.bytes (convert wide str.bytes base) = true ↔ _ :=
    rangeAndTail_eq_true_iff
  cases hscan : scan base str.bytes with
  | none =>
      -- an argument without a number is taken for a 0
      have hok : rangeAndTail str.bytes (convert wide str.bytes base) = false := by
        simp [Bool.eq_false_iff, hfails, scan_eq_none_iff.1 hscan]
      rw [exact_of_not_numeral (not_isNumeral_of_none hscan), getNumber_ok hok]
      simp [scan_eq_none_iff.1 hscan]
  | some r =>
      obtain ⟨n, rest⟩ := r
      rw [exists_leading_iff hscan] at hfails ⊢
      by_cases hrest : rest = []
      · subst hrest
        have hok : rangeAndTail str.bytes (convert wide str.bytes base) = false := by
          simp [Bool.eq_false_iff, hfails]
        rw [exact_of_numeral (isNumeral_iff_scan.2 hscan), getNumber_ok hok]
        by_cases hfits : wide.Fits n.value
        · rw [wrap_convert hscan hfits]
          simp [hfits, IntType.wrap_eq_iff]
        · have hnarrow : ¬ t.Fits n.value := fun ht => hfits (hsub _ ht)
          simp [hfits, hnarrow]
      · rw [exact_of_not_numeral (not_isNumeral_of_tail hscan hrest)]
        by_cases hn : n.InRange wide
        · -- a number is accepted whatever follows it
          have hok : rangeAndTail str.bytes (convert wide str.bytes base) =
              false := by
            simp [Bool.eq_false_iff, hfails, hn]
          rw [getNumber_ok hok]
          simp [hrest, hn]
        · exact iff_of_true (getNumber_error (hfails.2 ⟨hrest, hn⟩))
            (Or.inr ⟨hrest, hn⟩)

end Outcome

/-- Where `errno` is compared the other way, a number is never refused for its
size. -/
theorem svsemDemo_exact_iff (str : CStr) :
    Exact SvsemDemo.getInt .auto .long str ↔
      str.bytes ≠ [] ∧ ∀ n rest, IsLeading .auto str.bytes n rest →
        IntType.long.Fits n.value ∧ (rest = [] → IntType.int.Fits n.value) := by
  cases hscan : scan .auto str.bytes with
  | none =>
      have hleading := scan_eq_none_iff.1 hscan
      rw [exact_of_not_numeral (not_isNumeral_of_none hscan), SvsemDemo.getInt,
        strtol, convert_none hscan]
      by_cases hempty : str.bytes = []
      · simp [hempty]
      · simp [hempty, hleading]
  | some r =>
      obtain ⟨n, rest⟩ := r
      have hnonempty := ne_nil_of_scan hscan
      rw [forall_leading_iff hscan, ← Numeral.inRange_signed rfl]
      by_cases hn : n.InRange .long
      · have hfits : IntType.long.Fits n.value := (Numeral.inRange_signed rfl).1 hn
        by_cases hrest : rest = []
        · subst hrest
          rw [exact_of_numeral (isNumeral_iff_scan.2 hscan), SvsemDemo.getInt,
            strtol, convert_inRange hscan hn, IntType.wrap_of_fits hfits]
          simp [hnonempty, hn, hfits, IntType.wrap_eq_iff]
        · rw [exact_of_not_numeral (not_isNumeral_of_tail hscan hrest),
            SvsemDemo.getInt, strtol, convert_inRange hscan hn]
          simp [hrest, hn, hnonempty]
      · -- a number out of range is accepted, and the end of the range returned
        obtain ⟨_, herrno⟩ := convert_outOfRange hscan hn
        have hok : SvsemDemo.getInt str =
            .ok (IntType.int.wrap (convert .long str.bytes .auto).value) := by
          simp [SvsemDemo.getInt, strtol, herrno]
        refine iff_of_false ?_ (fun hall => hn hall.2.1)
        intro hexact
        obtain ⟨m, hm, hmfits, _⟩ := (hexact _).1 hok
        obtain ⟨rfl, _⟩ := (isLeading_iff hscan).1 (isNumeral_iff_leading.1 hm)
        exact hn (Numeral.inRange_of_fits hmfits)

/-! ## The converters with `&&` -/

/-- The base and the types of a converter: what `strtol` or `strtoul` returns,
and what the converter returns. -/
structure Signature where
  base : Base
  wide : IntType
  result : IntType
  narrow : ∀ v, result.Fits v → wide.Fits v

namespace Signature

def long (base : Base) : Signature := ⟨base, .long, .long, fun _ => id⟩

def int (base : Base) : Signature :=
  ⟨base, .long, .int, fun _ => IntType.fits_long_of_int⟩

def ulong (base : Base) : Signature := ⟨base, .ulong, .ulong, fun _ => id⟩

def uint (base : Base) : Signature :=
  ⟨base, .ulong, .uint, fun _ => IntType.fits_ulong_of_uint⟩

end Signature

/-- The converters that test `errno` and `endptr` in conjunction; some are
given the base. -/
inductive AndConverter where
  | isSeqnumSv
  | isSeqnumCl
  | svmsgSend
  | svmsgReceive
  | tFlock
  | pmsgCreate (base : Base)
  | psemCreate (base : Base)
  | svsemSetall
  | fifoSeqnumClient
  | svmsgCreate
  | svsemMon
  | svsemDemo
  | pipeSync
  | pmsgSend
  | pshmCreate (base : Base)
  deriving DecidableEq

namespace AndConverter

def run : AndConverter → CStr → Outcome
  | isSeqnumSv => IsSeqnumSv.getLong
  | isSeqnumCl => IsSeqnumCl.getLong
  | svmsgSend => SvmsgSend.getLong
  | svmsgReceive => SvmsgReceive.getLong
  | tFlock => TFlock.getLong
  | pmsgCreate base => fun str => PmsgCreate.getLong str base
  | psemCreate base => fun str => PsemCreate.getLong str base
  | svsemSetall => SvsemSetall.getLong
  | fifoSeqnumClient => FifoSeqnumClient.getInt
  | svmsgCreate => SvmsgCreate.getInt
  | svsemMon => SvsemMon.getInt
  | svsemDemo => SvsemDemo.getInt
  | pipeSync => PipeSync.getUint
  | pmsgSend => PmsgSend.getUnsignedLong
  | pshmCreate base => fun str => PshmCreate.getUnsignedLong str base

def signature : AndConverter → Signature
  | isSeqnumSv | isSeqnumCl | svmsgSend | svmsgReceive | tFlock | svsemSetall =>
      .long .auto
  | pmsgCreate base | psemCreate base => .long base
  | fifoSeqnumClient | svsemMon | svsemDemo => .int .auto
  | svmsgCreate => .int .octal
  | pipeSync => .uint .auto
  | pmsgSend => .ulong .auto
  | pshmCreate base => .ulong base

/-- All of them but one have the same body. -/
theorem run_eq (c : AndConverter) (h : c ≠ svsemDemo) :
    ∃ message, c.run = getNumber rangeAndTail message c.signature.wide
      c.signature.result c.signature.base := by
  cases c with
  | svsemDemo => exact absurd rfl h
  | isSeqnumSv | isSeqnumCl | svmsgSend | svmsgReceive | tFlock | svsemSetall
  | pmsgCreate _ | psemCreate _ | fifoSeqnumClient | svsemMon | svmsgCreate
  | pipeSync | pmsgSend | pshmCreate _ => exact ⟨_, rfl⟩

/-- The arguments with which a converter does as it should.  Most accept
whatever starts with a number in range and refuse only what starts with one
out of range and goes on behind it. -/
def WellHandled (c : AndConverter) (str : CStr) : Prop :=
  if c = svsemDemo then
    str.bytes ≠ [] ∧ ∀ n rest, IsLeading .auto str.bytes n rest →
      IntType.long.Fits n.value ∧ (rest = [] → IntType.int.Fits n.value)
  else
    ∃ n rest, IsLeading c.signature.base str.bytes n rest ∧
      ((rest = [] ∧ c.signature.result.Fits n.value) ∨
        (rest ≠ [] ∧ ¬ n.InRange c.signature.wide))

end AndConverter

/-- **When the converters with `&&` are exact.** -/
theorem andConverter_exact_iff (c : AndConverter) (str : CStr) :
    Exact c.run c.signature.base c.signature.wide str ↔ c.WellHandled str := by
  unfold AndConverter.WellHandled
  split
  · rename_i hdemo
    subst hdemo
    exact svsemDemo_exact_iff str
  · rename_i hother
    obtain ⟨message, hrun⟩ := c.run_eq hother
    rw [hrun]
    exact rangeAndTail_exact_iff c.signature.narrow

/-- An argument with something behind the number. -/
def trailingJunk : CStr := ⟨ascii "12abc", by decide⟩

theorem trailing_junk_accepted :
    IsSeqnumSv.getLong trailingJunk = .ok 12 ∧
    (∀ n, ¬ IsNumeral .auto trailingJunk.bytes n) ∧
    ¬ Exact IsSeqnumSv.getLong .auto .long trailingJunk := by
  have hok : IsSeqnumSv.getLong trailingJunk = .ok 12 := by decide
  have hscan : scan .auto trailingJunk.bytes = some (⟨false, 12⟩, ascii "abc") := by
    decide
  have hnot : ∀ n, ¬ IsNumeral .auto trailingJunk.bytes n :=
    not_isNumeral_of_tail hscan (by decide)
  refine ⟨hok, hnot, ?_⟩
  intro hexact
  obtain ⟨n, hn, _⟩ := (hexact 12).1 hok
  exact hnot n hn

end Lpi.Ports.NumericArgs
