import Lpi.Ports.NumericArgsGrammar

/-!
# The converters with `||`

One family looks for something behind the number and takes the empty argument
for a number; the other looks for the number and takes whatever follows it.
The two are compared with the grammar and with each other
(`families_agree_iff`).
-/

namespace Lpi.Ports.NumericArgs

open Lpi.Verified.CInt
open Lpi.Verified.CString
open Lpi.Verified.Strtol

/-! ## Which arguments each family accepts -/

/-- The converter accepts the numbers in range and nothing else; for an
unsigned type, those without a minus sign. -/
def FollowsGrammar (run : CStr → Outcome) (base : Base) (wide : IntType)
    (str : CStr) : Prop :=
  (∃ v, run str = .ok v) ↔
    ∃ n, IsNumeral base str.bytes n ∧ n.InRange wide ∧
      (wide.signed = false → n.negative = false)

section Families

variable {message : List UInt8 → Errno → List UInt8} {wide t : IntType}
  {base : Base} {str : CStr} {v : Int}

theorem getNumber_eq_ok_iff {fails : List UInt8 → Result → Bool} :
    getNumber fails message wide t base str = .ok v ↔
      fails str.bytes (convert wide str.bytes base) = false ∧
        t.wrap (convert wide str.bytes base).value = v := by
  cases h : fails str.bytes (convert wide str.bytes base) with
  | true => simp [getNumber, h]
  | false => simp [getNumber, h]

/-- With `*endptr != '\0'`, the empty argument passes for a number. -/
theorem rangeOrTail_ok_iff :
    getNumber rangeOrTail message wide t base str = .ok v ↔
      (str.bytes = [] ∧ t.wrap 0 = v) ∨
      ∃ n, IsNumeral base str.bytes n ∧ n.InRange wide ∧
        t.wrap (wide.wrap n.value) = v := by
  rw [getNumber_eq_ok_iff]
  cases hscan : scan base str.bytes with
  | none =>
      rw [convert_none hscan]
      simp [rangeOrTail, not_isNumeral_of_none hscan]
  | some r =>
      obtain ⟨n, rest⟩ := r
      simp only [isNumeral_iff_scan, hscan, Option.some.injEq, Prod.mk.injEq,
        ne_nil_of_scan hscan, false_and, false_or, and_assoc, exists_eq_left']
      by_cases hn : n.InRange wide
      · rw [convert_inRange hscan hn]
        simp [rangeOrTail, hn]
      · simp [rangeOrTail, (convert_outOfRange hscan hn).2, hn]

/-- With `endptr == str`, whatever follows a number does not matter. -/
theorem rangeOrNothing_ok_iff :
    getNumber rangeOrNothing message wide t base str = .ok v ↔
      ∃ n rest, IsLeading base str.bytes n rest ∧ n.InRange wide ∧
        t.wrap (wide.wrap n.value) = v := by
  rw [getNumber_eq_ok_iff]
  cases hscan : scan base str.bytes with
  | none =>
      rw [convert_none hscan]
      simp [rangeOrNothing, scan_eq_none_iff.1 hscan]
  | some r =>
      obtain ⟨n, rest⟩ := r
      rw [exists_leading_iff hscan]
      by_cases hn : n.InRange wide
      · rw [convert_inRange hscan hn]
        simp [rangeOrNothing, hn, scan_rest_ne hscan]
      · simp [rangeOrNothing, (convert_outOfRange hscan hn).2, hn]

theorem rangeOrTail_grammar_iff :
    FollowsGrammar (getNumber rangeOrTail message wide t base) base wide str ↔
      str.bytes ≠ [] ∧ (wide.signed = false → ∀ n, IsNumeral base str.bytes n →
        n.InRange wide → n.negative = false) := by
  constructor
  · intro h
    constructor
    · intro hempty
      obtain ⟨n, hn, _⟩ := h.1 ⟨_, rangeOrTail_ok_iff.2 (Or.inl ⟨hempty, rfl⟩)⟩
      exact hn.ne_nil hempty
    · intro hunsigned n hn hrange
      obtain ⟨m, hm, _, hsign⟩ :=
        h.1 ⟨_, rangeOrTail_ok_iff.2 (Or.inr ⟨n, hn, hrange, rfl⟩)⟩
      rw [hn.unique hm]
      exact hsign hunsigned
  · rintro ⟨hnonempty, hplus⟩
    constructor
    · rintro ⟨v, hv⟩
      rcases rangeOrTail_ok_iff.1 hv with ⟨hempty, _⟩ | ⟨n, hn, hrange, _⟩
      · exact absurd hempty hnonempty
      · exact ⟨n, hn, hrange, fun hunsigned => hplus hunsigned n hn hrange⟩
    · rintro ⟨n, hn, hrange, _⟩
      exact ⟨_, rangeOrTail_ok_iff.2 (Or.inr ⟨n, hn, hrange, rfl⟩)⟩

theorem rangeOrNothing_grammar_iff :
    FollowsGrammar (getNumber rangeOrNothing message wide t base) base wide str ↔
      ∀ n rest, IsLeading base str.bytes n rest → n.InRange wide →
        rest = [] ∧ (wide.signed = false → n.negative = false) := by
  constructor
  · intro h n rest hleading hrange
    obtain ⟨m, hm, _, hsign⟩ :=
      h.1 ⟨_, rangeOrNothing_ok_iff.2 ⟨n, rest, hleading, hrange, rfl⟩⟩
    obtain ⟨rfl, rfl⟩ := (isNumeral_iff_leading.1 hm).unique hleading
    exact ⟨rfl, hsign⟩
  · intro hall
    constructor
    · rintro ⟨v, hv⟩
      obtain ⟨n, rest, hleading, hrange, _⟩ := rangeOrNothing_ok_iff.1 hv
      obtain ⟨rfl, hsign⟩ := hall n rest hleading hrange
      exact ⟨n, isNumeral_iff_leading.2 hleading, hrange, hsign⟩
    · rintro ⟨n, hn, hrange, _⟩
      exact ⟨_, rangeOrNothing_ok_iff.2
        ⟨n, [], isNumeral_iff_leading.1 hn, hrange, rfl⟩⟩

/-- Where both follow the grammar, the two families differ only in what the
types of their results make of a number. -/
theorem families_ok_iff {message' : List UInt8 → Errno → List UInt8} {u : IntType}
    (hnonempty : str.bytes ≠ [])
    (hwhole : ∀ n rest, IsLeading base str.bytes n rest → n.InRange wide →
      rest = []) :
    (∀ v, getNumber rangeOrTail message wide t base str = .ok v ↔
      getNumber rangeOrNothing message' wide u base str = .ok v) ↔
    ∀ n, IsNumeral base str.bytes n → n.InRange wide →
      t.wrap (wide.wrap n.value) = u.wrap (wide.wrap n.value) := by
  constructor
  · intro h n hn hrange
    have htail : getNumber rangeOrTail message wide t base str =
        .ok (t.wrap (wide.wrap n.value)) :=
      rangeOrTail_ok_iff.2 (Or.inr ⟨n, hn, hrange, rfl⟩)
    obtain ⟨m, rest, hm, _, hvalue⟩ := rangeOrNothing_ok_iff.1 ((h _).1 htail)
    obtain ⟨rfl, _⟩ := (isNumeral_iff_leading.1 hn).unique hm
    exact hvalue.symm
  · intro h v
    constructor
    · intro hok
      rcases rangeOrTail_ok_iff.1 hok with ⟨hempty, _⟩ | ⟨n, hn, hrange, rfl⟩
      · exact absurd hempty hnonempty
      · exact rangeOrNothing_ok_iff.2
          ⟨n, [], isNumeral_iff_leading.1 hn, hrange, (h n hn hrange).symm⟩
    · intro hok
      obtain ⟨n, rest, hleading, hrange, rfl⟩ := rangeOrNothing_ok_iff.1 hok
      obtain rfl := hwhole n rest hleading hrange
      have hn := isNumeral_iff_leading.2 hleading
      exact rangeOrTail_ok_iff.2 (Or.inr ⟨n, hn, hrange, h n hn hrange⟩)

end Families

/-! ## The converters -/

/-- The converters with `errno != 0 || *endptr != '\0'`. -/
inductive TailConverter where
  | threadMultijoin
  | threadIncrMutex
  | tSigqueue
  | sigReceiver
  | catchRtsigs
  | multiWait
  deriving DecidableEq

/-- The converters with `errno != 0 || endptr == str`. -/
inductive DigitsConverter where
  | seekIoUnsigned
  | seekIo
  | freeAndSbrk
  | tUnlink
  | processTime
  | sigSender
  | tKill
  deriving DecidableEq

namespace TailConverter

def run : TailConverter → CStr → Outcome
  | threadMultijoin => ThreadMultijoin.getInt
  | threadIncrMutex => ThreadIncrMutex.getUnsignedLong
  | tSigqueue => TSigqueue.getLong
  | sigReceiver => SigReceiver.getUnsignedInt
  | catchRtsigs => CatchRtsigs.getUnsignedLong
  | multiWait => MultiWait.getUint

def signature : TailConverter → Signature
  | threadMultijoin => .int .auto
  | threadIncrMutex | catchRtsigs => .ulong .auto
  | tSigqueue => .long .auto
  | sigReceiver | multiWait => .uint .auto

theorem run_eq (b : TailConverter) :
    ∃ message, b.run = getNumber rangeOrTail message b.signature.wide
      b.signature.result b.signature.base := by
  cases b <;> exact ⟨_, rfl⟩

theorem result_eq (b : TailConverter) :
    b.signature.result = b.signature.wide ∨
      b.signature.result = ⟨32, b.signature.wide.signed⟩ := by
  cases b <;> decide

end TailConverter

/-- The way through a `long` changes nothing. -/
theorem freeAndSbrk_eq :
    FreeAndSbrk.getUnsignedLong =
      getNumber rangeOrNothing
        (withoutErrno "Failed to convert " " to unsigned long\n") .ulong .ulong
        .auto := by
  funext str
  unfold FreeAndSbrk.getUnsignedLong getNumber strtoul
  simp only [IntType.wrap_wrap (t := .ulong) (u := .long) (Nat.le_refl 64)]
  simp [rangeOrNothing]

namespace DigitsConverter

def run : DigitsConverter → CStr → Outcome
  | seekIoUnsigned => SeekIo.getUnsignedLong
  | seekIo => SeekIo.getLong
  | freeAndSbrk => FreeAndSbrk.getUnsignedLong
  | tUnlink => TUnlink.getUnsignedLong
  | processTime => ProcessTime.getUnsignedLong
  | sigSender => SigSender.getLong
  | tKill => TKill.getInt

def signature : DigitsConverter → Signature
  | seekIoUnsigned => .ulong .decimal
  | seekIo => .long .decimal
  | freeAndSbrk | tUnlink | processTime => .ulong .auto
  | sigSender => .long .auto
  | tKill => .int .auto

theorem run_eq (c : DigitsConverter) :
    ∃ message, c.run = getNumber rangeOrNothing message c.signature.wide
      c.signature.result c.signature.base := by
  cases c with
  | freeAndSbrk => exact ⟨_, freeAndSbrk_eq⟩
  | seekIoUnsigned | seekIo | tUnlink | processTime | sigSender | tKill =>
      exact ⟨_, rfl⟩

theorem result_eq (c : DigitsConverter) :
    c.signature.result = c.signature.wide ∨
      c.signature.result = ⟨32, c.signature.wide.signed⟩ := by
  cases c <;> decide

end DigitsConverter

/-- **When the two families follow the grammar and agree.**  The first family
does so unless the argument is empty or an unsigned one is a number with a
minus sign; the second unless something follows a number in range or an
unsigned one has a minus sign.  Then both accept the same arguments, and
return the same value unless one of them narrows it. -/
theorem families_agree_iff (b : TailConverter) (c : DigitsConverter) (str : CStr) :
    (FollowsGrammar b.run b.signature.base b.signature.wide str ∧
      FollowsGrammar c.run c.signature.base c.signature.wide str ∧
      (b.signature.base = c.signature.base → b.signature.wide = c.signature.wide →
        ∀ v, b.run str = .ok v ↔ c.run str = .ok v)) ↔
    (str.bytes ≠ [] ∧
      (b.signature.wide.signed = false → ∀ n,
        IsNumeral b.signature.base str.bytes n → n.InRange b.signature.wide →
        n.negative = false)) ∧
    (∀ n rest, IsLeading c.signature.base str.bytes n rest →
      n.InRange c.signature.wide →
      rest = [] ∧ (c.signature.wide.signed = false → n.negative = false)) ∧
    (b.signature.base = c.signature.base → b.signature.wide = c.signature.wide →
      ∀ n, IsNumeral b.signature.base str.bytes n → n.InRange b.signature.wide →
        b.signature.result = c.signature.result ∨
        (b.signature.result.Fits n.value ∧ c.signature.result.Fits n.value)) := by
  obtain ⟨message, hb⟩ := b.run_eq
  obtain ⟨message', hc⟩ := c.run_eq
  rw [hb, hc, rangeOrTail_grammar_iff, rangeOrNothing_grammar_iff]
  refine and_congr_right ?_
  rintro ⟨hnonempty, hplus⟩
  refine and_congr_right ?_
  intro hwhole
  refine forall_congr' fun hbase => forall_congr' fun hwide => ?_
  rw [← hbase, ← hwide] at hwhole ⊢
  rw [families_ok_iff hnonempty fun n rest h hr => (hwhole n rest h hr).1]
  refine forall_congr' fun n => forall_congr' fun hn => forall_congr' fun hrange => ?_
  have hfits := Numeral.fits_of_inRange hrange fun hunsigned =>
    hplus hunsigned n hn hrange
  rw [IntType.wrap_of_fits hfits]
  refine IntType.wrap_eq_wrap_iff ?_ hfits
  rcases b.result_eq with hwideb | hnarrowb
  · exact Or.inr (Or.inl hwideb)
  · rcases c.result_eq with hwidec | hnarrowc
    · exact Or.inr (Or.inr (hwidec.trans hwide.symm))
    · exact Or.inl (by rw [hnarrowb, hnarrowc, hwide])

/-- The two families differ from the grammar and from each other on the empty
argument and on a number with something behind it. -/
theorem families_disagree :
    TSigqueue.getLong CStr.empty = .ok 0 ∧
    (∃ e, SigSender.getLong CStr.empty = .error e) ∧
    (∀ n, ¬ IsNumeral .auto CStr.empty.bytes n) ∧
    (∃ e, TSigqueue.getLong trailingJunk = .error e) ∧
    SigSender.getLong trailingJunk = .ok 12 ∧
    ∀ n, ¬ IsNumeral .auto trailingJunk.bytes n := by
  have hscan : scan .auto trailingJunk.bytes = some (⟨false, 12⟩, ascii "abc") := by
    decide
  exact ⟨by decide, ⟨_, rfl⟩, fun n hn => hn.ne_nil rfl, ⟨_, rfl⟩, by decide,
    not_isNumeral_of_tail hscan (by decide)⟩

end Lpi.Ports.NumericArgs
