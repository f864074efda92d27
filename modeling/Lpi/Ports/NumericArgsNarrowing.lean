import Lpi.Ports.NumericArgs

/-!
# Where a converted argument is stored

The value a converter returns is often assigned to a variable of a narrower
type, and nothing checks that it fits.  `Variable` lists these assignments.
For an argument that the converter takes for what it is, the variable has its
value exactly if the value fits the variable (`stored_exact_iff`).
-/

namespace Lpi.Ports.NumericArgs

open Lpi.Verified.CInt
open Lpi.Verified.CString
open Lpi.Verified.Strtol

/-! ## The assignments -/

/-- The assignment of a converted argument to a variable of type `t`. -/
def assign (t : IntType) (value : Outcome) : Outcome := value.map t.wrap

/-- `int seqNum = (argc > 1) ? getLong(argv[1]) : 0`. -/
def IsSeqnumSv.seqNum (arg : Option CStr) : Outcome :=
  match arg with
  | some str => assign .int (getLong str)
  | none => .ok 0

/-- `int request = (argc > 2) ? getLong(argv[2]) : 1`. -/
def IsSeqnumCl.request (arg : Option CStr) : Outcome :=
  match arg with
  | some str => assign .int (getLong str)
  | none => .ok 1

/-- `sop.sem_op = (short) getInt(argv[2])`. -/
def SvsemDemo.semOp (str : CStr) : Outcome := assign .short (getInt str)

/-- `arg.array[0] = getLong(argv[i + 2])`. -/
def SvsemSetall.value (str : CStr) : Outcome := assign .ushort (getLong str)

/-- `int numLoops = (argc > 1) ? getUnsignedLong(argv[1]) : 10000000`. -/
def ThreadIncrMutex.numLoops (arg : Option CStr) : Outcome :=
  match arg with
  | some str => assign .int (getUnsignedLong str)
  | none => .ok 10000000

/-- `unsigned int sec = getUnsignedInt(argv[1])`. -/
def SigReceiver.sec (str : CStr) : Outcome := assign .uint (getUnsignedInt str)

/-- `pid_t pid = getLong(argv[1])`. -/
def SigSender.pid (str : CStr) : Outcome := assign .int (getLong str)

/-- `int sig = getLong(argv[3])`, and once more with `argv[4]`. -/
def SigSender.sig (str : CStr) : Outcome := assign .int (getLong str)

/-- `pid_t pid = getLong(argv[1])`. -/
def TSigqueue.pid (str : CStr) : Outcome := assign .int (getLong str)

/-- `int sig = getLong(argv[2])`. -/
def TSigqueue.sig (str : CStr) : Outcome := assign .int (getLong str)

/-- `int data = getLong(argv[3])`. -/
def TSigqueue.data (str : CStr) : Outcome := assign .int (getLong str)

/-- `int numSigs = (argc > 4) ? getLong(argv[4]) : 1`. -/
def TSigqueue.numSigs (arg : Option CStr) : Outcome :=
  match arg with
  | some str => assign .int (getLong str)
  | none => .ok 1

inductive Variable where
  | isSeqnumSvSeqNum
  | isSeqnumClRequest
  | svsemDemoSemOp
  | svsemSetallValue
  | threadIncrMutexNumLoops
  | sigReceiverSec
  | sigSenderPid
  | sigSenderSig
  | tSigqueuePid
  | tSigqueueSig
  | tSigqueueData
  | tSigqueueNumSigs
  deriving DecidableEq

namespace Variable

/-- The value of the variable after the assignment, or the failure of the
program. -/
def stored : Variable → CStr → Outcome
  | isSeqnumSvSeqNum => fun str => IsSeqnumSv.seqNum (some str)
  | isSeqnumClRequest => fun str => IsSeqnumCl.request (some str)
  | svsemDemoSemOp => SvsemDemo.semOp
  | svsemSetallValue => SvsemSetall.value
  | threadIncrMutexNumLoops => fun str => ThreadIncrMutex.numLoops (some str)
  | sigReceiverSec => SigReceiver.sec
  | sigSenderPid => SigSender.pid
  | sigSenderSig => SigSender.sig
  | tSigqueuePid => TSigqueue.pid
  | tSigqueueSig => TSigqueue.sig
  | tSigqueueData => TSigqueue.data
  | tSigqueueNumSigs => fun str => TSigqueue.numSigs (some str)

/-- The type the argument is converted to by `strtol` or `strtoul`. -/
def wide : Variable → IntType
  | threadIncrMutexNumLoops | sigReceiverSec => .ulong
  | isSeqnumSvSeqNum | isSeqnumClRequest | svsemDemoSemOp | svsemSetallValue
  | sigSenderPid | sigSenderSig | tSigqueuePid | tSigqueueSig | tSigqueueData
  | tSigqueueNumSigs => .long

/-- The type of the variable. -/
def type : Variable → IntType
  | svsemDemoSemOp => .short
  | svsemSetallValue => .ushort
  | sigReceiverSec => .uint
  | isSeqnumSvSeqNum | isSeqnumClRequest | threadIncrMutexNumLoops
  | sigSenderPid | sigSenderSig | tSigqueuePid | tSigqueueSig | tSigqueueData
  | tSigqueueNumSigs => .int

end Variable

/-! ## What is stored -/

section Stored

variable {fails : List UInt8 → Result → Bool}
  {message : List UInt8 → Errno → List UInt8} {wide t u : IntType} {base : Base}
  {str : CStr} {n : Numeral}

theorem convert_numeral (h : IsNumeral base str.bytes n) (hfits : wide.Fits n.value) :
    convert wide str.bytes base = ⟨n.value, [], .zero⟩ := by
  rw [convert_inRange h.scan_eq (Numeral.inRange_of_fits hfits),
    IntType.wrap_of_fits hfits]

/-- A number passes whichever check is made; what is stored of it does not
depend on the types in between. -/
theorem assign_getNumber (hwidth : t.width ≤ u.width)
    (h : IsNumeral base str.bytes n) (hfits : wide.Fits n.value)
    (hpass : ∀ v, fails str.bytes ⟨v, [], .zero⟩ = false) :
    assign t (getNumber fails message wide u base str) = .ok (t.wrap n.value) := by
  unfold getNumber
  rw [convert_numeral h hfits]
  simp [assign, hpass, Except.map, IntType.wrap_wrap hwidth]

theorem assign_svsemDemo (h : IsNumeral .auto str.bytes n)
    (hfits : IntType.long.Fits n.value) :
    SvsemDemo.semOp str = .ok (IntType.short.wrap n.value) := by
  have hwrap : IntType.short.wrap (IntType.int.wrap n.value) =
      IntType.short.wrap n.value := IntType.wrap_wrap (by decide)
  unfold SvsemDemo.semOp SvsemDemo.getInt strtol
  rw [convert_numeral h hfits]
  simp [assign, Except.map, hwrap]

/-- Only the check for an empty conversion looks at the argument. -/
theorem rangeOrNothing_numeral (h : IsNumeral base str.bytes n) (v : Int) :
    rangeOrNothing str.bytes ⟨v, [], .zero⟩ = false := by
  simp [rangeOrNothing, h.ne_nil.symm]

end Stored

theorem Variable.stored_eq (x : Variable) {str : CStr} {n : Numeral}
    (h : IsNumeral .auto str.bytes n) (hfits : x.wide.Fits n.value) :
    x.stored str = .ok (x.type.wrap n.value) := by
  cases x with
  | svsemDemoSemOp => exact assign_svsemDemo h hfits
  | sigSenderPid | sigSenderSig =>
      exact assign_getNumber (by decide) h hfits (rangeOrNothing_numeral h)
  | isSeqnumSvSeqNum | isSeqnumClRequest | svsemSetallValue
  | threadIncrMutexNumLoops | sigReceiverSec | tSigqueuePid | tSigqueueSig
  | tSigqueueData | tSigqueueNumSigs =>
      exact assign_getNumber (by decide) h hfits (fun _ => rfl)

/-- **When an argument is not narrowed.**  For an argument that is a number in
the range of the conversion, the variable has the value of the number, or the
program fails, if and only if the value fits the type of the variable.  This ends
at the assignment: `svsem_setall 7 105536` stores 40000, and only then fails in
`semctl`. -/
theorem stored_exact_iff (x : Variable) (str : CStr) (n : Numeral)
    (hn : IsNumeral .auto str.bytes n) (hfits : x.wide.Fits n.value) :
    (∀ v, x.stored str = .ok v → v = n.value) ↔ x.type.Fits n.value := by
  rw [x.stored_eq hn hfits, ← IntType.wrap_eq_iff]
  constructor
  · intro h
    exact h _ rfl
  · rintro h v ⟨⟩
    exact h

/-- The least value of a `short`, with white space and a sign. -/
def leastShort : CStr := ⟨ascii " -0x8000", by decide⟩

theorem stored_exact_iff_least_short :
    IsNumeral .auto leastShort.bytes ⟨true, 32768⟩ ∧
    IntType.long.Fits (-32768) ∧
    ((∀ v, SvsemDemo.semOp leastShort = .ok v → v = -32768) ↔
      IntType.short.Fits (-32768)) ∧
    IntType.short.Fits (-32768) := by
  have hn : IsNumeral .auto leastShort.bytes ⟨true, 32768⟩ :=
    isNumeral_iff_scan.2 (by decide)
  exact ⟨hn, by decide,
    stored_exact_iff .svsemDemoSemOp leastShort ⟨true, 32768⟩ hn (by decide),
    by decide⟩

/-- One more than the greatest value of an `unsigned int`. -/
def twoToThe32 : CStr := ⟨ascii "4294967296", by decide⟩

/-- It is a `long`, but the sequence starts with 0. -/
theorem seqNum_wraps :
    IsNumeral .auto twoToThe32.bytes ⟨false, 4294967296⟩ ∧
    IntType.long.Fits 4294967296 ∧
    IsSeqnumSv.seqNum (some twoToThe32) = .ok 0 :=
  ⟨isNumeral_iff_scan.2 (by decide), by decide, by decide⟩

end Lpi.Ports.NumericArgs
