import Lpi.Verified.CString
import Lpi.Verified.Strtol

/-!
# The converters of numeric arguments

Most programs have a function of their own that converts an argument with
`strtol` or `strtoul`, checks the conversion, and ends the program with a
message if the check fails.  The check comes in three versions, which differ
in what they make of `errno` and `endptr`:

* `errno != 0 && *endptr != '\0'` (`rangeAndTail`),
* `errno != 0 || *endptr != '\0'` (`rangeOrTail`),
* `errno != 0 || endptr == str` (`rangeOrNothing`),

and in one program (`SvsemDemo.getInt`) in a fourth one.  A converter returns
the value in the type of its result, or the message on standard error with
which it calls `exit(EXIT_FAILURE)`.
-/

namespace Lpi.Ports.NumericArgs

open Lpi.Verified.CInt
open Lpi.Verified.CString
open Lpi.Verified.Strtol

/-- The value that is returned, or the message of the failure. -/
abbrev Outcome := Except (List UInt8) Int

/-! ## The checks -/

def rangeAndTail (_ : List UInt8) (r : Result) : Bool :=
  r.errno ≠ .zero && r.endptr ≠ []

def rangeOrTail (_ : List UInt8) (r : Result) : Bool :=
  r.errno ≠ .zero || r.endptr ≠ []

def rangeOrNothing (str : List UInt8) (r : Result) : Bool :=
  r.errno ≠ .zero || r.endptr = str

/-- Convert with `strtol` or `strtoul`, which is the conversion to type `wide`,
check, and return the value in type `t`. -/
def getNumber (fails : List UInt8 → Result → Bool)
    (message : List UInt8 → Errno → List UInt8) (wide t : IntType) (base : Base)
    (str : CStr) : Outcome :=
  let result := convert wide str.bytes base
  if fails str.bytes result then .error (message str.bytes result.errno)
  else .ok (t.wrap result.value)

/-- `before%safter - %s\n`, with the argument and the text of `errno`. -/
def withErrno (before after : String) (str : List UInt8) (e : Errno) :
    List UInt8 :=
  ascii before ++ str ++ ascii after ++ ascii " - " ++ ascii (strerror e) ++
    ascii "\n"

/-- `before%safter`, with the argument. -/
def withoutErrno (before after : String) (str : List UInt8) (_ : Errno) :
    List UInt8 :=
  ascii before ++ str ++ ascii after

/-! ## `errno != 0 && *endptr != '\0'` -/

def IsSeqnumSv.getLong : CStr → Outcome :=
  getNumber rangeAndTail (withErrno "Failed to convert strtol() " "") .long .long
    .auto

def IsSeqnumCl.getLong : CStr → Outcome :=
  getNumber rangeAndTail (withErrno "Failed to convert strtol() " "") .long .long
    .auto

def SvmsgSend.getLong : CStr → Outcome :=
  getNumber rangeAndTail (withErrno "Failed to strtol() " "") .long .long .auto

def SvmsgReceive.getLong : CStr → Outcome :=
  getNumber rangeAndTail (withErrno "Failed to strtol() " "") .long .long .auto

def TFlock.getLong : CStr → Outcome :=
  getNumber rangeAndTail (withErrno "Failed to convert strtol() " "") .long .long
    .auto

def PmsgCreate.getLong (str : CStr) (base : Base) : Outcome :=
  getNumber rangeAndTail (withErrno "Failed to convert " " to long") .long .long
    base str

def PsemCreate.getLong (str : CStr) (base : Base) : Outcome :=
  getNumber rangeAndTail (withErrno "Failed to convert strtol() " "") .long .long
    base str

def SvsemSetall.getLong : CStr → Outcome :=
  getNumber rangeAndTail (withErrno "Failed to convert strtol() " "") .long .long
    .auto

def FifoSeqnumClient.getInt : CStr → Outcome :=
  getNumber rangeAndTail (withErrno "Failed to convert " " to int") .long .int
    .auto

def SvmsgCreate.getInt : CStr → Outcome :=
  getNumber rangeAndTail (withErrno "Failed to strtol() " "") .long .int .octal

def SvsemMon.getInt : CStr → Outcome :=
  getNumber rangeAndTail (withErrno "Failed to strtol() " "") .long .int .auto

def PipeSync.getUint : CStr → Outcome :=
  getNumber rangeAndTail (withErrno "Failed to convert " " to unsigned int")
    .ulong .uint .auto

def PmsgSend.getUnsignedLong : CStr → Outcome :=
  getNumber rangeAndTail (withErrno "Failed to convert strtoul() " "") .ulong
    .ulong .auto

def PshmCreate.getUnsignedLong (str : CStr) (base : Base) : Outcome :=
  getNumber rangeAndTail (withErrno "Failed to convert strtoul() " "") .ulong
    .ulong base str

/-- Here `errno` is compared the other way. -/
def SvsemDemo.getInt (str : CStr) : Outcome :=
  let result := strtol str.bytes .auto
  if result.errno = .zero ∧ result.endptr ≠ [] then
    .error (withErrno "Failed to convert strtol() " "" str.bytes result.errno)
  else .ok (IntType.int.wrap result.value)

/-! ## `errno != 0 || *endptr != '\0'` -/

def ThreadMultijoin.getInt : CStr → Outcome :=
  getNumber rangeOrTail (withErrno "Failed to convert " " to int") .long .int .auto

def ThreadIncrMutex.getUnsignedLong : CStr → Outcome :=
  getNumber rangeOrTail (withErrno "Failed to convert " " to unsigned long")
    .ulong .ulong .auto

def TSigqueue.getLong : CStr → Outcome :=
  getNumber rangeOrTail (withErrno "Failed to convert " " to long") .long .long
    .auto

def SigReceiver.getUnsignedInt : CStr → Outcome :=
  getNumber rangeOrTail (withErrno "Failed to convert " " to unsigned long")
    .ulong .uint .auto

def CatchRtsigs.getUnsignedLong : CStr → Outcome :=
  getNumber rangeOrTail (withErrno "Failed convert " " to unsigned long")
    .ulong .ulong .auto

def MultiWait.getUint : CStr → Outcome :=
  getNumber rangeOrTail (withErrno "Failed to convert " " strtoul()") .ulong .uint
    .auto

/-! ## `errno != 0 || endptr == str` -/

def SeekIo.getUnsignedLong : CStr → Outcome :=
  getNumber rangeOrNothing (withoutErrno "Failed to convert " " to unsigned long\n")
    .ulong .ulong .decimal

def SeekIo.getLong : CStr → Outcome :=
  getNumber rangeOrNothing (withoutErrno "Failed to convert " " to long\n") .long
    .long .decimal

/-- The value goes through a variable of type `long`. -/
def FreeAndSbrk.getUnsignedLong (str : CStr) : Outcome :=
  let result := strtoul str.bytes .auto
  let n := IntType.long.wrap result.value
  if result.errno ≠ .zero ∨ result.endptr = str.bytes then
    .error (withoutErrno "Failed to convert " " to unsigned long\n" str.bytes
      result.errno)
  else .ok (IntType.ulong.wrap n)

def TUnlink.getUnsignedLong : CStr → Outcome :=
  getNumber rangeOrNothing (withErrno "Failed to convert " " to unsigned long")
    .ulong .ulong .auto

def ProcessTime.getUnsignedLong : CStr → Outcome :=
  getNumber rangeOrNothing (withoutErrno "Failed to convert " " to unsigned long\n")
    .ulong .ulong .auto

def SigSender.getLong : CStr → Outcome :=
  getNumber rangeOrNothing (withoutErrno "Failed to convert strtol() " "\n") .long
    .long .auto

def TKill.getInt : CStr → Outcome :=
  getNumber rangeOrNothing (withoutErrno "Failed to convert " " to long") .long .int
    .auto

end Lpi.Ports.NumericArgs
