import Lpi.Ports.NumericArgs
import Lpi.Verified.CData
import Lpi.Verified.FileObject
import Lpi.Verified.Getopt
import Mathlib.Logic.Function.Basic

/-!
# POSIX shared memory (`pshm/pshm_{create,write,read}.c`)

Three programs that communicate only through a named shared-memory object:
`pshm_create` creates it and sets its size, `pshm_write` makes it as long as a
message and copies the message into it, `pshm_read` writes it to standard
output.  Each run is a function of what the system grants, of the arguments
and of the objects that exist.
-/

namespace Lpi.Ports.Pshm

open Lpi.Ports.NumericArgs
open Lpi.Verified.CData
open Lpi.Verified.CString
open Lpi.Verified.FileObject
open Lpi.Verified.Getopt
open Lpi.Verified.Strtol

/-! ## The system -/

/-- The shared-memory objects, by name. -/
abbrev Shm := CStr → Option (List UInt8)

/-- Which calls the system grants, as far as their arguments allow.  `write`
is the number of bytes that a `write()` takes, if it is to take less than it can, and
`newline` says whether the last `write()` of `pshm_read` gets through. -/
structure System where
  shmOpen : Bool
  ftruncate : Bool
  fstat : Bool
  mmap : Bool
  close : Bool
  write : Option Nat
  newline : Bool
  deriving DecidableEq, Repr

/-- A system that refuses nothing. -/
def System.willing : System := ⟨true, true, true, true, true, none, true⟩

/-- `O_CREAT` and `O_EXCL`. -/
structure Flags where
  creat : Bool
  excl : Bool
  deriving DecidableEq, Repr

/-- `shm_open`: the objects after it, or `none` if it fails. -/
def System.open (sys : System) (shm : Shm) (name : CStr) (flags : Flags) :
    Option Shm :=
  if sys.shmOpen = false then none
  else match shm name with
    | some _ => if flags.creat && flags.excl then none else some shm
    | none =>
        if flags.creat then some (Function.update shm name (some [])) else none

/-- `ftruncate` of the object `name`.  The size arrives as an `off_t`. -/
def System.truncate (sys : System) (shm : Shm) (name : CStr) (size : Nat) :
    Option Shm :=
  if sys.ftruncate = false ∨ 2 ^ 63 ≤ size then none
  else (shm name).map fun bs => Function.update shm name (some (resize size bs))

/-- Whether `mmap` of `length` bytes succeeds. -/
def System.maps (sys : System) (length : Nat) : Bool :=
  sys.mmap && length != 0

/-- The most bytes that a `write()` takes on Linux, `MAX_RW_COUNT`. -/
def maxRwCount : Nat := 0x7ffff000

/-- What a `write()` of `length` bytes takes. -/
def System.written (sys : System) (length : Nat) : Nat :=
  min (sys.write.getD length) (min length maxRwCount)

/-- How a run ends, what it leaves behind and what it prints. -/
structure Result where
  exit : Exit
  shm : Shm
  stdout : List UInt8

/-- A failed run. -/
def failure (shm : Shm) (stdout : List UInt8) : Result := ⟨.failure, shm, stdout⟩

/-! ## `pshm_create` -/

/-- The string of the options. -/
def optstring : List UInt8 := ascii "cx"

/-- One turn of the loop over the options. -/
def turn (flags : Flags) : Found → Except Unit Flags
  | .flag 99 => .ok { flags with creat := true }
  | .flag 120 => .ok { flags with excl := true }
  | _ => .error ()

/-- `argv[optind]` and so on. -/
def operands (argv : List CStr) : List CStr := (getopt optstring argv).2

/-- `size`: the operand after the name, or zero. -/
def sizeArgument : List CStr → Except (List UInt8) Nat
  | _ :: size :: _ =>
      (PshmCreate.getUnsignedLong size .auto).map Int.toNat
  | _ => .ok 0

/-- `mode`: the second operand after the name, or `S_IRUSR | S_IWUSR`. -/
def modeArgument : List CStr → Except (List UInt8) Nat
  | _ :: _ :: perms :: _ =>
      (PshmCreate.getUnsignedLong perms .octal).map Int.toNat
  | _ => .ok 0o600

/-- `main` of `pshm_create`; `argv` is `argv[1]` and so on. -/
def pshmCreate (sys : System) (argv : List CStr) (shm : Shm) : Result :=
  match loop turn (getopt optstring argv).1 ⟨false, false⟩, operands argv with
  | .error _, _ | _, [] => failure shm []
  | .ok flags, name :: _ =>
    match modeArgument (operands argv) with
    | .error _ => failure shm []
    | .ok _ =>
      match sys.open shm name flags with
      | none => failure shm []
      | some shm =>
        match sizeArgument (operands argv) with
        | .error _ => failure shm []
        | .ok size =>
          match sys.truncate shm name size with
          | none => failure shm []
          | some shm => ⟨.success, shm, []⟩

/-! ## `pshm_write` -/

/-- `-h`, which the programs take for a request for help. -/
def helpOption : List UInt8 := ascii "-h"

/-- `Resized %s to %ld bytes\n`. -/
def resizedLine (name : CStr) (length : Nat) : List UInt8 :=
  ascii "Resized " ++ name.bytes ++ ascii " to " ++ decimal length ++
    ascii " bytes\n"

/-- `Copying %ld bytes\n`. -/
def copyingLine (length : Nat) : List UInt8 :=
  ascii "Copying " ++ decimal length ++ ascii " bytes\n"

/-- `memcpy` of the message to the start of the mapped object. -/
def copyMessage (shm : Shm) (name msg : CStr) : Shm :=
  Function.update shm name ((shm name).map (overlay msg.bytes))

/-- `main` of `pshm_write`; `args` is `argv[1]` and so on. -/
def pshmWrite (sys : System) (args : List CStr) (shm : Shm) : Result :=
  match args with
  | [name, msg] =>
      let msgLength := msg.bytes.length
      if name.bytes = helpOption then failure shm []
      else match sys.open shm name ⟨false, false⟩ with
        | none => failure shm []
        | some shm =>
          match sys.truncate shm name msgLength with
          | none => failure shm []
          | some shm =>
              if sys.maps msgLength = false then
                failure shm (resizedLine name msgLength)
              else if sys.close = false then
                failure shm (resizedLine name msgLength)
              else
                ⟨.success, copyMessage shm name msg,
                  resizedLine name msgLength ++ copyingLine msgLength⟩
  | _ => failure shm []

/-! ## `pshm_read` -/

/-- `main` of `pshm_read`. -/
def pshmRead (sys : System) (args : List CStr) (shm : Shm) : Result :=
  match args with
  | [name] =>
      if name.bytes = helpOption then failure shm []
      else match sys.open shm name ⟨false, false⟩ with
        | none => failure shm []
        | some shm =>
          match shm name with
          | none => failure shm []
          | some object =>
              if sys.fstat = false then failure shm []
              else if sys.maps object.length = false then failure shm []
              else if sys.close = false then failure shm []
              else if sys.written object.length ≠ object.length then
                failure shm (object.take (sys.written object.length))
              else ⟨.success, shm, object ++ if sys.newline then ascii "\n" else []⟩
  | _ => failure shm []

end Lpi.Ports.Pshm
