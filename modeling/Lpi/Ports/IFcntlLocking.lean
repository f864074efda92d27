import Lpi.Verified.CData
import Lpi.Verified.CString
import Lpi.Verified.Lines
import Lpi.Verified.Sscanf

/-!
# Locking a file interactively (`filelock/i_fcntl_locking.c`)

The program reads lines into a buffer of 100 bytes, removes the last
character, and takes what is left as a command: `?`, or a command, a lock, a
start, a length and maybe a whence, which it reads with `sscanf` and passes to
`fcntl`.

The body of the loop has variables that are not initialised.  `sscanf` stores
to as many of them as it finds values for, and three switches without a
default store to three more.  A `Frame` holds these variables, with whatever
they contain, and a record of what was done with them.
-/

namespace Lpi.Ports.IFcntlLocking

open Lpi.Verified.CData
open Lpi.Verified.CInt
open Lpi.Verified.CString
open Lpi.Verified.Lines
open Lpi.Verified.Sscanf

/-! ## The variables of the loop -/

/-- `MAX_LINE`. -/
def maxLine : Nat := 100

/-- `struct flock`. -/
structure Flock where
  type : Int
  whence : Int
  start : Int
  len : Int
  pid : Int
  deriving DecidableEq, Repr

/-- The variables that `sscanf` may store to. -/
inductive Local where
  | cmdCh
  | lock
  | start
  | length
  | whence
  deriving DecidableEq, Repr

/-- The variables that the switches may store to. -/
inductive Field where
  | cmd
  | lType
  | lWhence
  deriving DecidableEq, Repr

/-- What is done with the variables: `sscanf` stores, the code uses the value,
a case of a switch stores, `fcntl` is called. -/
inductive Event where
  | assign (x : Local)
  | examine (x : Local)
  | case (x : Field)
  | fcntl
  deriving DecidableEq, Repr

structure Frame where
  cmdCh : UInt8
  lock : UInt8
  whence : UInt8
  start : Int
  length : Int
  cmd : Int
  fl : Flock
  trace : List Event
  deriving DecidableEq, Repr

/-- All variables are zero. -/
def zeroFrame : Frame := ⟨0, 0, 0, 0, 0, 0, ⟨0, 0, 0, 0, 0⟩, []⟩

def Frame.note (f : Frame) (es : List Event) : Frame :=
  { f with trace := f.trace ++ es }

/-- The value of a variable of type `char`. -/
def Frame.char (f : Frame) : Local → UInt8
  | .cmdCh => f.cmdCh
  | .lock => f.lock
  | _ => f.whence

/-- `sscanf` stores a value; the format has the types of the variables. -/
def Frame.assign (f : Frame) : Local → Value → Frame
  | .cmdCh, .char b => { f with cmdCh := b }.note [.assign .cmdCh]
  | .lock, .char b => { f with lock := b }.note [.assign .lock]
  | .start, .longLong v => { f with start := v }.note [.assign .start]
  | .length, .longLong v => { f with length := v }.note [.assign .length]
  | .whence, .char b => { f with whence := b }.note [.assign .whence]
  | _, _ => f

def Frame.set (f : Frame) (v : Int) : Field → Frame
  | .cmd => { f with cmd := v }
  | .lType => { f with fl := { f.fl with type := v } }
  | .lWhence => { f with fl := { f.fl with whence := v } }

/-! ## A command -/

/-- `"%c %c %lld %lld %c"`. -/
def format : List Directive :=
  [.c, .space, .c, .space, .lld, .space, .lld, .space, .c]

/-- `&cmdCh, &lock, &start, &length, &whence`. -/
def targets : List Local := [.cmdCh, .lock, .start, .length, .whence]

/-- The call of `sscanf`, apart from its result. -/
def Frame.sscanf (f : Frame) (line : List UInt8) : Frame :=
  (targets.zip (conversions format line)).foldl (fun f xv => f.assign xv.1 xv.2) f

/-- `strchr(set, c) != NULL`.  The terminating NUL is part of the set. -/
def strchr (set : String) (c : UInt8) : Bool := c ∈ ascii set || c == 0

/-- The condition for an invalid command, up to where it is decided. -/
def Frame.rejects (f : Frame) (line : List UInt8) : Bool × Frame :=
  let f := f.sscanf line
  if result format line < 4 then (true, f)
  else
    let f := f.note [.examine .cmdCh]
    if strchr "gsw" f.cmdCh = false then (true, f)
    else
      let f := f.note [.examine .lock]
      if strchr "rwu" f.lock = false then (true, f)
      else
        let f := f.note [.examine .whence]
        (!strchr "sce" f.whence, f)

/-- A switch over `x` whose cases store to `field`; there is no default. -/
def Frame.switch (f : Frame) (x : Local) (field : Field) (cases : List (UInt8 × Int)) :
    Frame :=
  match cases.lookup (f.char x) with
  | some v => (f.set v field).note [.examine x, .case field]
  | none => f.note [.examine x]

def F_GETLK : Int := 5
def F_SETLK : Int := 6
def F_SETLKW : Int := 7

def F_RDLCK : Int := 0
def F_WRLCK : Int := 1
def F_UNLCK : Int := 2

def SEEK_SET : Int := 0
def SEEK_CUR : Int := 1
def SEEK_END : Int := 2

/-- `'g'`, `'s'`, `'w'`. -/
def cmdCases : List (UInt8 × Int) := [(103, F_GETLK), (115, F_SETLK), (119, F_SETLKW)]

/-- `'r'`, `'w'`, `'u'`. -/
def lockCases : List (UInt8 × Int) := [(114, F_RDLCK), (119, F_WRLCK), (117, F_UNLCK)]

/-- `'s'`, `'c'`, `'e'`. -/
def whenceCases : List (UInt8 × Int) := [(115, SEEK_SET), (99, SEEK_CUR), (101, SEEK_END)]

/-- From the first switch to the call of `fcntl`. -/
def Frame.dispatch (f : Frame) : Frame :=
  let f := f.switch .cmdCh .cmd cmdCases
  let f := f.switch .lock .lType lockCases
  let f := f.switch .whence .lWhence whenceCases
  let f := { f with fl := { f.fl with start := f.start } }.note [.examine .start]
  let f := { f with fl := { f.fl with len := f.length } }.note [.examine .length]
  f.note [.fcntl]

/-- What a line leads to. -/
inductive Parsed where
  | blank
  | help
  | invalid
  | request
  deriving DecidableEq, Repr

/-- The body of the loop from the test for blank lines to the call of
`fcntl`. -/
def parse (line : List UInt8) (f : Frame) : Parsed × Frame :=
  if line = [] then (.blank, f)
  else if line.head? = some 63 then (.help, f)
  else
    let (invalid, f) := { f with whence := 115 }.rejects line
    if invalid then (.invalid, f) else (.request, f.dispatch)

/-- What `fcntl` is asked for. -/
structure Request where
  cmd : Int
  type : Int
  whence : Int
  start : Int
  len : Int
  deriving DecidableEq, Repr

def Frame.request (f : Frame) : Request :=
  ⟨f.cmd, f.fl.type, f.fl.whence, f.fl.start, f.fl.len⟩

/-! ## The program -/

inductive Errno where
  | EAGAIN
  | EACCES
  | EDEADLK
  | other (text : List UInt8)
  deriving DecidableEq, Repr

def strerror : Errno → List UInt8
  | .EAGAIN => ascii "Resource temporarily unavailable"
  | .EACCES => ascii "Permission denied"
  | .EDEADLK => ascii "Resource deadlock avoided"
  | .other text => text

/-- What `fcntl` returns, what it leaves in `errno`, and what `F_GETLK` stores
to the `struct flock`. -/
structure Answer where
  status : Int
  errno : Errno
  fl : Flock
  deriving DecidableEq, Repr

/-- The process, and the answer to its `i`-th request. -/
structure Kernel where
  pid : Int
  fcntl : Nat → Request → Answer

/-- A system that grants every lock. -/
def granting : Kernel := ⟨1, fun _ _ => ⟨0, .other [], ⟨F_UNLCK, 0, 0, 0, 0⟩⟩⟩

structure State where
  line : List UInt8
  frame : Frame
  stdin : List UInt8
  stdout : List UInt8
  stderr : List UInt8
  commands : List (List UInt8)
  requests : List Request
  deriving DecidableEq

def State.print (s : State) (text : List UInt8) : State :=
  { s with stdout := s.stdout ++ text }

inductive Ending where
  | exit (e : Exit)
  /-- A store outside of the buffer. -/
  | undefined
  deriving DecidableEq, Repr

/-- A round of the loop leads to the next one or ends the program. -/
inductive Round where
  | next (s : State)
  | stop (e : Ending) (s : State)
  deriving DecidableEq

def Round.state : Round → State
  | .next s => s
  | .stop _ s => s

def prompt (pid : Int) : List UInt8 := ascii "PID=" ++ decimal pid ++ ascii "> "

/-- `printCmdFormat`. -/
def cmdFormat : List UInt8 :=
  ascii "\n    Format: <cmd> <lock> <start> <length> [<whence>]\n" ++
    ascii "    <cmd>    - g (GETLK) | s (SETLK) | w (SETLKW)\n" ++
    ascii "    <lock>   - r (READ) | w (WRITE) | u (UNLOCK)\n" ++
    ascii "    <whence> - s (SEEK_SET, default) | c (SEEK_CUR) | e (SEEK_END)\n\n"

/-- `[PID=%ld] ` and a text. -/
def report (pid : Int) (text : List UInt8) : List UInt8 :=
  ascii "[PID=" ++ decimal pid ++ ascii "] " ++ text ++ ascii "\n"

def denied (fl : Flock) : List UInt8 :=
  ascii "Denied by " ++ (if fl.type = F_RDLCK then ascii "READ" else ascii "WRITE") ++
    ascii " lock on " ++ decimal fl.start ++ ascii ":" ++ decimal fl.len ++
    ascii " (held by PID " ++ decimal fl.pid ++ ascii ")"

/-- What follows the call of `fcntl`: a text for standard output, or a message
with which the program fails. -/
def respond (pid : Int) (r : Request) (a : Answer) : Except (List UInt8) (List UInt8) :=
  if r.cmd = F_GETLK then
    if a.status = -1 then
      .error (ascii "Failed to fcntl() F_GETLK - " ++ strerror a.errno ++ ascii "\n")
    else if a.fl.type = F_UNLCK then .ok (report pid (ascii "Lock can be placed"))
    else .ok (report pid (denied a.fl))
  else if a.status = 0 then
    .ok (report pid (if r.type = F_UNLCK then ascii "unlocked" else ascii "got lock"))
  else if a.errno = .EAGAIN ∨ a.errno = .EACCES then
    .ok (report pid (ascii "failed (incompatible lock)"))
  else if a.errno = .EDEADLK then .ok (report pid (ascii "failed (deadlock)"))
  else .error (ascii "Failed to fcntl() F_SETLK(W) - " ++ strerror a.errno ++ ascii "\n")

/-- The round from the test for blank lines on. -/
def State.execute (k : Kernel) (s : State) : Round :=
  let (parsed, frame) := parse (cString s.line) s.frame
  let s' := { s with frame := frame, commands := s.commands ++ [cString s.line] }
  match parsed with
  | .blank => .next { s with frame := frame }
  | .help => .next (s'.print cmdFormat)
  | .invalid => .next (s'.print (ascii "Invalid command!\n"))
  | .request =>
      let s' := { s' with requests := s.requests ++ [frame.request] }
      match respond k.pid frame.request (k.fcntl s.requests.length frame.request) with
      | .ok out => .next (s'.print out)
      | .error message => .stop (.exit .failure) { s' with stderr := s.stderr ++ message }

/-- The beginning of a round: new variables and the prompt. -/
def State.begin (s : State) (pid : Int) : State :=
  { s with frame := { s.frame with trace := [] } }.print (prompt pid)

/-- `fgets` has stored what it read. -/
def State.stored (s : State) (chunk rest : List UInt8) : State :=
  { s with stdin := rest, line := overlay (chunk ++ [0]) s.line }

/-- The round from the removal of the last character on. -/
def State.strip (k : Kernel) (s : State) : Round :=
  if lastIndex s.line < maxLine then
    { s with line := s.line.set (lastIndex s.line).toNat 0 }.execute k
  else .stop .undefined s

/-- A round of the loop. -/
def State.round (k : Kernel) (s : State) : Round :=
  match fgets maxLine s.stdin with
  | none => .stop (.exit .success) (s.begin k.pid)
  | some (chunk, rest) => ((s.begin k.pid).stored chunk rest).strip k

/-- The loop, for at most that many rounds. -/
def run (k : Kernel) : Nat → State → Option (Ending × State)
  | 0, _ => none
  | rounds + 1, s =>
      match s.round k with
      | .next s' => run k rounds s'
      | .stop e s' => some (e, s')

def usage (program : CStr) : List UInt8 :=
  ascii "Usage: " ++ program.bytes ++ ascii " <pathname>\n"

/-- `main`, with what the variables contain at first and with the text of
`errno` if `open()` fails. -/
def main (k : Kernel) (rounds : Nat) (openError : Option (List UInt8)) (program : CStr)
    (args : List CStr) (line : List UInt8) (frame : Frame) (stdin : List UInt8) :
    Option (Ending × State) :=
  let s : State := ⟨line, frame, stdin, [], [], [], []⟩
  match args with
  | [pathname] =>
      if pathname.bytes = ascii "-h" then
        some (.exit .failure, { s with stderr := usage program })
      else match openError with
        | some e => some (.exit .failure,
            { s with stderr := ascii "Failed to open() " ++ pathname.bytes ++ ascii " - " ++
                       e ++ ascii "\n" })
        | none => run k rounds (s.print (ascii "Enter ? for help\n"))
  | _ => some (.exit .failure, { s with stderr := usage program })

end Lpi.Ports.IFcntlLocking
