import Lpi.Verified.CData
import Lpi.Verified.Channel

/-!
# The sequence-number server over TCP (`sockets/is_seqnum_*.c`)

A client connects, writes one `int` and reads one `int`.  The server takes
one connection after the other: it reads the length, writes its current
number and advances it.

A connection is two streams.  How many bytes a `read` returns is part of the
label of the step, and so is what the variable it reads into held before,
since neither program initialises it.  Clients and the server can be killed
between any two steps, which closes their ends.
-/

namespace Lpi.Ports.IsSeqnum

open Lpi.Verified.CData
open Lpi.Verified.Channel

inductive ClientPc where
  | idle
  | connect
  | write
  | read
  | close
  | exited (status : Exit)
  deriving DecidableEq

/-- A client; `printed` is its "Sequence number". -/
structure Client where
  pc : ClientPc
  request : Int32
  printed : Option Int32
  deriving DecidableEq

inductive ServerPc where
  | accept
  | read (conn : Nat)
  | write (conn : Nat) (request : Int32)
  | close (conn : Nat)
  | exited
  deriving DecidableEq

/-- What the server did on a connection: the value it found in `request`, the
number it had, and how many bytes of that it wrote. -/
structure Reply where
  conn : Nat
  request : Int32
  seqNum : Int32
  written : Nat
  deriving DecidableEq

/-- Connections are called after their clients; `up` is what the client
sends and `down` what the server sends. -/
structure State where
  server : ServerPc
  seqNum : Int32
  backlog : List Nat
  client : Nat → Client
  up : Nat → Stream
  down : Nat → Stream
  log : List Reply

/-- How a call was answered.  `read n old` is a `read` of `n` bytes into a
variable that held `old`. -/
inductive Answer where
  | ok
  | read (n : Nat) (old : Int32)
  | wrote (n : Nat)
  | err
  deriving DecidableEq, Repr

inductive Label where
  /-- A client starts that asks for `request` numbers. -/
  | start (c : Nat) (request : Int32)
  | client (c : Nat) (a : Answer)
  | server (a : Answer)
  | killClient (c : Nat)
  | killServer
  deriving DecidableEq

/-- The variable after `bs` was read into it. -/
def readInto (bs : List UInt8) (old : Int32) : Int32 :=
  intOfBytes (overlay bs (bytesOfInt old))

def State.setClient (s : State) (c : Nat) (k : Client) : State :=
  { s with client := Function.update s.client c k }

def State.setUp (s : State) (c : Nat) (x : Stream) : State :=
  { s with up := Function.update s.up c x }

def State.setDown (s : State) (c : Nat) (x : Stream) : State :=
  { s with down := Function.update s.down c x }

/-! ## The client -/

/-- The end of a client closes its socket. -/
def State.clientExits (s : State) (c : Nat) (status : Exit) : State :=
  (s.setUp c (s.up c).close).setClient c
    { s.client c with pc := .exited status }

def startClient (s : State) (c : Nat) (request : Int32) : Option State :=
  if (s.client c).pc ≠ .idle then none
  else some (s.setClient c { s.client c with pc := .connect, request := request })

/-- The next step of client `c`. -/
def clientStep (s : State) (c : Nat) : Answer → Option State
  | .ok =>
    match (s.client c).pc with
    | .connect =>
        if s.server = .exited then none
        else some
          { s.setClient c { s.client c with pc := .write } with
            backlog := s.backlog ++ [c] }
    | .close => some (s.clientExits c .success)
    | _ => none
  | .wrote n =>
    match (s.client c).pc with
    | .write =>
        if n ≤ sizeofInt then
          let bs := (bytesOfInt (s.client c).request).take n
          let s := s.setUp c ((s.up c).write bs)
          if n ≠ sizeofInt then some (s.clientExits c .failure)
          else some (s.setClient c { s.client c with pc := .read })
        else none
    | _ => none
  | .read n old =>
    match (s.client c).pc with
    | .read => ((s.down c).read sizeofInt n).map fun (bs, x) =>
        (s.setDown c x).setClient c
          { s.client c with pc := .close, printed := some (readInto bs old) }
    | _ => none
  | .err =>
    match (s.client c).pc with
    | .connect | .write | .read | .close => some (s.clientExits c .failure)
    | .idle | .exited _ => none

/-! ## The server -/

/-- `write` of `n` bytes of the number, and the addition that follows
whatever `write` returned. -/
def answerRequest (s : State) (c : Nat) (request : Int32) (n : Nat) : State :=
  { s.setDown c ((s.down c).write ((bytesOfInt s.seqNum).take n)) with
    server := .close c
    seqNum := s.seqNum + request
    log := s.log ++ [⟨c, request, s.seqNum, n⟩] }

/-- The end of the server closes every socket. -/
def State.serverExits (s : State) : State :=
  { s with server := .exited, backlog := [], down := fun c => (s.down c).close }

/-- The next step of the server. -/
def serverStep (s : State) : Answer → Option State
  | .ok =>
    match s.server with
    | .accept =>
      match s.backlog with
      | c :: rest => some { s with backlog := rest, server := .read c }
      | [] => none
    | .close c => some { s.setDown c (s.down c).close with server := .accept }
    | _ => none
  | .read n old =>
    match s.server with
    | .read c => ((s.up c).read sizeofInt n).map fun (bs, x) =>
        { s.setUp c x with server := .write c (readInto bs old) }
    | _ => none
  | .wrote n =>
    match s.server with
    | .write c request =>
        if n ≤ sizeofInt then some (answerRequest s c request n) else none
    | _ => none
  | .err =>
    match s.server with
    | .accept => some s
    | .read c => some { s with server := .close c }
    | .write c request => some (answerRequest s c request 0)
    | .close _ => some s.serverExits
    | .exited => none

/-- One atomic step of the system. -/
def step (s : State) : Label → Option State
  | .start c request => startClient s c request
  | .client c a => clientStep s c a
  | .server a => serverStep s a
  | .killClient c =>
    match (s.client c).pc with
    | .idle | .exited _ => none
    | _ => some (s.clientExits c .failure)
  | .killServer => if s.server = .exited then none else some s.serverExits

/-- The server listens and starts with `initial`. -/
def start (initial : Int32) : State where
  server := .accept
  seqNum := initial
  backlog := []
  client := fun _ => ⟨.idle, 0, none⟩
  up := fun _ => .new
  down := fun _ => .new
  log := []

end Lpi.Ports.IsSeqnum
