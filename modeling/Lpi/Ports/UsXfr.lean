import Lpi.Verified.Channel
import Lpi.Verified.Pieces

/-!
# Transfer over a UNIX stream socket (`sockets/us_xfr_*.c`)

A client copies its standard input to a connection, and the server copies
one connection after the other to its standard output.  Any number of clients
may be connected; those not accepted yet wait in the backlog.

The client reads `numBytes` bytes into its buffer and writes the *whole*
buffer, `BUFFER_SIZE` bytes, of which those behind `numBytes` are left over
from earlier pieces or were never initialised; it then compares what was
written with `numBytes`.
-/

namespace Lpi.Ports.UsXfr

open Lpi.Verified.CData
open Lpi.Verified.Channel
open Lpi.Verified.Pieces

/-- `BUFFER_SIZE`, the same in both programs. -/
def bufferSize : Nat := 100

/-- `BACKLOG`. -/
def backlogMax : Nat := 5

inductive ClientPc where
  | idle
  | connect
  | read
  | write (numBytes : Nat)
  | close
  | exited (status : Exit)
  deriving DecidableEq

/-- A client; `stdin` is what `read` will still return, of `input` in all. -/
structure Client where
  pc : ClientPc
  input : List (Chunk bufferSize)
  stdin : List (Chunk bufferSize)
  buffer : Buffer bufferSize
  deriving DecidableEq

inductive ServerPc where
  | accept
  | read (conn : Nat)
  | write (conn : Nat) (numBytesRead : Nat)
  | close (conn : Nat)
  | exited
  deriving DecidableEq

/-- Connections are called after their clients.  `started` has the clients
that run or have run, and `accepted` the connections in the order in which
the server took them. -/
structure State where
  server : ServerPc
  buffer : Buffer bufferSize
  backlog : List Nat
  client : Nat → Client
  stream : Nat → Stream
  stdout : List UInt8
  started : List Nat
  accepted : List Nat

/-- How a call was answered; `count` is the result of a `write`, and of the
server's `read`. -/
inductive Answer where
  | ok
  | count (n : Nat)
  | err
  deriving DecidableEq, Repr

inductive Label where
  /-- A client starts; its buffer holds what happens to be there. -/
  | start (c : Nat) (input : List (Chunk bufferSize)) (buffer : Buffer bufferSize)
  | client (c : Nat) (a : Answer)
  | server (a : Answer)
  deriving DecidableEq

def State.setClient (s : State) (c : Nat) (k : Client) : State :=
  { s with client := Function.update s.client c k }

def State.setStream (s : State) (c : Nat) (x : Stream) : State :=
  { s with stream := Function.update s.stream c x }

/-! ## The client -/

/-- The end of a client closes its socket. -/
def State.clientExits (s : State) (c : Nat) (status : Exit) : State :=
  (s.setStream c (s.stream c).close).setClient c
    { s.client c with pc := .exited status }

def startClient (s : State) (c : Nat) (input : List (Chunk bufferSize))
    (buffer : Buffer bufferSize) : Option State :=
  if (s.client c).pc ≠ .idle then none
  else some { s.setClient c ⟨.connect, input, input, buffer⟩ with
    started := s.started ++ [c] }

/-- The next step of client `c`. -/
def clientStep (s : State) (c : Nat) : Answer → Option State
  | .ok =>
    let k := s.client c
    match k.pc with
    | .connect =>
        if s.server = .exited ∨ s.backlog.length > backlogMax then none
        else some { s.setClient c { k with pc := .read } with
          backlog := s.backlog ++ [c] }
    | .read =>
      match k.stdin with
      | chunk :: rest => some (s.setClient c
          { k with pc := .write chunk.bytes.length
                   stdin := rest
                   buffer := k.buffer.fill chunk.bytes })
      | [] => some (s.setClient c { k with pc := .close })
    | .close => some (s.clientExits c .success)
    | .idle | .write _ | .exited _ => none
  | .count n =>
    match (s.client c).pc with
    | .write numBytes =>
        if n ≤ bufferSize ∧ s.server ≠ .exited then
          let s := s.setStream c
            ((s.stream c).write ((s.client c).buffer.bytes.take n))
          if n ≠ numBytes then some (s.clientExits c .failure)
          else some (s.setClient c { s.client c with pc := .read })
        else none
    | _ => none
  | .err =>
    match (s.client c).pc with
    | .connect | .read | .write _ | .close => some (s.clientExits c .failure)
    | .idle | .exited _ => none

/-! ## The server -/

/-- The next step of the server. -/
def serverStep (s : State) : Answer → Option State
  | .ok =>
    match s.server with
    | .accept =>
      match s.backlog with
      | c :: rest => some { s with backlog := rest
                                   server := .read c
                                   accepted := s.accepted ++ [c] }
      | [] => none
    | .close _ => some { s with server := .accept }
    | _ => none
  | .count n =>
    match s.server with
    | .read c => ((s.stream c).read bufferSize n).map fun (bs, x) =>
        if n > 0 then
          { s.setStream c x with server := .write c n
                                 buffer := s.buffer.fill bs }
        else { s with server := .close c }
    | .write c numBytesRead =>
        if n ≤ numBytesRead then
          let s := { s with stdout := s.stdout ++ s.buffer.bytes.take n }
          if n ≠ numBytesRead then some { s with server := .exited }
          else some { s with server := .read c }
        else none
    | _ => none
  | .err =>
    match s.server with
    | .exited => none
    | _ => some { s with server := .exited }

/-- One atomic step of the system. -/
def step (s : State) : Label → Option State
  | .start c input buffer => startClient s c input buffer
  | .client c a => clientStep s c a
  | .server a => serverStep s a

/-- The server listens; nobody has started. -/
def start (buffer : Buffer bufferSize) : State where
  server := .accept
  buffer := buffer
  backlog := []
  client := fun _ => ⟨.idle, [], [], buffer⟩
  stream := fun _ => .new
  stdout := []
  started := []
  accepted := []

/-- No call fails, and every `write` accepts all the bytes it is given: those
of the client `BUFFER_SIZE`, those of the server `numBytesRead`. -/
def flawless (s : State) : Label → Bool
  | .start _ _ _ => true
  | .client _ .ok => true
  | .client _ (.count n) => n = bufferSize
  | .client _ .err => false
  | .server .ok => true
  | .server (.count n) =>
    match s.server with
    | .write _ numBytesRead => n = numBytesRead
    | _ => true
  | .server .err => false

/-- All clients have ended, and the server has seen the end of all
connections. -/
def Finished (s : State) : Prop :=
  s.server = .accept ∧ s.backlog = [] ∧
    ∀ c ∈ s.started, ∃ status, (s.client c).pc = .exited status

end Lpi.Ports.UsXfr
