import Lpi.Ports.Ucase
import Lpi.Verified.CData

/-!
# The upper-case service over UDP (`sockets/i6d_ucase_*.c`)

The same conversation as over UNIX sockets: for one argument after the other,
the client sends it to the server, waits for a datagram and prints it.  What
differs is the network.  Datagrams in flight (`State.net`) are received in
any order, may be lost and may be delivered more than once, and nothing in a
datagram says which message it belongs to.

A client is known to the server by the address and the port of its socket,
which no two clients share.
-/

namespace Lpi.Ports.I6dUcase

open Lpi.Ports.Ucase
open Lpi.Verified.CData
open Lpi.Verified.CString
open Lpi.Verified.Pieces

/-- `struct sockaddr_in6`, as far as it tells one client from another. -/
structure SockAddr where
  addr : BitVec 128
  port : UInt16
  deriving DecidableEq

inductive ClientPc where
  | idle
  /-- `socket` and `inet_pton`. -/
  | setup
  /-- In front of `sendto` for `argv[i]`. -/
  | send (i : Nat)
  | recv (i : Nat)
  | close
  | exited (status : Exit)
  deriving DecidableEq

/-- A client; `msgs` are its arguments behind the address of the host, and
`printed` has the number and the text of each "Response". -/
structure Client where
  pc : ClientPc
  msgs : List CStr
  buffer : Buffer bufferSize
  printed : List (Nat × List UInt8)
  deriving DecidableEq

inductive ServerPc where
  | recv
  /-- The loop over the buffer, for a datagram from `addr`. -/
  | upcase (addr : SockAddr) (numBytes : Nat)
  | send (addr : SockAddr) (numBytes : Nat)
  | exited
  deriving DecidableEq

/-- A datagram in flight, from a client to the server or back. -/
inductive Datagram where
  | request (sender : SockAddr) (data : List UInt8)
  | reply (receiver : SockAddr) (data : List UInt8)
  deriving DecidableEq

/-- The client a datagram comes from or goes to. -/
def Datagram.party : Datagram → SockAddr
  | .request sender _ => sender
  | .reply receiver _ => receiver

structure State where
  server : ServerPc
  buffer : Buffer bufferSize
  client : SockAddr → Client
  net : List Datagram

/-- How a system call ends; `datagram k` is a `recvfrom` that gets datagram
`k` of those in flight. -/
inductive Answer where
  | ok
  | datagram (k : Nat)
  | err
  deriving DecidableEq, Repr

inductive Label where
  /-- A client is started with the address of a host and these messages. -/
  | start (c : SockAddr) (host : CStr) (msgs : List CStr)
      (buffer : Buffer bufferSize)
  | client (c : SockAddr) (a : Answer)
  | server (a : Answer)
  /-- The network loses a datagram. -/
  | drop (k : Nat)
  /-- The network delivers a datagram once more. -/
  | duplicate (k : Nat)
  deriving DecidableEq

def State.setClient (s : State) (c : SockAddr) (k : Client) : State :=
  { s with client := Function.update s.client c k }

/-! ## The client -/

/-- `-h`, which a client takes for a request for help. -/
def helpOption : List UInt8 := ascii "-h"

def startClient (s : State) (c : SockAddr) (host : CStr) (msgs : List CStr)
    (buffer : Buffer bufferSize) : Option State :=
  if (s.client c).pc ≠ .idle then none
  else if msgs = [] ∨ host.bytes = helpOption then
    some (s.setClient c ⟨.exited .failure, msgs, buffer, []⟩)
  else some (s.setClient c ⟨.setup, msgs, buffer, []⟩)

/-- The test of the loop; the messages are `argv[2]` and those behind it. -/
def round (msgs : List CStr) (i : Nat) : ClientPc :=
  if i < msgs.length + 2 then .send i else .close

/-- What a client does with the datagram it has received. -/
def Client.print (k : Client) (i : Nat) (d : List UInt8) : Client :=
  { k with pc := round k.msgs (i + 1)
           buffer := k.buffer.fill d
           printed := k.printed ++
             [(i - 1, text (k.buffer.fill d) (numBytes d))] }

/-- The next step of client `c`. -/
def clientStep (s : State) (c : SockAddr) : Answer → Option State
  | .ok =>
    let k := s.client c
    match k.pc with
    | .setup => some (s.setClient c { k with pc := round k.msgs 2 })
    | .send i => (k.msgs[i - 2]?).map fun m =>
        { s.setClient c { k with pc := .recv i } with
          net := s.net ++ [.request c m.bytes] }
    | .close => some (s.setClient c { k with pc := .exited .success })
    | .idle | .recv _ | .exited _ => none
  | .datagram n =>
    match (s.client c).pc, s.net[n]? with
    | .recv i, some (.reply receiver d) =>
        if receiver = c then
          some { s.setClient c ((s.client c).print i d) with
                 net := s.net.eraseIdx n }
        else none
    | _, _ => none
  | .err =>
    match (s.client c).pc with
    | .setup | .send _ | .recv _ | .close =>
        some (s.setClient c { s.client c with pc := .exited .failure })
    | .idle | .exited _ => none

/-! ## The server -/

/-- The next step of the server. -/
def serverStep (s : State) : Answer → Option State
  | .ok =>
    match s.server with
    | .upcase addr n => some
        { s with buffer := upcase s.buffer n, server := .send addr n }
    | .send addr n => some
        { s with net := s.net ++ [.reply addr (s.buffer.bytes.take n)]
                 server := .recv }
    | .recv | .exited => none
  | .datagram n =>
    match s.server, s.net[n]? with
    | .recv, some (.request sender d) => some
        { s with net := s.net.eraseIdx n
                 buffer := s.buffer.fill d
                 server := .upcase sender (numBytes d) }
    | _, _ => none
  | .err =>
    match s.server with
    | .recv | .send _ _ => some { s with server := .exited }
    | .upcase _ _ | .exited => none

/-- One atomic step of the system. -/
def step (s : State) : Label → Option State
  | .start c host msgs buffer => startClient s c host msgs buffer
  | .client c a => clientStep s c a
  | .server a => serverStep s a
  | .drop n =>
      if n < s.net.length then some { s with net := s.net.eraseIdx n } else none
  | .duplicate n =>
      (s.net[n]?).map fun d => { s with net := s.net ++ [d] }

/-- The network delivers a datagram from or to client `c` once more. -/
def duplicates (c : SockAddr) (s : State) : Label → Bool
  | .duplicate n => (s.net[n]?).any fun d => decide (d.party = c)
  | .start _ _ _ _ | .client _ _ | .server _ | .drop _ => false

/-- The server waits; nobody has started. -/
def start (buffer : Buffer bufferSize) : State where
  server := .recv
  buffer := buffer
  client := fun _ => ⟨.idle, [], buffer, []⟩
  net := []

end Lpi.Ports.I6dUcase
