import Lpi.Ports.Ucase
import Lpi.Verified.CData

/-!
# The upper-case service over UNIX datagram sockets (`sockets/ud_case_*.c`)

A client binds a socket to a name made from its process identifier, and then,
for one argument after the other, sends it to the server, waits for a
datagram and prints it.  The server has one buffer and one address variable
for all of them.

A socket is a queue of datagrams, each with the name it was sent from.  The
kernel neither loses nor reorders nor repeats them; of a datagram that does
not fit the buffer, the rest is discarded.
-/

namespace Lpi.Ports.UdCase

open Lpi.Ports.Ucase
open Lpi.Verified.CData
open Lpi.Verified.CString
open Lpi.Verified.Pieces

/-- `sizeof(clientAddr.sun_path)`. -/
def sunPathSize : Nat := 108

/-- The name a client binds its socket to. -/
def clientAddr (pid : Int32) : List UInt8 :=
  snprintf sunPathSize (ascii "/tmp/ud_ucase_cl." ++ decimal pid.toInt)

inductive ClientPc where
  | idle
  | bind
  /-- In front of `sendto` in round `i` of the loop. -/
  | send (i : Nat)
  | recv (i : Nat)
  | remove
  | close
  | exited (status : Exit)
  deriving DecidableEq

/-- A client; `msgs` are its arguments, and `printed` has the number and the
text of each "Response". -/
structure Client where
  pc : ClientPc
  msgs : List CStr
  buffer : Buffer bufferSize
  printed : List (Nat × List UInt8)
  deriving DecidableEq

inductive ServerPc where
  | recv
  /-- The loop over the buffer, for a datagram from `addr`. -/
  | upcase (addr : List UInt8) (numBytes : Nat)
  | send (addr : List UInt8) (numBytes : Nat)
  | exited
  deriving DecidableEq

/-- A datagram with the name of its sender. -/
structure Datagram where
  sender : List UInt8
  data : List UInt8
  deriving DecidableEq

/-- `socket` has the datagrams waiting at each bound name of a client. -/
structure State where
  server : ServerPc
  buffer : Buffer bufferSize
  serverQueue : List Datagram
  client : Int32 → Client
  socket : List UInt8 → Option (List (List UInt8))

inductive Answer where
  | ok
  | err
  deriving DecidableEq, Repr

inductive Label where
  /-- Process `pid` starts as a client with these arguments. -/
  | start (pid : Int32) (msgs : List CStr) (buffer : Buffer bufferSize)
  | client (pid : Int32) (a : Answer)
  | server (a : Answer)
  deriving DecidableEq

def State.setClient (s : State) (pid : Int32) (k : Client) : State :=
  { s with client := Function.update s.client pid k }

def State.setSocket (s : State) (addr : List UInt8)
    (q : Option (List (List UInt8))) : State :=
  { s with socket := Function.update s.socket addr q }

/-! ## The client -/

/-- `-h`, which a client takes for a request for help. -/
def helpOption : List UInt8 := ascii "-h"

def startClient (s : State) (pid : Int32) (msgs : List CStr)
    (buffer : Buffer bufferSize) : Option State :=
  if (s.client pid).pc ≠ .idle then none
  else if msgs = [] ∨ (msgs.head?.map CStr.bytes) = some helpOption then
    some (s.setClient pid ⟨.exited .failure, msgs, buffer, []⟩)
  else some (s.setClient pid ⟨.bind, msgs, buffer, []⟩)

/-- The end of a client closes its socket. -/
def State.clientExits (s : State) (pid : Int32) (status : Exit) : State :=
  (s.setSocket (clientAddr pid) none).setClient pid
    { s.client pid with pc := .exited status }

/-- The test of the loop: round `i`, if there is an argument `i`. -/
def round (msgs : List CStr) (i : Nat) : ClientPc :=
  if i ≤ msgs.length then .send i else .remove

/-- The next step of client `pid`. -/
def clientStep (s : State) (pid : Int32) : Answer → Option State
  | .ok =>
    let k := s.client pid
    match k.pc with
    | .bind =>
        if (s.socket (clientAddr pid)).isSome then none
        else some ((s.setSocket (clientAddr pid) (some [])).setClient pid
          { k with pc := round k.msgs 1 })
    | .send i =>
        if s.server = .exited then none
        else (k.msgs[i - 1]?).map fun m =>
          { s.setClient pid { k with pc := .recv i } with
            serverQueue := s.serverQueue ++ [⟨clientAddr pid, m.bytes⟩] }
    | .recv i =>
      match s.socket (clientAddr pid) with
      | some (d :: rest) =>
          let buffer := k.buffer.fill d
          some ((s.setSocket (clientAddr pid) (some rest)).setClient pid
            { k with pc := round k.msgs (i + 1)
                     buffer := buffer
                     printed := k.printed ++ [(i, text buffer (numBytes d))] })
      | _ => none
    | .remove => some (s.setClient pid { k with pc := .close })
    | .close => some (s.clientExits pid .success)
    | .idle | .exited _ => none
  | .err =>
    match (s.client pid).pc with
    | .bind | .send _ | .recv _ | .remove | .close =>
        some (s.clientExits pid .failure)
    | .idle | .exited _ => none

/-! ## The server -/

/-- The next step of the server.  `sendto` fails if nobody is bound to the
name. -/
def serverStep (s : State) : Answer → Option State
  | .ok =>
    match s.server with
    | .recv =>
      match s.serverQueue with
      | d :: rest => some
          { s with serverQueue := rest
                   buffer := s.buffer.fill d.data
                   server := .upcase d.sender (numBytes d.data) }
      | [] => none
    | .upcase addr n => some
        { s with buffer := upcase s.buffer n, server := .send addr n }
    | .send addr n => (s.socket addr).map fun q =>
        { s.setSocket addr (some (q ++ [s.buffer.bytes.take n])) with
          server := .recv }
    | .exited => none
  | .err =>
    match s.server with
    | .recv | .send _ _ => some { s with server := .exited }
    | .upcase _ _ | .exited => none

/-- One atomic step of the system. -/
def step (s : State) : Label → Option State
  | .start pid msgs buffer => startClient s pid msgs buffer
  | .client pid a => clientStep s pid a
  | .server a => serverStep s a

/-- The server waits; nobody has started. -/
def start (buffer : Buffer bufferSize) : State where
  server := .recv
  buffer := buffer
  serverQueue := []
  client := fun _ => ⟨.idle, [], buffer, []⟩
  socket := fun _ => none

end Lpi.Ports.UdCase
