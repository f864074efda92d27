import Lpi.Verified.CData
import Lpi.Verified.CString

/-!
# The sequence-number server over FIFOs (`pipes/fifo_seqnum_*.c`)

Clients write requests of a fixed size into the server's FIFO and wait for
the answer in a FIFO of their own, whose name is made from their process
identifier.  The server reads one request after the other, opens the FIFO of
the client named in it, and writes the current number there.

The server's FIFO is a string of bytes.  A request is shorter than
`PIPE_BUF`, so a client's `write` appends it as a whole; and the server keeps
a write end open itself, so its `read` blocks on an empty FIFO and never
finds the end of it.  Client FIFOs are found by name, as the kernel finds
them, so that two clients would share one if their names were the same.

A step is one system call and the computation up to the next one.  Its label
says who moves and how the call was answered; `count n` is a `write` of `n`
bytes.
-/

namespace Lpi.Ports.FifoSeqnum

open Lpi.Verified.CData
open Lpi.Verified.CString

/-- `struct Request`. -/
structure Request where
  pid : Int32
  seqLen : Int32
  deriving DecidableEq

/-- The bytes of a request: `pid`, then `seqLen`. -/
def Request.bytes (r : Request) : List UInt8 :=
  bytesOfInt r.pid ++ bytesOfInt r.seqLen

/-- `sizeof(struct Request)`. -/
def sizeofRequest : Nat := 8

/-- The request with the given bytes. -/
def requestOfBytes (bs : List UInt8) : Request :=
  ⟨intOfBytes (bs.take sizeofInt), intOfBytes (bs.drop sizeofInt)⟩

/-- `CLIENT_FIFO_NAME_LEN`: the template with its NUL, and 20 more. -/
def clientFifoNameLen : Nat := (ascii "/tmp/seqnum_cl.%ld").length + 1 + 20

/-- `CLIENT_FIFO_TEMPLATE` with a process identifier in it. -/
def clientFifoText (pid : Int32) : List UInt8 :=
  ascii "/tmp/seqnum_cl." ++ decimal pid.toInt

/-- The name that client and server make from the template. -/
def clientFifo (pid : Int32) : List UInt8 :=
  snprintf clientFifoNameLen (clientFifoText pid)

/-! ## The state -/

/-- A client's FIFO: its contents, whether its client is in `open` or has it
open, and whether the server has opened it since. -/
structure Fifo where
  data : List UInt8
  reader : Bool
  opened : Bool
  deriving DecidableEq

inductive ClientPc where
  | idle
  | mkfifo
  | atexit
  | openServer
  | writeRequest
  | closeServer
  | openFifo
  | readResponse
  | closeFifo
  /-- `removeClientFifo`, on the way out with the given status. -/
  | unlink (status : Exit)
  | exited (status : Exit)
  deriving DecidableEq

/-- A client.  `got` is what its `read` of the response returned. -/
structure Client where
  pc : ClientPc
  seqLen : Int32
  got : List UInt8
  printed : Option Int32
  deriving DecidableEq

/-- Where the server's loop is.  Its one `exit` has two causes: `read`
failed, or it returned less than a request. -/
inductive ServerPc where
  | read
  | openFifo (request : Request)
  | write (request : Request)
  | close (request : Request)
  | readFailed
  | misframed
  deriving DecidableEq

/-- What became of a request: the number the server had for it, and how many
bytes of the response it wrote. -/
structure Reply where
  request : Request
  seqNum : Int32
  written : Nat
  deriving DecidableEq

/-- The response was written in full. -/
def Reply.full (e : Reply) : Bool := e.written = sizeofInt

/-- `requests` has every request ever written into the server's FIFO, and
`log` what became of those the server has dealt with.  `kept` has the client
FIFOs that the server left open. -/
structure State where
  server : ServerPc
  seqNum : Int32
  serverFifo : List UInt8
  kept : List (List UInt8)
  client : Int32 → Client
  fifo : List UInt8 → Option Fifo
  requests : List Request
  log : List Reply

inductive Answer where
  | ok
  | count (n : Nat)
  | err
  deriving DecidableEq, Repr

inductive Label where
  /-- Process `pid` starts as a client that asks for `seqLen` numbers. -/
  | start (pid seqLen : Int32)
  | client (pid : Int32) (a : Answer)
  | server (a : Answer)
  deriving DecidableEq

def State.setClient (s : State) (pid : Int32) (k : Client) : State :=
  { s with client := Function.update s.client pid k }

def State.setFifo (s : State) (name : List UInt8) (f : Option Fifo) : State :=
  { s with fifo := Function.update s.fifo name f }

/-! ## The client -/

/-- The server has the FIFO open for writing. -/
def State.hasWriter (s : State) (name : List UInt8) : Bool :=
  decide (name ∈ s.kept) ||
    match s.server with
    | .write r | .close r => clientFifo r.pid = name
    | _ => false

/-- The server is in `open` of the FIFO. -/
def State.writerWaits (s : State) (name : List UInt8) : Bool :=
  match s.server with
  | .openFifo r => clientFifo r.pid = name
  | _ => false

/-- Arguments are checked and converted before the first system call. -/
def startClient (s : State) (pid seqLen : Int32) : Option State :=
  if (s.client pid).pc ≠ .idle then none
  else some (s.setClient pid { s.client pid with pc := .mkfifo, seqLen := seqLen })

/-- `read` of the response, with `f` in the client's FIFO: up to four bytes,
or none once the FIFO is empty and has no writer. -/
def readResponse (s : State) (pid : Int32) (f : Fifo) : Option State :=
  let bs := f.data.take sizeofInt
  let k := { s.client pid with got := bs }
  if bs = [] ∧ s.hasWriter (clientFifo pid) then none
  else
    let s := s.setFifo (clientFifo pid)
      (some { f with data := f.data.drop sizeofInt })
    if bs.length ≠ sizeofInt then
      some (s.setClient pid { k with pc := .unlink .failure })
    else
      some (s.setClient pid
        { k with pc := .closeFifo, printed := some (intOfBytes bs) })

/-- The next step of client `pid`. -/
def clientStep (s : State) (pid : Int32) : Answer → Option State
  | .ok =>
    let k := s.client pid
    let name := clientFifo pid
    match k.pc with
    | .mkfifo =>
        -- A FIFO that is there already will do (`EEXIST`).
        let f := (s.fifo name).getD ⟨[], false, false⟩
        some ((s.setFifo name (some f)).setClient pid { k with pc := .atexit })
    | .atexit => some (s.setClient pid { k with pc := .openServer })
    | .openServer => some (s.setClient pid { k with pc := .writeRequest })
    | .writeRequest =>
        let r : Request := ⟨pid, k.seqLen⟩
        some
          { s.setClient pid { k with pc := .closeServer } with
            serverFifo := s.serverFifo ++ r.bytes
            requests := s.requests ++ [r] }
    | .closeServer =>
        some ((s.setFifo name
          ((s.fifo name).map fun f => { f with reader := true })).setClient pid
            { k with pc := .openFifo })
    | .openFifo =>
        -- Blocks until there is a writer.
        if (s.fifo name).any (fun f => f.opened || s.writerWaits name) then
          some (s.setClient pid { k with pc := .readResponse })
        else none
    | .readResponse => (s.fifo name).bind fun f => readResponse s pid f
    | .closeFifo =>
        some ((s.setFifo name
          ((s.fifo name).map fun f => { f with reader := false })).setClient pid
            { k with pc := .unlink .success })
    | .unlink status =>
        some ((s.setFifo name none).setClient pid { k with pc := .exited status })
    | .idle | .exited _ => none
  | .err =>
    let k := s.client pid
    let name := clientFifo pid
    match k.pc with
    | .mkfifo | .atexit =>
        some (s.setClient pid { k with pc := .exited .failure })
    | .openServer | .writeRequest | .closeServer | .openFifo | .readResponse
    | .closeFifo => some (s.setClient pid { k with pc := .unlink .failure })
    | .unlink status =>
        some ((s.setFifo name
          ((s.fifo name).map fun f => { f with reader := false })).setClient pid
            { k with pc := .exited status })
    | .idle | .exited _ => none
  | .count _ => none

/-! ## The server -/

/-- `read` of a request: up to eight bytes, and an `exit` if there were not
that many. -/
def readRequest (s : State) : Option State :=
  if s.serverFifo = [] then none
  else
    let bs := s.serverFifo.take sizeofRequest
    let s := { s with serverFifo := s.serverFifo.drop sizeofRequest }
    if bs.length ≠ sizeofRequest then some { s with server := .misframed }
    else some { s with server := .openFifo (requestOfBytes bs) }

/-- The server is done with `r`, having written `n` bytes of the response. -/
def State.record (s : State) (r : Request) (n : Nat) : State :=
  { s with log := s.log ++ [⟨r, s.seqNum, n⟩] }

/-- `write` of `n` bytes of the response to `r`, into a FIFO with `f` in
it.  A response that was cut short is given up, and the FIFO is not
closed. -/
def writeResponse (s : State) (r : Request) (f : Fifo) (n : Nat) : State :=
  let bs := (bytesOfInt s.seqNum).take n
  let s := (s.record r n).setFifo (clientFifo r.pid)
    (some { f with data := f.data ++ bs })
  if n ≠ sizeofInt then
    { s with server := .read, kept := s.kept ++ [clientFifo r.pid] }
  else { s with server := .close r }

/-- The next step of the server. -/
def serverStep (s : State) : Answer → Option State
  | .ok =>
    match s.server with
    | .read => readRequest s
    | .openFifo r =>
      -- Blocks until there is a reader.
      match s.fifo (clientFifo r.pid) with
      | some f =>
          if f.reader then
            some { s.setFifo (clientFifo r.pid) (some { f with opened := true })
              with server := .write r }
          else none
      | none => none
    | .close r => some { s with server := .read, seqNum := s.seqNum + r.seqLen }
    | .write _ | .readFailed | .misframed => none
  | .count n =>
    match s.server with
    | .write r =>
      match s.fifo (clientFifo r.pid) with
      | some f =>
          if f.reader ∧ n ≤ sizeofInt then some (writeResponse s r f n) else none
      | none => none
    | _ => none
  | .err =>
    match s.server with
    | .read => some { s with server := .readFailed }
    | .openFifo r => some { s.record r 0 with server := .read }
    | .write r =>
        some { s.record r 0 with
          server := .read, kept := s.kept ++ [clientFifo r.pid] }
    | .close r => some { s with server := .read, seqNum := s.seqNum + r.seqLen }
    | .readFailed | .misframed => none

/-- One atomic step of the system. -/
def step (s : State) : Label → Option State
  | .start pid seqLen => startClient s pid seqLen
  | .client pid a => clientStep s pid a
  | .server a => serverStep s a

/-- The server in front of its loop, with FIFOs of earlier processes lying
around. -/
def start (stale : List UInt8 → Bool) : State where
  server := .read
  seqNum := 0
  serverFifo := []
  kept := []
  client := fun _ => ⟨.idle, 0, [], none⟩
  fifo := fun name => if stale name then some ⟨[], false, false⟩ else none
  requests := []
  log := []

end Lpi.Ports.FifoSeqnum
