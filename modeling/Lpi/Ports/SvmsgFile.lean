import Lpi.Verified.CData
import Lpi.Verified.CString
import Lpi.Verified.Pieces
import Lpi.Verified.Run

/-!
# The System V message-queue file service (`svipc/svmsg_file_*.c`)

Clients put a request on the server's queue and wait for the reply on a
private queue of their own.  The server takes one request after the other and
forks a child for each; the child (`serveRequest`) opens the file and sends it
as `DATA` messages and a final `END`, or a single `FAILURE` message.

A state holds all clients (by the identifier of their private queue), the
server, every child ever forked, and the queues as lists of messages.  The
label of a step says who moves and how the system call it is at was answered;
`read()` may return any number of bytes from one to the buffer size.
-/

namespace Lpi.Ports.SvmsgFile

open Lpi.Verified.CData
open Lpi.Verified.CString
open Lpi.Verified.Pieces
open Lpi.Verified.Run

/-- `PATH_MAX`. -/
def pathMax : Nat := 4096

/-- `RESPONSE_MSG_DATA_SIZE`. -/
def responseMsgDataSize : Nat := 8192

/-- Identifier of a message queue, as `msgget` returns it. -/
abbrev MsqId := Int32

/-- `struct RequestMsg`; its `type` is always 1. -/
structure RequestMsg where
  clientId : MsqId
  pathname : List UInt8
  deriving DecidableEq

/-- `RESPONSE_MSG_FAILURE`, `RESPONSE_MSG_DATA` and `RESPONSE_MSG_END`. -/
inductive ResponseType where
  | msgFailure
  | msgData
  | msgEnd
  deriving DecidableEq, Repr

/-- `struct ResponseMsg`, with as many bytes of `data` as were sent. -/
structure ResponseMsg where
  type : ResponseType
  data : List UInt8
  deriving DecidableEq

/-- The contents of a file; an `off_t` can express its size. -/
structure File where
  bytes : List UInt8
  size_lt : bytes.length < 2 ^ 63
  deriving DecidableEq

/-- What the programs ask of the system besides queues and processes: the
file a name leads to, or the `errno` of the failed `open`, and the texts of
`strerror`. -/
structure World where
  openFile : List UInt8 → Except Nat File
  strerror : Nat → List UInt8

/-! ## The server's child -/

/-- Where `serveRequest` is. -/
inductive ChildPc where
  | openFile
  | sendFailure (text : List UInt8)
  /-- `exit(EXIT_FAILURE)` after the failed `open`. -/
  | refused
  | readFile
  | sendData (bytes : List UInt8)
  | sendEnd
  | closeFile
  | exited (status : Exit)
  deriving DecidableEq

/-- A child process.  `left` is what of the file has not been put on the
client's queue, and `reads` the number of non-empty results of `read()`. -/
structure Child where
  request : RequestMsg
  pc : ChildPc
  left : List UInt8
  reads : Nat
  deriving DecidableEq

/-- A child that has not done anything yet. -/
def Child.forked (r : RequestMsg) : Child := ⟨r, .openFile, [], 0⟩

/-! ## The client -/

/-- Where a client is. -/
inductive ClientPc where
  | idle
  | sendRequest
  | receiveFirst
  /-- `response.type != RESPONSE_MSG_END` of the `for`. -/
  | testType (type : ResponseType)
  | receiveNext
  | report
  | exited (status : Exit)
  deriving DecidableEq

/-- A client.  `got` is everything it has received and `printed` the
`(totalBytes, numMsgs)` of its final `printf`. -/
structure Client where
  pc : ClientPc
  pathname : CStr
  totalBytes : Int64
  numMsgs : Int32
  got : List ResponseMsg
  printed : Option (Int64 × Int32)
  deriving DecidableEq

/-! ## The whole system -/

/-- Where the server's `main` is. -/
inductive ServerPc where
  | receive
  | fork (request : RequestMsg)
  | remove
  | exited (status : Exit)
  deriving DecidableEq

/-- `sent c` is everything ever put on the queue of client `c`. -/
structure State where
  server : ServerPc
  serverQueue : List RequestMsg
  children : List Child
  client : MsqId → Client
  queue : MsqId → Option (List ResponseMsg)
  sent : MsqId → List ResponseMsg

/-- The answer to a system call; `count n` is a `read()` of `n` bytes. -/
inductive Answer where
  | ok
  | count (n : Nat)
  | eintr
  | err
  deriving DecidableEq, Repr

inductive Label where
  /-- Client `c` is started with `pathname` as its argument. -/
  | start (c : MsqId) (pathname : CStr)
  | client (c : MsqId) (a : Answer)
  | server (a : Answer)
  | child (i : Nat) (a : Answer)
  deriving DecidableEq

def State.setClient (s : State) (c : MsqId) (k : Client) : State :=
  { s with client := Function.update s.client c k }

/-- `removeClientMsq`, and the exit it is registered for. -/
def State.clientExits (s : State) (c : MsqId) (k : Client) (status : Exit) :
    State :=
  { s with client := Function.update s.client c { k with pc := .exited status }
           queue := Function.update s.queue c none }

/-- `msgsnd` to the queue of client `c`, which must exist. -/
def State.msgsnd (s : State) (c : MsqId) (m : ResponseMsg) : Option State :=
  (s.queue c).map fun q =>
    { s with queue := Function.update s.queue c (some (q ++ [m]))
             sent := Function.update s.sent c (s.sent c ++ [m]) }

/-- A message, if there is one, goes to the queue of client `c`. -/
def State.deliver (s : State) (c : MsqId) : Option ResponseMsg → Option State
  | none => some s
  | some m => s.msgsnd c m

/-- `-h`, which the client takes for a request for help. -/
def helpOption : List UInt8 := ascii "-h"

/-- The checks of the client's argument, and the private queue. -/
def startClient (s : State) (c : MsqId) (pathname : CStr) : Option State :=
  if (s.client c).pc ≠ .idle then none
  else
    let k : Client := { s.client c with pathname := pathname }
    if pathname.bytes = helpOption ∨ pathname.bytes.length > pathMax - 1 then
      some (s.setClient c { k with pc := .exited .failure })
    else some
      { s.setClient c { k with pc := .sendRequest } with
        queue := Function.update s.queue c (some []) }

/-- The request a client sends. -/
def requestOf (c : MsqId) (pathname : CStr) : RequestMsg :=
  ⟨c, strncpy pathname.bytes (pathMax - 1) ++ [0]⟩

/-- `msgrcv` from the client's own queue; `none` while it is empty. -/
def State.msgrcv (s : State) (c : MsqId) : Option (ResponseMsg × State) :=
  match s.queue c with
  | some (m :: q) => some (m, { s with queue := Function.update s.queue c (some q) })
  | _ => none

/-- The next step of client `c`. -/
def clientStep (s : State) (c : MsqId) : Answer → Option State
  | .ok =>
    let k := s.client c
    match k.pc with
    | .sendRequest =>
        -- Only the server's regular end removes its queue.
        if s.server = .exited .success then none
        else some
          { s.setClient c { k with pc := .receiveFirst } with
            serverQueue := s.serverQueue ++ [requestOf c k.pathname] }
    | .receiveFirst => (s.msgrcv c).map fun (m, s) =>
        let k := { k with got := k.got ++ [m] }
        if m.type = .msgFailure then s.clientExits c k .failure
        else s.setClient c
          { k with totalBytes := Int64.ofNat m.data.length
                   numMsgs := 1
                   pc := .testType m.type }
    | .testType ty => some (s.setClient c
        { k with pc := if ty ≠ .msgEnd then .receiveNext else .report })
    | .receiveNext => (s.msgrcv c).map fun (m, s) => s.setClient c
        { k with got := k.got ++ [m]
                 totalBytes := k.totalBytes + Int64.ofNat m.data.length
                 numMsgs := k.numMsgs + 1
                 pc := .testType m.type }
    | .report => some (s.clientExits c
        { k with printed := some (k.totalBytes, k.numMsgs) } .success)
    | .idle | .exited _ => none
  | .err =>
    match (s.client c).pc with
    | .sendRequest | .receiveFirst | .receiveNext =>
        some (s.clientExits c (s.client c) .failure)
    | _ => none
  | _ => none

/-- The next step of the server's `main`. -/
def serverStep (s : State) : Answer → Option State
  | .ok =>
    match s.server with
    | .receive =>
      match s.serverQueue with
      | r :: q => some { s with serverQueue := q, server := .fork r }
      | [] => none
    | .fork r => some
        { s with children := s.children ++ [.forked r], server := .receive }
    | .remove => some { s with serverQueue := [], server := .exited .success }
    | .exited _ => none
  | .eintr =>
    match s.server with
    | .receive => some s
    | _ => none
  | .err =>
    match s.server with
    | .receive | .fork _ => some { s with server := .remove }
    | .remove => some { s with server := .exited .failure }
    | .exited _ => none
  | .count _ => none

/-- Text of the `FAILURE` message, "Failed to open %s for reading - %s". -/
def failureText (w : World) (path : List UInt8) (errno : Nat) : List UInt8 :=
  snprintf responseMsgDataSize
    (ascii "Failed to open " ++ path ++ ascii " for reading - " ++
      w.strerror errno ++ ascii "\n")

/-- The next step of `serveRequest` in the child `ch`: what it becomes and
the message it puts on its client's queue. -/
def childStep (w : World) (ch : Child) :
    Answer → Option (Child × Option ResponseMsg)
  | .ok =>
    match ch.pc with
    | .openFile =>
      match w.openFile (cString ch.request.pathname) with
      | .ok file => some ({ ch with pc := .readFile, left := file.bytes }, none)
      | .error e =>
          let text := failureText w (cString ch.request.pathname) e
          some ({ ch with pc := .sendFailure text }, none)
    | .sendFailure text =>
        some ({ ch with pc := .refused }, some ⟨.msgFailure, text ++ [0]⟩)
    | .readFile =>
        if ch.left = [] then some ({ ch with pc := .sendEnd }, none) else none
    | .sendData bytes => some
        ({ ch with pc := .readFile, left := ch.left.drop bytes.length },
          some ⟨.msgData, bytes⟩)
    | .sendEnd => some ({ ch with pc := .closeFile }, some ⟨.msgEnd, []⟩)
    | .closeFile => some ({ ch with pc := .exited .success }, none)
    | .refused | .exited _ => none
  | .count n =>
    match ch.pc with
    | .readFile =>
        if 0 < n ∧ n ≤ responseMsgDataSize ∧ n ≤ ch.left.length then some
          ({ ch with pc := .sendData (ch.left.take n), reads := ch.reads + 1 },
            none)
        else none
    | _ => none
  | .err =>
    match ch.pc with
    | .sendFailure _ => some ({ ch with pc := .refused }, none)
    | .readFile | .sendData _ => some ({ ch with pc := .sendEnd }, none)
    | .sendEnd => some ({ ch with pc := .closeFile }, none)
    | .closeFile => some ({ ch with pc := .exited .failure }, none)
    | .openFile | .refused | .exited _ => none
  | .eintr => none

/-- One atomic step of the system. -/
def step (w : World) (s : State) : Label → Option State
  | .start c pathname => startClient s c pathname
  | .client c a => clientStep s c a
  | .server a => serverStep s a
  | .child i a =>
    (s.children[i]?).bind fun ch =>
      (childStep w ch a).bind fun (ch', out) =>
        ({ s with children := s.children.set i ch' }).deliver
          ch.request.clientId out

/-- Nobody has started yet. -/
def init : State where
  server := .receive
  serverQueue := []
  children := []
  client := fun _ => ⟨.idle, ⟨[], by simp⟩, 0, 0, [], none⟩
  queue := fun _ => none
  sent := fun _ => []

end Lpi.Ports.SvmsgFile
