import Lpi.Verified.CString
import Lpi.Verified.PosixQueue

/-!
# Message notification by thread (`pmsg/mq_notify_thread.c`)

`main` registers for notification and pauses.  Each notification starts a new
thread in `threadFunc`, which registers again and then reads messages until
there are none.  A thread may be started while older ones are still reading,
so any number of them run at once, beside any number of senders.

A failing call makes the thread end the whole process.
-/

namespace Lpi.Ports.MqNotifyThread

open Lpi.Verified.CString
open Lpi.Verified.PosixQueue

/-- What the process gives up on. -/
inductive Failure where
  | ebusy
  | mqNotify
  | mqGetattr
  | malloc
  | mqReceive
  | write
  deriving DecidableEq, Repr

inductive MainPc where
  /-- `notifySetup(&mqd)`. -/
  | notifySetup
  /-- `pause()`: no signal has a handler, so it does not return. -/
  | pause
  deriving DecidableEq, Repr

/-- Where a thread stands in `threadFunc`. -/
inductive ThreadPc where
  | getattr
  | malloc
  | notifySetup
  | receive
  | write (m : Msg)
  /-- `write(STDOUT_FILENO, "\n", 1)`, whose result is not looked at. -/
  | newline
  /-- `free(buffer)`, after `EAGAIN`. -/
  | free
  | returned
  deriving DecidableEq, Repr

/-- `notifications` counts those whose thread has not started.  `sent` has
every message ever put on the queue, and `received` what `mq_receive`
returned, one entry for each call, by whichever thread.  The threads' writes
to standard output may mix. -/
structure State where
  main : MainPc
  queue : Queue
  notifications : Nat
  threads : List ThreadPc
  exited : Option Failure
  sent : List Msg
  received : List Msg
  stdout : List UInt8
  deriving DecidableEq

inductive Answer where
  | ok
  | count (n : Nat)
  | err
  deriving DecidableEq, Repr

inductive Label where
  | send (prio : Nat) (data : List UInt8)
  | main (a : Answer)
  /-- The thread of a notification starts. -/
  | spawn
  | thread (i : Nat) (a : Answer)
  deriving DecidableEq

/-- `exit(EXIT_FAILURE)`. -/
def State.exit (s : State) (failure : Failure) : State :=
  { s with exited := some failure }

def State.setThread (s : State) (i : Nat) (pc : ThreadPc) : State :=
  { s with threads := s.threads.set i pc }

/-- `mq_send` by another process; it blocks while the queue has `maxmsg`
messages. -/
def sendStep (maxmsg : Nat) (s : State) (prio : Nat) (data : List UInt8) :
    Option State :=
  if s.queue.msgs.length < maxmsg then
    let m : Msg := ⟨s.sent.length, prio, data⟩
    let (queue, notifies) := s.queue.arrive m
    some { s with queue := queue
                  notifications := s.notifications + notifies.toNat
                  sent := s.sent ++ [m] }
  else none

/-- The `mq_notify` of `notifySetup`, which fails with `EBUSY` for a
registered queue; `next` is the caller behind it. -/
def notifySetup (s next : State) : Answer → Option State
  | .ok =>
      if s.queue.registered then some (s.exit .ebusy)
      else some { next with queue := { next.queue with registered := true } }
  | .err => some (s.exit .mqNotify)
  | .count _ => none

def mainStep (s : State) (a : Answer) : Option State :=
  match s.main with
  | .notifySetup => notifySetup s { s with main := .pause } a
  | .pause => none

/-- The next step of thread `i`, which stands at `pc`. -/
def threadFunc (s : State) (i : Nat) (pc : ThreadPc) (a : Answer) :
    Option State :=
  match pc, a with
  | .getattr, .ok => some (s.setThread i .malloc)
  | .getattr, .err => some (s.exit .mqGetattr)
  | .malloc, .ok => some (s.setThread i .notifySetup)
  | .malloc, .err => some (s.exit .malloc)
  | .notifySetup, a => notifySetup s (s.setThread i .receive) a
  | .receive, .ok =>
    match s.queue.msgs with
    | m :: rest =>
        some { s.setThread i (.write m) with
          queue := { s.queue with msgs := rest }
          received := s.received ++ [m] }
    -- `EAGAIN`
    | [] => some (s.setThread i .free)
  | .receive, .err => some (s.exit .mqReceive)
  | .write m, .count n =>
      if n < m.data.length then
        some ({ s with stdout := s.stdout ++ m.data.take n }.exit .write)
      else if n = m.data.length then
        some { s.setThread i .newline with stdout := s.stdout ++ m.data }
      else none
  | .write _, .err => some (s.exit .write)
  | .newline, .ok =>
      some { s.setThread i .receive with stdout := s.stdout ++ ascii "\n" }
  | .newline, .err => some (s.setThread i .receive)
  | .free, .ok => some (s.setThread i .returned)
  | _, _ => none

/-- One atomic step of the system, which is looked at until the process
ends. -/
def step (maxmsg : Nat) (s : State) (l : Label) : Option State :=
  if s.exited.isSome then none
  else
    match l with
    | .send prio data => sendStep maxmsg s prio data
    | .main a => mainStep s a
    | .spawn =>
        if s.notifications = 0 then none
        else some { s with notifications := s.notifications - 1
                           threads := s.threads ++ [.getattr] }
    | .thread i a => (s.threads[i]?).bind fun pc => threadFunc s i pc a

/-- `main` in front of its `notifySetup`, with messages on the queue. -/
def start (msgs : List Msg) : State where
  main := .notifySetup
  queue := ⟨msgs, false⟩
  notifications := 0
  threads := []
  exited := none
  sent := msgs
  received := []
  stdout := []

/-- The thread has not executed its own `notifySetup`. -/
def ThreadPc.unarmed : ThreadPc → Bool
  | .getattr | .malloc | .notifySetup => true
  | .receive | .write _ | .newline | .free | .returned => false

/-- The thread has not seen `EAGAIN`. -/
def ThreadPc.draining : ThreadPc → Bool
  | .getattr | .malloc | .notifySetup | .receive | .write _ | .newline => true
  | .free | .returned => false

end Lpi.Ports.MqNotifyThread
