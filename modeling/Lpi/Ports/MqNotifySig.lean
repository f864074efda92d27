import Lpi.Verified.PosixQueue

/-!
# Message notification by signal (`pmsg/mq_notify_sig.c`)

The program registers for notification, and then, again and again, suspends
itself until the signal, registers again, and reads messages until there are
none.  `NOTIFY_SIG` is blocked except while the program is suspended, so a
notification at any other time stays pending.

Any number of senders run beside it; this process is the only one that
receives, and only the queue sends it `NOTIFY_SIG`.
-/

namespace Lpi.Ports.MqNotifySig

open Lpi.Verified.PosixQueue

/-- What the program gives up on. -/
inductive Failure where
  | ebusy
  | mqNotify
  | sigsuspend
  | mqReceive
  /-- Not all of the message could be written. -/
  | write (m : Msg)
  deriving DecidableEq, Repr

inductive Pc where
  /-- The `mq_notify` before the loop. -/
  | register
  | suspend
  /-- The `mq_notify` in the loop. -/
  | notify
  | receive
  | write (m : Msg)
  /-- `write(STDOUT_FILENO, "\n", 1)`, whose result is not looked at. -/
  | newline
  | exited (failure : Failure)
  deriving DecidableEq, Repr

/-- `pending` is the pending `NOTIFY_SIG`.  `sent` has every message ever put
on the queue, and `written` those that went to standard output, one entry for
each `write`. -/
structure State where
  pc : Pc
  queue : Queue
  pending : Bool
  sent : List Msg
  written : List Msg
  deriving DecidableEq

inductive Answer where
  | ok
  | count (n : Nat)
  | err
  deriving DecidableEq, Repr

inductive Label where
  | send (prio : Nat) (data : List UInt8)
  | program (a : Answer)
  deriving DecidableEq

/-- `mq_send` by another process; it blocks while the queue has `maxmsg`
messages. -/
def sendStep (maxmsg : Nat) (s : State) (prio : Nat) (data : List UInt8) :
    Option State :=
  if s.queue.msgs.length < maxmsg then
    let m : Msg := ⟨s.sent.length, prio, data⟩
    let (queue, notifies) := s.queue.arrive m
    some { s with queue := queue
                  pending := s.pending || notifies
                  sent := s.sent ++ [m] }
  else none

/-- `mq_notify`, which fails with `EBUSY` for a registered queue. -/
def mqNotify (s : State) (next : Pc) : State :=
  if s.queue.registered then { s with pc := .exited .ebusy }
  else { s with pc := next, queue := { s.queue with registered := true } }

/-- The next step of the program. -/
def programStep (s : State) : Answer → Option State
  | .ok =>
    match s.pc with
    | .register => some (mqNotify s .suspend)
    | .suspend =>
        if s.pending then some { s with pc := .notify, pending := false } else none
    | .notify => some (mqNotify s .receive)
    | .receive =>
      match s.queue.msgs with
      | m :: rest =>
          some { s with pc := .write m, queue := { s.queue with msgs := rest } }
      -- `EAGAIN`
      | [] => some { s with pc := .suspend }
    | .newline => some { s with pc := .receive }
    | .write _ | .exited _ => none
  | .count n =>
    match s.pc with
    | .write m =>
        if n < m.data.length then some { s with pc := .exited (.write m) }
        else if n = m.data.length then
          some { s with pc := .newline, written := s.written ++ [m] }
        else none
    | _ => none
  | .err =>
    match s.pc with
    | .register | .notify => some { s with pc := .exited .mqNotify }
    | .suspend => some { s with pc := .exited .sigsuspend }
    | .receive => some { s with pc := .exited .mqReceive }
    | .write m => some { s with pc := .exited (.write m) }
    | .newline => some { s with pc := .receive }
    | .exited _ => none

/-- One atomic step of the system. -/
def step (maxmsg : Nat) (s : State) : Label → Option State
  | .send prio data => sendStep maxmsg s prio data
  | .program a => programStep s a

/-- The program in front of its first `mq_notify`, with messages on the
queue. -/
def start (msgs : List Msg) : State where
  pc := .register
  queue := ⟨msgs, false⟩
  pending := false
  sent := msgs
  written := []

end Lpi.Ports.MqNotifySig
