import Mathlib.Order.Basic

/-!
# Catching signals (`signals/src/catch_rtsigs.c`)

One handler for all signals that can be caught.  Its `sa_mask` is empty, so
while it runs for one signal it may be interrupted, at any step, by itself
for another one: the active invocations form a stack, of which only the
innermost moves, and `main` moves only when there are none.

`++numSigsCaught` is a load and a store.  `while (!isDone) pause();` is a
test and a call, which returns when a handler has returned.
-/

namespace Lpi.Ports.CatchRtsigs

/-! ## Signals -/

def sigint : Nat := 2
def sigquit : Nat := 3
def sigkill : Nat := 9
def sigterm : Nat := 15
def sigstop : Nat := 19
def sigtstp : Nat := 20

/-- One more than the largest signal number. -/
def nsig : Nat := 65

/-- Real-time signals are queued; the others are pending once or not at
all. -/
def sigrtmin : Nat := 32

/-- The signals whose disposition the loop in `main` sets to `sigHandler`;
`sigaction` refuses `SIGKILL`, `SIGSTOP` and the two signals that the thread
library keeps for itself. -/
def caught (sig : Nat) : Bool :=
  1 ≤ sig && sig < nsig && sig ≠ sigtstp && sig ≠ sigquit && sig ≠ sigkill &&
    sig ≠ sigstop && sig ≠ 32 && sig ≠ 33

/-- The first test of `sigHandler`. -/
def terminates (sig : Nat) : Bool := sig = sigint || sig = sigterm

/-! ## State -/

/-- Where an invocation of `sigHandler` stands. -/
inductive HandlerPc where
  | test
  /-- `isDone = 1`. -/
  | setDone
  | print
  | sleep
  /-- `++numSigsCaught`, in two steps. -/
  | load
  | store (v : UInt64)
  | finish
  deriving DecidableEq, Repr

structure Frame where
  signal : Nat
  pc : HandlerPc
  deriving DecidableEq, Repr

inductive MainPc where
  /-- `sleep(blockTime)`, with all signals but two blocked. -/
  | blocked
  /-- `sigprocmask(SIG_SETMASK, &prevMask, NULL)`. -/
  | unblock
  /-- `while (!isDone)`. -/
  | test
  /-- In front of `pause()`. -/
  | pause
  /-- In `pause()`. -/
  | paused
  | report
  | exited
  deriving DecidableEq, Repr

/-- `frames` has the active invocations of the handler, the innermost first.
`completed` counts the invocations that have returned, for signals other than
`SIGINT` and `SIGTERM`. -/
structure State where
  main : MainPc
  frames : List Frame
  pending : List Nat
  numSigsCaught : UInt64
  isDone : Bool
  completed : Nat
  printed : Option UInt64
  deriving DecidableEq

inductive Label where
  /-- Some process sends the signal. -/
  | kill (sig : Nat)
  | deliver (sig : Nat)
  /-- The innermost active invocation moves. -/
  | handler
  | main
  deriving DecidableEq, Repr

/-! ## Steps -/

def killStep (s : State) (sig : Nat) : Option State :=
  if caught sig then
    if sig < sigrtmin ∧ sig ∈ s.pending then some s
    else some { s with pending := s.pending ++ [sig] }
  else none

/-- The signal is blocked by the mask of `main`, or because its handler is
active. -/
def State.blocks (s : State) (sig : Nat) : Bool :=
  ((s.main = .blocked || s.main = .unblock) && sig ≠ sigint) ||
    s.frames.any (·.signal = sig)

def deliverStep (s : State) (sig : Nat) : Option State :=
  if sig ∈ s.pending ∧ ¬ s.blocks sig then
    some { s with pending := s.pending.erase sig
                  frames := ⟨sig, .test⟩ :: s.frames }
  else none

/-- A step of `sigHandler`. -/
def handlerStep (s : State) : Option State :=
  match s.frames with
  | [] => none
  | f :: fs =>
    match f.pc with
    | .test =>
        if terminates f.signal then
          some { s with frames := { f with pc := .setDone } :: fs }
        else some { s with frames := { f with pc := .print } :: fs }
    | .setDone =>
        some { s with frames := { f with pc := .finish } :: fs, isDone := true }
    | .print => some { s with frames := { f with pc := .sleep } :: fs }
    | .sleep => some { s with frames := { f with pc := .load } :: fs }
    | .load =>
        some { s with frames := { f with pc := .store s.numSigsCaught } :: fs }
    | .store v =>
        some { s with frames := { f with pc := .finish } :: fs
                      numSigsCaught := v + 1 }
    | .finish => some
        { s with frames := fs
                 completed := s.completed + (!terminates f.signal).toNat
                 -- `pause()` returns after the outermost handler.
                 main := if fs = [] ∧ s.main = .paused then .test else s.main }

/-- A step of `main`, which has to wait for the handlers. -/
def mainStep (s : State) : Option State :=
  if s.frames ≠ [] then none
  else
    match s.main with
    | .blocked => some { s with main := .unblock }
    | .unblock => some { s with main := .test }
    | .test => some { s with main := if s.isDone then .report else .pause }
    | .pause => some { s with main := .paused }
    | .paused => none
    | .report =>
        some { s with main := .exited, printed := some s.numSigsCaught }
    | .exited => none

/-- One atomic step, until the process ends. -/
def step (s : State) (l : Label) : Option State :=
  if s.main = .exited then none
  else
    match l with
    | .kill sig => killStep s sig
    | .deliver sig => deliverStep s sig
    | .handler => handlerStep s
    | .main => mainStep s

/-- The handlers are installed.  With an argument, `main` has blocked the
signals and sleeps. -/
def start (blockTime : Bool) : State where
  main := if blockTime then .blocked else .test
  frames := []
  pending := []
  numSigsCaught := 0
  isDone := false
  completed := 0
  printed := none

end Lpi.Ports.CatchRtsigs
