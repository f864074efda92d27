import Lpi.Verified.CData
import Lpi.Verified.Run

/-!
# Cancellation and cleanup handlers (`threads/thread_cleanup.c`)

`main` starts one thread and, depending on its arguments, cancels it or makes
it return.  The thread allocates a buffer and then waits on a condition
variable; it pushes a cleanup handler for the buffer and one for the mutex.

Cancellation is deferred: a request takes effect when the thread is at a
cancellation point, which is any `printf`, those of the handlers included, or
inside `pthread_cond_wait`.  It then runs the handlers that are on its stack,
the last one first, and further requests have no effect.  Inside
`pthread_cond_wait` it locks the mutex again before that.  A
`pthread_cleanup_pop(1)` takes the handler from the stack and then calls it.

The functions on the mutex, the condition variable and the thread do not
fail; `malloc` may.
-/

namespace Lpi.Ports.ThreadCleanup

open Lpi.Verified.CData
open Lpi.Verified.Run

/-! ## State -/

/-- A handler on the thread's stack, with its `arg`. -/
inductive Handler where
  /-- `memoryCleanupHandler`. -/
  | memory (arg : Nat)
  /-- `mutexCleanupHandler`. -/
  | mutex
  deriving DecidableEq, Repr

/-- Where a handler is. -/
inductive HandlerPc where
  | print
  /-- `free(arg)`, or `pthread_mutex_unlock(&mutex)`. -/
  | release
  deriving DecidableEq, Repr

/-- What comes after a handler: the statement after the
`pthread_cleanup_pop(1)` that called it, or the next handler of a cancelled
thread. -/
inductive Next where
  | popMemory
  | returnNull
  | unwind
  deriving DecidableEq, Repr

/-- What a terminated thread leaves for `pthread_join`. -/
inductive Status where
  | null
  /-- `PTHREAD_CANCELED`. -/
  | canceled
  deriving DecidableEq, Repr

/-- Where the thread is. -/
inductive ThreadPc where
  | notCreated
  | malloc
  /-- The `fprintf` after a failed `malloc`. -/
  | mallocFailed
  | pushMemory (buffer : Nat)
  | printAllocated
  | lock
  | pushMutex
  /-- `glob == 0` of the `while`. -/
  | testGlob
  /-- Entry of `pthread_cond_wait`, with the mutex. -/
  | condWait
  /-- Blocked on the condition variable, without the mutex. -/
  | blocked
  /-- Woken up, about to lock the mutex again. -/
  | relock
  /-- The same for a thread that has been cancelled while it waited. -/
  | relockCanceled
  | printCompleted
  /-- The two `pthread_cleanup_pop(1)`. -/
  | popMutex
  | popMemory
  | handler (h : Handler) (pc : HandlerPc) (next : Next)
  | returnNull
  /-- Cancellation has taken effect; the next handler is to be called. -/
  | unwind
  | terminated (status : Status)
  deriving DecidableEq, Repr

/-- Where `main` is. -/
inductive MainPc where
  | create
  | sleep
  /-- `argc == 1`. -/
  | testArgc
  | printCancel
  | cancel
  | printSignal
  | lock
  /-- `glob = 1`. -/
  | setGlob
  | unlock
  | signal
  | join
  | printStatus (status : Status)
  | done
  deriving DecidableEq, Repr

/-- Who has locked the mutex. -/
inductive Owner where
  | main
  | thread
  deriving DecidableEq, Repr

/-- The process.  `locks` and `unlocks` count what the thread did with the
mutex, `pthread_cond_wait` included; `buffer` is what `malloc` returned and
`freed` what was passed to `free`; `exited` is the end of the process. -/
structure State where
  main : MainPc
  thread : ThreadPc
  mutex : Option Owner
  glob : Int32
  cancelRequested : Bool
  stack : List Handler
  locks : Nat
  unlocks : Nat
  buffer : Option Nat
  freed : List Nat
  reported : Option Status
  exited : Option Exit
  deriving DecidableEq, Repr

/-! ## Steps -/

/-- `pthread_mutex_lock(&mutex)` by the thread, `none` while it blocks. -/
def State.threadLock (s : State) (pc : ThreadPc) : Option State :=
  if s.mutex = none then some
    { s with mutex := some .thread, locks := s.locks + 1, thread := pc }
  else none

/-- The thread lets the mutex go. -/
def State.threadUnlock (s : State) (pc : ThreadPc) : State :=
  { s with mutex := none, unlocks := s.unlocks + 1, thread := pc }

/-- Where the thread goes on after a handler. -/
def Next.pc : Next → ThreadPc
  | .popMemory => .popMemory
  | .returnNull => .returnNull
  | .unwind => .unwind

/-- Take the last handler from the stack and call it. -/
def State.popAndCall (s : State) (next : Next) : Option State :=
  match s.stack with
  | [] => none
  | h :: hs => some { s with stack := hs, thread := .handler h .print next }

/-- The next step of the thread, where it does not depend on anybody else. -/
def threadStep (s : State) : Option State :=
  match s.thread with
  | .mallocFailed => some { s with exited := some .failure }
  | .pushMemory p => some
      { s with stack := .memory p :: s.stack, thread := .printAllocated }
  | .printAllocated => some { s with thread := .lock }
  | .lock => s.threadLock .pushMutex
  | .pushMutex => some
      { s with stack := .mutex :: s.stack, thread := .testGlob }
  | .testGlob => some
      { s with thread := if s.glob = 0 then .condWait else .printCompleted }
  | .condWait => some (s.threadUnlock .blocked)
  | .relock => s.threadLock .testGlob
  | .relockCanceled => s.threadLock .unwind
  | .printCompleted => some { s with thread := .popMutex }
  | .popMutex => s.popAndCall .popMemory
  | .popMemory => s.popAndCall .returnNull
  | .handler h .print next => some { s with thread := .handler h .release next }
  | .handler (.memory p) .release next => some
      { s with freed := p :: s.freed, thread := next.pc }
  | .handler .mutex .release next => some (s.threadUnlock next.pc)
  | .returnNull => some { s with thread := .terminated .null }
  | .unwind =>
      if s.stack = [] then some { s with thread := .terminated .canceled }
      else s.popAndCall .unwind
  | .notCreated | .malloc | .blocked | .terminated _ => none

/-- `malloc(0x10000)`, which returns `p` or fails. -/
def mallocStep (s : State) : Option Nat → Option State
  | some p =>
      if s.thread = .malloc then some
        { s with buffer := some p, thread := .pushMemory p }
      else none
  | none =>
      if s.thread = .malloc then some { s with thread := .mallocFailed }
      else none

/-- A cancellation request takes effect, if the thread is at a cancellation
point: where it goes on. -/
def ThreadPc.canceled : ThreadPc → Option ThreadPc
  | .mallocFailed | .printAllocated | .condWait | .printCompleted
  | .handler _ .print .popMemory | .handler _ .print .returnNull => some .unwind
  | .blocked | .relock => some .relockCanceled
  | .notCreated | .malloc | .pushMemory _ | .lock | .pushMutex | .testGlob
  | .relockCanceled | .popMutex | .popMemory | .handler _ .print .unwind
  | .handler _ .release _ | .returnNull | .unwind | .terminated _ => none

/-- `pthread_cond_signal(&cond)`. -/
def ThreadPc.signaled : ThreadPc → ThreadPc
  | .blocked => .relock
  | pc => pc

/-- The next step of `main`. -/
def mainStep (argc : Nat) (s : State) : Option State :=
  match s.main with
  | .create => some { s with thread := .malloc, main := .sleep }
  | .sleep => some { s with main := .testArgc }
  | .testArgc => some
      { s with main := if argc = 1 then .printCancel else .printSignal }
  | .printCancel => some { s with main := .cancel }
  | .cancel => some { s with cancelRequested := true, main := .join }
  | .printSignal => some { s with main := .lock }
  | .lock =>
      if s.mutex = none then some
        { s with mutex := some .main, main := .setGlob }
      else none
  | .setGlob => some { s with glob := 1, main := .unlock }
  | .unlock => some { s with mutex := none, main := .signal }
  | .signal => some { s with thread := s.thread.signaled, main := .join }
  | .join =>
    match s.thread with
    | .terminated status => some { s with main := .printStatus status }
    | _ => none
  | .printStatus status => some
      { s with reported := some status, main := .done, exited := some .success }
  | .done => none

inductive Label where
  | main
  | thread
  | malloc (p : Option Nat)
  /-- The request takes effect. -/
  | cancel
  /-- A spurious wakeup. -/
  | wakeup
  deriving DecidableEq, Repr

/-- One step of the process, as long as it has not ended. -/
def step (argc : Nat) (s : State) (l : Label) : Option State :=
  if s.exited ≠ none then none
  else match l with
    | .main => mainStep argc s
    | .thread => threadStep s
    | .malloc p => mallocStep s p
    | .cancel =>
        if s.cancelRequested then
          s.thread.canceled.map fun pc => { s with thread := pc }
        else none
    | .wakeup =>
        if s.thread = .blocked then some { s with thread := .relock } else none

/-- `main` is about to create the thread. -/
def start : State where
  main := .create
  thread := .notCreated
  mutex := none
  glob := 0
  cancelRequested := false
  stack := []
  locks := 0
  unlocks := 0
  buffer := none
  freed := []
  reported := none
  exited := none

end Lpi.Ports.ThreadCleanup
