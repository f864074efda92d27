import Mathlib.Logic.Function.Basic

/-!
# Joining many threads (`threads/thread_multijoin.c`)

`main` creates one thread for each argument and then joins them in the order
in which they terminate.  A thread announces its end under the mutex, by its
entry of `threads[]` and by `numUnjoinedThreads`, and signals the condition
variable after it has released the mutex.

The number of threads `N` is a parameter.  `main` is the only thread that
waits on the condition variable, so a signal wakes it if it waits and is lost
otherwise; it may also wake up for no reason.  Counters are integers: the
number of threads is below `argc`, so no `int` overflows.
-/

namespace Lpi.Ports.ThreadMultijoin

/-- `enum ThreadState`. -/
inductive ThreadState where
  | tsAlive
  | tsTerminated
  | tsJoined
  deriving DecidableEq, Repr

/-- Where a thread is in `func`. -/
inductive WorkerPc where
  | notCreated
  /-- `sleep(threads[*index].sleepTime_sec)`. -/
  | sleep
  | print
  | lock
  /-- `threads[*index].state = TS_TERMINATED`. -/
  | terminate
  /-- `++numUnjoinedThreads`. -/
  | increment
  | unlock
  | signal
  /-- `free(index)`. -/
  | freeIndex
  | returned
  deriving DecidableEq, Repr

/-- Where `main` is. -/
inductive MainPc (N : Nat) where
  /-- `threads[i].state = TS_ALIVE` of the first loop, or the loop's end. -/
  | init (i : Nat)
  | create (i : Fin N)
  /-- `numLiveThreads > 0`. -/
  | test
  | lock
  /-- `numUnjoinedThreads == 0`. -/
  | testWait
  | wait
  /-- In `pthread_cond_wait`, not woken. -/
  | waiting
  /-- In `pthread_cond_wait`, about to get the mutex back. -/
  | relock
  /-- `threads[i].state == TS_TERMINATED`, or the end of the sweep. -/
  | sweep (i : Nat)
  /-- In `pthread_join`. -/
  | join (i : Fin N)
  /-- `threads[i].state = TS_JOINED`. -/
  | setJoined (i : Fin N)
  /-- `--numLiveThreads`. -/
  | decLive (i : Fin N)
  /-- `--numUnjoinedThreads`. -/
  | decUnjoined (i : Fin N)
  | unlock
  /-- `free(threads)`. -/
  | free
  | finished
  deriving DecidableEq, Repr

/-- Who has the mutex. -/
inductive Owner (N : Nat) where
  | main
  | worker (i : Fin N)
  deriving DecidableEq, Repr

/-- `joinCalls i` counts the calls of `pthread_join` for thread `i`. -/
structure State (N : Nat) where
  main : MainPc N
  worker : Fin N → WorkerPc
  threads : Fin N → ThreadState
  mutex : Option (Owner N)
  numUnjoinedThreads : Int
  numLiveThreads : Int
  joinCalls : Fin N → Nat

inductive Label (N : Nat) where
  | main
  | worker (i : Fin N)
  /-- `pthread_cond_wait` wakes up without a signal. -/
  | spurious
  deriving DecidableEq, Repr

variable {N : Nat}

def State.setWorker (s : State N) (i : Fin N) (pc : WorkerPc) : State N :=
  { s with worker := Function.update s.worker i pc }

def State.setThread (s : State N) (i : Fin N) (st : ThreadState) : State N :=
  { s with threads := Function.update s.threads i st }

/-- The next step of `main`. -/
def mainStep (s : State N) : Option (State N) :=
  match s.main with
  | .init i =>
      if h : i < N then
        some { s.setThread ⟨i, h⟩ .tsAlive with main := .create ⟨i, h⟩ }
      else some { s with main := .test, numLiveThreads := N }
  | .create i => some { s.setWorker i .sleep with main := .init (i + 1) }
  | .test =>
      some { s with main := if s.numLiveThreads > 0 then .lock else .free }
  | .lock =>
      if s.mutex = none then
        some { s with main := .testWait, mutex := some .main }
      else none
  | .testWait =>
      some { s with
        main := if s.numUnjoinedThreads = 0 then .wait else .sweep 0 }
  | .wait => some { s with main := .waiting, mutex := none }
  | .waiting => none
  | .relock =>
      if s.mutex = none then
        some { s with main := .testWait, mutex := some .main }
      else none
  | .sweep i =>
      if h : i < N then
        if s.threads ⟨i, h⟩ = .tsTerminated then
          let calls := s.joinCalls ⟨i, h⟩ + 1
          some { s with main := .join ⟨i, h⟩
                        joinCalls := Function.update s.joinCalls ⟨i, h⟩ calls }
        else some { s with main := .sweep (i + 1) }
      else some { s with main := .unlock }
  | .join i =>
      if s.worker i = .returned then some { s with main := .setJoined i }
      else none
  | .setJoined i => some { s.setThread i .tsJoined with main := .decLive i }
  | .decLive i =>
      some { s with main := .decUnjoined i, numLiveThreads := s.numLiveThreads - 1 }
  | .decUnjoined i =>
      some { s with main := .sweep (i + 1)
                    numUnjoinedThreads := s.numUnjoinedThreads - 1 }
  | .unlock => some { s with main := .test, mutex := none }
  | .free => some { s with main := .finished }
  | .finished => none

/-- The next step of thread `i`. -/
def workerStep (s : State N) (i : Fin N) : Option (State N) :=
  match s.worker i with
  | .notCreated => none
  | .sleep => some (s.setWorker i .print)
  | .print => some (s.setWorker i .lock)
  | .lock =>
      if s.mutex = none then
        some { s.setWorker i .terminate with mutex := some (.worker i) }
      else none
  | .terminate => some ((s.setThread i .tsTerminated).setWorker i .increment)
  | .increment =>
      some { s.setWorker i .unlock with
        numUnjoinedThreads := s.numUnjoinedThreads + 1 }
  | .unlock => some { s.setWorker i .signal with mutex := none }
  | .signal =>
      some { s.setWorker i .freeIndex with
        main := if s.main = .waiting then .relock else s.main }
  | .freeIndex => some (s.setWorker i .returned)
  | .returned => none

/-- One atomic step of the program. -/
def step (s : State N) : Label N → Option (State N)
  | .main => mainStep s
  | .worker i => workerStep s i
  | .spurious =>
      if s.main = .waiting then some { s with main := .relock } else none

/-- `main` has allocated `threads[]`; nobody has written to it. -/
def start (garbage : Fin N → ThreadState) : State N where
  main := .init 0
  worker := fun _ => .notCreated
  threads := garbage
  mutex := none
  numUnjoinedThreads := 0
  numLiveThreads := 0
  joinCalls := fun _ => 0

end Lpi.Ports.ThreadMultijoin
