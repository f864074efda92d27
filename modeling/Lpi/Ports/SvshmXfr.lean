import Lpi.Ports.BinarySems
import Lpi.Verified.CData
import Lpi.Verified.Pieces
import Lpi.Verified.Run

/-!
# The System V shared-memory transfer (`svshm/svshm_xfr_{writer,reader}.c`)

Two processes share one `struct shmseg` and hand it back and forth through a
set of two semaphores.  The writer fills the segment from its standard input
while it holds `WRITE_SEM`; the reader empties it to its standard output while
it holds `READ_SEM`; a zero `bufferSize` is the end marker.

Each access to `shmp->bufferSize` or `shmp->buffer` is a step of its own,
including those in the increment expressions of the two `for` loops, which
both programs execute *after* they have given the segment away.  Every system
call has its error exit: the label of a step says how the call was answered.
-/

namespace Lpi.Ports.SvshmXfr

open Lpi.Ports.BinarySems
open Lpi.Verified.CData
open Lpi.Verified.Pieces
open Lpi.Verified.Run

/-- `BUF_SIZE`. -/
def bufSize : Nat := 1024

/-- `struct shmseg`. -/
structure Shmseg where
  bufferSize : Int32
  buffer : List UInt8
  deriving DecidableEq

/-- Where the writer is.  The names are those of the call or access that
comes next. -/
inductive WriterPc where
  /-- `shmp->bufferSize = BUF_SIZE` of the `for`. -/
  | storeBufSize
  /-- `shmp->bufferSize != 0` of the `for`. -/
  | testSize
  | reserveWrite
  /-- The `read()` into `shmp->buffer`. -/
  | readStdin
  /-- `shmp->bufferSize = n`, with the value `read()` returned. -/
  | storeSize (n : Int32)
  /-- `shmp->bufferSize == -1`. -/
  | checkSize
  | releaseRead
  /-- `++xfrs, bytes += shmp->bufferSize`. -/
  | increment
  /-- The `reserveSem` after the loop. -/
  | reserveFinal
  | shmdt
  | rmShm
  | rmSem
  | report
  | exited (status : Exit)
  deriving DecidableEq, Repr

/-- Where the reader is. -/
inductive ReaderPc where
  | reserveRead
  /-- `shmp->bufferSize == 0`. -/
  | testSize
  /-- `shmp->bufferSize`, third argument of the `write()`. -/
  | loadCount
  /-- The `write()` of `n` bytes of `shmp->buffer`. -/
  | writeStdout (n : Int32)
  /-- Comparison of the `write()`'s result with `shmp->bufferSize`. -/
  | checkCount (written : Int32)
  | releaseWrite
  /-- `++xfrs, bytes += shmp->bufferSize`. -/
  | increment
  | shmdt
  /-- The `releaseSem` after the loop. -/
  | releaseFinal
  | report
  | exited (status : Exit)
  deriving DecidableEq, Repr

/-- Both processes and everything they share.  `stdin` is what the writer
has not read yet, already cut into the pieces its `read()` calls return;
`sent` and `received` are the totals of the two final `printf` calls, as
`(bytes, xfrs)`. -/
structure State where
  writeSem : Nat
  readSem : Nat
  shm : Shmseg
  stdin : List (Chunk bufSize)
  stdout : List UInt8
  writerPc : WriterPc
  writerXfrs : Int32
  writerBytes : Int32
  readerPc : ReaderPc
  readerXfrs : Int32
  readerBytes : Int32
  sent : Option (Int32 × Int32)
  received : Option (Int32 × Int32)
  deriving DecidableEq

inductive Proc where
  | writer
  | reader
  deriving DecidableEq, Repr

/-- The answer to the system call a process is at: success, an error
return, or (for the reader's `write()`) a short count. -/
inductive Answer where
  | ok
  | err
  | short (n : Nat)
  deriving DecidableEq, Repr

/-- The next step of the writer. -/
def writerStep (s : State) : Answer → Option State
  | .ok =>
    match s.writerPc with
    | .storeBufSize => some
        { s with shm := { s.shm with bufferSize := Int32.ofNat bufSize }
                 writerPc := .testSize }
    | .testSize => some
        { s with writerPc :=
            if s.shm.bufferSize ≠ 0 then .reserveWrite else .reserveFinal }
    | .reserveWrite => (reserve s.writeSem).map fun v =>
        { s with writeSem := v, writerPc := .readStdin }
    | .readStdin =>
      match s.stdin with
      | [] => some { s with writerPc := .storeSize 0 }
      | c :: cs => some
          { s with shm := { s.shm with buffer := overlay c.bytes s.shm.buffer }
                   stdin := cs
                   writerPc := .storeSize (Int32.ofNat c.bytes.length) }
    | .storeSize n => some
        { s with shm := { s.shm with bufferSize := n }
                 writerPc := .checkSize }
    | .checkSize => some
        { s with writerPc :=
            if s.shm.bufferSize = -1 then .exited .failure else .releaseRead }
    | .releaseRead => (release s.readSem).map fun v =>
        { s with readSem := v, writerPc := .increment }
    | .increment => some
        { s with writerXfrs := s.writerXfrs + 1
                 writerBytes := s.writerBytes + s.shm.bufferSize
                 writerPc := .testSize }
    | .reserveFinal => (reserve s.writeSem).map fun v =>
        { s with writeSem := v, writerPc := .shmdt }
    | .shmdt => some { s with writerPc := .rmShm }
    | .rmShm => some { s with writerPc := .rmSem }
    | .rmSem => some { s with writerPc := .report }
    | .report => some
        { s with sent := some (s.writerBytes, s.writerXfrs)
                 writerPc := .exited .success }
    | .exited _ => none
  | .err =>
    match s.writerPc with
    | .readStdin => some { s with writerPc := .storeSize (-1) }
    | .reserveWrite | .releaseRead | .reserveFinal | .shmdt | .rmShm | .rmSem =>
        some { s with writerPc := .exited .failure }
    | _ => none
  | .short _ => none

/-- The next step of the reader. -/
def readerStep (s : State) : Answer → Option State
  | .ok =>
    match s.readerPc with
    | .reserveRead => (reserve s.readSem).map fun v =>
        { s with readSem := v, readerPc := .testSize }
    | .testSize => some
        { s with readerPc :=
            if s.shm.bufferSize = 0 then .shmdt else .loadCount }
    | .loadCount => some { s with readerPc := .writeStdout s.shm.bufferSize }
    | .writeStdout n => some
        { s with stdout := s.stdout ++ s.shm.buffer.take n.toNatClampNeg
                 readerPc := .checkCount n }
    | .checkCount r => some
        { s with readerPc :=
            if r ≠ s.shm.bufferSize then .exited .failure else .releaseWrite }
    | .releaseWrite => (release s.writeSem).map fun v =>
        { s with writeSem := v, readerPc := .increment }
    | .increment => some
        { s with readerXfrs := s.readerXfrs + 1
                 readerBytes := s.readerBytes + s.shm.bufferSize
                 readerPc := .reserveRead }
    | .shmdt => some { s with readerPc := .releaseFinal }
    | .releaseFinal => (release s.writeSem).map fun v =>
        { s with writeSem := v, readerPc := .report }
    | .report => some
        { s with received := some (s.readerBytes, s.readerXfrs)
                 readerPc := .exited .success }
    | .exited _ => none
  | .err =>
    match s.readerPc with
    | .writeStdout _ => some { s with readerPc := .checkCount (-1) }
    | .reserveRead | .releaseWrite | .shmdt | .releaseFinal =>
        some { s with readerPc := .exited .failure }
    | _ => none
  | .short k =>
    match s.readerPc with
    | .writeStdout n =>
        if k < n.toNatClampNeg then some
          { s with stdout := s.stdout ++ s.shm.buffer.take k
                   readerPc := .checkCount (Int32.ofNat k) }
        else none
    | _ => none

/-- One atomic step of either process. -/
def step (s : State) : Proc × Answer → Option State
  | (.writer, a) => writerStep s a
  | (.reader, a) => readerStep s a

/-- The same with no system call failing: only the scheduler is left. -/
def stepOk (s : State) (p : Proc) : Option State := step s (p, .ok)

/-- Both processes have attached to the segment, whose contents do not
matter, and to the semaphores the writer has initialised. -/
def start (shm : Shmseg) (chunks : List (Chunk bufSize)) : State where
  writeSem := initSemAvailable
  readSem := initSemInUse
  shm := shm
  stdin := chunks
  stdout := []
  writerPc := .storeBufSize
  writerXfrs := 0
  writerBytes := 0
  readerPc := .reserveRead
  readerXfrs := 0
  readerBytes := 0
  sent := none
  received := none

/-- The writer is between `reserveSem(WRITE_SEM)` and the matching
`releaseSem(READ_SEM)`. -/
def WriterPc.holds : WriterPc → Bool
  | .readStdin | .storeSize _ | .checkSize | .releaseRead => true
  | .storeBufSize | .testSize | .reserveWrite | .increment | .reserveFinal
  | .shmdt | .rmShm | .rmSem | .report | .exited _ => false

/-- The reader is between `reserveSem(READ_SEM)` and the matching
`releaseSem(WRITE_SEM)`. -/
def ReaderPc.holds : ReaderPc → Bool
  | .testSize | .loadCount | .writeStdout _ | .checkCount _ | .releaseWrite
  | .shmdt | .releaseFinal => true
  | .reserveRead | .increment | .report | .exited _ => false

/-- The reader has performed its final release. -/
def ReaderPc.finished : ReaderPc → Bool
  | .report | .exited _ => true
  | _ => false

/-- Number of processes between a successful reserve and the matching
release of the other semaphore. -/
def State.holders (s : State) : Nat :=
  s.writerPc.holds.toNat + s.readerPc.holds.toNat

end Lpi.Ports.SvshmXfr
