import Lpi.Ports.FifoSeqnum
import Lpi.Verified.Descriptors
import Lpi.Verified.Run

/-!
# The descriptors of the sequence-number server (`pipes/fifo_seqnum_server.c`)

For each request the server opens the FIFO of the client, writes the response,
and closes the FIFO.  If the response cannot be written, it goes on with the next
request, and leaves the FIFO open.  So the open descriptors are at each turn of
the loop what they were at first exactly in the runs where each response that
could be started was written in full (`opened_kept_iff`).

Here the server is alone: what the calls return is in the labels, whatever the
clients may do.
-/

namespace Lpi.Ports.FifoSeqnumDescriptors

open Lpi.Verified.CData
open Lpi.Verified.Descriptors
open Lpi.Verified.Run
open Lpi.Ports.FifoSeqnum (Request clientFifo sizeofRequest)

/-! ## The service loop -/

inductive Pc where
  | read
  | openFifo (request : Request)
  | write (request : Request) (clientFd : Nat)
  | close (request : Request) (clientFd : Nat)
  | exited
  deriving DecidableEq

/-- The server, with the paths of what it has open. -/
structure Server where
  pc : Pc
  seqNum : Int32
  fds : Table (List UInt8)

/-- How the call is answered; `request` is a `read` of a whole request, and
`count` a `read` of fewer bytes or a `write`. -/
inductive Answer where
  | request (r : Request)
  | ok
  | count (n : Nat)
  | err
  deriving DecidableEq

/-- Behind `close`, which releases the descriptor even if it fails. -/
def closed (s : Server) (r : Request) (clientFd : Nat) : Option Server :=
  (s.fds.close clientFd).map fun fds => ⟨.read, s.seqNum + r.seqLen, fds⟩

def step (s : Server) : Answer → Option Server
  | .request r =>
      match s.pc with
      | .read => some { s with pc := .openFifo r }
      | _ => none
  | .ok =>
      match s.pc with
      | .openFifo r =>
          let opened := s.fds.alloc (clientFifo r.pid)
          some { s with pc := .write r opened.1, fds := opened.2 }
      | .close r clientFd => closed s r clientFd
      | _ => none
  | .count n =>
      match s.pc with
      | .read => if n < sizeofRequest then some { s with pc := .exited } else none
      | .write r clientFd =>
          if n = sizeofInt then some { s with pc := .close r clientFd }
          else if n < sizeofInt then
            -- `continue`, with `clientFd` open
            some { s with pc := .read }
          else none
      | _ => none
  | .err =>
      match s.pc with
      | .read => some { s with pc := .exited }
      | .openFifo _ | .write _ _ => some { s with pc := .read }
      | .close r clientFd => closed s r clientFd
      | .exited => none

/-- The server in front of its loop. -/
def start (seqNum : Int32) (fds : Table (List UInt8)) : Server := ⟨.read, seqNum, fds⟩

/-- At a turn of the loop, the open descriptors are those of `fds`. -/
def Kept (fds : Table (List UInt8)) (s : Server) : Prop :=
  s.pc = .read → s.fds.opened = fds.opened

/-! ## The descriptor of the client -/

/-- The response is not written, or only in part. -/
def GivesUp (s : Server) : Answer → Prop
  | .err => ∃ r clientFd, s.pc = .write r clientFd
  | .count n => n ≠ sizeofInt ∧ ∃ r clientFd, s.pc = .write r clientFd
  | .request _ | .ok => False

/-- There is no descriptor besides those of `fds` but that of the client. -/
def Holds (fds : Table (List UInt8)) (s : Server) : Prop :=
  match s.pc with
  | .read | .openFifo _ => s.fds = fds
  | .write _ clientFd | .close _ clientFd => ∃ path, (clientFd, s.fds) = fds.alloc path
  | .exited => True

variable {fds : Table (List UInt8)} {s t : Server} {a : Answer}

private theorem closed_of_alloc {r : Request} {clientFd : Nat}
    (h : ∃ path, (clientFd, s.fds) = fds.alloc path) :
    closed s r clientFd = some ⟨.read, s.seqNum + r.seqLen, fds⟩ := by
  obtain ⟨path, hpath⟩ := h
  have hclose := fds.close_alloc path
  rw [← hpath] at hclose
  rw [closed, hclose, Option.map_some]

theorem holds_step (h : Holds fds s) (hwrites : ¬ GivesUp s a) (hstep : step s a = some t) :
    Holds fds t := by
  cases a with
  | request r =>
      cases hpc : s.pc with
      | read =>
          simp only [step, hpc, Option.some.injEq] at hstep
          simpa [Holds, hpc, ← hstep] using h
      | openFifo | write | close | exited => simp [step, hpc] at hstep
  | ok =>
      cases hpc : s.pc with
      | openFifo r =>
          simp only [Holds, hpc] at h
          simp only [step, hpc, Option.some.injEq] at hstep
          rw [← hstep, h]
          exact ⟨clientFifo r.pid, rfl⟩
      | close r clientFd =>
          simp only [Holds, hpc] at h
          simp only [step, hpc, closed_of_alloc h, Option.some.injEq] at hstep
          rw [← hstep]
          exact rfl
      | read | write | exited => simp [step, hpc] at hstep
  | count n =>
      cases hpc : s.pc with
      | read =>
          simp only [step, hpc, Option.ite_none_right_eq_some, Option.some.injEq] at hstep
          rw [← hstep.2]
          trivial
      | write r clientFd =>
          have hfull : n = sizeofInt := by
            by_contra hshort
            exact hwrites ⟨hshort, r, clientFd, hpc⟩
          simp only [Holds, hpc] at h
          simp only [step, hpc, if_pos hfull, Option.some.injEq] at hstep
          rw [← hstep]
          exact h
      | openFifo | close | exited => simp [step, hpc] at hstep
  | err =>
      cases hpc : s.pc with
      | read =>
          simp only [step, hpc, Option.some.injEq] at hstep
          rw [← hstep]
          trivial
      | openFifo r =>
          simp only [step, hpc, Option.some.injEq] at hstep
          simpa [Holds, hpc, ← hstep] using h
      | write r clientFd => exact absurd ⟨r, clientFd, hpc⟩ hwrites
      | close r clientFd =>
          simp only [Holds, hpc] at h
          simp only [step, hpc, closed_of_alloc h, Option.some.injEq] at hstep
          rw [← hstep]
          exact rfl
      | exited => simp [step, hpc] at hstep

/-- A response that is given up leaves its descriptor open. -/
theorem opened_ne_of_givesUp (h : Holds fds s) (hgives : GivesUp s a)
    (hstep : step s a = some t) : t.pc = .read ∧ t.fds.opened ≠ fds.opened := by
  have hopen : ∀ r clientFd, s.pc = .write r clientFd → s.fds.opened ≠ fds.opened := by
    intro r clientFd hpc
    simp only [Holds, hpc] at h
    obtain ⟨path, hpath⟩ := h
    have hfds : s.fds = (fds.alloc path).2 := congrArg Prod.snd hpath
    rw [hfds]
    exact fds.opened_alloc_ne path
  cases a with
  | request r | ok => exact hgives.elim
  | count n =>
      obtain ⟨hshort, r, clientFd, hpc⟩ := hgives
      simp only [step, hpc, if_neg hshort, Option.ite_none_right_eq_some,
        Option.some.injEq] at hstep
      rw [← hstep.2]
      exact ⟨rfl, hopen r clientFd hpc⟩
  | err =>
      obtain ⟨r, clientFd, hpc⟩ := hgives
      simp only [step, hpc, Option.some.injEq] at hstep
      rw [← hstep]
      exact ⟨rfl, hopen r clientFd hpc⟩

/-- **At each turn of the loop the open descriptors are those of the first one**,
exactly in the runs that give no response up. -/
theorem opened_kept_iff {seqNum : Int32} {answers : List Answer}
    (h : exec step (start seqNum fds) answers = some s) :
    Throughout step (Kept fds) (start seqNum fds) answers ↔
      Along step (fun s a => ¬ GivesUp s a) (start seqNum fds) answers := by
  have hbad : Kept fds = fun s => ¬ (s.pc = .read ∧ s.fds.opened ≠ fds.opened) := by
    funext s
    rw [not_and_not_right, Kept]
  rw [hbad]
  refine throughout_iff_along (I := Holds fds) (fun s a t => holds_step) ?_
    (fun s a t => opened_ne_of_givesUp) rfl h
  rintro s hs ⟨hpc, hne⟩
  simp only [Holds, hpc] at hs
  exact hne (congrArg Table.opened hs)

/-- A round with a client that takes its response. -/
def goodRound : List Answer := [.request ⟨100, 1⟩, .ok, .count 4, .ok]

theorem opened_kept_good_round :
    Throughout step (Kept Table.empty) (start 0 Table.empty) goodRound := by
  have hrun : exec step (start 0 Table.empty) goodRound = some ⟨.read, 0 + 1, Table.empty⟩ := by
    simp [goodRound, exec, step, start, sizeofInt, closed, Table.close_alloc]
  refine (opened_kept_iff hrun).2 (along_of_forall ?_ _)
  simp [goodRound, GivesUp, sizeofInt]

/-- A client that goes away before the response costs a descriptor. -/
theorem descriptor_leaked :
    ¬ Throughout step (Kept Table.empty) (start 0 Table.empty)
      [.request ⟨100, 1⟩, .ok, .err] := by
  intro h
  have hkept := ((h.2 _ rfl).2 _ rfl).2 _ rfl rfl
  exact Table.empty.opened_alloc_ne (clientFifo 100) hkept

end Lpi.Ports.FifoSeqnumDescriptors
