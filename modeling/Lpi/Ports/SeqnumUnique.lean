import Lpi.Ports.FifoSeqnumOrder
import Lpi.Ports.IsSeqnumStream

/-!
# Sequence numbers handed out once

Neither server looks at the length a client asks for, and the counter of both
is an `int`.  So numbers are handed out once only as long as the clients ask
for at least one number each and for no more in total than an `int` can
count.
-/

namespace Lpi.Ports.SeqnumUnique

open Lpi.Verified.CData
open Lpi.Verified.Counter
open Lpi.Verified.Run

/-- The FIFO server, by what its counter added. -/
theorem fifo_allotted {stale : List UInt8 → Bool} {s : FifoSeqnum.State}
    (hreach : Reachable FifoSeqnum.step (FifoSeqnum.start stale) s)
    (hone : ∀ e ∈ s.log, e.full = true → 1 ≤ e.request.seqLen.toInt)
    (hmax : total ((s.log.filter FifoSeqnum.Reply.full).map
      (·.request.seqLen)) < 2 ^ 31) :
    Allotted FifoSeqnum.Reply.seqNum FifoSeqnum.Reply.inc s.log := by
  have hinv := FifoSeqnum.inv_of_reachable hreach
  apply hinv.numbered.allotted
  · intro x hx
    rw [FifoSeqnum.filterMap_inc, List.mem_map] at hx
    obtain ⟨e, he, rfl⟩ := hx
    rw [List.mem_filter] at he
    exact hone e he.1 he.2
  · rw [FifoSeqnum.filterMap_inc]
    simpa using hmax

/-- Where every `read` is whole, the TCP server adds what the clients asked
for. -/
theorem request_eq {initial : Int32} {s : IsSeqnum.State}
    (hinv : IsSeqnum.Inv initial s) (hintact : IsSeqnum.Intact s)
    {e : IsSeqnum.Reply} (he : e ∈ s.log) :
    e.request = (s.client e.conn).request := by
  have hsent := hintact.added e he
  have hstart := (hinv.linked e.conn).up_start
  rw [hsent] at hstart
  apply bytesOfInt_injective
  apply hstart.eq_of_length
  rw [length_bytesOfInt, length_bytesOfInt]

theorem tcp_allotted {initial : Int32} {ls : List IsSeqnum.Label}
    {s : IsSeqnum.State}
    (hrun : exec IsSeqnum.step (IsSeqnum.start initial) ls = some s)
    (hwhole : Along IsSeqnum.step (fun _ l => IsSeqnum.readsWhole l = true)
      (IsSeqnum.start initial) ls)
    (hone : ∀ e ∈ s.log, 1 ≤ (s.client e.conn).request.toInt)
    (hmax : initial.toInt +
      total (s.log.map fun e => (s.client e.conn).request) < 2 ^ 31) :
    Allotted IsSeqnum.Reply.seqNum IsSeqnum.Reply.inc s.log := by
  have hinv := IsSeqnum.inv_of_reachable ⟨ls, hrun⟩
  have hintact := (IsSeqnum.travelled_of_whole hwhole hrun).toIntact
  have hrequests : s.log.filterMap IsSeqnum.Reply.inc =
      s.log.map fun e => (s.client e.conn).request := by
    rw [IsSeqnum.filterMap_inc]
    apply List.map_congr_left
    intro e he
    exact request_eq hinv hintact he
  apply hinv.numbered.allotted
  · intro x hx
    rw [hrequests, List.mem_map] at hx
    obtain ⟨e, he, rfl⟩ := hx
    exact hone e he
  · rw [hrequests]
    exact hmax

/-- **Allocation.**  While every client asks for at least one number and the
total stays within an `int`, no two answered requests are given the same
number, the ranges handed out are disjoint, and no addition overflows: with
the FIFO server, for the requests it answered in full; with the TCP server,
if it gets its requests whole, for all it answered. -/
theorem seqnum_allotted :
    (∀ stale s, Reachable FifoSeqnum.step (FifoSeqnum.start stale) s →
      (∀ e ∈ s.log, e.full = true → 1 ≤ e.request.seqLen.toInt) →
      total ((s.log.filter FifoSeqnum.Reply.full).map
        (·.request.seqLen)) < 2 ^ 31 →
      Allotted FifoSeqnum.Reply.seqNum FifoSeqnum.Reply.inc s.log) ∧
    (∀ initial ls s,
      exec IsSeqnum.step (IsSeqnum.start initial) ls = some s →
      Along IsSeqnum.step (fun _ l => IsSeqnum.readsWhole l = true)
        (IsSeqnum.start initial) ls →
      (∀ e ∈ s.log, 1 ≤ (s.client e.conn).request.toInt) →
      initial.toInt +
        total (s.log.map fun e => (s.client e.conn).request) < 2 ^ 31 →
      Allotted IsSeqnum.Reply.seqNum IsSeqnum.Reply.inc s.log) :=
  ⟨fun _ _ hreach hone hmax => fifo_allotted hreach hone hmax,
    fun _ _ _ hrun hwhole hone hmax => tcp_allotted hrun hwhole hone hmax⟩

/-- Two clients of the TCP server, one after the other. -/
def twoConnections (m n : Int32) : List IsSeqnum.Label :=
  [.start 1 m, .client 1 .ok, .server .ok, .client 1 (.wrote 4),
    .server (.read 4 9), .server (.wrote 4), .client 1 (.read 4 9),
    .server .ok, .start 2 n, .client 2 .ok, .server .ok, .client 2 (.wrote 4),
    .server (.read 4 9), .server (.wrote 4), .client 2 (.read 4 9)]

theorem seqnum_allotted_two_clients :
    (∃ s, exec FifoSeqnum.step (FifoSeqnum.start fun _ => false)
        (FifoSeqnum.served 7 3 ++ FifoSeqnum.served 9 5) = some s ∧
      s.log = [⟨⟨7, 3⟩, 0, 4⟩, ⟨⟨9, 5⟩, 3, 4⟩] ∧
      Allotted FifoSeqnum.Reply.seqNum FifoSeqnum.Reply.inc s.log) ∧
    (∃ s, exec IsSeqnum.step (IsSeqnum.start 100) (twoConnections 3 5) = some s ∧
      s.log = [⟨1, 3, 100, 4⟩, ⟨2, 5, 103, 4⟩] ∧
      Allotted IsSeqnum.Reply.seqNum IsSeqnum.Reply.inc s.log) := by
  constructor
  · obtain ⟨s, hs, hlog⟩ := exists_exec FifoSeqnum.step
      (fun s => s.log = [⟨⟨7, 3⟩, 0, 4⟩, ⟨⟨9, 5⟩, 3, 4⟩])
      (FifoSeqnum.start fun _ => false)
      (FifoSeqnum.served 7 3 ++ FifoSeqnum.served 9 5) (by decide)
    refine ⟨s, hs, hlog, seqnum_allotted.1 _ s ⟨_, hs⟩ ?_ ?_⟩
    · rw [hlog]
      decide
    · rw [hlog]
      decide
  · obtain ⟨s, hs, hlog, hrequests⟩ := exists_exec IsSeqnum.step
      (fun s => s.log = [⟨1, 3, 100, 4⟩, ⟨2, 5, 103, 4⟩] ∧
        (s.client 1).request = 3 ∧ (s.client 2).request = 5)
      (IsSeqnum.start 100) (twoConnections 3 5) (by decide)
    refine ⟨s, hs, hlog, seqnum_allotted.2 100 _ s hs (by decide) ?_ ?_⟩
    · rw [hlog]
      simp [hrequests]
    · rw [hlog]
      simp [hrequests]

/-- A client that asks for no numbers is given one that the next client is
given as well, by either server. -/
theorem number_given_twice :
    (∃ s, exec FifoSeqnum.step (FifoSeqnum.start fun _ => false)
        (FifoSeqnum.served 7 0 ++ FifoSeqnum.served 9 5) = some s ∧
      (s.client 7).printed = some 0 ∧ (s.client 9).printed = some 0) ∧
    (∃ s, exec IsSeqnum.step (IsSeqnum.start 0) (twoConnections 0 5) = some s ∧
      (s.client 1).printed = some 0 ∧ (s.client 2).printed = some 0) :=
  ⟨exists_exec FifoSeqnum.step
      (fun s => (s.client 7).printed = some 0 ∧ (s.client 9).printed = some 0)
      (FifoSeqnum.start fun _ => false)
      (FifoSeqnum.served 7 0 ++ FifoSeqnum.served 9 5) (by decide),
    exists_exec IsSeqnum.step
      (fun s => (s.client 1).printed = some 0 ∧ (s.client 2).printed = some 0)
      (IsSeqnum.start 0) (twoConnections 0 5) (by decide)⟩

end Lpi.Ports.SeqnumUnique
