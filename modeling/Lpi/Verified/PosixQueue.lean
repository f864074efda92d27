import Mathlib.Data.List.Sort

/-!
# A POSIX message queue with one-shot notification

Messages are kept by priority, and among equal priorities in the order in
which they were sent.  A process may register for a notification: the first
message that arrives on the empty queue ends the registration and notifies.
A message has a number, so that two messages with the same contents are still
two messages.
-/

namespace Lpi.Verified.PosixQueue

structure Msg where
  id : Nat
  prio : Nat
  data : List UInt8
  deriving DecidableEq, Repr

/-- The place of a new message: behind all of at least its priority. -/
def enqueue (m : Msg) (q : List Msg) : List Msg :=
  q.orderedInsert (fun a b => b.prio < a.prio) m

theorem perm_enqueue (m : Msg) (q : List Msg) : (enqueue m q).Perm (m :: q) :=
  List.perm_orderedInsert _ m q

/-- Messages in the order in which they are received. -/
def InOrder (q : List Msg) : Prop := q.Pairwise fun a b => b.prio ≤ a.prio

/-- The messages of priority `p`. -/
def ofPrio (p : Nat) (q : List Msg) : List Msg := q.filter fun m => m.prio = p

theorem ofPrio_cons (p : Nat) (m : Msg) (q : List Msg) :
    ofPrio p (m :: q) = ofPrio p [m] ++ ofPrio p q :=
  List.filter_append [m] q

theorem ofPrio_append (p : Nat) (q q' : List Msg) :
    ofPrio p (q ++ q') = ofPrio p q ++ ofPrio p q' :=
  List.filter_append q q'

theorem length_enqueue (m : Msg) (q : List Msg) : (enqueue m q).length = q.length + 1 :=
  (perm_enqueue m q).length_eq

theorem inOrder_enqueue (m : Msg) {q : List Msg} (hq : InOrder q) : InOrder (enqueue m q) := by
  induction q with
  | nil => exact List.pairwise_singleton _ _
  | cons b q ih =>
      have hq' := hq
      rw [InOrder, List.pairwise_cons] at hq'
      rw [enqueue, List.orderedInsert_cons]
      by_cases hlt : b.prio < m.prio
      · rw [if_pos hlt, InOrder, List.pairwise_cons]
        refine ⟨?_, hq⟩
        intro a ha
        rcases List.mem_cons.1 ha with rfl | ha
        · omega
        · have hle := hq'.1 a ha
          omega
      · rw [if_neg hlt, InOrder, List.pairwise_cons]
        refine ⟨?_, ih hq'.2⟩
        intro a ha
        rcases List.mem_cons.1 ((perm_enqueue m q).mem_iff.1 ha) with rfl | ha
        · omega
        · exact hq'.1 a ha

/-- Among the messages of its priority a new one is the last. -/
theorem ofPrio_enqueue (p : Nat) (m : Msg) {q : List Msg} (hq : InOrder q) :
    ofPrio p (enqueue m q) = ofPrio p q ++ ofPrio p [m] := by
  induction q with
  | nil => rfl
  | cons b q ih =>
      have hq' := hq
      rw [InOrder, List.pairwise_cons] at hq'
      rw [enqueue, List.orderedInsert_cons]
      by_cases hlt : b.prio < m.prio
      · rw [if_pos hlt, ofPrio_cons]
        by_cases hp : m.prio = p
        · -- those behind have a lower priority
          have hnone : ofPrio p (b :: q) = [] := by
            apply List.filter_eq_nil_iff.2
            intro a ha
            rcases List.mem_cons.1 ha with rfl | ha
            · simp only [decide_eq_true_eq]
              omega
            · have hle := hq'.1 a ha
              simp only [decide_eq_true_eq]
              omega
          rw [hnone, List.append_nil, List.nil_append]
        · have hnone : ofPrio p [m] = [] := by
            simp [ofPrio, hp]
          rw [hnone, List.nil_append, List.append_nil]
      · rw [if_neg hlt, ofPrio_cons, ofPrio_cons p b q, List.append_assoc]
        exact congrArg _ (ih hq'.2)

/-- The queue, and whether somebody is registered. -/
structure Queue where
  msgs : List Msg
  registered : Bool
  deriving DecidableEq, Repr

/-- A message arrives: the queue after it, and whether this notifies. -/
def Queue.arrive (q : Queue) (m : Msg) : Queue × Bool :=
  let notifies := q.msgs.isEmpty && q.registered
  (⟨enqueue m q.msgs, q.registered && !notifies⟩, notifies)

/-- Registered before, or a registration used up: the two are one bit. -/
theorem registered_arrive (q : Queue) (m : Msg) :
    ((q.arrive m).1.registered ^^ (q.arrive m).2) = q.registered := by
  cases hreg : q.registered <;> cases hmsgs : q.msgs <;>
    simp [Queue.arrive, hreg, hmsgs]

/-- Nobody is notified without having registered. -/
theorem registered_of_notifies {q : Queue} {m : Msg} (h : (q.arrive m).2 = true) :
    q.registered = true := by
  simp only [Queue.arrive, Bool.and_eq_true] at h
  exact h.2

/-- A registered process is told of a message on the empty queue. -/
theorem notifies_of_empty {q : Queue} {m : Msg} (hreg : q.registered = true)
    (hempty : q.msgs = []) : (q.arrive m).2 = true := by
  simp [Queue.arrive, hreg, hempty]

end Lpi.Verified.PosixQueue
