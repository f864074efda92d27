import Lpi.Verified.CData
import Lpi.Verified.CString
import Lpi.Verified.Family
import Lpi.Verified.Run
import Mathlib.Algebra.Order.BigOperators.Group.Finset

/-!
# Several servers and one key (`svipc/svmsg_demo_server.c`)

The server wants a message queue of its own under a fixed key.  Where `msgget()`
with `IPC_EXCL` finds one there already, it gets the identifier of that queue,
removes it and tries again.

Any number of servers `κ` run at the same time, each system call is one step, and
the order of the steps is arbitrary.  A server that looks for the old queue may find
none any more, or may find the one that another server has just made.  All servers
come to an end: each round of the loop removes a queue, and no more of those are made
than there are servers (`State.work`).  As long as there is no queue, some server is
about to make one (`Sane`), so at the end there is one.
-/

namespace Lpi.Ports.SvmsgDemoServer

open Lpi.Verified.CData
open Lpi.Verified.CString
open Lpi.Verified.Family
open Lpi.Verified.Run

/-! ## State -/

/-- Where a server is. -/
inductive Pc where
  | ftok
  /-- At the `msgget()` of the loop. -/
  | create
  | getOld
  /-- At `msgctl(id, IPC_RMID, NULL)`. -/
  | remove (id : Nat)
  | exited (status : Exit)
  deriving DecidableEq, Repr

/-- What a server writes, with the `errno` of a message. -/
inductive Line where
  | keyFailed (errno : Nat)
  | getOldFailed (errno : Nat)
  | removeFailed (id errno : Nat)
  | createFailed (errno : Nat)
  | removed (id : Nat)
  | created (id : Nat)
  deriving DecidableEq, Repr

/-- `KEY_PATH`. -/
def keyPath : List UInt8 := ascii "/etc/passwd"

/-- The text of a line; `strerror` is that of the C library. -/
def Line.text (strerror : Nat → List UInt8) : Line → List UInt8
  | .keyFailed e => ascii "Failed to generate ipc key from " ++ keyPath ++ ascii " - " ++
      strerror e ++ ascii "\n"
  | .getOldFailed e => ascii "Failed to msgget() old id - " ++ strerror e ++ ascii "\n"
  | .removeFailed id e => ascii "Failed to removed old id " ++ decimal id ++ ascii " - " ++
      strerror e ++ ascii "\n"
  | .createFailed e => ascii "Failed to msgget() id - " ++ strerror e ++ ascii "\n"
  | .removed id => ascii "Removed old id " ++ decimal id ++ ascii "\n"
  | .created id => ascii "Created new id " ++ decimal id ++ ascii "\n"

/-- Whether a line goes to `stdout` and not to `stderr`. -/
def Line.toStdout : Line → Bool
  | .created _ => true
  | _ => false

/-- A server and the lines it has written. -/
structure Server where
  pc : Pc
  said : List Line
  deriving DecidableEq, Repr

def Server.stdout (strerror : Nat → List UInt8) (v : Server) : List UInt8 :=
  (v.said.filter Line.toStdout).flatMap (Line.text strerror)

def Server.stderr (strerror : Nat → List UInt8) (v : Server) : List UInt8 :=
  (v.said.filter fun line => !line.toStdout).flatMap (Line.text strerror)

/-- The servers, and the identifier of the queue under the key if there is one. -/
structure State (κ : Type) where
  queue : Option Nat
  server : κ → Server

/-- The result of a call: success, the identifier of a queue that has been made, or
failure with an `errno`. -/
inductive Answer where
  | ok
  | made (id : Nat)
  | err (errno : Nat)
  deriving DecidableEq, Repr

def EEXIST : Nat := 17

/-! ## Steps -/

variable {κ : Type}

def State.setQueue (s : State κ) (queue : Option Nat) : State κ :=
  { s with queue := queue }

@[simp] theorem setQueue_server (s : State κ) (queue : Option Nat) :
    (s.setQueue queue).server = s.server := rfl

@[simp] theorem setQueue_queue (s : State κ) (queue : Option Nat) :
    (s.setQueue queue).queue = queue := rfl

variable [DecidableEq κ]

/-- Server `k` goes on at `pc`. -/
def State.goto (s : State κ) (k : κ) (pc : Pc) : State κ :=
  { s with server := Function.update s.server k ⟨pc, (s.server k).said⟩ }

/-- Server `k` writes a line and goes on at `pc`. -/
def State.say (s : State κ) (k : κ) (line : Line) (pc : Pc) : State κ :=
  { s with server := Function.update s.server k ⟨pc, (s.server k).said ++ [line]⟩ }

/-- The next step of server `k`. -/
def step (s : State κ) : κ × Answer → Option (State κ)
  | (k, a) =>
    match (s.server k).pc, a with
    | .ftok, .ok => some (s.goto k .create)
    | .ftok, .err e => some (s.say k (.keyFailed e) (.exited .failure))
    | .create, .made id =>
        if s.queue = none then
          some ((s.say k (.created id) (.exited .success)).setQueue (some id))
        else none
    | .create, .err e =>
        if e = EEXIST then
          if s.queue = none then none else some (s.goto k .getOld)
        else some (s.say k (.createFailed e) (.exited .failure))
    | .getOld, .ok => s.queue.map fun id => s.goto k (.remove id)
    | .getOld, .err e => some (s.say k (.getOldFailed e) (.exited .failure))
    | .remove id, .ok =>
        if s.queue = some id then
          some ((s.say k (.removed id) .create).setQueue none)
        else none
    | .remove id, .err e => some (s.say k (.removeFailed id e) (.exited .failure))
    | _, _ => none

/-- All servers are started while the queue is as it may be. -/
def start (queue : Option Nat) : State κ where
  queue := queue
  server := fun _ => ⟨.ftok, []⟩

/-- The call at `pc` has to fail, and with that `errno` if the queue is in the way of
`IPC_EXCL`. -/
def Pc.MustFail (queue : Option Nat) (e : Nat) : Pc → Prop
  | .create => e = EEXIST
  | .getOld => queue = none
  | .remove id => queue ≠ some id
  | .ftok | .exited _ => False

instance (queue : Option Nat) (e : Nat) : DecidablePred (Pc.MustFail queue e)
  | .create => inferInstanceAs (Decidable (e = EEXIST))
  | .getOld => inferInstanceAs (Decidable (queue = none))
  | .remove id => inferInstanceAs (Decidable (queue ≠ some id))
  | .ftok => isFalse id
  | .exited _ => isFalse id

/-- The call of the label does not fail unless it has to. -/
def Forced (s : State κ) : κ × Answer → Prop
  | (k, .err e) => (s.server k).pc.MustFail s.queue e
  | _ => True

instance (s : State κ) : DecidablePred (Forced s)
  | (k, .err e) => inferInstanceAs (Decidable ((s.server k).pc.MustFail s.queue e))
  | (_, .ok) => isTrue trivial
  | (_, .made _) => isTrue trivial

def Pc.Ended : Pc → Prop
  | .exited _ => True
  | _ => False

def State.Ended (s : State κ) : Prop := ∀ k, (s.server k).pc.Ended

/-! ## What a step can do -/

variable {s t : State κ} {k : κ} {a : Answer} {q : Option Nat}

/-- The steps of server `k`. -/
inductive ServerStep (s : State κ) (k : κ) : Answer → State κ → Prop
  | key (hpc : (s.server k).pc = .ftok) : ServerStep s k .ok (s.goto k .create)
  | made {id : Nat} (hpc : (s.server k).pc = .create) (hqueue : s.queue = none) :
      ServerStep s k (.made id)
        ((s.say k (.created id) (.exited .success)).setQueue (some id))
  | found (hpc : (s.server k).pc = .create) (hqueue : s.queue ≠ none) :
      ServerStep s k (.err EEXIST) (s.goto k .getOld)
  | got {id : Nat} (hpc : (s.server k).pc = .getOld) (hqueue : s.queue = some id) :
      ServerStep s k .ok (s.goto k (.remove id))
  | removed {id : Nat} (hpc : (s.server k).pc = .remove id) (hqueue : s.queue = some id) :
      ServerStep s k .ok ((s.say k (.removed id) .create).setQueue none)
  | failed {e : Nat} {line : Line} (hpc : ¬ (s.server k).pc.Ended)
      (hexcl : (s.server k).pc = .create → e ≠ EEXIST)
      (hmade : ∀ id, line ≠ .created id) (hremoved : ∀ id, line ≠ .removed id) :
      ServerStep s k (.err e) (s.say k line (.exited .failure))

theorem step_cases (h : step s (k, a) = some t) : ServerStep s k a t := by
  cases hpc : (s.server k).pc with
  | ftok =>
      cases a with
      | ok =>
          simp only [step, hpc, Option.some.injEq] at h
          exact h ▸ .key hpc
      | made id => simp [step, hpc] at h
      | err e =>
          simp only [step, hpc, Option.some.injEq] at h
          exact h ▸ .failed (by simp [hpc, Pc.Ended]) (by simp [hpc]) (by simp) (by simp)
  | create =>
      cases a with
      | ok => simp [step, hpc] at h
      | made id =>
          simp only [step, hpc, Option.ite_none_right_eq_some, Option.some.injEq] at h
          exact h.2 ▸ .made hpc h.1
      | err e =>
          simp only [step, hpc] at h
          by_cases he : e = EEXIST
          · rw [if_pos he, Option.ite_none_left_eq_some, Option.some.injEq] at h
            rw [he, ← h.2]
            exact .found hpc h.1
          · rw [if_neg he, Option.some.injEq] at h
            exact h ▸ .failed (by simp [hpc, Pc.Ended]) (fun _ => he) (by simp) (by simp)
  | getOld =>
      cases a with
      | ok =>
          simp only [step, hpc, Option.map_eq_some_iff] at h
          rcases h with ⟨id, hqueue, rfl⟩
          exact .got hpc hqueue
      | made id => simp [step, hpc] at h
      | err e =>
          simp only [step, hpc, Option.some.injEq] at h
          exact h ▸ .failed (by simp [hpc, Pc.Ended]) (by simp [hpc]) (by simp) (by simp)
  | remove id =>
      cases a with
      | ok =>
          simp only [step, hpc, Option.ite_none_right_eq_some, Option.some.injEq] at h
          exact h.2 ▸ .removed hpc h.1
      | made id => simp [step, hpc] at h
      | err e =>
          simp only [step, hpc, Option.some.injEq] at h
          exact h ▸ .failed (by simp [hpc, Pc.Ended]) (by simp [hpc]) (by simp) (by simp)
  | exited status => cases a <;> simp [step, hpc] at h

@[simp] theorem goto_server (pc : Pc) (j : κ) : (s.goto k pc).server j =
    if j = k then ⟨pc, (s.server k).said⟩ else s.server j :=
  Function.update_apply _ _ _ _

@[simp] theorem say_server (line : Line) (pc : Pc) (j : κ) : (s.say k line pc).server j =
    if j = k then ⟨pc, (s.server k).said ++ [line]⟩ else s.server j :=
  Function.update_apply _ _ _ _

/-! ## All servers come to an end -/

/-- How many steps a server can take before it removes a queue. -/
def Pc.work : Pc → Nat
  | .ftok => 5
  | .create => 4
  | .getOld => 3
  | .remove _ => 2
  | .exited _ => 0

/-- A queue that is there makes for a round of the loop of a server. -/
def queueWork : Option Nat → Nat
  | none => 0
  | some _ => 3

def State.work [Fintype κ] (s : State κ) : Nat :=
  ∑ k, (s.server k).pc.work + queueWork s.queue

theorem Pc.work_pos {pc : Pc} (h : ¬ pc.Ended) : 2 ≤ pc.work := by
  cases pc with
  | exited status => exact absurd trivial h
  | _ => simp [Pc.work]

theorem work_goto [Fintype κ] (pc : Pc) :
    (s.goto k pc).work + (s.server k).pc.work = s.work + pc.work := by
  have hsum : ∑ j, (Function.update s.server k ⟨pc, (s.server k).said⟩ j).pc.work +
      (s.server k).pc.work = ∑ j, (s.server j).pc.work + pc.work :=
    sum_update_add (fun _ (v : Server) => v.pc.work) s.server k ⟨pc, (s.server k).said⟩
  simp only [State.work, State.goto]
  omega

theorem work_say [Fintype κ] (line : Line) (pc : Pc) (queue : Option Nat) :
    ((s.say k line pc).setQueue queue).work + (s.server k).pc.work +
        queueWork s.queue =
      s.work + pc.work + queueWork queue := by
  have hsum : ∑ j, (Function.update s.server k ⟨pc, (s.server k).said ++ [line]⟩ j).pc.work +
      (s.server k).pc.work = ∑ j, (s.server j).pc.work + pc.work :=
    sum_update_add (fun _ (v : Server) => v.pc.work) s.server k ⟨pc, (s.server k).said ++ [line]⟩
  simp only [State.work, State.say, State.setQueue]
  omega

theorem step_work [Fintype κ] (h : step s (k, a) = some t) : t.work < s.work := by
  cases step_cases h with
  | key hpc =>
      have hwork := work_goto (s := s) (k := k) .create
      simp only [hpc, Pc.work] at hwork
      omega
  | made hpc hqueue =>
      rename_i id
      have hwork := work_say (s := s) (k := k) (.created id) (.exited .success) (some id)
      simp only [hpc, hqueue, Pc.work, queueWork] at hwork
      omega
  | found hpc hqueue =>
      have hwork := work_goto (s := s) (k := k) .getOld
      simp only [hpc, Pc.work] at hwork
      omega
  | got hpc hqueue =>
      rename_i id
      have hwork := work_goto (s := s) (k := k) (.remove id)
      simp only [hpc, Pc.work] at hwork
      omega
  | removed hpc hqueue =>
      rename_i id
      have hwork := work_say (s := s) (k := k) (.removed id) .create none
      simp only [hpc, hqueue, Pc.work, queueWork] at hwork
      omega
  | failed hpc hexcl hmade hremoved =>
      rename_i e line
      have hwork := work_say (s := s) (k := k) line (.exited .failure) s.queue
      have hpos := Pc.work_pos hpc
      have hzero : (Pc.exited .failure).work = 0 := rfl
      have hset : (s.say k line (.exited .failure)).setQueue s.queue =
          s.say k line (.exited .failure) := rfl
      rw [hzero, hset] at hwork
      omega

omit [DecidableEq κ] in
theorem start_work [Fintype κ] (q : Option Nat) :
    (start q : State κ).work ≤ 5 * Fintype.card κ + 3 := by
  have hstart : (start q : State κ).work =
      ∑ _k : κ, 5 + queueWork q := rfl
  have hqueue : queueWork q ≤ 3 := by
    cases q <;> simp [queueWork]
  rw [hstart, Finset.sum_const, Finset.card_univ, nsmul_eq_mul]
  simp only [Nat.cast_id]
  omega

/-- A system call can fail, if it can do nothing else. -/
theorem enabled_of_not_ended (h : ¬ (s.server k).pc.Ended) : ∃ a, Enabled step s (k, a) := by
  cases hpc : (s.server k).pc with
  | ftok => exact ⟨.ok, enabled_iff.2 (by simp [step, hpc])⟩
  | create => exact ⟨.err 0, enabled_iff.2 (by simp [step, hpc, EEXIST])⟩
  | getOld => exact ⟨.err 0, enabled_iff.2 (by simp [step, hpc])⟩
  | remove id => exact ⟨.err 0, enabled_iff.2 (by simp [step, hpc])⟩
  | exited status => rw [hpc] at h; exact absurd trivial h

theorem not_enabled_iff : (∀ l, ¬ Enabled step s l) ↔ s.Ended := by
  constructor
  · intro h k
    by_contra hk
    rcases enabled_of_not_ended hk with ⟨a, ha⟩
    exact h _ ha
  · rintro h ⟨k, a⟩ ⟨t, ht⟩
    have hk := h k
    cases hpc : (s.server k).pc with
    | exited status => cases a <;> simp [step, hpc] at ht
    | _ => simp [hpc, Pc.Ended] at hk

/-! ## What the servers say -/

/-- The queues a server says it has made. -/
def createdIds (said : List Line) : Multiset Nat :=
  said.filterMap fun
    | .created id => some id
    | _ => none

/-- The queues a server says it has removed. -/
def removedIds (said : List Line) : Multiset Nat :=
  said.filterMap fun
    | .removed id => some id
    | _ => none

/-- The queue under the key, if there is one. -/
def live (queue : Option Nat) : Multiset Nat := queue.toList

/-- A queue that was there or has been made is there or has been removed, once. -/
def Balanced [Fintype κ] (q : Option Nat) (s : State κ) : Prop :=
  live q + ∑ k, createdIds (s.server k).said =
    live s.queue + ∑ k, removedIds (s.server k).said

/-- The lines of a server: the queues it has removed, and after these one line when it
ends. -/
def Server.Consistent (v : Server) : Prop :=
  match v.pc with
  | .exited .success => ∃ ids id, v.said = List.map Line.removed ids ++ [.created id]
  | .exited .failure => ∃ ids line, v.said = List.map Line.removed ids ++ [line] ∧
      (∀ id, line ≠ .created id) ∧ ∀ id, line ≠ .removed id
  | _ => ∃ ids, v.said = List.map Line.removed ids

/-- Only a server that succeeds writes to `stdout`, and one line with the identifier. -/
theorem Server.Consistent.stdout {v : Server} (h : v.Consistent)
    (strerror : Nat → List UInt8) :
    if v.pc = .exited .success then
      ∃ id, v.stdout strerror = ascii "Created new id " ++ decimal id ++ ascii "\n"
    else v.stdout strerror = [] := by
  have hnone : ∀ ids, (List.map Line.removed ids).filter Line.toStdout = [] := by
    intro ids
    simp [Line.toStdout]
  rcases v with ⟨pc, said⟩
  cases pc with
  | exited status =>
      cases status with
      | success =>
          rcases h with ⟨ids, id, hsaid⟩
          refine ⟨id, ?_⟩
          rw [Server.stdout, hsaid, List.filter_append, hnone]
          show Line.text strerror (.created id) ++ [] = _
          rw [List.append_nil]
          rfl
      | failure =>
          rcases h with ⟨ids, line, hsaid, hcreated, _⟩
          rw [if_neg (by simp), Server.stdout, hsaid, List.filter_append, hnone]
          cases line with
          | created id => exact absurd rfl (hcreated id)
          | _ => rfl
  | _ =>
      rcases h with ⟨ids, hsaid⟩
      rw [if_neg (by simp), Server.stdout, hsaid, hnone]
      rfl

theorem createdIds_append (said : List Line) (line : Line) :
    createdIds (said ++ [line]) = createdIds said + createdIds [line] := by
  rw [createdIds, List.filterMap_append]
  rfl

theorem removedIds_append (said : List Line) (line : Line) :
    removedIds (said ++ [line]) = removedIds said + removedIds [line] := by
  rw [removedIds, List.filterMap_append]
  rfl

/-- A sum over what the servers have said, after one of them has said something. -/
theorem sum_say [Fintype κ] {ids : List Line → Multiset Nat}
    (happend : ∀ said line, ids (said ++ [line]) = ids said + ids [line])
    (line : Line) (pc : Pc) :
    ∑ j, ids ((s.say k line pc).server j).said =
      ∑ j, ids (s.server j).said + ids [line] := by
  have hsum := sum_update_add (fun _ (v : Server) => ids v.said) s.server k
    ⟨pc, (s.server k).said ++ [line]⟩
  rw [happend, ← add_assoc, add_right_comm] at hsum
  exact add_right_cancel hsum

theorem sum_goto [Fintype κ] (ids : List Line → Multiset Nat) (pc : Pc) :
    ∑ j, ids ((s.goto k pc).server j).said = ∑ j, ids (s.server j).said :=
  add_right_cancel (sum_update_add (fun _ (v : Server) => ids v.said) s.server k
    ⟨pc, (s.server k).said⟩)

theorem step_balanced [Fintype κ] (hs : Balanced q s) (h : step s (k, a) = some t) :
    Balanced q t := by
  have hsame : ∀ pc, Balanced q (s.goto k pc) := by
    intro pc
    unfold Balanced
    rw [sum_goto, sum_goto]
    exact hs
  unfold Balanced at hs ⊢
  cases step_cases h with
  | key hpc => exact hsame _
  | found hpc hqueue => exact hsame _
  | got hpc hqueue => exact hsame _
  | made hpc hqueue =>
      rename_i id
      have hnone : removedIds [.created id] = 0 := rfl
      have hone : createdIds [.created id] = live (some id) := rfl
      rw [hqueue] at hs
      rw [setQueue_server, setQueue_queue, sum_say createdIds_append,
        sum_say removedIds_append, ← add_assoc, hs, hnone, hone, add_zero]
      show 0 + _ + _ = _
      rw [zero_add, add_comm]
  | removed hpc hqueue =>
      rename_i id
      have hnone : createdIds [.removed id] = 0 := rfl
      have hone : removedIds [.removed id] = live (some id) := rfl
      rw [hqueue] at hs
      rw [setQueue_server, setQueue_queue, sum_say createdIds_append,
        sum_say removedIds_append, ← add_assoc, hs, hnone, hone, add_zero]
      show _ = 0 + _
      rw [zero_add, add_comm]
  | failed hpc hexcl hmade hremoved =>
      rename_i e line
      have hcreated : createdIds [line] = 0 := by
        cases line with
        | created id => exact absurd rfl (hmade id)
        | _ => rfl
      have hgone : removedIds [line] = 0 := by
        cases line with
        | removed id => exact absurd rfl (hremoved id)
        | _ => rfl
      rw [sum_say createdIds_append, sum_say removedIds_append, hcreated, hgone, add_zero,
        add_zero]
      exact hs

theorem step_consistent (hs : ∀ j, (s.server j).Consistent) (h : step s (k, a) = some t)
    (j : κ) : (t.server j).Consistent := by
  have hk := hs k
  by_cases hj : j = k
  · subst hj
    cases step_cases h with
    | key hpc =>
        simp only [Server.Consistent, hpc] at hk
        simpa [Server.Consistent] using hk
    | found hpc hqueue =>
        simp only [Server.Consistent, hpc] at hk
        simpa [Server.Consistent] using hk
    | got hpc hqueue =>
        simp only [Server.Consistent, hpc] at hk
        simpa [Server.Consistent] using hk
    | made hpc hqueue =>
        rename_i id
        simp only [Server.Consistent, hpc] at hk
        rcases hk with ⟨ids, hids⟩
        simp only [Server.Consistent, setQueue_server, say_server, if_true, hids]
        exact ⟨ids, id, rfl⟩
    | removed hpc hqueue =>
        rename_i id
        simp only [Server.Consistent, hpc] at hk
        rcases hk with ⟨ids, hids⟩
        simp only [Server.Consistent, setQueue_server, say_server, if_true, hids]
        exact ⟨ids ++ [id], by rw [List.map_append]; rfl⟩
    | failed hpc hexcl hmade hremoved =>
        rename_i e line
        have hids : ∃ ids, (s.server j).said = List.map Line.removed ids := by
          cases hpc' : (s.server j).pc with
          | exited status =>
              rw [hpc'] at hpc
              exact absurd trivial hpc
          | _ => simpa only [Server.Consistent, hpc'] using hk
        rcases hids with ⟨ids, hids⟩
        simp only [Server.Consistent, say_server, if_true, hids]
        exact ⟨ids, line, rfl, hmade, hremoved⟩
  · have hother : t.server j = s.server j := by
      cases step_cases h with
      | _ => simp [hj]
    rw [hother]
    exact hs j

/-! ## The queue that is left -/

/-- A server will make a queue. -/
def Pc.WillMake (pc : Pc) : Prop := pc = .ftok ∨ pc = .create

/-- Where there is no queue, one is about to be made.  Until the queue of the start is
removed, no server ends and none knows another queue; later ones have been made by a
server that has ended. -/
structure Sane (q : Option Nat) (s : State κ) : Prop where
  waiting : s.queue = none → ∃ k, (s.server k).pc.WillMake
  origin : ∀ id, s.queue = some id →
    (q = some id ∧ ∀ k, ¬ (s.server k).pc.Ended ∧ ∀ old, (s.server k).pc = .remove old →
      old = id) ∨
    ∃ k ids, s.server k = ⟨.exited .success, List.map Line.removed ids ++ [.created id]⟩

omit [DecidableEq κ] in
theorem start_sane [Nonempty κ] (q : Option Nat) : Sane q (start q : State κ) where
  waiting := fun _ => ⟨Classical.arbitrary κ, Or.inl rfl⟩
  origin := fun _ hid => Or.inl ⟨hid, fun _ => ⟨id, by simp [start]⟩⟩

/-- A server that goes on with the queue as it is. -/
theorem Sane.goto (hs : Sane q s) {pc : Pc} (hended : ¬ pc.Ended)
    (hnow : ¬ (s.server k).pc.Ended)
    (hmake : (s.server k).pc.WillMake → pc.WillMake ∨ s.queue ≠ none)
    (hremove : ∀ old, pc = .remove old → s.queue = some old) : Sane q (s.goto k pc) where
  waiting := by
    intro hqueue
    rcases hs.waiting hqueue with ⟨j, hj⟩
    by_cases hjk : j = k
    · subst hjk
      rcases hmake hj with hpc | hpc
      · exact ⟨j, by simpa using hpc⟩
      · exact absurd hqueue hpc
    · exact ⟨j, by simpa [hjk] using hj⟩
  origin := by
    intro id hid
    rcases hs.origin id hid with ⟨hq, hall⟩ | ⟨j, ids, hj⟩
    · refine Or.inl ⟨hq, ?_⟩
      intro j
      by_cases hjk : j = k
      · subst hjk
        simp only [goto_server, if_true]
        refine ⟨hended, ?_⟩
        intro old hold
        have hqueue := hremove old hold
        rw [show s.queue = some id from hid, Option.some.injEq] at hqueue
        exact hqueue.symm
      · simpa [hjk] using hall j
    · have hjk : j ≠ k := by
        intro hjk
        subst hjk
        rw [hj] at hnow
        exact hnow trivial
      exact Or.inr ⟨j, ids, by simpa [hjk] using hj⟩

theorem step_sane (hs : Sane q s) (hsaid : ∀ j, (s.server j).Consistent)
    (hforced : Forced s (k, a)) (h : step s (k, a) = some t) : Sane q t := by
  cases step_cases h with
  | key hpc =>
      exact hs.goto (by simp [Pc.Ended]) (by simp [hpc, Pc.Ended])
        (fun _ => Or.inl (Or.inr rfl)) (by simp)
  | found hpc hqueue =>
      exact hs.goto (by simp [Pc.Ended]) (by simp [hpc, Pc.Ended]) (fun _ => Or.inr hqueue)
        (by simp)
  | got hpc hqueue =>
      exact hs.goto (by simp [Pc.Ended]) (by simp [hpc, Pc.Ended])
        (fun _ => Or.inr (by simp [hqueue])) (by simp [hqueue])
  | made hpc hqueue =>
      rename_i new
      have hk := hsaid k
      simp only [Server.Consistent, hpc] at hk
      rcases hk with ⟨ids, hids⟩
      refine ⟨by simp, ?_⟩
      intro id hid
      rw [setQueue_queue, Option.some.injEq] at hid
      exact Or.inr ⟨k, ids, by simp [hids, hid]⟩
  | removed hpc hqueue =>
      exact ⟨fun _ => ⟨k, by simp [Pc.WillMake]⟩, by simp⟩
  | failed hpc hexcl hmade hremoved =>
      rename_i e line
      have hcall : (s.server k).pc.MustFail s.queue e := hforced
      have hother : ∀ j, j ≠ k → (s.say k line (.exited .failure)).server j = s.server j := by
        intro j hj
        simp [hj]
      -- the call that fails is one for a queue that is not there
      have hplace : ¬ (s.server k).pc.WillMake ∧
          ∀ id, s.queue = some id → ∃ old, (s.server k).pc = .remove old ∧ old ≠ id := by
        cases hpc' : (s.server k).pc with
        | ftok => simp [hpc', Pc.MustFail] at hcall
        | create =>
            simp only [hpc', Pc.MustFail] at hcall
            exact absurd hcall (hexcl hpc')
        | getOld =>
            simp only [hpc', Pc.MustFail] at hcall
            exact ⟨by simp [Pc.WillMake], by simp [hcall]⟩
        | remove old =>
            simp only [hpc', Pc.MustFail] at hcall
            refine ⟨by simp [Pc.WillMake], ?_⟩
            intro id hid
            exact ⟨old, rfl, fun hold => hcall (hold ▸ hid)⟩
        | exited status => simp [hpc', Pc.MustFail] at hcall
      constructor
      · intro hqueue
        rcases hs.waiting hqueue with ⟨j, hj⟩
        have hjk : j ≠ k := fun hjk => hplace.1 (hjk ▸ hj)
        exact ⟨j, by rw [hother j hjk]; exact hj⟩
      · intro id hid
        rcases hplace.2 id hid with ⟨old, hold, hne⟩
        rcases hs.origin id hid with ⟨hq, hall⟩ | ⟨j, ids, hj⟩
        · exact absurd ((hall k).2 old hold) hne
        · have hjk : j ≠ k := by
            intro hjk
            rw [← hjk, hj] at hold
            cases hold
          exact Or.inr ⟨j, ids, by rw [hother j hjk]; exact hj⟩

/-! ## Whole runs -/

omit [DecidableEq κ] in
theorem start_consistent (q : Option Nat) (k : κ) :
    ((start q : State κ).server k).Consistent :=
  ⟨[], rfl⟩

omit [DecidableEq κ] in
theorem start_balanced [Fintype κ] (q : Option Nat) : Balanced q (start q : State κ) := by
  have hcreated : ∑ k, createdIds ((start q : State κ).server k).said = 0 :=
    Finset.sum_const_zero
  have hremoved : ∑ k, removedIds ((start q : State κ).server k).said = 0 :=
    Finset.sum_const_zero
  rw [Balanced, hcreated, hremoved]
  rfl

/-- **The servers one after the other or all at once.**  They take no more than five
steps each and three more, and stop when all have ended.  What they have said they made,
with the queue that was there, is what they have said they removed, with the queue that
is there.  If no call fails that need not fail, then at the end there is a queue, the
one some server has made and announced as its last line. -/
theorem made_balances_removed [Fintype κ] [Nonempty κ] {ls : List (κ × Answer)}
    (h : exec step (start q) ls = some t) :
    (ls.length ≤ 5 * Fintype.card κ + 3 ∧ ((∀ l, ¬ Enabled step t l) ↔ t.Ended)) ∧
    (∀ k, (t.server k).Consistent) ∧ Balanced q t ∧
    (Along step Forced (start q) ls → t.Ended → ∃ id k ids, t.queue = some id ∧
      t.server k = ⟨.exited .success, List.map Line.removed ids ++ [.created id]⟩) := by
  have hreach : Reachable step (start q) t := ⟨ls, h⟩
  refine ⟨⟨?_, not_enabled_iff⟩, ?_, ?_, ?_⟩
  · have hlen := exec_length_add_le (I := fun _ => True) (μ := State.work)
      (fun _ _ _ _ _ => trivial) (fun _ _ _ _ hstep => step_work hstep) trivial h
    have hstart := start_work (κ := κ) q
    omega
  · exact hreach.invariant (I := fun s => ∀ k, (s.server k).Consistent)
      (fun _ _ _ hs hstep => step_consistent hs hstep) (start_consistent q)
  · exact hreach.invariant (fun _ _ _ hs hstep => step_balanced hs hstep)
      (start_balanced q)
  · intro hforced hended
    have hsane := (invariant_along
      (I := fun s => Sane q s ∧ ∀ k, (s.server k).Consistent)
      (fun _ _ _ hs hC hstep =>
        ⟨step_sane hs.1 hs.2 hC hstep, step_consistent hs.2 hstep⟩)
      ⟨start_sane q, start_consistent q⟩ hforced h).1
    cases hqueue : t.queue with
    | none =>
        rcases hsane.waiting hqueue with ⟨k, hk⟩
        have hk' := hended k
        rcases hk with hk | hk
        · simp [hk, Pc.Ended] at hk'
        · simp [hk, Pc.Ended] at hk'
    | some id =>
        rcases hsane.origin id hqueue with ⟨_, hall⟩ | ⟨k, ids, hk⟩
        · exact absurd (hended (Classical.arbitrary κ)) (hall _).1
        · exact ⟨id, k, ids, rfl, hk⟩

/-- Two servers find queue 7.  The one removes it and makes queue 9; the other one does
not find queue 7 any more. -/
def racing : List (Bool × Answer) :=
  [(false, .ok), (false, .err EEXIST), (false, .ok), (true, .ok), (true, .err EEXIST),
    (true, .ok), (false, .ok), (false, .made 9), (true, .err 22)]

theorem made_balances_removed_racing :
    ∃ t : State Bool, exec step (start (some 7)) racing = some t ∧
    (t.server true).pc = .exited .failure ∧ Balanced (some 7) t ∧
    ∃ id k ids, t.queue = some id ∧
      t.server k = ⟨.exited .success, List.map Line.removed ids ++ [.created id]⟩ := by
  rcases exists_exec step (fun t : State Bool =>
    (t.server false).pc = .exited .success ∧ (t.server true).pc = .exited .failure)
    (start (some 7)) racing (by decide) with ⟨t, ht, hone, hother⟩
  have hended : t.Ended := by
    intro k
    cases k with
    | false => rw [hone]; trivial
    | true => rw [hother]; trivial
  have hrun := made_balances_removed ht
  exact ⟨t, ht, hother, hrun.2.2.1, hrun.2.2.2 (by decide) hended⟩

end Lpi.Ports.SvmsgDemoServer
