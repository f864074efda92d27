import Lpi.Ports.MqNotifySigRearm
import Lpi.Ports.MqNotifyThreadTokens

/-!
# Messages that nobody will read

A notification is sent for a message that arrives on an *empty* queue.
Messages that are there when the program registers for the first time raise
none, and neither do those that arrive behind them: both programs then go to
sleep over a queue that will never wake them.

`no_message_overlooked` says that this is the only way: a run meets such a
state exactly when the first registration finds messages on the queue.
Neither program reads the queue between its first registration and its first
sleep, which is what the loops do later on.
-/

namespace Lpi.Ports.MqNotifySig

open Lpi.Verified.PosixQueue
open Lpi.Verified.Run

/-- Suspended without a pending signal, over messages. -/
def Overlooked (s : State) : Prop :=
  s.pc = .suspend ∧ s.pending = false ∧ s.queue.msgs ≠ []

instance (s : State) : Decidable (Overlooked s) :=
  inferInstanceAs (Decidable (_ ∧ _ ∧ _))

/-- The program registers for the first time over messages that are already
there. -/
def registersLoaded (s : State) : Label → Bool
  | .program .ok => s.pc = .register && !s.queue.msgs.isEmpty
  | _ => false

/-- The invariant, until the program gives up. -/
def InvOrOver (s : State) : Prop := Inv s ∨ ∃ failure, s.pc = .exited failure

theorem InvOrOver.not_overlooked {s : State} (h : InvOrOver s) :
    ¬ Overlooked s := by
  rintro ⟨hpc, hpending, hmsgs⟩
  rcases h with h | ⟨failure, hover⟩
  · exact hmsgs (h.drained hpc hpending)
  · rw [hpc] at hover
    cases hover

theorem InvOrOver.next {maxmsg : Nat} {s t : State} {l : Label}
    (h : InvOrOver s) (hl : ¬ registersLoaded s l = true)
    (hstep : step maxmsg s l = some t) : InvOrOver t := by
  rcases h with h | ⟨failure, hover⟩
  · by_cases hfirst : registersEmpty s l = true
    · exact Or.inl (h.next hfirst hstep)
    · -- Messages on the queue at the first `mq_notify`, which then fails.
      cases l with
      | send prio data => exact absurd rfl hfirst
      | program a =>
          simp only [registersEmpty, Bool.or_eq_true, decide_eq_true_eq,
            List.isEmpty_iff, not_or, not_not] at hfirst
          obtain ⟨hpc, hmsgs⟩ := hfirst
          cases a with
          | ok => exact absurd (by simp [registersLoaded, hpc, hmsgs]) hl
          | count n => simp [step, programStep, hpc] at hstep
          | err =>
              simp only [step, programStep, hpc, Option.some.injEq] at hstep
              exact Or.inr ⟨.mqNotify, by rw [← hstep]⟩
  · right
    cases l with
    | send prio data =>
        simp only [step, sendStep, Option.ite_none_right_eq_some,
          Option.some.injEq] at hstep
        obtain ⟨_, rfl⟩ := hstep
        exact ⟨failure, hover⟩
    | program a => cases a <;> simp [step, programStep, hover] at hstep

theorem overlooked_of_registersLoaded {maxmsg : Nat} {s t : State} {l : Label}
    (h : InvOrOver s) (hl : registersLoaded s l = true)
    (hstep : step maxmsg s l = some t) : Overlooked t := by
  cases l with
  | send prio data => cases hl
  | program a =>
      cases a with
      | count n => cases hl
      | err => cases hl
      | ok =>
          simp only [registersLoaded, Bool.and_eq_true, decide_eq_true_eq,
            Bool.not_eq_true', List.isEmpty_eq_false_iff] at hl
          obtain ⟨hpc, hmsgs⟩ := hl
          rcases h with h | ⟨failure, hover⟩
          · have harmed := h.armed
            rw [hpc] at harmed
            simp only [step, programStep, hpc, mqNotify, harmed.1,
              Bool.false_eq_true, if_false, Option.some.injEq] at hstep
            subst hstep
            exact ⟨rfl, harmed.2, hmsgs⟩
          · rw [hpc] at hover
            cases hover

end Lpi.Ports.MqNotifySig

namespace Lpi.Ports.MqNotifyIdle

open Lpi.Verified.PosixQueue
open Lpi.Verified.Run

/-- **When a message is overlooked.**  For both programs, every content of
the queue at the start and every run: no state of the run has the program
idle over messages if and only if no step of the run is a first registration
over messages. -/
theorem no_message_overlooked (maxmsg : Nat) (msgs : List Msg) :
    (∀ ls s, exec (MqNotifySig.step maxmsg) (MqNotifySig.start msgs) ls = some s →
      (Throughout (MqNotifySig.step maxmsg) (fun s => ¬ MqNotifySig.Overlooked s)
          (MqNotifySig.start msgs) ls ↔
        Along (MqNotifySig.step maxmsg)
          (fun s l => ¬ MqNotifySig.registersLoaded s l = true)
          (MqNotifySig.start msgs) ls)) ∧
    (∀ ls s, exec (MqNotifyThread.step maxmsg) (MqNotifyThread.start msgs) ls =
        some s →
      (Throughout (MqNotifyThread.step maxmsg)
          (fun s => ¬ MqNotifyThread.Overlooked s)
          (MqNotifyThread.start msgs) ls ↔
        Along (MqNotifyThread.step maxmsg)
          (fun s l => ¬ MqNotifyThread.registersLoaded s l = true)
          (MqNotifyThread.start msgs) ls)) := by
  constructor
  · intro ls s hrun
    exact throughout_iff_along (I := MqNotifySig.InvOrOver)
      (fun _ _ _ h hl hstep => h.next hl hstep)
      (fun _ h => h.not_overlooked)
      (fun _ _ _ h hl hstep =>
        MqNotifySig.overlooked_of_registersLoaded h hl hstep)
      (Or.inl (MqNotifySig.start_inv msgs)) hrun
  · intro ls s hrun
    exact throughout_iff_along (I := MqNotifyThread.InvAttended)
      (fun _ _ _ h hl hstep =>
        ⟨h.1.next hstep, MqNotifyThread.Attended.next h.1 h.2 hl hstep⟩)
      (fun _ h => h.not_overlooked)
      (fun _ _ _ h hl hstep =>
        MqNotifyThread.overlooked_of_registersLoaded h hl hstep)
      ⟨MqNotifyThread.start_inv msgs, nofun⟩ hrun

theorem no_message_overlooked_from_empty :
    Throughout (MqNotifySig.step 10) (fun s => ¬ MqNotifySig.Overlooked s)
      (MqNotifySig.start []) MqNotifySig.threeMessages ∧
    Throughout (MqNotifyThread.step 10) (fun s => ¬ MqNotifyThread.Overlooked s)
      (MqNotifyThread.start []) MqNotifyThread.twoThreads := by
  obtain ⟨hsig, hthread⟩ := no_message_overlooked 10 []
  obtain ⟨s, hs, _⟩ := exists_exec (MqNotifySig.step 10) (fun _ => True)
    (MqNotifySig.start []) MqNotifySig.threeMessages (by decide)
  obtain ⟨t, ht, _⟩ := exists_exec (MqNotifyThread.step 10) (fun _ => True)
    (MqNotifyThread.start []) MqNotifyThread.twoThreads (by decide)
  exact ⟨(hsig _ s hs).2 (by decide), (hthread _ t ht).2 (by decide)⟩

/-- One message on the queue when the programs start: both register and sleep
over it, and a second message does not wake them. -/
theorem message_overlooked :
    (∃ s, exec (MqNotifySig.step 10) (MqNotifySig.start [⟨0, 0, [1]⟩])
        [.program .ok, .send 0 [2]] = some s ∧ MqNotifySig.Overlooked s) ∧
    (∃ s, exec (MqNotifyThread.step 10) (MqNotifyThread.start [⟨0, 0, [1]⟩])
        [.main .ok, .send 0 [2]] = some s ∧ MqNotifyThread.Overlooked s) :=
  ⟨exists_exec _ _ _ _ (by decide), exists_exec _ _ _ _ (by decide)⟩

end Lpi.Ports.MqNotifyIdle
