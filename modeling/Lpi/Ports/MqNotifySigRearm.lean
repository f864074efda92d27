import Lpi.Ports.MqNotifySig
import Lpi.Verified.Run

/-!
# Re-arming the notification

The registration is used up by one message, and the program registers again
before it reads: what it then reads may include messages that came before the
registration, but a message that comes after the queue has been found empty
is notified.  So outside the short time between the signal and the second
`mq_notify` the queue is registered or a signal is pending, never both
(`Armed`), and the program sleeps without a signal only over an empty queue.

All this rests on the queue being empty when the program registers for the
first time.
-/

namespace Lpi.Ports.MqNotifySig

open Lpi.Verified.PosixQueue
open Lpi.Verified.Run

/-- The message the program has taken from the queue and not yet written. -/
def Pc.inHand : Pc → List Msg
  | .write m | .exited (.write m) => [m]
  | _ => []

/-- Registration and signal at each place of the program. -/
def Armed : Pc → Bool → Bool → Prop
  | .register, registered, pending | .notify, registered, pending =>
      registered = false ∧ pending = false
  | .suspend, registered, pending | .receive, registered, pending
  | .write _, registered, pending | .newline, registered, pending =>
      (registered ^^ pending) = true
  | .exited failure, _, _ => failure ≠ .ebusy

structure Inv (s : State) : Prop where
  armed : Armed s.pc s.queue.registered s.pending
  drained : s.pc = .suspend → s.pending = false → s.queue.msgs = []
  account : (s.written ++ s.pc.inHand ++ s.queue.msgs).Perm s.sent
  untouched : s.pc = .register → s.written = []
  numbered : s.pc ≠ .register → s.sent.map Msg.id = List.range s.sent.length

theorem start_inv (msgs : List Msg) : Inv (start msgs) where
  armed := ⟨rfl, rfl⟩
  drained := nofun
  account := List.Perm.refl _
  untouched := fun _ => rfl
  numbered := fun hpc => absurd rfl hpc

/-- The program calls its first `mq_notify` on an empty queue. -/
def registersEmpty (s : State) : Label → Bool
  | .program _ => s.pc ≠ .register || s.queue.msgs.isEmpty
  | .send _ _ => true

/-! ## Senders -/

/-- A message ends the registration exactly when it raises the signal. -/
theorem Armed.arrive {pc : Pc} {q : Queue} {pending : Bool} (m : Msg)
    (h : Armed pc q.registered pending) :
    Armed pc (q.arrive m).1.registered (pending || (q.arrive m).2) := by
  have hbit := registered_arrive q m
  -- Without a registration nothing happens; with one, no signal is pending.
  have hidle : q.registered = false → (q.arrive m).2 = false ∧
      (q.arrive m).1.registered = false := by
    intro hreg
    have hquiet : (q.arrive m).2 = false := by
      by_contra hnotifies
      rw [registered_of_notifies (Bool.not_eq_false _ ▸ hnotifies)] at hreg
      cases hreg
    rw [hquiet, hreg, Bool.xor_false] at hbit
    exact ⟨hquiet, hbit⟩
  have hexclusive : (q.registered ^^ pending) = true →
      ((q.arrive m).1.registered ^^ (pending || (q.arrive m).2)) = true := by
    intro hxor
    cases hreg : q.registered with
    | false =>
        obtain ⟨hquiet, hreg'⟩ := hidle hreg
        rw [hreg] at hxor
        rw [hquiet, hreg', Bool.or_false]
        exact hxor
    | true =>
        have hpending : pending = false := by
          rw [hreg] at hxor
          simpa using hxor
        rw [hpending, Bool.false_or, hbit, hreg]
  cases pc with
  | register | notify =>
      obtain ⟨hreg, hpending⟩ := h
      obtain ⟨hquiet, hreg'⟩ := hidle hreg
      exact ⟨hreg', by rw [hpending, hquiet]; rfl⟩
  | suspend | receive | write m | newline => exact hexclusive h
  | exited failure => exact h

theorem Inv.send_step {maxmsg : Nat} {s t : State} (h : Inv s) {prio : Nat}
    {data : List UInt8} (hstep : sendStep maxmsg s prio data = some t) :
    Inv t := by
  simp only [sendStep, Option.ite_none_right_eq_some,
    Option.some.injEq] at hstep
  obtain ⟨_, rfl⟩ := hstep
  refine
    { armed := h.armed.arrive _
      drained := ?_
      account := ?_
      untouched := h.untouched
      numbered := ?_ }
  · intro hpc hpending
    simp only [Bool.or_eq_false_iff] at hpending
    have harmed := h.armed
    rw [show s.pc = .suspend from hpc, hpending.1] at harmed
    have hreg : s.queue.registered = true := by simpa [Armed] using harmed
    -- The program sleeps over an empty queue, and would have been told.
    have hnotifies := notifies_of_empty (m := ⟨s.sent.length, prio, data⟩)
      hreg (h.drained hpc hpending.1)
    rw [hpending.2] at hnotifies
    cases hnotifies
  · have henqueue := (perm_enqueue ⟨s.sent.length, prio, data⟩
      s.queue.msgs).append_left (s.written ++ s.pc.inHand)
    have hmiddle : (s.written ++ s.pc.inHand ++
        (⟨s.sent.length, prio, data⟩ :: s.queue.msgs)).Perm
        (⟨s.sent.length, prio, data⟩ ::
          (s.written ++ s.pc.inHand ++ s.queue.msgs)) :=
      List.perm_middle
    have hlast := (h.account.cons ⟨s.sent.length, prio, data⟩).trans
      (List.perm_append_singleton _ s.sent).symm
    exact henqueue.trans (hmiddle.trans hlast)
  · intro hpc
    show (s.sent ++ [_]).map Msg.id = List.range (s.sent ++ [_]).length
    rw [List.map_append, h.numbered hpc, List.length_append,
      List.length_singleton, List.range_succ]
    rfl

/-! ## The program -/

theorem Inv.sent_eq_nil {s : State} (h : Inv s) (hpc : s.pc = .register)
    (hempty : s.queue.msgs = []) : s.sent = [] := by
  have haccount := h.account
  rw [h.untouched hpc, hpc, hempty] at haccount
  exact haccount.symm.eq_nil

/-- The first registration. -/
theorem Inv.register {s : State} (h : Inv s) (hpc : s.pc = .register)
    (hempty : s.queue.msgs = []) : Inv (mqNotify s .suspend) := by
  have harmed := h.armed
  rw [hpc] at harmed
  have hnothing := h.sent_eq_nil hpc hempty
  simp only [mqNotify, harmed.1, Bool.false_eq_true, if_false]
  refine
    { armed := ?_
      drained := fun _ _ => hempty
      account := ?_
      untouched := nofun
      numbered := fun _ => by rw [hnothing]; rfl }
  · show (true ^^ s.pending) = true
    rw [harmed.2]
    rfl
  · have haccount := h.account
    rw [hpc] at haccount
    exact haccount

/-- The registration in the loop finds the old one used up. -/
theorem Inv.rearm {s : State} (h : Inv s) (hpc : s.pc = .notify) :
    Inv (mqNotify s .receive) := by
  have harmed := h.armed
  have haccount := h.account
  rw [hpc] at harmed haccount
  simp only [mqNotify, harmed.1, Bool.false_eq_true, if_false]
  refine
    { armed := ?_
      drained := nofun
      account := haccount
      untouched := nofun
      numbered := fun _ => h.numbered (by rw [hpc]; exact nofun) }
  show (true ^^ s.pending) = true
  rw [harmed.2]
  rfl

/-- The program moves on without touching the queue. -/
theorem Inv.moves {s : State} (h : Inv s) {pc : Pc} (hpc : s.pc ≠ .register)
    (hpc' : pc ≠ .register) (hinHand : pc.inHand = s.pc.inHand)
    (harmed : Armed pc s.queue.registered s.pending)
    (hdrained : pc = .suspend → s.pending = false → s.queue.msgs = []) :
    Inv { s with pc := pc } where
  armed := harmed
  drained := hdrained
  account := by
    show (s.written ++ pc.inHand ++ s.queue.msgs).Perm s.sent
    rw [hinHand]
    exact h.account
  untouched := fun hregister => absurd hregister hpc'
  numbered := fun _ => h.numbered hpc

theorem Inv.program_ok {s t : State} (h : Inv s)
    (hempty : s.pc = .register → s.queue.msgs = [])
    (hstep : programStep s .ok = some t) : Inv t := by
  have harmed := h.armed
  cases hpc : s.pc with
  | register =>
      simp only [programStep, hpc, Option.some.injEq] at hstep
      exact hstep ▸ h.register hpc (hempty hpc)
  | suspend =>
      simp only [programStep, hpc, Option.ite_none_right_eq_some,
        Option.some.injEq] at hstep
      obtain ⟨hpending, rfl⟩ := hstep
      have haccount := h.account
      rw [hpc] at harmed haccount
      refine
        { armed := ⟨?_, rfl⟩
          drained := nofun
          account := haccount
          untouched := nofun
          numbered := fun _ => h.numbered (by rw [hpc]; exact nofun) }
      rw [hpending] at harmed
      simpa [Armed] using harmed
  | notify =>
      simp only [programStep, hpc, Option.some.injEq] at hstep
      exact hstep ▸ h.rearm hpc
  | receive =>
      rw [hpc] at harmed
      cases hmsgs : s.queue.msgs with
      | nil =>
          simp only [programStep, hpc, hmsgs, Option.some.injEq] at hstep
          subst hstep
          apply h.moves
          · rw [hpc]
            exact nofun
          · exact nofun
          · rw [hpc]
            rfl
          · exact harmed
          · exact fun _ _ => hmsgs
      | cons m rest =>
          simp only [programStep, hpc, hmsgs, Option.some.injEq] at hstep
          subst hstep
          have haccount := h.account
          rw [hpc, hmsgs] at haccount
          refine
            { armed := harmed
              drained := nofun
              account := ?_
              untouched := nofun
              numbered := fun _ => h.numbered (by rw [hpc]; exact nofun) }
          simpa [Pc.inHand] using haccount
  | newline =>
      simp only [programStep, hpc, Option.some.injEq] at hstep
      subst hstep
      rw [hpc] at harmed
      apply h.moves
      · rw [hpc]
        exact nofun
      · exact nofun
      · rw [hpc]
        rfl
      · exact harmed
      · exact nofun
  | write m | exited failure => simp [programStep, hpc] at hstep

theorem Inv.program_count {s t : State} (h : Inv s) {n : Nat}
    (hstep : programStep s (.count n) = some t) : Inv t := by
  have harmed := h.armed
  cases hpc : s.pc with
  | write m =>
      rw [hpc] at harmed
      simp only [programStep, hpc] at hstep
      split at hstep
      · cases hstep
        apply h.moves
        · rw [hpc]
          exact nofun
        · exact nofun
        · rw [hpc]
          rfl
        · exact nofun
        · exact nofun
      · simp only [Option.ite_none_right_eq_some, Option.some.injEq] at hstep
        obtain ⟨_, rfl⟩ := hstep
        have haccount := h.account
        rw [hpc] at haccount
        refine
          { armed := harmed
            drained := nofun
            account := ?_
            untouched := nofun
            numbered := fun _ => h.numbered (by rw [hpc]; exact nofun) }
        simpa [Pc.inHand] using haccount
  | register | suspend | notify | receive | newline | exited failure =>
      simp [programStep, hpc] at hstep

/-- A failure other than `EBUSY` is the end of the program. -/
theorem Inv.gives_up {s : State} (h : Inv s)
    (hempty : s.pc = .register → s.queue.msgs = []) {failure : Failure}
    (hfailure : failure ≠ .ebusy)
    (hinHand : (Pc.exited failure).inHand = s.pc.inHand) :
    Inv { s with pc := .exited failure } := by
  by_cases hpc : s.pc = .register
  · have haccount := h.account
    rw [← hinHand] at haccount
    refine
      { armed := hfailure
        drained := nofun
        account := haccount
        untouched := nofun
        numbered := ?_ }
    intro _
    show s.sent.map Msg.id = List.range s.sent.length
    rw [h.sent_eq_nil hpc (hempty hpc)]
    rfl
  · exact h.moves hpc nofun hinHand hfailure nofun

theorem Inv.program_err {s t : State} (h : Inv s)
    (hempty : s.pc = .register → s.queue.msgs = [])
    (hstep : programStep s .err = some t) : Inv t := by
  cases hpc : s.pc with
  | register | suspend | notify | receive | write m =>
      simp only [programStep, hpc, Option.some.injEq] at hstep
      rw [← hstep]
      apply h.gives_up hempty
      · exact nofun
      · rw [hpc]
        rfl
  | newline =>
      simp only [programStep, hpc, Option.some.injEq] at hstep
      rw [← hstep]
      have harmed := h.armed
      rw [hpc] at harmed
      apply h.moves
      · rw [hpc]
        exact nofun
      · exact nofun
      · rw [hpc]
        rfl
      · exact harmed
      · exact nofun
  | exited failure => simp [programStep, hpc] at hstep

/-! ## Whole runs -/

theorem Inv.next {maxmsg : Nat} {s t : State} {l : Label} (h : Inv s)
    (hfirst : registersEmpty s l = true) (hstep : step maxmsg s l = some t) :
    Inv t := by
  cases l with
  | send prio data => exact h.send_step hstep
  | program a =>
      have hempty : s.pc = .register → s.queue.msgs = [] := by
        intro hpc
        simpa [registersEmpty, hpc] using hfirst
      cases a with
      | ok => exact h.program_ok hempty hstep
      | count n => exact h.program_count hstep
      | err => exact h.program_err hempty hstep

theorem inv_of_empty {maxmsg : Nat} {msgs : List Msg} {ls : List Label}
    {s : State}
    (hfirst : Along (step maxmsg) (fun s l => registersEmpty s l = true)
      (start msgs) ls)
    (hrun : exec (step maxmsg) (start msgs) ls = some s) : Inv s :=
  invariant_along (fun _ _ _ hI hC hstep => Inv.next hI hC hstep)
    (start_inv msgs) hfirst hrun

/-- No message is written twice. -/
theorem Inv.written_nodup {s : State} (h : Inv s) : s.written.Nodup := by
  by_cases hpc : s.pc = .register
  · rw [h.untouched hpc]
    exact List.nodup_nil
  · have hsent : s.sent.Nodup := by
      apply List.Nodup.of_map Msg.id
      rw [h.numbered hpc]
      exact List.nodup_range
    have hall := h.account.nodup_iff.2 hsent
    rw [List.append_assoc] at hall
    exact (List.nodup_append.1 hall).1

theorem Inv.written_subset {s : State} (h : Inv s) : s.written ⊆ s.sent := by
  intro m hm
  apply h.account.subset
  rw [List.append_assoc]
  exact List.mem_append_left _ hm

/-- **Re-arming.**  In every run in which the queue is empty when the program
registers for the first time, whatever the senders do: where the program
suspends itself, exactly one of registration and pending signal is there; the
`mq_notify` of the loop never finds the queue registered; a program suspended
without a signal has an empty queue; and no message is written twice or was
never sent, and all are written when the program is suspended without a
signal. -/
theorem notification_rearmed (maxmsg : Nat) (msgs : List Msg)
    (ls : List Label) (s : State)
    (hfirst : Along (step maxmsg) (fun s l => registersEmpty s l = true)
      (start msgs) ls)
    (hrun : exec (step maxmsg) (start msgs) ls = some s) :
    (s.pc = .suspend → (s.queue.registered ^^ s.pending) = true) ∧
    (s.pc = .notify → s.queue.registered = false) ∧
    s.pc ≠ .exited .ebusy ∧
    (s.pc = .suspend → s.pending = false → s.queue.msgs = []) ∧
    s.written.Nodup ∧ s.written ⊆ s.sent ∧
    (s.pc = .suspend → s.pending = false → ∀ m ∈ s.sent, m ∈ s.written) := by
  have h := inv_of_empty hfirst hrun
  have harmed := h.armed
  refine ⟨?_, ?_, ?_, h.drained, h.written_nodup, h.written_subset, ?_⟩
  · intro hpc
    rw [hpc] at harmed
    exact harmed
  · intro hpc
    rw [hpc] at harmed
    exact harmed.1
  · intro hpc
    rw [hpc] at harmed
    exact harmed rfl
  · intro hpc hpending m hm
    have hmem := h.account.symm.subset hm
    rw [h.drained hpc hpending, hpc] at hmem
    simpa [Pc.inHand] using hmem

/-- Three messages: one on the empty queue, one before the program registers
again, and one while it drains the queue. -/
def threeMessages : List Label :=
  [.program .ok, .send 0 [1], .program .ok, .send 5 [2], .program .ok,
    .program .ok, .program (.count 1), .program .ok, .program .ok,
    .program (.count 1), .send 0 [3], .program .ok, .program .ok,
    .program (.count 1), .program .err, .program .ok, .program .ok,
    .program .ok, .program .ok]

theorem notification_rearmed_three_messages :
    ∃ s, exec (step 10) (start []) threeMessages = some s ∧
      s.pc = .suspend ∧ s.pending = false ∧ s.sent.length = 3 ∧
      ∀ m ∈ s.sent, m ∈ s.written := by
  obtain ⟨s, hs, hpc, hpending, hsent⟩ := exists_exec (step 10)
    (fun s => s.pc = .suspend ∧ s.pending = false ∧ s.sent.length = 3)
    (start []) threeMessages (by decide)
  have hrearmed := notification_rearmed 10 [] threeMessages s (by decide) hs
  exact ⟨s, hs, hpc, hpending, hsent,
    hrearmed.2.2.2.2.2.2 hpc hpending⟩

end Lpi.Ports.MqNotifySig
