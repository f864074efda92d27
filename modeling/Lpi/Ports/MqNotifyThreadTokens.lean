import Lpi.Ports.MqNotifyThread
import Lpi.Verified.Run
import Lpi.Verified.Tally

/-!
# One registration for all notification threads

A registration is a token: a message on the empty queue turns it into a
notification, this into a thread, and the thread's `notifySetup` back into a
registration.  `main` makes one token, and nobody makes another, however many
threads are reading at the time (`Inv.tokens`).  So no `notifySetup` finds
the queue registered.

Whoever has the token has not read since: a message on an empty queue always
finds a reader on its way (`Attended`).  Only a queue that was not empty when
`main` registered may have none.
-/

namespace Lpi.Ports.MqNotifyThread

open Lpi.Verified.PosixQueue
open Lpi.Verified.Run
open Lpi.Verified.Tally

/-- Registration, notifications, and threads that will register. -/
def State.tokens (s : State) : Nat :=
  s.queue.registered.toNat + s.notifications +
    s.threads.countP ThreadPc.unarmed

/-- The tokens made so far. -/
def MainPc.made : MainPc → Nat
  | .notifySetup => 0
  | .pause => 1

structure Inv (s : State) : Prop where
  tokens : s.tokens = s.main.made
  notBusy : s.exited ≠ some .ebusy
  account : (s.received ++ s.queue.msgs).Perm s.sent
  quiet : s.main = .notifySetup → s.threads = []

/-- A message on the queue has a reader on its way. -/
def Attended (s : State) : Prop :=
  s.queue.msgs ≠ [] → 0 < s.notifications ∨
    ∃ pc ∈ s.threads, ThreadPc.draining pc = true

theorem start_inv (msgs : List Msg) : Inv (start msgs) where
  tokens := rfl
  notBusy := nofun
  account := List.Perm.refl _
  quiet := fun _ => rfl

/-! ## What a step can do -/

theorem draining_of_unarmed {pc : ThreadPc} (h : pc.unarmed = true) :
    pc.draining = true := by
  cases pc <;> first | rfl | cases h

/-- A thread ends the process, moves on, registers, or takes a message. -/
theorem threadFunc_cases {s t : State} {i : Nat} {pc : ThreadPc} {a : Answer}
    (h : threadFunc s i pc a = some t) :
    (∃ failure out, failure ≠ .ebusy ∧
      t = { s with stdout := out }.exit failure) ∨
    (∃ pc' out, pc'.unarmed = pc.unarmed ∧
      (pc'.draining = pc.draining ∨ s.queue.msgs = []) ∧
      t = { s.setThread i pc' with stdout := out }) ∨
    (pc = .notifySetup ∧ notifySetup s (s.setThread i .receive) .ok = some t) ∨
    (∃ m rest, pc = .receive ∧ s.queue.msgs = m :: rest ∧
      t = { s.setThread i (.write m) with
            queue := { s.queue with msgs := rest }
            received := s.received ++ [m] }) := by
  have hexit : ∀ failure, failure ≠ .ebusy → some (s.exit failure) = some t →
      ∃ failure out, failure ≠ .ebusy ∧
        t = { s with stdout := out }.exit failure := by
    intro failure hfailure ht
    exact ⟨failure, s.stdout, hfailure, (Option.some.inj ht).symm⟩
  have hmoves : ∀ pc', pc'.unarmed = pc.unarmed →
      (pc'.draining = pc.draining ∨ s.queue.msgs = []) →
      some (s.setThread i pc') = some t →
      ∃ pc' out, pc'.unarmed = pc.unarmed ∧
        (pc'.draining = pc.draining ∨ s.queue.msgs = []) ∧
        t = { s.setThread i pc' with stdout := out } := by
    intro pc' hunarmed hdraining ht
    exact ⟨pc', s.stdout, hunarmed, hdraining, (Option.some.inj ht).symm⟩
  cases pc with
  | getattr =>
      cases a with
      | ok => exact Or.inr (Or.inl (hmoves .malloc rfl (Or.inl rfl) h))
      | err => exact Or.inl (hexit .mqGetattr nofun h)
      | count n => cases h
  | malloc =>
      cases a with
      | ok => exact Or.inr (Or.inl (hmoves .notifySetup rfl (Or.inl rfl) h))
      | err => exact Or.inl (hexit .malloc nofun h)
      | count n => cases h
  | notifySetup =>
      cases a with
      | ok => exact Or.inr (Or.inr (Or.inl ⟨rfl, h⟩))
      | err => exact Or.inl (hexit .mqNotify nofun h)
      | count n => cases h
  | receive =>
      cases a with
      | ok =>
          cases hmsgs : s.queue.msgs with
          | nil =>
              simp only [threadFunc, hmsgs] at h
              exact Or.inr (Or.inl (hmsgs ▸ hmoves .free rfl (Or.inr hmsgs) h))
          | cons m rest =>
              simp only [threadFunc, hmsgs, Option.some.injEq] at h
              exact Or.inr (Or.inr (Or.inr ⟨m, rest, rfl, rfl, h.symm⟩))
      | err => exact Or.inl (hexit .mqReceive nofun h)
      | count n => cases h
  | write m =>
      cases a with
      | ok => cases h
      | err => exact Or.inl (hexit .write nofun h)
      | count n =>
          simp only [threadFunc] at h
          split at h
          · exact Or.inl ⟨.write, _, nofun, (Option.some.inj h).symm⟩
          · simp only [Option.ite_none_right_eq_some, Option.some.injEq] at h
            exact Or.inr (Or.inl ⟨.newline, _, rfl, Or.inl rfl, h.2.symm⟩)
  | newline =>
      cases a with
      | ok =>
          exact Or.inr (Or.inl
            ⟨.receive, _, rfl, Or.inl rfl, (Option.some.inj h).symm⟩)
      | err => exact Or.inr (Or.inl (hmoves .receive rfl (Or.inl rfl) h))
      | count n => cases h
  | free =>
      cases a with
      | ok => exact Or.inr (Or.inl (hmoves .returned rfl (Or.inl rfl) h))
      | err | count n => cases h
  | returned => cases a <;> cases h

/-- A registration that goes through found no other. -/
theorem notifySetup_ok {s next t : State} (hfree : s.queue.registered = false)
    (h : notifySetup s next .ok = some t) :
    t = { next with queue := { next.queue with registered := true } } := by
  simp only [notifySetup, hfree, Bool.false_eq_true, if_false,
    Option.some.injEq] at h
  exact h.symm

/-- The token of a thread that will register is not a registration. -/
theorem Inv.free_of_unarmed {s : State} (h : Inv s) {i : Nat} {pc : ThreadPc}
    (hpc : s.threads[i]? = some pc) (hunarmed : pc.unarmed = true) :
    s.queue.registered = false := by
  have hcount : 0 < s.threads.countP ThreadPc.unarmed :=
    List.countP_pos_iff.2 ⟨pc, List.mem_of_getElem? hpc, hunarmed⟩
  have htokens := h.tokens
  have hmade : s.main.made ≤ 1 := by cases s.main <;> decide
  unfold State.tokens at htokens
  cases hreg : s.queue.registered with
  | false => rfl
  | true =>
      rw [hreg, Bool.toNat_true] at htokens
      omega

/-! ## The tokens -/

theorem Inv.send_step {maxmsg : Nat} {s t : State} (h : Inv s) {prio : Nat}
    {data : List UInt8} (hstep : sendStep maxmsg s prio data = some t) :
    Inv t := by
  simp only [sendStep, Option.ite_none_right_eq_some,
    Option.some.injEq] at hstep
  obtain ⟨_, rfl⟩ := hstep
  generalize hm : (⟨s.sent.length, prio, data⟩ : Msg) = m
  refine
    { tokens := ?_
      notBusy := h.notBusy
      account := ?_
      quiet := h.quiet }
  · have htokens := h.tokens
    have hbit : (s.queue.arrive m).1.registered.toNat +
        (s.queue.arrive m).2.toNat = s.queue.registered.toNat := by
      cases hreg : s.queue.registered <;> cases hmsgs : s.queue.msgs <;>
        simp [Queue.arrive, hreg, hmsgs]
    unfold State.tokens at htokens ⊢
    show (s.queue.arrive m).1.registered.toNat +
      (s.notifications + (s.queue.arrive m).2.toNat) +
      s.threads.countP ThreadPc.unarmed = s.main.made
    omega
  · have hqueue : (s.received ++ enqueue m s.queue.msgs).Perm
        (s.received ++ m :: s.queue.msgs) :=
      (perm_enqueue m s.queue.msgs).append_left s.received
    have hfront : (s.received ++ m :: s.queue.msgs).Perm
        (m :: (s.received ++ s.queue.msgs)) := List.perm_middle
    have hlast : (m :: s.sent).Perm (s.sent ++ [m]) :=
      (List.perm_append_singleton m s.sent).symm
    exact hqueue.trans (hfront.trans ((h.account.cons m).trans hlast))

theorem Inv.main_step {s t : State} (h : Inv s) {a : Answer}
    (hstep : mainStep s a = some t) : Inv t := by
  have htokens := h.tokens
  cases hmain : s.main with
  | pause => simp [mainStep, hmain] at hstep
  | notifySetup =>
      rw [hmain] at htokens
      simp only [mainStep, hmain] at hstep
      cases a with
      | count n => cases hstep
      | err =>
          cases hstep
          exact ⟨h.tokens, nofun, h.account, h.quiet⟩
      | ok =>
          have hfree : s.queue.registered = false := by
            simp only [State.tokens, MainPc.made] at htokens
            cases hreg : s.queue.registered with
            | false => rfl
            | true =>
                rw [hreg, Bool.toNat_true] at htokens
                omega
          rw [notifySetup_ok hfree hstep]
          refine ⟨?_, h.notBusy, h.account, nofun⟩
          unfold State.tokens at htokens ⊢
          rw [hfree] at htokens
          show 1 + s.notifications + s.threads.countP ThreadPc.unarmed = 1
          simp only [Bool.toNat_false, MainPc.made] at htokens
          omega

theorem Inv.spawn {s : State} (h : Inv s) (hpos : s.notifications ≠ 0) :
    Inv { s with notifications := s.notifications - 1
                 threads := s.threads ++ [.getattr] } := by
  have htokens := h.tokens
  unfold State.tokens at htokens
  refine ⟨?_, h.notBusy, h.account, ?_⟩
  · have hcount : (s.threads ++ [ThreadPc.getattr]).countP ThreadPc.unarmed =
        s.threads.countP ThreadPc.unarmed + 1 := by
      rw [List.countP_append]
      rfl
    show s.queue.registered.toNat + (s.notifications - 1) +
      (s.threads ++ [ThreadPc.getattr]).countP ThreadPc.unarmed = s.main.made
    omega
  · -- A notification was raised, so `main` has registered.
    intro hmain
    rw [show s.main = .notifySetup from hmain, MainPc.made] at htokens
    omega

theorem Inv.thread_step {s t : State} (h : Inv s) {i : Nat} {pc : ThreadPc}
    {a : Answer} (hpc : s.threads[i]? = some pc)
    (hstep : threadFunc s i pc a = some t) : Inv t := by
  have htokens := h.tokens
  unfold State.tokens at htokens
  have hstarted : s.main ≠ .notifySetup := by
    intro hmain
    rw [h.quiet hmain] at hpc
    cases hpc
  rcases threadFunc_cases hstep with ⟨failure, out, hfailure, rfl⟩ |
    ⟨pc', out, hunarmed, _, rfl⟩ | ⟨rfl, hsetup⟩ | ⟨m, rest, rfl, hmsgs, rfl⟩
  · refine ⟨htokens, ?_, h.account, h.quiet⟩
    intro hbusy
    exact hfailure (Option.some.inj hbusy)
  · refine ⟨?_, h.notBusy, h.account, fun hmain => absurd hmain hstarted⟩
    have hcount := countP_set_add (p := ThreadPc.unarmed) (b := pc') hpc
    show s.queue.registered.toNat + s.notifications +
      (s.threads.set i pc').countP ThreadPc.unarmed = s.main.made
    rw [hunarmed] at hcount
    omega
  · have hfree := h.free_of_unarmed hpc rfl
    rw [notifySetup_ok hfree hsetup]
    refine ⟨?_, h.notBusy, h.account, fun hmain => absurd hmain hstarted⟩
    have hcount := countP_set_add (p := ThreadPc.unarmed)
      (b := ThreadPc.receive) hpc
    simp only [ThreadPc.unarmed, Bool.toNat_true, Bool.toNat_false] at hcount
    show 1 + s.notifications +
      (s.threads.set i .receive).countP ThreadPc.unarmed = s.main.made
    rw [hfree, Bool.toNat_false] at htokens
    omega
  · refine ⟨?_, h.notBusy, ?_, fun hmain => absurd hmain hstarted⟩
    · have hcount := countP_set_add (p := ThreadPc.unarmed)
        (b := ThreadPc.write m) hpc
      simp only [ThreadPc.unarmed, Bool.toNat_false] at hcount
      show s.queue.registered.toNat + s.notifications +
        (s.threads.set i (.write m)).countP ThreadPc.unarmed = s.main.made
      omega
    · have haccount := h.account
      rw [hmsgs] at haccount
      show ((s.received ++ [m]) ++ rest).Perm s.sent
      rw [List.append_assoc]
      exact haccount

theorem Inv.next {maxmsg : Nat} {s t : State} {l : Label} (h : Inv s)
    (hstep : step maxmsg s l = some t) : Inv t := by
  simp only [step, Option.ite_none_left_eq_some] at hstep
  obtain ⟨_, hstep⟩ := hstep
  cases l with
  | send prio data => exact h.send_step hstep
  | main a => exact h.main_step hstep
  | spawn =>
      simp only [Option.ite_none_left_eq_some, Option.some.injEq] at hstep
      exact hstep.2 ▸ h.spawn hstep.1
  | thread i a =>
      obtain ⟨pc, hpc, hstep⟩ := Option.bind_eq_some_iff.1 hstep
      exact h.thread_step hpc hstep

/-! ## Readers on their way -/

/-- A message that arrives on the empty queue finds the token, and with it a
reader. -/
theorem Attended.send_step {maxmsg : Nat} {s t : State} (hinv : Inv s)
    (h : Attended s) (hmain : s.main = .pause) {prio : Nat}
    {data : List UInt8} (hstep : sendStep maxmsg s prio data = some t) :
    Attended t := by
  simp only [sendStep, Option.ite_none_right_eq_some,
    Option.some.injEq] at hstep
  obtain ⟨_, rfl⟩ := hstep
  generalize hm : (⟨s.sent.length, prio, data⟩ : Msg) = m
  intro _
  show 0 < s.notifications + (s.queue.arrive m).2.toNat ∨
    ∃ pc ∈ s.threads, ThreadPc.draining pc = true
  by_cases hempty : s.queue.msgs = []
  · have htokens := hinv.tokens
    unfold State.tokens at htokens
    rw [hmain] at htokens
    cases hreg : s.queue.registered with
    | true =>
        left
        rw [notifies_of_empty hreg hempty, Bool.toNat_true]
        omega
    | false =>
        simp only [hreg, Bool.toNat_false, MainPc.made] at htokens
        by_cases hcount : 0 < s.threads.countP ThreadPc.unarmed
        · obtain ⟨pc, hpc, hunarmed⟩ := List.countP_pos_iff.1 hcount
          exact Or.inr ⟨pc, hpc, draining_of_unarmed hunarmed⟩
        · left
          omega
  · rcases h hempty with hpos | hreader
    · left
      omega
    · exact Or.inr hreader

theorem Attended.thread_step {s t : State} (hinv : Inv s) (h : Attended s)
    {i : Nat} {pc : ThreadPc} {a : Answer} (hpc : s.threads[i]? = some pc)
    (hstep : threadFunc s i pc a = some t) : Attended t := by
  have hlt : i < s.threads.length := (List.getElem?_eq_some_iff.1 hpc).1
  have hself : ∀ pc', pc' ∈ s.threads.set i pc' := fun pc' =>
    List.mem_set hlt pc'
  rcases threadFunc_cases hstep with ⟨failure, out, _, rfl⟩ |
    ⟨pc', out, _, hdraining, rfl⟩ | ⟨rfl, hsetup⟩ | ⟨m, rest, rfl, _, rfl⟩
  · exact h
  · intro hmsgs
    rcases hdraining with hdraining | hempty
    · rcases h hmsgs with hpos | ⟨reader, hreader, hreads⟩
      · exact Or.inl hpos
      · right
        cases hown : pc'.draining with
        | true => exact ⟨pc', hself pc', hown⟩
        | false =>
            -- The thread itself was no reader, so the reader is another one.
            have hne : reader ≠ pc := by
              rintro rfl
              rw [← hdraining, hown] at hreads
              cases hreads
            refine ⟨reader, ?_, hreads⟩
            obtain ⟨j, hj⟩ := List.mem_iff_getElem?.1 hreader
            have hji : i ≠ j := by
              rintro rfl
              rw [hpc, Option.some.injEq] at hj
              exact hne hj.symm
            apply List.mem_of_getElem? (i := j)
            show (s.threads.set i pc')[j]? = some reader
            rw [List.getElem?_set_ne hji]
            exact hj
    · exact absurd hempty hmsgs
  · rw [notifySetup_ok (hinv.free_of_unarmed hpc rfl) hsetup]
    exact fun _ => Or.inr ⟨.receive, hself .receive, rfl⟩
  · exact fun _ => Or.inr ⟨.write m, hself (.write m), rfl⟩

/-- `main` registers over messages that are already there. -/
def registersLoaded (s : State) : Label → Bool
  | .main .ok => s.main = .notifySetup && !s.queue.msgs.isEmpty
  | _ => false

theorem Attended.next {maxmsg : Nat} {s t : State} {l : Label} (hinv : Inv s)
    (h : s.main = .pause → Attended s) (hl : registersLoaded s l ≠ true)
    (hstep : step maxmsg s l = some t) (hmain : t.main = .pause) :
    Attended t := by
  simp only [step, Option.ite_none_left_eq_some] at hstep
  obtain ⟨_, hstep⟩ := hstep
  cases l with
  | send prio data =>
      have hpause : s.main = .pause := by
        simp only [sendStep, Option.ite_none_right_eq_some,
          Option.some.injEq] at hstep
        obtain ⟨_, rfl⟩ := hstep
        exact hmain
      exact (h hpause).send_step hinv hpause hstep
  | main a =>
      cases hsetup : s.main with
      | pause => simp [mainStep, hsetup] at hstep
      | notifySetup =>
          simp only [mainStep, hsetup] at hstep
          cases a with
          | count n => cases hstep
          | err =>
              cases hstep
              rw [State.exit, hsetup] at hmain
              cases hmain
          | ok =>
              have hempty : s.queue.msgs = [] := by
                simpa [registersLoaded, hsetup] using hl
              simp only [notifySetup] at hstep
              split at hstep
              · cases hstep
                exact fun hmsgs => absurd hempty hmsgs
              · cases hstep
                exact fun hmsgs => absurd hempty hmsgs
  | spawn =>
      simp only [Option.ite_none_left_eq_some, Option.some.injEq] at hstep
      obtain ⟨_, rfl⟩ := hstep
      exact fun _ => Or.inr ⟨.getattr, by simp, rfl⟩
  | thread i a =>
      obtain ⟨pc, hpc, hstep⟩ := Option.bind_eq_some_iff.1 hstep
      have hpause : s.main = .pause := by
        cases hsetup : s.main with
        | pause => rfl
        | notifySetup =>
            rw [hinv.quiet hsetup] at hpc
            cases hpc
      exact (h hpause).thread_step hinv hpc hstep

/-! ## Messages without a reader -/

/-- `main` pauses, no thread is to come, and none of those there is going to
read, but there are messages. -/
def Overlooked (s : State) : Prop :=
  s.exited = none ∧ s.main = .pause ∧ s.notifications = 0 ∧
    (∀ pc ∈ s.threads, ThreadPc.draining pc = false) ∧ s.queue.msgs ≠ []

instance (s : State) : Decidable (Overlooked s) :=
  inferInstanceAs (Decidable (_ ∧ _ ∧ _ ∧ _ ∧ _))

/-- The invariant with the readers. -/
def InvAttended (s : State) : Prop := Inv s ∧ (s.main = .pause → Attended s)

theorem Overlooked.not_attended {s : State} (h : Overlooked s) : ¬ Attended s := by
  intro hattended
  rcases h with ⟨_, _, hnone, hthreads, hmsgs⟩
  rcases hattended hmsgs with hpos | ⟨pc, hpc, hdraining⟩
  · omega
  · rw [hthreads pc hpc] at hdraining
    cases hdraining

theorem InvAttended.not_overlooked {s : State} (h : InvAttended s) : ¬ Overlooked s :=
  fun hover => hover.not_attended (h.2 hover.2.1)

theorem overlooked_of_registersLoaded {maxmsg : Nat} {s t : State} {l : Label}
    (h : InvAttended s) (hl : registersLoaded s l = true)
    (hstep : step maxmsg s l = some t) : Overlooked t := by
  cases l with
  | send prio data => cases hl
  | spawn => cases hl
  | thread i a => cases hl
  | main a =>
      cases a with
      | count n => cases hl
      | err => cases hl
      | ok =>
          simp only [registersLoaded, Bool.and_eq_true, decide_eq_true_eq,
            Bool.not_eq_true', List.isEmpty_eq_false_iff] at hl
          obtain ⟨hmain, hmsgs⟩ := hl
          have htokens := h.1.tokens
          rw [hmain] at htokens
          simp only [State.tokens, MainPc.made, Nat.add_eq_zero_iff,
            Bool.toNat_eq_zero] at htokens
          obtain ⟨⟨hfree, hnone⟩, _⟩ := htokens
          simp only [step, Option.ite_none_left_eq_some, mainStep,
            hmain] at hstep
          obtain ⟨hrunning, hstep⟩ := hstep
          rw [notifySetup_ok hfree hstep]
          refine ⟨?_, rfl, hnone, ?_, hmsgs⟩
          · simpa using hrunning
          · intro pc hpc
            rw [show s.threads = [] from h.1.quiet hmain] at hpc
            cases hpc

/-! ## Whole runs -/

/-- From the empty queue, messages are numbered as they come. -/
theorem numbered_next {maxmsg : Nat} {s t : State} {l : Label}
    (h : s.sent.map Msg.id = List.range s.sent.length)
    (hstep : step maxmsg s l = some t) :
    t.sent.map Msg.id = List.range t.sent.length := by
  simp only [step, Option.ite_none_left_eq_some] at hstep
  obtain ⟨_, hstep⟩ := hstep
  have hsetup : ∀ next a, next.sent = s.sent → notifySetup s next a = some t →
      t.sent = s.sent := by
    intro next a hnext ht
    cases a with
    | count n => cases ht
    | err => cases ht; rfl
    | ok =>
        simp only [notifySetup] at ht
        split at ht
        · cases ht
          rfl
        · cases ht
          exact hnext
  cases l with
  | send prio data =>
      simp only [sendStep, Option.ite_none_right_eq_some,
        Option.some.injEq] at hstep
      obtain ⟨_, rfl⟩ := hstep
      show (s.sent ++ [_]).map Msg.id = List.range (s.sent ++ [_]).length
      rw [List.map_append, h, List.length_append, List.length_singleton,
        List.range_succ]
      rfl
  | main a =>
      cases hmain : s.main with
      | pause => simp [mainStep, hmain] at hstep
      | notifySetup =>
          simp only [mainStep, hmain] at hstep
          have hsame := hsetup _ a (by rfl) hstep
          rw [hsame]
          exact h
  | spawn =>
      simp only [Option.ite_none_left_eq_some, Option.some.injEq] at hstep
      obtain ⟨_, rfl⟩ := hstep
      exact h
  | thread i a =>
      obtain ⟨pc, hpc, hstep⟩ := Option.bind_eq_some_iff.1 hstep
      rcases threadFunc_cases hstep with ⟨failure, out, _, rfl⟩ |
        ⟨pc', out, _, _, rfl⟩ | ⟨rfl, ht⟩ | ⟨m, rest, rfl, _, rfl⟩
      · exact h
      · exact h
      · have hsame := hsetup _ .ok (by rfl) ht
        rw [hsame]
        exact h
      · exact h

theorem Inv.received_nodup {s : State} (h : Inv s)
    (hnumbered : s.sent.map Msg.id = List.range s.sent.length) :
    s.received.Nodup := by
  have hsent : s.sent.Nodup := by
    apply List.Nodup.of_map Msg.id
    rw [hnumbered]
    exact List.nodup_range
  exact (List.nodup_append.1 (h.account.nodup_iff.2 hsent)).1

/-- What a registration is for: once `main` has registered there is one token, and a
message on the queue has a reader on its way.  Nobody finds the queue registered, and
no message is received twice. -/
structure Kept (s : State) : Prop where
  notBusy : s.exited ≠ some .ebusy
  once : s.received.Nodup ∧ s.received ⊆ s.sent
  token : s.main = .pause → s.queue.registered.toNat + s.notifications +
    s.threads.countP ThreadPc.unarmed = 1
  reader : s.main = .pause → s.queue.msgs ≠ [] →
    0 < s.notifications ∨ ∃ pc ∈ s.threads, ThreadPc.draining pc = true

/-- The parts that hold whatever `main` registers over. -/
theorem Inv.kept {s : State} (h : Inv s)
    (hnumbered : s.sent.map Msg.id = List.range s.sent.length) :
    s.exited ≠ some .ebusy ∧ (s.received.Nodup ∧ s.received ⊆ s.sent) ∧
    (s.main = .pause → s.queue.registered.toNat + s.notifications +
      s.threads.countP ThreadPc.unarmed = 1) := by
  refine ⟨h.notBusy, ⟨h.received_nodup hnumbered, ?_⟩, ?_⟩
  · intro m hm
    exact h.account.subset (List.mem_append_left _ hm)
  · intro hmain
    have htokens := h.tokens
    rw [hmain] at htokens
    exact htokens

/-- A queue that is overlooked has no reader. -/
theorem Overlooked.not_kept {s : State} (h : Overlooked s) : ¬ Kept s :=
  fun hkept => h.not_attended (hkept.reader h.2.1)

/-- **The registration is a token.**  In every run from an empty queue,
whatever the senders do and however many threads are reading: no
`notifySetup` fails with `EBUSY`, no message is received twice, and once
`main` has registered, the registration, the notifications and the threads
that have not registered are one in all.  In all states of the run a message on the
queue also has a notification pending or a thread that has not seen `EAGAIN`, if and
only if `main` does not register over messages. -/
theorem registration_token (maxmsg : Nat) (ls : List Label) (s : State)
    (hrun : exec (step maxmsg) (start []) ls = some s) :
    (s.exited ≠ some .ebusy ∧ (s.received.Nodup ∧ s.received ⊆ s.sent) ∧
      (s.main = .pause → s.queue.registered.toNat + s.notifications +
        s.threads.countP ThreadPc.unarmed = 1)) ∧
    (Throughout (step maxmsg) Kept (start []) ls ↔
      Along (step maxmsg) (fun s l => ¬ registersLoaded s l = true) (start []) ls) := by
  have hboth : Inv s ∧ s.sent.map Msg.id = List.range s.sent.length :=
    Reachable.invariant (I := fun s => Inv s ∧ s.sent.map Msg.id = List.range s.sent.length)
      (fun _ _ _ h hstep => ⟨h.1.next hstep, numbered_next h.2 hstep⟩)
      ⟨start_inv [], rfl⟩ ⟨ls, hrun⟩
  refine ⟨hboth.1.kept hboth.2, ?_⟩
  have hiff := throughout_iff_along
    (I := fun s => InvAttended s ∧ s.sent.map Msg.id = List.range s.sent.length)
    (B := fun s => ¬ Kept s) (E := fun s l => registersLoaded s l = true)
    (fun _ _ _ h hl hstep =>
      ⟨⟨h.1.1.next hstep, Attended.next h.1.1 h.1.2 hl hstep⟩, numbered_next h.2 hstep⟩)
    (fun s h => not_not.2 ?_)
    (fun _ _ _ h hl hstep => (overlooked_of_registersLoaded h.1 hl hstep).not_kept)
    ⟨⟨start_inv [], nofun⟩, rfl⟩ hrun
  · simpa only [not_not] using hiff
  · rcases h.1.1.kept h.2 with ⟨hbusy, honce, htoken⟩
    exact ⟨hbusy, honce, htoken, fun hmain => h.1.2 hmain⟩

/-- Three messages and two threads at once: the second message comes when the
first thread has registered and emptied the queue, the third while both
read. -/
def twoThreads : List Label :=
  [.main .ok, .send 0 [1], .spawn, .thread 0 .ok, .thread 0 .ok, .thread 0 .ok,
    .thread 0 .ok, .send 1 [2], .spawn, .thread 1 .ok, .thread 0 (.count 1),
    .thread 0 .ok, .thread 1 .ok, .thread 1 .ok, .send 0 [3], .thread 0 .ok]

theorem registration_token_two_threads :
    ∃ s, exec (step 10) (start []) twoThreads = some s ∧
      s.threads = [.write ⟨1, 1, [2]⟩, .receive] ∧ s.queue.msgs ≠ [] ∧
      s.queue.registered.toNat + s.notifications +
        s.threads.countP ThreadPc.unarmed = 1 ∧
      Throughout (step 10) Kept (start []) twoThreads := by
  obtain ⟨s, hs, hmain, hthreads, hmsgs⟩ := exists_exec (step 10)
    (fun s => s.main = .pause ∧ s.threads = [.write ⟨1, 1, [2]⟩, .receive] ∧
      s.queue.msgs ≠ []) (start []) twoThreads (by decide)
  have htoken := registration_token 10 twoThreads s hs
  exact ⟨s, hs, hthreads, hmsgs, htoken.1.2.2 hmain, htoken.2.2 (by decide)⟩

/-- A message comes before `main` registers: it pauses over the message, with no
notification and no thread. -/
theorem registration_over_message :
    ∃ s, exec (step 10) (start []) [.send 0 [1], .main .ok] = some s ∧
      s.main = .pause ∧ s.queue.msgs ≠ [] ∧ s.notifications = 0 ∧ s.threads = [] ∧
      ¬ Kept s := by
  obtain ⟨s, hs, hover, hthreads⟩ := exists_exec (step 10)
    (fun s => Overlooked s ∧ s.threads = []) (start []) [.send 0 [1], .main .ok] (by decide)
  exact ⟨s, hs, hover.2.1, hover.2.2.2.2, hover.2.2.1, hthreads, hover.not_kept⟩

end Lpi.Ports.MqNotifyThread
