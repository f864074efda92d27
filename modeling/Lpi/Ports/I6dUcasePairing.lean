import Lpi.Ports.I6dUcase
import Lpi.Verified.Network
import Lpi.Verified.Run

/-!
# Which answer a client gets

A client sees of the system itself and the answers on their way to it
(`State.transit`), be they still messages to the server, in the server's
buffer, or replies.  `Sees` lists what a step of the system can be to a
client, and `sees_step` says that the list is complete.  Everything else is
about `Sees`: whatever the network does, a client gets answers to messages it
has sent (`Sound`), and as long as nothing is delivered twice it has at most
one of them on its way (`Paired`).
-/

namespace Lpi.Ports.I6dUcase

open Lpi.Ports.Ucase
open Lpi.Verified.CData
open Lpi.Verified.CString
open Lpi.Verified.Network
open Lpi.Verified.Pieces
open Lpi.Verified.Run

/-! ## The view of one client -/

/-- The answer that client `c` gets from a datagram in the end. -/
def Datagram.answer (c : SockAddr) : Datagram → Option (List UInt8)
  | .request sender d => if sender = c then some (response d) else none
  | .reply receiver d => if receiver = c then some d else none

/-- The answer the server is working on, if it is for `c`. -/
def State.inHand (s : State) (c : SockAddr) : Multiset (List UInt8) :=
  match s.server with
  | .upcase a n => if a = c then {(upcase s.buffer n).bytes.take n} else 0
  | .send a n => if a = c then {s.buffer.bytes.take n} else 0
  | .recv | .exited => 0

/-- The answers on their way to `c`. -/
def State.transit (s : State) (c : SockAddr) : Multiset (List UInt8) :=
  s.inHand c + bearing (Datagram.answer c) s.net

/-- What a step of the system is to a client with these answers on their
way; `dup` is whether the network repeats one of its datagrams. -/
inductive Sees (dup : Prop) : Client → Multiset (List UInt8) →
    Client → Multiset (List UInt8) → Prop
  /-- The server and the network move its datagrams or lose them. -/
  | moved {k : Client} {w w' : Multiset (List UInt8)} (h : w' ≤ w) :
      Sees dup k w k w'
  | repeated {k : Client} {w : Multiset (List UInt8)} {d : List UInt8}
      (hdup : dup) (h : d ∈ w) : Sees dup k w k (d ::ₘ w)
  | starts {k : Client} {w : Multiset (List UInt8)} (pc : ClientPc)
      (msgs : List CStr) (buffer : Buffer bufferSize) (hidle : k.pc = .idle)
      (hpc : pc = .setup ∨ pc = .exited .failure) :
      Sees dup k w ⟨pc, msgs, buffer, []⟩ w
  | sets_up {k : Client} {w : Multiset (List UInt8)} (h : k.pc = .setup) :
      Sees dup k w { k with pc := round k.msgs 2 } w
  | sends {k : Client} {w : Multiset (List UInt8)} {i : Nat} {m : CStr}
      (h : k.pc = .send i) (hm : k.msgs[i - 2]? = some m) :
      Sees dup k w { k with pc := .recv i } (response m.bytes ::ₘ w)
  | receives {k : Client} {w : Multiset (List UInt8)} {i : Nat}
      {d : List UInt8} (h : k.pc = .recv i) :
      Sees dup k (d ::ₘ w) (k.print i d) w
  | exits {k : Client} {w : Multiset (List UInt8)} (status : Exit) :
      Sees dup k w { k with pc := .exited status } w

/-! ## Every step is one of these -/

theorem answer_of_party_ne {c : SockAddr} {d : Datagram} (h : d.party ≠ c) :
    d.answer c = none := by
  cases d with
  | request p d => exact if_neg h
  | reply p d => exact if_neg h

theorem coe_answer_request (c p : SockAddr) (d : List UInt8) :
    (((Datagram.request p d).answer c).toList : Multiset (List UInt8)) =
      if p = c then {response d} else 0 := by
  by_cases hc : p = c <;> simp [Datagram.answer, hc]

theorem coe_answer_reply (c p : SockAddr) (d : List UInt8) :
    (((Datagram.reply p d).answer c).toList : Multiset (List UInt8)) =
      if p = c then {d} else 0 := by
  by_cases hc : p = c <;> simp [Datagram.answer, hc]

/-- Client `p` changes, and what is on its way to others does not. -/
theorem sees_update {dup : Prop} {s t : State} {c p : SockAddr} {k : Client}
    (hclient : t.client = Function.update s.client p k)
    (hother : ∀ c, p ≠ c → t.transit c = s.transit c)
    (h : Sees dup (s.client p) (s.transit p) k (t.transit p)) :
    Sees dup (s.client c) (s.transit c) (t.client c) (t.transit c) := by
  rw [hclient]
  by_cases hc : p = c
  · subst hc
    rw [Function.update_self]
    exact h
  · rw [Function.update_of_ne (Ne.symm hc), hother c hc]
    exact .moved le_rfl

/-- Nothing but client `p` changes. -/
theorem sees_setClient {dup : Prop} {s : State} {c p : SockAddr} {k : Client}
    (h : Sees dup (s.client p) (s.transit p) k (s.transit p)) :
    Sees dup (s.client c) (s.transit c) ((s.setClient p k).client c)
      ((s.setClient p k).transit c) :=
  sees_update rfl (fun _ _ => rfl) h

theorem sees_start {dup : Prop} {s t : State} {c p : SockAddr} {host : CStr}
    {msgs : List CStr} {buffer : Buffer bufferSize}
    (hstep : startClient s p host msgs buffer = some t) :
    Sees dup (s.client c) (s.transit c) (t.client c) (t.transit c) := by
  simp only [startClient, Option.ite_none_left_eq_some, ne_eq,
    not_not] at hstep
  obtain ⟨hidle, hstep⟩ := hstep
  split at hstep <;> cases hstep
  · exact sees_setClient (.starts _ msgs buffer hidle (Or.inr rfl))
  · exact sees_setClient (.starts _ msgs buffer hidle (Or.inl rfl))

/-- A datagram enters the network. -/
theorem transit_append {s t : State} {d : Datagram} (hhand : t.inHand = s.inHand)
    (hnet : t.net = s.net ++ [d]) (c : SockAddr) :
    t.transit c = s.transit c + (d.answer c).toList := by
  unfold State.transit
  rw [hhand, hnet, bearing_append, add_assoc]

/-- A datagram leaves the network. -/
theorem transit_eraseIdx {s t : State} {n : Nat} {d : Datagram}
    (hhand : t.inHand = s.inHand) (hn : s.net[n]? = some d)
    (hnet : t.net = s.net.eraseIdx n) (c : SockAddr) :
    s.transit c = (d.answer c).toList + t.transit c := by
  unfold State.transit
  rw [hhand, hnet, bearing_eraseIdx _ hn, add_left_comm]

theorem sees_send {dup : Prop} {s t : State} {c p : SockAddr} {i : Nat} {m : CStr}
    (hpc : (s.client p).pc = .send i)
    (hm : (s.client p).msgs[i - 2]? = some m)
    (hclient : t.client = Function.update s.client p
      { s.client p with pc := .recv i })
    (hhand : t.inHand = s.inHand) (hnet : t.net = s.net ++ [.request p m.bytes]) :
    Sees dup (s.client c) (s.transit c) (t.client c) (t.transit c) := by
  have htransit := transit_append hhand hnet
  apply sees_update hclient
  · intro c hc
    rw [htransit, coe_answer_request, if_neg hc, add_zero]
  · rw [htransit, coe_answer_request, if_pos rfl, add_comm,
      Multiset.singleton_add]
    exact .sends hpc hm

theorem sees_print {dup : Prop} {s t : State} {c p : SockAddr} {i n : Nat}
    {d : List UInt8} (hpc : (s.client p).pc = .recv i)
    (hn : s.net[n]? = some (.reply p d))
    (hclient : t.client = Function.update s.client p ((s.client p).print i d))
    (hhand : t.inHand = s.inHand) (hnet : t.net = s.net.eraseIdx n) :
    Sees dup (s.client c) (s.transit c) (t.client c) (t.transit c) := by
  have htransit := transit_eraseIdx hhand hn hnet
  apply sees_update hclient
  · intro c hc
    rw [htransit, coe_answer_reply, if_neg hc, zero_add]
  · rw [htransit p, coe_answer_reply, if_pos rfl, Multiset.singleton_add]
    exact .receives hpc

theorem sees_client {dup : Prop} {s t : State} {c p : SockAddr} {a : Answer}
    (hstep : clientStep s p a = some t) :
    Sees dup (s.client c) (s.transit c) (t.client c) (t.transit c) := by
  cases a with
  | ok =>
      cases hpc : (s.client p).pc with
      | idle | recv _ | exited _ => simp [clientStep, hpc] at hstep
      | setup =>
          simp only [clientStep, hpc, Option.some.injEq] at hstep
          subst hstep
          exact sees_setClient (.sets_up hpc)
      | send i =>
          simp only [clientStep, hpc, Option.map_eq_some_iff] at hstep
          obtain ⟨m, hm, hstep⟩ := hstep
          subst hstep
          exact sees_send hpc hm rfl rfl rfl
      | close =>
          simp only [clientStep, hpc, Option.some.injEq] at hstep
          subst hstep
          exact sees_setClient (.exits _)
  | datagram n =>
      simp only [clientStep] at hstep
      split at hstep
      · rename_i i receiver d hpc hn
        simp only [Option.ite_none_right_eq_some, Option.some.injEq] at hstep
        obtain ⟨rfl, rfl⟩ := hstep
        exact sees_print hpc hn rfl rfl rfl
      · cases hstep
  | err =>
      cases hpc : (s.client p).pc with
      | idle | exited _ => simp [clientStep, hpc] at hstep
      | setup | send _ | recv _ | close =>
          simp only [clientStep, hpc, Option.some.injEq] at hstep
          subst hstep
          exact sees_setClient (.exits _)

/-- The server takes a message off the network. -/
theorem transit_recv {s : State} {p : SockAddr} {n : Nat} {d : List UInt8}
    (hserver : s.server = .recv) (hn : s.net[n]? = some (.request p d))
    (c : SockAddr) :
    State.transit { s with net := s.net.eraseIdx n
                           buffer := s.buffer.fill d
                           server := .upcase p (numBytes d) } c =
      s.transit c := by
  have hnothing : s.inHand c = 0 := by
    simp [State.inHand, hserver]
  have hhand : State.inHand { s with net := s.net.eraseIdx n
                                     buffer := s.buffer.fill d
                                     server := .upcase p (numBytes d) } c =
      ((Datagram.request p d).answer c).toList := by
    rw [coe_answer_request, ← take_upcase_fill s.buffer d]
    rfl
  show State.inHand _ c + bearing _ (s.net.eraseIdx n) = s.inHand c + _
  rw [hhand, hnothing, bearing_eraseIdx _ hn, zero_add]

/-- The server puts an answer on the network. -/
theorem transit_send {s : State} {p : SockAddr} {n : Nat}
    (hserver : s.server = .send p n) (c : SockAddr) :
    State.transit { s with net := s.net ++ [.reply p (s.buffer.bytes.take n)]
                           server := .recv } c = s.transit c := by
  have hhand : s.inHand c =
      ((Datagram.reply p (s.buffer.bytes.take n)).answer c).toList := by
    rw [coe_answer_reply, State.inHand, hserver]
  show 0 + bearing _ (s.net ++ [_]) = s.inHand c + bearing _ s.net
  rw [hhand, bearing_append, zero_add, add_comm]

/-- A server that ends takes what it has in hand with it. -/
theorem transit_exited_le (s : State) (c : SockAddr) :
    State.transit { s with server := .exited } c ≤ s.transit c := by
  show 0 + bearing _ s.net ≤ s.inHand c + bearing _ s.net
  exact add_le_add_left (Multiset.zero_le _) _

theorem server_step_frame {s t : State} {a : Answer}
    (hstep : serverStep s a = some t) :
    t.client = s.client ∧ ∀ c, t.transit c ≤ s.transit c := by
  cases hserver : s.server with
  | recv =>
      cases a with
      | ok => simp [serverStep, hserver] at hstep
      | datagram n =>
          simp only [serverStep, hserver] at hstep
          split at hstep
          · rename_i p d _ hn
            cases hstep
            exact ⟨rfl, fun c => (transit_recv hserver hn c).le⟩
          · cases hstep
      | err =>
          simp only [serverStep, hserver, Option.some.injEq] at hstep
          subst hstep
          exact ⟨rfl, transit_exited_le s⟩
  | upcase p n =>
      cases a with
      | ok =>
          simp only [serverStep, hserver, Option.some.injEq] at hstep
          subst hstep
          refine ⟨rfl, fun c => le_of_eq ?_⟩
          simp [State.transit, State.inHand, hserver]
      | datagram n => simp [serverStep, hserver] at hstep
      | err => simp [serverStep, hserver] at hstep
  | send p n =>
      cases a with
      | ok =>
          simp only [serverStep, hserver, Option.some.injEq] at hstep
          subst hstep
          exact ⟨rfl, fun c => (transit_send hserver c).le⟩
      | datagram n => simp [serverStep, hserver] at hstep
      | err =>
          simp only [serverStep, hserver, Option.some.injEq] at hstep
          subst hstep
          exact ⟨rfl, transit_exited_le s⟩
  | exited =>
      cases a <;> simp [serverStep, hserver] at hstep

/-- The network repeats a datagram: for its client an answer more, for the
others nothing. -/
theorem sees_duplicate {s : State} {c : SockAddr} {n : Nat} {d : Datagram}
    (hn : s.net[n]? = some d) :
    Sees (duplicates c s (.duplicate n) = true) (s.client c) (s.transit c)
      (s.client c) (State.transit { s with net := s.net ++ [d] } c) := by
  rw [transit_append (s := s) (d := d) (t := { s with net := s.net ++ [d] })
    rfl rfl]
  cases hanswer : d.answer c with
  | none =>
      refine .moved (le_of_eq ?_)
      exact add_zero _
  | some a =>
      have hparty : d.party = c := by
        by_contra hc
        rw [answer_of_party_ne hc] at hanswer
        cases hanswer
      have hmem : a ∈ s.transit c := by
        refine Multiset.mem_add.2 (Or.inr ?_)
        rw [bearing_eraseIdx _ hn, hanswer]
        exact Multiset.mem_add.2 (Or.inl (List.mem_singleton.2 rfl))
      rw [Option.toList_some, Multiset.coe_singleton, add_comm,
        Multiset.singleton_add]
      refine .repeated ?_ hmem
      simp [duplicates, hn, hparty]

/-- **What a step is to a client.** -/
theorem sees_step {s t : State} {l : Label} (hstep : step s l = some t)
    (c : SockAddr) :
    Sees (duplicates c s l = true) (s.client c) (s.transit c) (t.client c)
      (t.transit c) := by
  cases l with
  | start p host msgs buffer => exact sees_start hstep
  | client p a => exact sees_client hstep
  | server a =>
      obtain ⟨hclient, htransit⟩ := server_step_frame hstep
      rw [hclient]
      exact .moved (htransit c)
  | drop n =>
      simp only [step, Option.ite_none_right_eq_some, Option.some.injEq] at hstep
      obtain ⟨_, rfl⟩ := hstep
      refine .moved ?_
      exact add_le_add_right (bearing_eraseIdx_le _ _ _) _
  | duplicate n =>
      simp only [step, Option.map_eq_some_iff] at hstep
      obtain ⟨d, hn, rfl⟩ := hstep
      exact sees_duplicate hn

/-! ## Whatever the network does -/

/-- How many messages a client has sent, at most. -/
def Client.sent (k : Client) : Nat :=
  match k.pc with
  | .idle | .setup => 0
  | .send i => i - 2
  | .recv i => i - 1
  | .close | .exited _ => k.msgs.length

/-- The answer to one of the first `n` messages. -/
def AnswersOne (msgs : List CStr) (n : Nat) (d : List UInt8) : Prop :=
  ∃ m ∈ msgs.take n, d = response m.bytes

theorem AnswersOne.mono {msgs : List CStr} {n n' : Nat} {d : List UInt8}
    (h : AnswersOne msgs n d) (hn : n ≤ n') : AnswersOne msgs n' d := by
  obtain ⟨m, hm, hd⟩ := h
  exact ⟨m, (List.take_prefix_take_left hn).subset hm, hd⟩

/-- There are no more messages than all of them. -/
theorem AnswersOne.of_all {msgs : List CStr} {n : Nat} {d : List UInt8}
    (h : AnswersOne msgs n d) : AnswersOne msgs msgs.length d := by
  obtain ⟨m, hm, hd⟩ := h
  refine ⟨m, ?_, hd⟩
  rw [List.take_length]
  exact List.mem_of_mem_take hm

theorem AnswersOne.nulFree {msgs : List CStr} {n : Nat} {d : List UInt8}
    (h : AnswersOne msgs n d) : 0 ∉ d := by
  obtain ⟨m, _, rfl⟩ := h
  exact zero_notMem_response m.nulFree

/-- A client prints an answer as it was sent. -/
theorem AnswersOne.text_fill {msgs : List CStr} {n : Nat} {d : List UInt8}
    (h : AnswersOne msgs n d) (b : Buffer bufferSize) :
    text (b.fill d) (numBytes d) = d := by
  rw [Ucase.text_fill b h.nulFree]
  obtain ⟨m, _, rfl⟩ := h
  exact take_response m.bytes

/-- Everything on its way to a client, and everything it has printed, answers
a message it had sent by then. -/
structure Sound (k : Client) (w : Multiset (List UInt8)) : Prop where
  from_two : ∀ i, k.pc = .send i ∨ k.pc = .recv i → 2 ≤ i
  waiting : ∀ d ∈ w, AnswersOne k.msgs k.sent d
  printed : ∀ p ∈ k.printed, AnswersOne k.msgs p.1 p.2

theorem start_sound (buffer : Buffer bufferSize) (c : SockAddr) :
    Sound ((start buffer).client c) ((start buffer).transit c) where
  from_two := by simp [start]
  waiting := by simp [start, State.transit, State.inHand, bearing]
  printed := by simp [start]

theorem round_from_two {msgs : List CStr} {n i : Nat} (hn : 2 ≤ n)
    (h : round msgs n = .send i ∨ round msgs n = .recv i) : 2 ≤ i := by
  unfold round at h
  split at h
  · rcases h with h | h
    · cases h
      exact hn
    · cases h
  · rcases h with h | h <;> cases h

/-- The next round of the loop forgets nothing that was sent. -/
theorem AnswersOne.round {msgs : List CStr} {i n : Nat} {d : List UInt8}
    (h : AnswersOne msgs n d) (hn : n ≤ i - 2) (buffer : Buffer bufferSize)
    (printed : List (Nat × List UInt8)) :
    AnswersOne msgs
      (Client.sent ⟨I6dUcase.round msgs i, msgs, buffer, printed⟩) d := by
  unfold I6dUcase.round Client.sent
  by_cases hi : i < msgs.length + 2
  · rw [if_pos hi]
    exact h.mono hn
  · rw [if_neg hi]
    exact h.of_all

theorem Sound.next {dup : Prop} {k k' : Client} {w w' : Multiset (List UInt8)}
    (h : Sound k w) (hsees : Sees dup k w k' w') : Sound k' w' := by
  cases hsees with
  | moved hle =>
      exact ⟨h.from_two, fun d hd => h.waiting d (Multiset.mem_of_le hle hd),
        h.printed⟩
  | repeated _ hmem =>
      refine ⟨h.from_two, ?_, h.printed⟩
      intro d hd
      rcases Multiset.mem_cons.1 hd with rfl | hd
      · exact h.waiting d hmem
      · exact h.waiting d hd
  | starts pc msgs buffer hidle hpc =>
      refine ⟨?_, ?_, by simp⟩
      · intro i hi
        rcases hpc with rfl | rfl <;> rcases hi with hi | hi <;> cases hi
      · intro d hd
        -- nothing is on its way to a client that has not started
        obtain ⟨m, hm, _⟩ := h.waiting d hd
        simp [Client.sent, hidle] at hm
  | sets_up hpc =>
      refine ⟨fun i hi => round_from_two le_rfl hi, ?_, h.printed⟩
      intro d hd
      have hone := h.waiting d hd
      rw [Client.sent, hpc] at hone
      exact hone.round (i := 2) (Nat.le_refl 0) _ _
  | sends hpc hm =>
      rename_i i m
      have hpos := h.from_two i (Or.inl hpc)
      refine ⟨?_, ?_, h.printed⟩
      · rintro j (hj | hj) <;> cases hj
        exact hpos
      · intro d hd
        show AnswersOne k.msgs (i - 1) d
        rcases Multiset.mem_cons.1 hd with rfl | hd
        · exact ⟨m, List.mem_of_getElem? (i := i - 2) (by
            rw [List.getElem?_take_of_lt (by omega), hm]), rfl⟩
        · have hone : AnswersOne k.msgs (i - 2) d := by
            simpa only [Client.sent, hpc] using h.waiting d hd
          exact hone.mono (by omega)
  | receives hpc =>
      rename_i i d
      have hpos := h.from_two i (Or.inr hpc)
      have hsent : k.sent = i - 1 := by
        rw [Client.sent, hpc]
      have hone := h.waiting d (Multiset.mem_cons_self d _)
      rw [hsent] at hone
      refine ⟨fun j hj => round_from_two (by omega) hj, ?_, ?_⟩
      · intro e he
        have hother := h.waiting e (Multiset.mem_cons_of_mem he)
        rw [hsent] at hother
        exact hother.round (i := i + 1) (by omega) _ _
      · intro p hp
        rcases List.mem_append.1 hp with hp | hp
        · exact h.printed p hp
        · rw [List.mem_singleton.1 hp, hone.text_fill]
          exact hone
  | exits status =>
      refine ⟨?_, fun d hd => (h.waiting d hd).of_all, h.printed⟩
      rintro i (hi | hi) <;> cases hi

/-! ## As long as nothing is delivered twice -/

/-- A client and what is on its way to it, nothing of which was repeated. -/
def Paired (k : Client) (w : Multiset (List UInt8)) : Prop :=
  match k.pc with
  | .idle | .setup => w = 0 ∧ k.printed = []
  | .send i => w = 0 ∧ 2 ≤ i ∧ k.printed = (responses k.msgs).take (i - 2)
  | .recv i => 2 ≤ i ∧ k.printed = (responses k.msgs).take (i - 2) ∧
      ∃ m, k.msgs[i - 2]? = some m ∧ w ≤ {response m.bytes}
  | .close => w = 0 ∧ k.printed = responses k.msgs
  | .exited _ => k.printed <+: responses k.msgs

theorem start_paired (buffer : Buffer bufferSize) (c : SockAddr) :
    Paired ((start buffer).client c) ((start buffer).transit c) :=
  ⟨rfl, rfl⟩

theorem Paired.printed_start {k : Client} {w : Multiset (List UInt8)}
    (h : Paired k w) : k.printed <+: responses k.msgs := by
  unfold Paired at h
  cases hpc : k.pc with
  | idle | setup =>
      rw [hpc] at h
      rw [h.2]
      exact List.nil_prefix
  | send i =>
      rw [hpc] at h
      rw [h.2.2]
      exact List.take_prefix _ _
  | recv i =>
      rw [hpc] at h
      rw [h.2.1]
      exact List.take_prefix _ _
  | close =>
      rw [hpc] at h
      rw [h.2]
  | exited status =>
      rw [hpc] at h
      exact h

theorem Paired.moved {k : Client} {w w' : Multiset (List UInt8)}
    (h : Paired k w) (hle : w' ≤ w) : Paired k w' := by
  have hempty : w = 0 → w' = 0 := by
    rintro rfl
    exact Multiset.le_zero.1 hle
  unfold Paired at h ⊢
  cases hpc : k.pc with
  | idle | setup | send _ | close =>
      rw [hpc] at h
      exact ⟨hempty h.1, h.2⟩
  | recv i =>
      rw [hpc] at h
      obtain ⟨hpos, hprinted, m, hm, hone⟩ := h
      exact ⟨hpos, hprinted, m, hm, hle.trans hone⟩
  | exited _ =>
      rw [hpc] at h
      exact h

/-- The next round of the loop, with nothing on its way. -/
theorem paired_round {msgs : List CStr} {buffer : Buffer bufferSize}
    {printed : List (Nat × List UInt8)} {n : Nat}
    (hprinted : printed = (responses msgs).take n) :
    Paired ⟨round msgs (n + 2), msgs, buffer, printed⟩ 0 := by
  unfold round Paired
  by_cases hn : n + 2 < msgs.length + 2
  · rw [if_pos hn]
    exact ⟨rfl, by omega, hprinted⟩
  · rw [if_neg hn]
    refine ⟨rfl, ?_⟩
    show printed = responses msgs
    rw [hprinted]
    apply List.take_of_length_le
    rw [length_responses]
    omega

/-- Whatever a waiting client gets is the answer to its last message. -/
theorem Paired.receives {k : Client} {w : Multiset (List UInt8)} {i : Nat}
    {d : List UInt8} (h : Paired k (d ::ₘ w)) (hpc : k.pc = .recv i) :
    Paired (k.print i d) w := by
  unfold Paired at h
  rw [hpc] at h
  obtain ⟨hpos, hprinted, m, hm, hle⟩ := h
  have hd : d = response m.bytes :=
    Multiset.mem_singleton.1 (Multiset.mem_of_le hle (Multiset.mem_cons_self d w))
  have hw : w = 0 := by
    have hcard := Multiset.card_le_card hle
    rw [Multiset.card_cons, Multiset.card_singleton] at hcard
    exact Multiset.card_eq_zero.1 (by omega)
  have hone : AnswersOne k.msgs k.msgs.length d :=
    ⟨m, by rw [List.take_length]; exact List.mem_of_getElem? hm, hd⟩
  have hnext := take_responses_succ hm
  obtain ⟨n, rfl⟩ : ∃ n, i = n + 2 := ⟨i - 2, by omega⟩
  rw [hw, Client.print, hone.text_fill]
  refine paired_round (n := n + 1) ?_
  show k.printed ++ [(n + 1, d)] = _
  rw [hprinted, hd]
  exact hnext.symm

theorem Paired.next {dup : Prop} {k k' : Client} {w w' : Multiset (List UInt8)}
    (h : Paired k w) (hdup : ¬ dup) (hsees : Sees dup k w k' w') :
    Paired k' w' := by
  cases hsees with
  | moved hle => exact h.moved hle
  | repeated hrepeated _ => exact absurd hrepeated hdup
  | starts pc msgs buffer hidle hpc =>
      rw [Paired, hidle] at h
      rcases hpc with rfl | rfl
      · exact ⟨h.1, rfl⟩
      · exact List.nil_prefix
  | sets_up hpc =>
      rw [Paired, hpc] at h
      rw [h.1]
      exact paired_round (n := 0) h.2
  | sends hpc hm =>
      rw [Paired, hpc] at h
      obtain ⟨hnothing, hpos, hprinted⟩ := h
      refine ⟨hpos, hprinted, _, hm, ?_⟩
      rw [hnothing]
      exact le_rfl
  | receives hpc => exact h.receives hpc
  | exits status => exact h.printed_start

/-! ## What a client prints -/

/-- **Whose responses a client prints.**  In every run, however the network
reorders, loses and repeats datagrams, a client that prints "Response k"
prints the answer to one of its own first `k` messages: the first
`BUFFER_SIZE` bytes of it in upper case.  If the network delivers none of the
client's datagrams twice, it is the answer to message `k`. -/
theorem responses_own (buffer : Buffer bufferSize) (ls : List Label) (s : State)
    (hrun : exec step (start buffer) ls = some s) (c : SockAddr) :
    (∀ k t, (k, t) ∈ (s.client c).printed →
      ∃ m ∈ (s.client c).msgs.take k, t = (m.bytes.take bufferSize).map toupper) ∧
    (Along step (fun s l => duplicates c s l = false) (start buffer) ls →
      (s.client c).printed <+: (s.client c).msgs.mapIdx fun i m =>
        (i + 1, (m.bytes.take bufferSize).map toupper)) := by
  constructor
  · have h : Sound (s.client c) (s.transit c) := Reachable.invariant
      (I := fun s => Sound (s.client c) (s.transit c))
      (fun _ _ _ h hstep => h.next (sees_step hstep c))
      (start_sound buffer c) ⟨ls, hrun⟩
    intro k t hprinted
    exact h.printed (k, t) hprinted
  · intro honce
    have h : Paired (s.client c) (s.transit c) := invariant_along
      (I := fun s => Paired (s.client c) (s.transit c))
      (fun _ _ _ h hl hstep => h.next (by simp [hl]) (sees_step hstep c))
      (start_paired buffer c) honce hrun
    exact h.printed_start

/-- A client on this host. -/
def loopback (port : UInt16) : SockAddr := ⟨1, port⟩

/-- Client 1 sends "a" and "b", client 2 sends "x".  The message of client 2
is sent first, repeated and overtaken, and one of the copies is lost. -/
def overtaken : List Label :=
  [.start (loopback 1) ⟨ascii "::1", by decide⟩
      [⟨ascii "a", by decide⟩, ⟨ascii "b", by decide⟩] zeroBuffer,
    .start (loopback 2) ⟨ascii "::1", by decide⟩ [⟨ascii "x", by decide⟩]
      zeroBuffer,
    .client (loopback 2) .ok, .client (loopback 1) .ok, .client (loopback 2) .ok,
    .client (loopback 1) .ok, .duplicate 0, .server (.datagram 1), .server .ok,
    .server .ok, .drop 0, .server (.datagram 0), .server .ok, .server .ok,
    .client (loopback 1) (.datagram 0), .client (loopback 2) (.datagram 0),
    .client (loopback 1) .ok, .server (.datagram 0), .server .ok, .server .ok,
    .client (loopback 1) (.datagram 0)]

theorem responses_own_overtaken :
    ∃ s, exec step (start zeroBuffer) overtaken = some s ∧
      (s.client (loopback 1)).printed = [(1, ascii "A"), (2, ascii "B")] ∧
      ((s.client (loopback 1)).printed <+:
        (s.client (loopback 1)).msgs.mapIdx fun i m =>
          (i + 1, (m.bytes.take bufferSize).map toupper)) := by
  obtain ⟨s, hs, hprinted⟩ := exists_exec step
    (fun s => (s.client (loopback 1)).printed = [(1, ascii "A"), (2, ascii "B")])
    (start zeroBuffer) overtaken (by decide)
  exact ⟨s, hs, hprinted,
    (responses_own zeroBuffer overtaken s hs (loopback 1)).2 (by decide)⟩

/-- The reply to "a" is delivered twice, the second time in place of the
reply to "b". -/
def repeatedReply : List Label :=
  [.start (loopback 1) ⟨ascii "::1", by decide⟩
      [⟨ascii "a", by decide⟩, ⟨ascii "b", by decide⟩] zeroBuffer,
    .client (loopback 1) .ok, .client (loopback 1) .ok, .server (.datagram 0),
    .server .ok, .server .ok, .duplicate 0, .client (loopback 1) (.datagram 0),
    .client (loopback 1) .ok, .client (loopback 1) (.datagram 0)]

/-- "Response 2: A", though the second message is "b". -/
theorem response_shifted :
    ∃ s, exec step (start zeroBuffer) repeatedReply = some s ∧
      (2, ascii "A") ∈ (s.client (loopback 1)).printed ∧
      ((s.client (loopback 1)).msgs[1]?).map
        (fun m => (m.bytes.take bufferSize).map toupper) = some (ascii "B") ∧
      ascii "A" ≠ ascii "B" :=
  exists_exec step _ _ _ (by decide)

end Lpi.Ports.I6dUcase
