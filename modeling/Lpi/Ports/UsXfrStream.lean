import Lpi.Ports.UsXfr
import Lpi.Verified.Run
import Lpi.Verified.Tally

/-!
# What arrives over the stream socket

Runs in which no call fails and every `write` accepts everything.  A client
whose pieces have all been full has sent exactly what it read; the first
piece that is not makes it send a full buffer and end with a failure
(`Sends`).  The server forwards every connection byte for byte
(`Forwarded`).  So a transfer is right if and only if all pieces of all
clients are full (`transfer_exact`).
-/

namespace Lpi.Ports.UsXfr

open Lpi.Verified.CData
open Lpi.Verified.Channel
open Lpi.Verified.Pieces
open Lpi.Verified.Run
open Lpi.Verified.Tally

/-! ## The invariant -/

/-- Every piece fills the buffer. -/
def Full (cs : List (Chunk bufferSize)) : Prop :=
  ∀ c ∈ cs, c.bytes.length = bufferSize

/-- What a client has sent. -/
def Sends (k : Client) (x : Stream) : Prop :=
  match k.pc with
  | .idle | .connect => k.stdin = k.input ∧ x.sent = [] ∧ x.closed = false
  | .read => x.closed = false ∧
      ∃ done, k.input = done ++ k.stdin ∧ Full done ∧ x.sent = join done
  | .write numBytes => x.closed = false ∧
      ∃ done chunk, k.input = done ++ chunk :: k.stdin ∧ Full done ∧
        x.sent = join done ∧ numBytes = chunk.bytes.length ∧
        k.buffer.bytes.take numBytes = chunk.bytes
  | .close => x.closed = false ∧ Full k.input ∧ x.sent = join k.input
  | .exited .success => x.closed = true ∧ Full k.input ∧ x.sent = join k.input
  | .exited .failure => x.closed = true ∧ ¬ Full k.input

/-- The connection the server is working on. -/
def ServerPc.current : ServerPc → List Nat
  | .read c | .write c _ | .close c => [c]
  | .accept | .exited => []

/-- The bytes of the past connections. -/
def State.forwarded (s : State) (past : List Nat) : List UInt8 :=
  past.flatMap fun c => (s.stream c).sent

/-- What the server has written, and what it has in its buffer. -/
def Forwarded (s : State) (past : List Nat) : Prop :=
  match s.server with
  | .accept => s.stdout = s.forwarded past
  | .read c => (s.stream c).taken ≤ (s.stream c).sent.length ∧
      s.stdout = s.forwarded past ++ (s.stream c).sent.take (s.stream c).taken
  | .write c numBytesRead => (s.stream c).taken ≤ (s.stream c).sent.length ∧
      s.stdout ++ s.buffer.bytes.take numBytesRead =
        s.forwarded past ++ (s.stream c).sent.take (s.stream c).taken
  | .close c => (s.stream c).closed = true ∧
      s.stdout = s.forwarded past ++ (s.stream c).sent
  | .exited => False

structure Inv (s : State) : Prop where
  clients : ∀ c, Sends (s.client c) (s.stream c)
  started : s.started.Nodup ∧ ∀ c, c ∈ s.started ↔ (s.client c).pc ≠ .idle
  connected : (s.accepted ++ s.backlog).Nodup ∧ ∀ c,
    c ∈ s.accepted ++ s.backlog ↔
      (s.client c).pc ≠ .idle ∧ (s.client c).pc ≠ .connect
  untouched : ∀ c, c ∉ s.accepted → (s.stream c).taken = 0
  server : ∃ past, s.accepted = past ++ s.server.current ∧
    (∀ c ∈ past, (s.stream c).closed = true) ∧ Forwarded s past

theorem start_inv (buffer : Buffer bufferSize) : Inv (start buffer) where
  clients := fun _ => ⟨rfl, rfl, rfl⟩
  started := ⟨List.nodup_nil, fun c => by simp [start]⟩
  connected := ⟨List.nodup_nil, fun c => by simp [start]⟩
  untouched := fun _ _ => rfl
  server := ⟨[], rfl, by simp, rfl⟩

/-! ## Streams -/

/-- How much of a stream was read is no concern of its client. -/
theorem Sends.congr {k : Client} {x y : Stream} (h : Sends k x)
    (hsent : y.sent = x.sent) (hclosed : y.closed = x.closed) : Sends k y := by
  unfold Sends at h ⊢
  rw [hsent, hclosed]
  exact h

/-- A client writes to an open stream, or closes it: what was read of it
stays read. -/
theorem server_of_extends {s : State} {c : Nat} {x : Stream}
    (hopen : (s.stream c).closed = false)
    (hsent : (s.stream c).sent <+: x.sent) (htaken : x.taken = (s.stream c).taken)
    {past : List Nat} (hpast : ∀ d ∈ past, (s.stream d).closed = true)
    (h : Forwarded s past) :
    (∀ d ∈ past, ((s.setStream c x).stream d).closed = true) ∧
      Forwarded (s.setStream c x) past := by
  have hother : ∀ d, (s.stream d).closed = true →
      (s.setStream c x).stream d = s.stream d := by
    intro d hd
    apply Function.update_of_ne
    rintro rfl
    rw [hopen] at hd
    cases hd
  have hforwarded : (s.setStream c x).forwarded past = s.forwarded past := by
    apply List.flatMap_congr
    intro d hd
    rw [hother d (hpast d hd)]
  -- What was taken of any stream is as before.
  have htake : ∀ d, (s.stream d).taken ≤ (s.stream d).sent.length →
      ((s.setStream c x).stream d).taken ≤
          ((s.setStream c x).stream d).sent.length ∧
        ((s.setStream c x).stream d).sent.take
            ((s.setStream c x).stream d).taken =
          (s.stream d).sent.take (s.stream d).taken := by
    intro d hle
    by_cases hd : d = c
    · subst hd
      simp only [State.setStream, Function.update_self, htaken]
      obtain ⟨rest, hrest⟩ := hsent
      rw [← hrest, List.take_append_of_le_length hle, List.length_append]
      exact ⟨by omega, rfl⟩
    · have hsame : (s.setStream c x).stream d = s.stream d :=
        Function.update_of_ne hd _ _
      rw [hsame]
      exact ⟨hle, rfl⟩
  refine ⟨fun d hd => by rw [hother d (hpast d hd)]; exact hpast d hd, ?_⟩
  unfold Forwarded at h ⊢
  rw [show (s.setStream c x).server = s.server from rfl, hforwarded]
  cases hserver : s.server with
  | accept =>
      rw [hserver] at h
      exact h
  | read d =>
      rw [hserver] at h
      obtain ⟨hle, hout⟩ := h
      obtain ⟨hle', heq⟩ := htake d hle
      refine ⟨hle', ?_⟩
      rw [heq]
      exact hout
  | write d n =>
      rw [hserver] at h
      obtain ⟨hle, hout⟩ := h
      obtain ⟨hle', heq⟩ := htake d hle
      refine ⟨hle', ?_⟩
      rw [heq]
      exact hout
  | close d =>
      rw [hserver] at h
      obtain ⟨hclosed, hout⟩ := h
      simp only
      rw [hother d hclosed]
      exact ⟨hclosed, hout⟩
  | exited =>
      rw [hserver] at h
      exact h

/-! ## Steps of a client -/

/-- A connected client that has not ended moves, and may write to its stream
or close it. -/
theorem Inv.client_moves {s : State} (h : Inv s) {c : Nat} {k : Client}
    {x : Stream} (hsends : Sends k x)
    (hbefore : (s.client c).pc ≠ .idle ∧ (s.client c).pc ≠ .connect)
    (hafter : k.pc ≠ .idle ∧ k.pc ≠ .connect)
    (hopen : (s.stream c).closed = false)
    (hsent : (s.stream c).sent <+: x.sent)
    (htaken : x.taken = (s.stream c).taken) :
    Inv ((s.setStream c x).setClient c k) := by
  obtain ⟨past, haccepted, hpast, hforwarded⟩ := h.server
  have hserver := server_of_extends hopen hsent htaken hpast hforwarded
  refine
    { clients := ?_
      started := ⟨h.started.1, ?_⟩
      connected := ⟨h.connected.1, ?_⟩
      untouched := ?_
      server := ⟨past, haccepted, hserver.1, hserver.2⟩ }
  · intro d
    by_cases hd : d = c
    · subst hd
      simpa [State.setClient, State.setStream] using hsends
    · simpa [State.setClient, State.setStream, Function.update_of_ne hd] using
        h.clients d
  · intro d
    show d ∈ s.started ↔ (Function.update s.client c k d).pc ≠ .idle
    rw [h.started.2 d]
    by_cases hd : d = c
    · subst hd
      simp [hbefore.1, hafter.1]
    · rw [Function.update_of_ne hd]
  · intro d
    show d ∈ s.accepted ++ s.backlog ↔
      (Function.update s.client c k d).pc ≠ .idle ∧
        (Function.update s.client c k d).pc ≠ .connect
    rw [h.connected.2 d]
    by_cases hd : d = c
    · subst hd
      rw [Function.update_self]
      exact iff_of_true hbefore hafter
    · rw [Function.update_of_ne hd]
  · intro d hd
    show (Function.update s.stream c x d).taken = 0
    have hzero := h.untouched d hd
    by_cases hdc : d = c
    · subst hdc
      rw [Function.update_self, htaken]
      exact hzero
    · rw [Function.update_of_ne hdc]
      exact hzero

/-- The same without a write. -/
theorem Inv.client_reads {s : State} (h : Inv s) {c : Nat} {k : Client}
    (hsends : Sends k (s.stream c))
    (hbefore : (s.client c).pc ≠ .idle ∧ (s.client c).pc ≠ .connect)
    (hafter : k.pc ≠ .idle ∧ k.pc ≠ .connect)
    (hopen : (s.stream c).closed = false) : Inv (s.setClient c k) := by
  have hmoves := h.client_moves hsends hbefore hafter hopen
    (List.prefix_refl _) rfl
  rwa [show s.setStream c (s.stream c) = s by simp [State.setStream]] at hmoves

theorem Inv.start_client {s t : State} (h : Inv s) {c : Nat}
    {input : List (Chunk bufferSize)} {buffer : Buffer bufferSize}
    (hstep : startClient s c input buffer = some t) : Inv t := by
  simp only [startClient, Option.ite_none_left_eq_some, ne_eq, not_not,
    Option.some.injEq] at hstep
  obtain ⟨hidle, rfl⟩ := hstep
  have hsends := h.clients c
  rw [Sends, hidle] at hsends
  have hnew : c ∉ s.started := by
    rw [h.started.2 c]
    exact fun hne => hne hidle
  refine
    { clients := ?_
      started := ⟨?_, ?_⟩
      connected := ⟨h.connected.1, ?_⟩
      untouched := h.untouched
      server := h.server }
  · intro d
    by_cases hd : d = c
    · subst hd
      show Sends (Function.update s.client d _ d) (s.stream d)
      rw [Function.update_self]
      exact ⟨rfl, hsends.2⟩
    · show Sends (Function.update s.client c _ d) (s.stream d)
      rw [Function.update_of_ne hd]
      exact h.clients d
  · show (s.started ++ [c]).Nodup
    rw [← List.concat_eq_append]
    exact h.started.1.concat hnew
  · intro d
    show d ∈ s.started ++ [c] ↔ (Function.update s.client c _ d).pc ≠ .idle
    by_cases hd : d = c
    · subst hd
      simp
    · rw [Function.update_of_ne hd, ← h.started.2 d]
      simp [hd]
  · intro d
    show d ∈ s.accepted ++ s.backlog ↔
      (Function.update s.client c _ d).pc ≠ .idle ∧
        (Function.update s.client c _ d).pc ≠ .connect
    rw [h.connected.2 d]
    by_cases hd : d = c
    · subst hd
      simp [hidle]
    · rw [Function.update_of_ne hd]

theorem Inv.connect {s : State} (h : Inv s) {c : Nat}
    (hpc : (s.client c).pc = .connect) :
    Inv { s.setClient c { s.client c with pc := .read } with
      backlog := s.backlog ++ [c] } := by
  have hsends := h.clients c
  rw [Sends, hpc] at hsends
  have hnew : c ∉ s.accepted ++ s.backlog := by
    rw [h.connected.2 c, hpc]
    exact fun hne => hne.2 rfl
  refine
    { clients := ?_
      started := ⟨h.started.1, ?_⟩
      connected := ⟨?_, ?_⟩
      untouched := h.untouched
      server := h.server }
  · intro d
    by_cases hd : d = c
    · subst hd
      show Sends (Function.update s.client d _ d) (s.stream d)
      rw [Function.update_self]
      refine ⟨hsends.2.2, [], hsends.1.symm, ?_, hsends.2.1⟩
      simp [Full]
    · show Sends (Function.update s.client c _ d) (s.stream d)
      rw [Function.update_of_ne hd]
      exact h.clients d
  · intro d
    show d ∈ s.started ↔ (Function.update s.client c _ d).pc ≠ .idle
    rw [h.started.2 d]
    by_cases hd : d = c
    · subst hd
      simp [hpc]
    · rw [Function.update_of_ne hd]
  · show (s.accepted ++ (s.backlog ++ [c])).Nodup
    rw [← List.append_assoc, ← List.concat_eq_append]
    exact h.connected.1.concat hnew
  · intro d
    show d ∈ s.accepted ++ (s.backlog ++ [c]) ↔
      (Function.update s.client c _ d).pc ≠ .idle ∧
        (Function.update s.client c _ d).pc ≠ .connect
    rw [← List.append_assoc, List.mem_append, h.connected.2 d]
    by_cases hd : d = c
    · subst hd
      simp
    · rw [Function.update_of_ne hd]
      simp [hd]

/-- A full buffer is sent.  If the piece had filled it, this is the piece;
otherwise the client finds that more was written than it had read. -/
theorem Inv.write {s t : State} (h : Inv s) {c numBytes : Nat}
    (hpc : (s.client c).pc = .write numBytes)
    (hstep : clientStep s c (.count bufferSize) = some t) : Inv t := by
  have hsends := h.clients c
  rw [Sends, hpc] at hsends
  obtain ⟨hopen, done, chunk, hinput, hfull, hsent, hlen, hbuffer⟩ := hsends
  have hbefore : (s.client c).pc ≠ .idle ∧ (s.client c).pc ≠ .connect := by
    simp [hpc]
  simp only [clientStep, hpc, Option.ite_none_right_eq_some] at hstep
  obtain ⟨_, hstep⟩ := hstep
  split at hstep
  · rename_i hshort
    simp only [State.clientExits, State.setStream, Function.update_self,
      Function.update_idem, Option.some.injEq] at hstep
    subst hstep
    apply h.client_moves _ hbefore (by simp) hopen
    · exact List.prefix_append _ _
    · rfl
    · refine ⟨rfl, ?_⟩
      intro hall
      apply hshort
      rw [hlen]
      symm
      apply hall
      show chunk ∈ (s.client c).input
      rw [hinput]
      simp
  · rename_i hall
    rw [not_not] at hall
    simp only [Option.some.injEq] at hstep
    subst hstep
    apply h.client_moves _ hbefore (by simp) hopen
    · exact List.prefix_append _ _
    · rfl
    · refine ⟨hopen, done ++ [chunk], ?_, ?_, ?_⟩
      · show (s.client c).input = _
        rw [hinput]
        simp [State.setStream]
      · intro d hd
        rw [List.mem_append, List.mem_singleton] at hd
        rcases hd with hd | rfl
        · exact hfull d hd
        · rw [← hlen, hall]
      · show (s.stream c).sent ++ (s.client c).buffer.bytes.take bufferSize = _
        rw [← hall] at hbuffer
        rw [hsent, hbuffer]
        simp

theorem Inv.client_step {s t : State} (h : Inv s) {c : Nat} {a : Answer}
    (hl : flawless s (.client c a) = true)
    (hstep : clientStep s c a = some t) : Inv t := by
  have hsends := h.clients c
  cases a with
  | err => cases hl
  | count n =>
      simp only [flawless, decide_eq_true_eq] at hl
      subst hl
      cases hpc : (s.client c).pc with
      | write numBytes => exact h.write hpc hstep
      | idle | connect | read | close | exited status =>
          simp [clientStep, hpc] at hstep
  | ok =>
      cases hpc : (s.client c).pc with
      | idle | write numBytes | exited status =>
          simp [clientStep, hpc] at hstep
      | connect =>
          simp only [clientStep, hpc, Option.ite_none_left_eq_some,
            Option.some.injEq] at hstep
          exact hstep.2 ▸ h.connect hpc
      | read =>
          rw [Sends, hpc] at hsends
          obtain ⟨hopen, done, hinput, hfull, hsent⟩ := hsends
          have hbefore : (s.client c).pc ≠ .idle ∧
              (s.client c).pc ≠ .connect := by simp [hpc]
          cases hstdin : (s.client c).stdin with
          | nil =>
              simp only [clientStep, hpc, hstdin, Option.some.injEq] at hstep
              subst hstep
              apply h.client_reads _ hbefore (by simp) hopen
              rw [hstdin, List.append_nil] at hinput
              refine ⟨hopen, ?_, ?_⟩
              · show Full (s.client c).input
                rw [hinput]
                exact hfull
              · show (s.stream c).sent = join (s.client c).input
                rw [hinput]
                exact hsent
          | cons chunk rest =>
              simp only [clientStep, hpc, hstdin, Option.some.injEq] at hstep
              subst hstep
              apply h.client_reads _ hbefore (by simp) hopen
              refine ⟨hopen, done, chunk, ?_, hfull, hsent, rfl, ?_⟩
              · rw [hstdin] at hinput
                exact hinput
              · have hfill := (s.client c).buffer.take_fill chunk.bytes
                rw [chunk.take_cap] at hfill
                exact hfill
      | close =>
          rw [Sends, hpc] at hsends
          obtain ⟨hopen, hfull, hsent⟩ := hsends
          simp only [clientStep, hpc, Option.some.injEq] at hstep
          subst hstep
          apply h.client_moves _ (by simp [hpc]) (by simp) hopen
          · exact List.prefix_refl _
          · rfl
          · exact ⟨rfl, hfull, hsent⟩

/-! ## Steps of the server -/

theorem Inv.accept {s : State} (h : Inv s) {c : Nat} {rest : List Nat}
    (hserver : s.server = .accept) (hbacklog : s.backlog = c :: rest) :
    Inv { s with backlog := rest
                 server := .read c
                 accepted := s.accepted ++ [c] } := by
  obtain ⟨past, haccepted, hpast, hforwarded⟩ := h.server
  rw [hserver] at haccepted
  rw [Forwarded, hserver] at hforwarded
  have hqueue : (s.accepted ++ [c]) ++ rest = s.accepted ++ s.backlog := by
    rw [hbacklog]
    simp
  have hnew : c ∉ s.accepted := by
    have hnodup := h.connected.1
    rw [hbacklog, List.nodup_append] at hnodup
    intro hc
    exact hnodup.2.2 c hc c List.mem_cons_self rfl
  refine
    { clients := h.clients
      started := h.started
      connected := ?_
      untouched := ?_
      server := ⟨past, ?_, hpast, ?_⟩ }
  · show ((s.accepted ++ [c]) ++ rest).Nodup ∧ ∀ d,
      d ∈ (s.accepted ++ [c]) ++ rest ↔ _
    rw [hqueue]
    exact h.connected
  · intro d hd
    apply h.untouched d
    intro hmem
    exact hd (List.mem_append_left _ hmem)
  · show s.accepted ++ [c] = past ++ [c]
    rw [haccepted]
    simp [ServerPc.current]
  · have hzero := h.untouched c hnew
    refine ⟨?_, ?_⟩
    · show (s.stream c).taken ≤ _
      rw [hzero]
      exact Nat.zero_le _
    · show s.stdout = s.forwarded past ++ (s.stream c).sent.take (s.stream c).taken
      rw [hzero, List.take_zero, List.append_nil]
      exact hforwarded

/-- The server takes bytes of the connection it works on. -/
theorem Inv.read {s : State} (h : Inv s) {c n : Nat}
    (hserver : s.server = .read c) (hcap : n ≤ bufferSize)
    (hlen : n ≤ (s.stream c).unread.length) :
    Inv { s.setStream c
            { s.stream c with taken := (s.stream c).taken + n } with
          server := .write c n
          buffer := s.buffer.fill ((s.stream c).unread.take n) } := by
  obtain ⟨past, haccepted, hpast, hforwarded⟩ := h.server
  rw [hserver] at haccepted
  rw [Forwarded, hserver] at hforwarded
  obtain ⟨hle, hout⟩ := hforwarded
  have hcurrent : c ∈ s.accepted := by
    rw [haccepted]
    simp [ServerPc.current]
  have hsame : ∀ d, ((s.setStream c { s.stream c with
        taken := (s.stream c).taken + n }).stream d).sent = (s.stream d).sent ∧
      ((s.setStream c { s.stream c with
        taken := (s.stream c).taken + n }).stream d).closed =
        (s.stream d).closed := by
    intro d
    by_cases hd : d = c
    · subst hd
      simp [State.setStream]
    · simp [State.setStream, Function.update_of_ne hd]
  have hforwarded : (s.setStream c { s.stream c with
      taken := (s.stream c).taken + n }).forwarded past = s.forwarded past := by
    apply List.flatMap_congr
    intro d _
    exact (hsame d).1
  have hunread : (s.stream c).taken + n ≤ (s.stream c).sent.length := by
    rw [Stream.unread, List.length_drop] at hlen
    omega
  refine
    { clients := fun d => (h.clients d).congr (hsame d).1 (hsame d).2
      started := h.started
      connected := h.connected
      untouched := ?_
      server := ⟨past, haccepted, ?_, ?_, ?_⟩ }
  · intro d hd
    have hdc : d ≠ c := fun hdc => hd (hdc ▸ hcurrent)
    show (Function.update s.stream c _ d).taken = 0
    rw [Function.update_of_ne hdc]
    exact h.untouched d hd
  · intro d hd
    exact (hsame d).2.trans (hpast d hd)
  · show (Function.update s.stream c _ c).taken ≤
      (Function.update s.stream c _ c).sent.length
    rw [Function.update_self]
    exact hunread
  · have hpiece : (s.buffer.fill ((s.stream c).unread.take n)).bytes.take n =
        (s.stream c).unread.take n := by
      have hfill := s.buffer.take_fill ((s.stream c).unread.take n)
      rw [List.take_take, Nat.min_eq_right hcap, List.length_take,
        Nat.min_eq_left hlen] at hfill
      exact hfill
    show s.stdout ++ (s.buffer.fill ((s.stream c).unread.take n)).bytes.take n =
      (s.setStream c { s.stream c with
        taken := (s.stream c).taken + n }).forwarded past ++
        (Function.update s.stream c _ c).sent.take
          (Function.update s.stream c _ c).taken
    rw [hpiece, hforwarded, Function.update_self, hout, List.append_assoc,
      Stream.unread, List.take_add]

theorem Inv.server_step {s t : State} (h : Inv s) {a : Answer}
    (hl : flawless s (.server a) = true) (hstep : serverStep s a = some t) :
    Inv t := by
  obtain ⟨past, haccepted, hpast, hforwarded⟩ := h.server
  unfold Forwarded at hforwarded
  cases hserver : s.server with
  | accept =>
      cases a with
      | err => cases hl
      | count n => simp [serverStep, hserver] at hstep
      | ok =>
          cases hbacklog : s.backlog with
          | nil => simp [serverStep, hserver, hbacklog] at hstep
          | cons c rest =>
              simp only [serverStep, hserver, hbacklog,
                Option.some.injEq] at hstep
              exact hstep ▸ h.accept hserver hbacklog
  | read c =>
      rw [hserver] at haccepted hforwarded
      cases a with
      | err => cases hl
      | ok => simp [serverStep, hserver] at hstep
      | count n =>
          simp only [serverStep, hserver, Option.map_eq_some_iff,
            Prod.exists] at hstep
          obtain ⟨bs, x, hread, rfl⟩ := hstep
          rcases read_cases hread with ⟨rfl, hunread, hclosed, _, _⟩ |
            ⟨hn, hcap, hlen, rfl, rfl⟩
          · -- The end of the connection: all of it has been taken.
            simp only [gt_iff_lt, Nat.lt_irrefl, if_false]
            refine
              { clients := h.clients
                started := h.started
                connected := h.connected
                untouched := h.untouched
                server := ⟨past, haccepted, hpast, hclosed, ?_⟩ }
            rw [Stream.unread, List.drop_eq_nil_iff] at hunread
            have hout := hforwarded.2
            rw [List.take_of_length_le hunread] at hout
            exact hout
          · simp only [gt_iff_lt, Nat.pos_of_ne_zero hn, if_true]
            exact h.read hserver hcap hlen
  | write c numBytesRead =>
      rw [hserver] at haccepted hforwarded
      cases a with
      | err => cases hl
      | ok => simp [serverStep, hserver] at hstep
      | count n =>
          simp only [flawless, hserver, decide_eq_true_eq] at hl
          subst hl
          simp only [serverStep, hserver, Nat.le_refl, if_true, ne_eq,
            not_true_eq_false, if_false, Option.some.injEq] at hstep
          subst hstep
          exact
            { clients := h.clients
              started := h.started
              connected := h.connected
              untouched := h.untouched
              server := ⟨past, haccepted, hpast, hforwarded⟩ }
  | close c =>
      rw [hserver] at haccepted hforwarded
      cases a with
      | err => cases hl
      | count n => simp [serverStep, hserver] at hstep
      | ok =>
          simp only [serverStep, hserver, Option.some.injEq] at hstep
          subst hstep
          refine
            { clients := h.clients
              started := h.started
              connected := h.connected
              untouched := h.untouched
              server := ⟨past ++ [c], ?_, ?_, ?_⟩ }
          · show s.accepted = past ++ [c] ++ []
            rw [List.append_nil]
            exact haccepted
          · intro d hd
            rw [List.mem_append, List.mem_singleton] at hd
            rcases hd with hd | rfl
            · exact hpast d hd
            · exact hforwarded.1
          · show s.stdout = (past ++ [c]).flatMap fun d => (s.stream d).sent
            rw [List.flatMap_append, List.flatMap_singleton]
            exact hforwarded.2
  | exited =>
      rw [hserver] at hforwarded
      exact hforwarded.elim

theorem Inv.next {s t : State} {l : Label} (h : Inv s)
    (hl : flawless s l = true) (hstep : step s l = some t) : Inv t := by
  cases l with
  | start c input buffer => exact h.start_client hstep
  | client c a => exact h.client_step hl hstep
  | server a => exact h.server_step hl hstep

end Lpi.Ports.UsXfr
