import Lpi.Ports.UsXfrStream

/-!
# The transfer as a whole

As long as nothing fails, some program can move until all clients have ended
and the server has seen the end of every connection (`Inv.progress`), and
every step leaves less to do (`Inv.work_lt`).  When all is done, the transfer
was right exactly if every piece of every client filled the buffer.
-/

namespace Lpi.Ports.UsXfr

open Lpi.Verified.CData
open Lpi.Verified.Channel
open Lpi.Verified.Pieces
open Lpi.Verified.Run
open Lpi.Verified.Tally

/-! ## Work left -/

/-- Steps left to a client; a piece that has been read still has to be sent,
received and forwarded. -/
def Client.work (k : Client) : Nat :=
  match k.pc with
  | .idle => 0
  | .connect => (2 * bufferSize + 2) * k.stdin.length + 6
  | .read => (2 * bufferSize + 2) * k.stdin.length + 2
  | .write _ => (2 * bufferSize + 2) * k.stdin.length + 2 * bufferSize + 3
  | .close => 1
  | .exited _ => 0

def ServerPc.work : ServerPc → Nat
  | .accept => 0
  | .read _ => 2
  | .write _ _ => 3
  | .close _ => 1
  | .exited => 0

/-- What is left on one connection. -/
def State.workOf (s : State) (c : Nat) : Nat :=
  (s.client c).work + 2 * (s.stream c).unread.length

/-- A bound on the number of steps that are left. -/
def State.work (s : State) : Nat :=
  (s.started.map s.workOf).sum + 3 * s.backlog.length + s.server.work

/-- One client or its connection has moved. -/
theorem Inv.work_add {s t : State} (h : Inv s) {c : Nat}
    (hc : (s.client c).pc ≠ .idle) (hstarted : t.started = s.started)
    (hclient : ∀ d, d ≠ c → t.client d = s.client d)
    (hstream : ∀ d, d ≠ c → t.stream d = s.stream d) :
    t.work + s.workOf c + 3 * s.backlog.length + s.server.work =
      s.work + t.workOf c + 3 * t.backlog.length + t.server.work := by
  have hsum := sum_map_add h.started.1 ((h.started.2 c).2 hc)
    (f := s.workOf) (g := t.workOf) (by
      intro d hd
      unfold State.workOf
      rw [hclient d hd, hstream d hd])
  unfold State.work
  rw [hstarted]
  omega

theorem length_unread_write_le (x : Stream) (bs : List UInt8) :
    (x.write bs).unread.length ≤ x.unread.length + bs.length := by
  simp only [Stream.unread, Stream.write, List.length_drop, List.length_append]
  omega

/-- A step of client `c` that replaces the client and its stream. -/
theorem Inv.update_work_lt {s : State} (h : Inv s) {c : Nat}
    (hc : (s.client c).pc ≠ .idle) {k : Client} {x : Stream}
    (hless : k.work + 2 * x.unread.length < s.workOf c) :
    ((s.setStream c x).setClient c k).work < s.work := by
  have hadd := h.work_add (t := (s.setStream c x).setClient c k) hc rfl
    (fun d hd => Function.update_of_ne hd _ _)
    (fun d hd => Function.update_of_ne hd _ _)
  have hafter : ((s.setStream c x).setClient c k).workOf c =
      k.work + 2 * x.unread.length := by
    simp [State.workOf, State.setClient, State.setStream]
  have hbacklog : ((s.setStream c x).setClient c k).backlog = s.backlog := rfl
  have hserver : ((s.setStream c x).setClient c k).server = s.server := rfl
  rw [hafter, hbacklog, hserver] at hadd
  omega

theorem Inv.setClient_work_lt {s : State} (h : Inv s) {c : Nat}
    (hc : (s.client c).pc ≠ .idle) {k : Client}
    (hless : k.work + 2 * (s.stream c).unread.length < s.workOf c) :
    (s.setClient c k).work < s.work := by
  have hupdate := h.update_work_lt hc hless
  rwa [show s.setStream c (s.stream c) = s by simp [State.setStream]] at hupdate

/-- A client sends its buffer. -/
theorem Inv.write_work_lt {s t : State} (h : Inv s) {c n numBytes : Nat}
    (hpc : (s.client c).pc = .write numBytes) (hn : n = bufferSize)
    (hstep : clientStep s c (.count n) = some t) : t.work < s.work := by
  subst hn
  have hnotIdle : (s.client c).pc ≠ .idle := by simp [hpc]
  have hunread := length_unread_write_le (s.stream c)
    ((s.client c).buffer.bytes.take bufferSize)
  rw [List.length_take, (s.client c).buffer.length_eq, Nat.min_self] at hunread
  have hbefore : s.workOf c = (2 * bufferSize + 2) * (s.client c).stdin.length +
      2 * bufferSize + 3 + 2 * (s.stream c).unread.length := by
    simp [State.workOf, Client.work, hpc]
  simp only [clientStep, hpc, Option.ite_none_right_eq_some] at hstep
  obtain ⟨_, hstep⟩ := hstep
  split at hstep <;> cases hstep
  · have hclose := h.update_work_lt hnotIdle
      (k := { s.client c with pc := .exited .failure })
      (x := ((s.stream c).write
        ((s.client c).buffer.bytes.take bufferSize)).close) (by
        rw [hbefore]
        simp only [Client.work, Stream.unread, Stream.close] at hunread ⊢
        omega)
    simpa [State.clientExits, State.setStream, State.setClient] using hclose
  · apply h.update_work_lt hnotIdle
    rw [hbefore]
    simp only [Client.work, State.setStream]
    omega

theorem Inv.client_work_lt {s t : State} (h : Inv s) {c : Nat} {a : Answer}
    (hl : flawless s (.client c a) = true)
    (hstep : clientStep s c a = some t) : t.work < s.work := by
  cases a with
  | err => cases hl
  | count n =>
      simp only [flawless, decide_eq_true_eq] at hl
      cases hpc : (s.client c).pc with
      | idle | connect | read | close | exited status =>
          simp [clientStep, hpc] at hstep
      | write numBytes => exact h.write_work_lt hpc hl hstep
  | ok =>
      cases hpc : (s.client c).pc with
      | idle | write numBytes | exited status =>
          simp [clientStep, hpc] at hstep
      | connect =>
          simp only [clientStep, hpc, Option.ite_none_left_eq_some,
            Option.some.injEq] at hstep
          obtain ⟨_, rfl⟩ := hstep
          have hadd := h.work_add
            (t := { s.setClient c { s.client c with pc := .read } with
              backlog := s.backlog ++ [c] }) (by simp [hpc]) rfl
            (fun d hd => Function.update_of_ne hd _ _) (fun _ _ => rfl)
          simp only [State.workOf, State.setClient, Function.update_self,
            Client.work, hpc, List.length_append, List.length_singleton] at hadd ⊢
          omega
      | read =>
          cases hstdin : (s.client c).stdin with
          | nil =>
              simp only [clientStep, hpc, hstdin, Option.some.injEq] at hstep
              subst hstep
              apply h.setClient_work_lt (by simp [hpc])
              simp only [State.workOf, Client.work, hpc, hstdin]
              omega
          | cons chunk rest =>
              simp only [clientStep, hpc, hstdin, Option.some.injEq] at hstep
              subst hstep
              apply h.setClient_work_lt (by simp [hpc])
              simp only [State.workOf, Client.work, hpc, hstdin, List.length_cons,
                Nat.mul_add_one]
              omega
      | close =>
          simp only [clientStep, hpc, Option.some.injEq] at hstep
          subst hstep
          apply h.update_work_lt (by simp [hpc])
          simp only [State.workOf, Client.work, hpc, Stream.unread, Stream.close]
          omega

/-- A step of the server that leaves the connections as they are. -/
theorem work_lt_of_server {s t : State} (hstarted : t.started = s.started)
    (hworkOf : t.workOf = s.workOf)
    (hless : 3 * t.backlog.length + t.server.work <
      3 * s.backlog.length + s.server.work) : t.work < s.work := by
  unfold State.work
  rw [hstarted, hworkOf]
  omega

theorem Inv.server_work_lt {s t : State} (h : Inv s) {a : Answer}
    (hl : flawless s (.server a) = true) (hstep : serverStep s a = some t) :
    t.work < s.work := by
  obtain ⟨past, haccepted, _, hforwarded⟩ := h.server
  cases hserver : s.server with
  | accept =>
      cases a with
      | err => cases hl
      | count n => simp [serverStep, hserver] at hstep
      | ok =>
          cases hbacklog : s.backlog with
          | nil => simp [serverStep, hserver, hbacklog] at hstep
          | cons c rest =>
              simp only [serverStep, hserver, hbacklog,
                Option.some.injEq] at hstep
              subst hstep
              refine work_lt_of_server (s := s) rfl rfl ?_
              rw [hserver, hbacklog, List.length_cons]
              simp only [ServerPc.work]
              omega
  | read c =>
      cases a with
      | err => cases hl
      | ok => simp [serverStep, hserver] at hstep
      | count n =>
          simp only [serverStep, hserver, Option.map_eq_some_iff,
            Prod.exists] at hstep
          obtain ⟨bs, x, hread, rfl⟩ := hstep
          rcases read_cases hread with ⟨rfl, _, _, _, _⟩ |
            ⟨hn, _, hlen, rfl, rfl⟩
          · simp only [gt_iff_lt, Nat.lt_irrefl, if_false]
            refine work_lt_of_server (s := s) rfl rfl ?_
            rw [hserver]
            simp only [ServerPc.work]
            omega
          · have hconnected : (s.client c).pc ≠ .idle := by
              apply ((h.connected.2 c).1 _).1
              rw [haccepted, hserver]
              simp [ServerPc.current]
            simp only [gt_iff_lt, Nat.pos_of_ne_zero hn, if_true]
            have hadd := h.work_add
              (t := { s.setStream c
                        { s.stream c with taken := (s.stream c).taken + n } with
                      server := .write c n
                      buffer := s.buffer.fill ((s.stream c).unread.take n) })
              hconnected rfl (fun _ _ => rfl)
              (fun d hd => Function.update_of_ne hd _ _)
            simp only [State.workOf, State.setStream, Function.update_self,
              Stream.unread, List.length_drop, hserver, ServerPc.work] at hadd hlen ⊢
            omega
  | write c numBytesRead =>
      cases a with
      | err => cases hl
      | ok => simp [serverStep, hserver] at hstep
      | count n =>
          simp only [flawless, hserver, decide_eq_true_eq] at hl
          subst hl
          simp only [serverStep, hserver, Nat.le_refl, if_true, ne_eq,
            not_true_eq_false, if_false, Option.some.injEq] at hstep
          subst hstep
          refine work_lt_of_server (s := s) rfl rfl ?_
          rw [hserver]
          simp only [ServerPc.work]
          omega
  | close c =>
      cases a with
      | err => cases hl
      | count n => simp [serverStep, hserver] at hstep
      | ok =>
          simp only [serverStep, hserver, Option.some.injEq] at hstep
          subst hstep
          refine work_lt_of_server (s := s) rfl rfl ?_
          rw [hserver]
          simp only [ServerPc.work]
          omega
  | exited =>
      rw [Forwarded, hserver] at hforwarded
      exact hforwarded.elim

/-! ## Progress -/

/-- The label is a step of a program that runs, not the start of another
one. -/
def Label.runs : Label → Bool
  | .start _ _ _ => false
  | .client _ _ | .server _ => true

/-- Some program can move. -/
def CanMove (s : State) : Prop :=
  ∃ l, l.runs = true ∧ flawless s l = true ∧ Enabled step s l

/-- A client that has not ended can move, unless it has to wait for a place
in the backlog. -/
theorem Inv.client_can_move {s : State} (h : Inv s) {c : Nat}
    (hidle : (s.client c).pc ≠ .idle)
    (hexited : ∀ status, (s.client c).pc ≠ .exited status)
    (hroom : (s.client c).pc = .connect → s.backlog.length ≤ backlogMax) :
    CanMove s := by
  have hserver : s.server ≠ .exited := by
    intro hover
    obtain ⟨past, _, _, hforwarded⟩ := h.server
    rw [Forwarded, hover] at hforwarded
    exact hforwarded
  cases hpc : (s.client c).pc with
  | idle => exact absurd hpc hidle
  | exited status => exact absurd hpc (hexited status)
  | connect =>
      refine ⟨.client c .ok, rfl, rfl, ?_⟩
      rw [enabled_iff]
      have hspace := hroom hpc
      simp [step, clientStep, hpc, hserver, hspace]
  | read =>
      refine ⟨.client c .ok, rfl, rfl, ?_⟩
      rw [enabled_iff]
      cases hstdin : (s.client c).stdin <;>
        simp [step, clientStep, hpc, hstdin]
  | write numBytes =>
      refine ⟨.client c (.count bufferSize), rfl, by simp [flawless], ?_⟩
      rw [enabled_iff]
      by_cases hfull : bufferSize = numBytes
      · simp [step, clientStep, hpc, hserver, hfull]
      · simp [step, clientStep, hpc, hserver, hfull]
  | close =>
      refine ⟨.client c .ok, rfl, rfl, ?_⟩
      rw [enabled_iff]
      simp [step, clientStep, hpc]

/-- Nothing is stuck before all is done. -/
theorem Inv.progress {s : State} (h : Inv s) (hnot : ¬ Finished s) :
    CanMove s := by
  obtain ⟨past, haccepted, _, hforwarded⟩ := h.server
  rw [Forwarded] at hforwarded
  cases hserver : s.server with
  | exited =>
      rw [hserver] at hforwarded
      exact hforwarded.elim
  | accept =>
      cases hbacklog : s.backlog with
      | cons c rest =>
          refine ⟨.server .ok, rfl, rfl, ?_⟩
          rw [enabled_iff]
          simp [step, serverStep, hserver, hbacklog]
      | nil =>
          have hrunning : ∃ c ∈ s.started,
              ∀ status, (s.client c).pc ≠ .exited status := by
            by_contra hall
            apply hnot
            refine ⟨hserver, hbacklog, ?_⟩
            intro c hc
            by_contra hstatus
            exact hall ⟨c, hc, fun status hpc => hstatus ⟨status, hpc⟩⟩
          obtain ⟨c, hc, hexited⟩ := hrunning
          apply h.client_can_move ((h.started.2 c).1 hc) hexited
          intro _
          rw [hbacklog]
          exact Nat.zero_le _
  | write c numBytesRead =>
      refine ⟨.server (.count numBytesRead), rfl, by simp [flawless, hserver], ?_⟩
      rw [enabled_iff]
      simp [step, serverStep, hserver]
  | close c =>
      refine ⟨.server .ok, rfl, rfl, ?_⟩
      rw [enabled_iff]
      simp [step, serverStep, hserver]
  | read c =>
      have hconnected := (h.connected.2 c).1 (by
        rw [haccepted, hserver]
        simp [ServerPc.current])
      by_cases hunread : (s.stream c).unread = []
      · cases hclosed : (s.stream c).closed with
        | true =>
            refine ⟨.server (.count 0), rfl, by simp [flawless, hserver], ?_⟩
            rw [enabled_iff]
            simp [step, serverStep, hserver, Stream.read, hunread, hclosed]
        | false =>
            -- The connection is open, so its client has not ended.
            apply h.client_can_move hconnected.1
            · intro status hpc
              have hsends := h.clients c
              rw [Sends, hpc] at hsends
              cases status with
              | success =>
                  rw [hsends.1] at hclosed
                  cases hclosed
              | failure =>
                  rw [hsends.1] at hclosed
                  cases hclosed
            · exact fun hpc => absurd hpc hconnected.2
      · refine ⟨.server (.count 1), rfl, by simp [flawless, hserver], ?_⟩
        have hlen : 1 ≤ (s.stream c).unread.length := List.length_pos_iff.2 hunread
        rw [enabled_iff]
        simp [step, serverStep, hserver, Stream.read, hlen, bufferSize]

/-! ## The transfer -/

/-- Every client has succeeded, and the server has written what they read,
one connection after the other. -/
def TransferExact (s : State) : Prop :=
  (∀ c ∈ s.started, (s.client c).pc = .exited .success) ∧
    s.stdout = s.accepted.flatMap fun c => join (s.client c).input

theorem Inv.accepted_perm {s : State} (h : Inv s) (hfinished : Finished s) :
    s.accepted.Perm s.started := by
  obtain ⟨_, hbacklog, hexited⟩ := hfinished
  have hconnected := h.connected
  rw [hbacklog, List.append_nil] at hconnected
  rw [List.perm_ext_iff_of_nodup hconnected.1 h.started.1]
  intro c
  rw [hconnected.2 c, h.started.2 c]
  constructor
  · exact fun hboth => hboth.1
  · intro hidle
    obtain ⟨status, hpc⟩ := hexited c ((h.started.2 c).2 hidle)
    simp [hpc]

theorem Inv.exact_iff {s : State} (h : Inv s) (hfinished : Finished s) :
    TransferExact s ↔ ∀ c ∈ s.started, Full (s.client c).input := by
  have hperm := h.accepted_perm hfinished
  obtain ⟨haccept, _, hexited⟩ := hfinished
  constructor
  · rintro ⟨hsuccess, _⟩ c hc
    have hsends := h.clients c
    rw [Sends, hsuccess c hc] at hsends
    exact hsends.2.1
  · intro hfull
    have hsuccess : ∀ c ∈ s.started, (s.client c).pc = .exited .success := by
      intro c hc
      obtain ⟨status, hpc⟩ := hexited c hc
      cases status with
      | success => exact hpc
      | failure =>
          have hsends := h.clients c
          rw [Sends, hpc] at hsends
          exact absurd (hfull c hc) hsends.2
    refine ⟨hsuccess, ?_⟩
    obtain ⟨past, haccepted, _, hforwarded⟩ := h.server
    rw [Forwarded, haccept] at hforwarded
    have hpast : s.accepted = past := by
      rw [haccepted, haccept]
      simp [ServerPc.current]
    rw [show s.stdout = s.forwarded past from hforwarded, hpast]
    apply List.flatMap_congr
    intro c hc
    have hsends := h.clients c
    rw [Sends, hsuccess c (hperm.subset (hpast ▸ hc))] at hsends
    exact hsends.2.2

/-- **When the transfer is right.**  Take any run in which no call fails and
every `write` accepts all the bytes it is given.  Until all clients have
ended and the server has seen the end of all connections, some program can
move, and each of their steps leaves less work.  When it is done, the server
has accepted every client once, and all clients have succeeded and standard
output is their inputs in the order of acceptance if and only if every piece
of every client's standard input filled the buffer. -/
theorem transfer_exact (buffer : Buffer bufferSize) (ls : List Label) (s : State)
    (hflawless : Along step (fun s l => flawless s l = true) (start buffer) ls)
    (hrun : exec step (start buffer) ls = some s) :
    (¬ Finished s → CanMove s) ∧
    (∀ l t, l.runs = true → flawless s l = true → step s l = some t →
      t.work < s.work) ∧
    (Finished s → s.accepted.Perm s.started ∧
      (TransferExact s ↔ ∀ c ∈ s.started, ∀ chunk ∈ (s.client c).input,
        chunk.bytes.length = bufferSize)) := by
  have h : Inv s := invariant_along
    (fun _ _ _ h hl hstep => Inv.next h hl hstep)
    (start_inv buffer) hflawless hrun
  refine ⟨h.progress, ?_, ?_⟩
  · intro l t hruns hl hstep
    cases l with
    | start c input buffer => cases hruns
    | client c a => exact h.client_work_lt hl hstep
    | server a => exact h.server_work_lt hl hstep
  · intro hfinished
    exact ⟨h.accepted_perm hfinished, h.exact_iff hfinished⟩

/-- A buffer of zero bytes. -/
def zeroBuffer : Buffer bufferSize := ⟨List.replicate bufferSize 0, rfl⟩

/-- Two clients, one with a full piece and one without input; the second one
connects first. -/
def fullPiece : List Label :=
  [.start 1 [⟨List.replicate bufferSize 7, by decide, by decide⟩] zeroBuffer,
    .start 2 [] zeroBuffer, .client 2 .ok, .client 1 .ok, .client 1 .ok,
    .server .ok, .client 1 (.count bufferSize), .client 2 .ok, .client 2 .ok,
    .server (.count 0), .server .ok, .server .ok, .server (.count 60),
    .server (.count 60), .client 1 .ok, .server (.count 40),
    .server (.count 40), .client 1 .ok, .server (.count 0), .server .ok]

theorem transfer_exact_full_piece :
    ∃ s, exec step (start zeroBuffer) fullPiece = some s ∧
      s.accepted = [2, 1] ∧ TransferExact s := by
  obtain ⟨s, hs, haccepted, hserver, hbacklog, hexited, hfull⟩ :=
    exists_exec step
      (fun s => s.accepted = [2, 1] ∧ s.server = .accept ∧ s.backlog = [] ∧
        (∀ c ∈ s.started, (s.client c).pc = .exited .success) ∧
        ∀ c ∈ s.started, ∀ chunk ∈ (s.client c).input,
          chunk.bytes.length = bufferSize)
      (start zeroBuffer) fullPiece (by decide)
  have hexact := (transfer_exact zeroBuffer fullPiece s (by decide) hs).2.2
    ⟨hserver, hbacklog, fun c hc => ⟨.success, hexited c hc⟩⟩
  exact ⟨s, hs, haccepted, hexact.2.2 hfull⟩

/-- The input "Hi" in one piece. -/
def shortPiece : List Label :=
  [.start 1 [⟨[72, 105], by decide, by decide⟩] zeroBuffer, .client 1 .ok,
    .client 1 .ok, .client 1 (.count bufferSize), .server .ok,
    .server (.count 100), .server (.count 100), .server (.count 0), .server .ok]

/-- A hundred bytes are written for the two that were read, and the client
takes this for a failure. -/
theorem whole_buffer_sent :
    Along step (fun s l => flawless s l = true) (start zeroBuffer) shortPiece ∧
    ∃ s, exec step (start zeroBuffer) shortPiece = some s ∧
      s.server = .accept ∧ s.backlog = [] ∧ s.started = [1] ∧
      (s.client 1).pc = .exited .failure ∧
      s.stdout = [72, 105] ++ List.replicate 98 0 :=
  ⟨by decide, exists_exec step _ _ _ (by decide)⟩

end Lpi.Ports.UsXfr
