import Lpi.Ports.FifoSeqnum
import Lpi.Verified.Counter
import Lpi.Verified.Keyed
import Lpi.Verified.Run

/-!
# Order and routing of the FIFO sequence-number service

Three things hold together in every reachable state (`Inv`).

* The server's FIFO is a string of whole requests, the ones sent but not yet
  read, so a `read` of the size of a request returns one.
* The log of the server is numbered by its counter, which the requests
  answered in full have advanced and the others have not.
* What is in a client's FIFO, after what the client has read from it, is what
  the server has written in answer to that client (`Stored`).  This is where
  the names of the FIFOs matter: a write into one of them is a write into no
  other client's.
-/

namespace Lpi.Ports.FifoSeqnum

open Lpi.Verified
open Lpi.Verified.CData
open Lpi.Verified.CString
open Lpi.Verified.Counter
open Lpi.Verified.Run

/-! ## Names and frames -/

theorem clientFifo_eq_text (pid : Int32) : clientFifo pid = clientFifoText pid :=
  snprintf_pid (by decide) pid

theorem clientFifo_injective : Function.Injective clientFifo :=
  snprintf_pid_injective (by decide)

theorem length_requestBytes (r : Request) : r.bytes.length = sizeofRequest := by
  simp [Request.bytes, sizeofRequest]

theorem requestOfBytes_bytes (r : Request) : requestOfBytes r.bytes = r := by
  have hpid : (bytesOfInt r.pid).length = sizeofInt := length_bytesOfInt r.pid
  rw [requestOfBytes, Request.bytes, ← hpid, List.take_left, List.drop_left,
    intOfBytes_bytesOfInt, intOfBytes_bytesOfInt]

/-! ## The invariant -/

/-- What answering the request added to the counter. -/
def Reply.inc (e : Reply) : Option Int32 :=
  if e.full then some e.request.seqLen else none

/-- The bytes of the response that were written. -/
def Reply.bytes (e : Reply) : List UInt8 := (bytesOfInt e.seqNum).take e.written

/-- Everything the server ever wrote for process `pid`. -/
def responseBytes (log : List Reply) (pid : Int32) : List UInt8 :=
  (log.filter (·.request.pid = pid)).flatMap Reply.bytes

/-- The request the server has read and not yet dealt with. -/
def ServerPc.inHand : ServerPc → List Request
  | .openFifo r | .write r => [r]
  | _ => []

/-- What the server still has to add to its counter. -/
def ServerPc.owes : ServerPc → List Int32
  | .close r => [r.seqLen]
  | _ => []

/-- The client is past its `write` of the request. -/
def ClientPc.Sent : ClientPc → Prop
  | .idle | .mkfifo | .atexit | .openServer | .writeRequest => False
  | _ => True

/-- The client is before its `read` of the response. -/
def ClientPc.Unread : ClientPc → Prop
  | .closeFifo | .unlink _ | .exited _ => False
  | _ => True

/-- A client, its FIFO and what the server has written for it. -/
structure Stored (k : Client) (fifo : Option Fifo) (response : List UInt8) :
    Prop where
  got_start : k.got <+: response
  data : ∀ f, fifo = some f → k.got ++ f.data = response
  unread : k.pc.Unread → k.got = []
  printed : ∀ v, k.printed = some v →
    k.got.length = sizeofInt ∧ v = intOfBytes k.got

/-- Requests on their way, with `fifo` in the server's FIFO. -/
def Framed (requests : List Request) (log : List Reply) (pc : ServerPc)
    (fifo : List UInt8) : Prop :=
  ∃ pending, requests = log.map Reply.request ++ pc.inHand ++ pending ∧
    fifo = pending.flatMap Request.bytes

structure Inv (s : State) : Prop where
  framed : Framed s.requests s.log s.server s.serverFifo
  whole : s.server ≠ .misframed
  written : ∀ e ∈ s.log, e.written ≤ sizeofInt
  numbered : Numbered Reply.seqNum Reply.inc 0 s.log
  counted : counter 0 (s.log.filterMap Reply.inc) = counter s.seqNum s.server.owes
  answered : ∀ r, s.server = .close r →
    ∃ e, s.log.getLast? = some e ∧ e.request = r ∧ e.full = true
  nodup : (s.requests.map Request.pid).Nodup
  sent : ∀ r ∈ s.requests,
    (s.client r.pid).pc.Sent ∧ (s.client r.pid).seqLen = r.seqLen
  stored : ∀ pid,
    Stored (s.client pid) (s.fifo (clientFifo pid)) (responseBytes s.log pid)

theorem start_inv (stale : List UInt8 → Bool) : Inv (start stale) where
  framed := ⟨[], rfl, rfl⟩
  whole := nofun
  written := nofun
  numbered := numbered_nil 0
  counted := rfl
  answered := nofun
  nodup := List.nodup_nil
  sent := nofun
  stored := by
    intro pid
    refine
      { got_start := List.nil_prefix
        data := ?_
        unread := fun _ => rfl
        printed := nofun }
    intro f hf
    simp only [start, Option.ite_none_right_eq_some, Option.some.injEq] at hf
    obtain ⟨_, rfl⟩ := hf
    rfl

/-! ## Steps of a client -/

@[simp] theorem setFifo_self (s : State) (name : List UInt8) :
    s.setFifo name (s.fifo name) = s := by
  simp [State.setFifo]

/-- A client moves, and may do something to its own FIFO. -/
theorem Inv.update_client {s : State} (h : Inv s) {pid : Int32} {k : Client}
    {f : Option Fifo}
    (hsent : (s.client pid).pc.Sent →
      k.pc.Sent ∧ k.seqLen = (s.client pid).seqLen)
    (hstored : Stored k f (responseBytes s.log pid)) :
    Inv ((s.setFifo (clientFifo pid) f).setClient pid k) where
  framed := h.framed
  whole := h.whole
  written := h.written
  numbered := h.numbered
  counted := h.counted
  answered := h.answered
  nodup := h.nodup
  sent := by
    intro r hr
    obtain ⟨hpast, hlen⟩ := h.sent r hr
    by_cases hpid : r.pid = pid
    · subst hpid
      obtain ⟨hk, hklen⟩ := hsent hpast
      simp only [State.setClient, Function.update_self]
      exact ⟨hk, hklen.trans hlen⟩
    · simp only [State.setClient, State.setFifo, Function.update_of_ne hpid]
      exact ⟨hpast, hlen⟩
  stored := by
    intro q
    by_cases hq : q = pid
    · subst hq
      simp only [State.setClient, State.setFifo, Function.update_self]
      exact hstored
    · have hname : clientFifo q ≠ clientFifo pid := clientFifo_injective.ne hq
      simp only [State.setClient, State.setFifo, Function.update_of_ne hq,
        Function.update_of_ne hname]
      exact h.stored q

theorem Inv.set_client {s : State} (h : Inv s) {pid : Int32} {k : Client}
    (hsent : (s.client pid).pc.Sent →
      k.pc.Sent ∧ k.seqLen = (s.client pid).seqLen)
    (hstored : Stored k (s.fifo (clientFifo pid)) (responseBytes s.log pid)) :
    Inv (s.setClient pid k) := by
  have hinv := h.update_client hsent hstored
  rw [setFifo_self] at hinv
  exact hinv

/-- A client goes on without reading; its FIFO keeps what is in it. -/
theorem Stored.moves {k : Client} {fifo fifo' : Option Fifo}
    {response : List UInt8} (h : Stored k fifo response) {pc : ClientPc}
    (hunread : pc.Unread → k.pc.Unread)
    (hfifo : ∀ f', fifo' = some f' → ∃ f, fifo = some f ∧ f'.data = f.data) :
    Stored { k with pc := pc } fifo' response where
  got_start := h.got_start
  data := by
    intro f' hf'
    obtain ⟨f, hf, hdata⟩ := hfifo f' hf'
    rw [hdata]
    exact h.data f hf
  unread := fun hpc => h.unread (hunread hpc)
  printed := h.printed

/-- Changing who has the FIFO open changes nothing of its contents. -/
theorem map_fifo_data {fifo : Option Fifo} {g : Fifo → Fifo}
    (hg : ∀ f, (g f).data = f.data) :
    ∀ f', fifo.map g = some f' → ∃ f, fifo = some f ∧ f'.data = f.data := by
  intro f' hf'
  obtain ⟨f, hf, rfl⟩ := Option.map_eq_some_iff.1 hf'
  exact ⟨f, hf, hg f⟩

/-- Nothing was written for a client that has not sent its request. -/
theorem Inv.responseBytes_of_unsent {s : State} (h : Inv s) {pid : Int32}
    (hunsent : ¬ (s.client pid).pc.Sent) : responseBytes s.log pid = [] := by
  obtain ⟨pending, hrequests, _⟩ := h.framed
  have hnone : s.log.filter (·.request.pid = pid) = [] := by
    rw [List.filter_eq_nil_iff]
    intro e he hpid
    rw [decide_eq_true_iff] at hpid
    have hmem : e.request ∈ s.requests := by
      rw [hrequests, List.append_assoc]
      exact List.mem_append_left _ (List.mem_map_of_mem he)
    exact hunsent (hpid ▸ (h.sent _ hmem).1)
  rw [responseBytes, hnone]
  rfl

theorem Inv.start_client {s t : State} (h : Inv s) {pid seqLen : Int32}
    (hstep : startClient s pid seqLen = some t) : Inv t := by
  simp only [startClient, ne_eq, ite_not, Option.ite_none_right_eq_some,
    Option.some.injEq] at hstep
  obtain ⟨hidle, rfl⟩ := hstep
  have hstored := h.stored pid
  apply h.set_client
  · intro hsent
    rw [hidle] at hsent
    exact hsent.elim
  · exact
      { got_start := hstored.got_start
        data := hstored.data
        unread := fun _ => hstored.unread (by rw [hidle]; trivial)
        printed := hstored.printed }

/-- `write` of the request. -/
theorem Inv.write_request {s : State} (h : Inv s) {pid : Int32}
    (hpc : (s.client pid).pc = .writeRequest) {r : Request}
    (hr : r = ⟨pid, (s.client pid).seqLen⟩) :
    Inv { s.setClient pid { s.client pid with pc := .closeServer } with
      serverFifo := s.serverFifo ++ r.bytes
      requests := s.requests ++ [r] } := by
  have hfresh : pid ∉ s.requests.map Request.pid := by
    intro hmem
    obtain ⟨q, hq, hpid⟩ := List.mem_map.1 hmem
    have hsent := (h.sent q hq).1
    rw [hpid, hpc] at hsent
    exact hsent
  have hclient : Inv (s.setClient pid { s.client pid with pc := .closeServer }) := by
    apply h.set_client
    · exact fun _ => ⟨trivial, rfl⟩
    · apply (h.stored pid).moves
      · exact fun _ => by rw [hpc]; trivial
      · exact fun f' hf' => ⟨f', hf', rfl⟩
  refine
    { framed := ?_
      whole := h.whole
      written := h.written
      numbered := h.numbered
      counted := h.counted
      answered := h.answered
      nodup := ?_
      sent := ?_
      stored := hclient.stored }
  · obtain ⟨pending, hrequests, hfifo⟩ := h.framed
    refine ⟨pending ++ [r], ?_, ?_⟩
    · show s.requests ++ [r] = _
      rw [hrequests, List.append_assoc]
      rfl
    · show s.serverFifo ++ r.bytes = _
      rw [hfifo, List.flatMap_append, List.flatMap_singleton]
  · rw [List.map_append, hr]
    exact (List.nodup_append_comm.2 (List.nodup_cons.2 ⟨hfresh, h.nodup⟩))
  · intro q hq
    rw [List.mem_append, List.mem_singleton] at hq
    rcases hq with hq | rfl
    · exact hclient.sent q hq
    · rw [hr]
      simp only [State.setClient, Function.update_self]
      exact ⟨trivial, trivial⟩

/-- `read` of the response: what was in the FIFO is now with the client. -/
theorem Inv.read_response {s t : State} (h : Inv s) {pid : Int32} {f : Fifo}
    (hpc : (s.client pid).pc = .readResponse)
    (hfifo : s.fifo (clientFifo pid) = some f)
    (hstep : readResponse s pid f = some t) : Inv t := by
  have hstored := h.stored pid
  have hgot : (s.client pid).got = [] := hstored.unread (by rw [hpc]; trivial)
  have hdata : f.data = responseBytes s.log pid := by
    have hall := hstored.data f hfifo
    rw [hgot] at hall
    exact hall
  have hcut : f.data.take sizeofInt ++ f.data.drop sizeofInt =
      responseBytes s.log pid := by
    rw [List.take_append_drop, hdata]
  have hstart : f.data.take sizeofInt <+: responseBytes s.log pid :=
    ⟨_, hcut⟩
  have hdrop : ∀ g, some { f with data := f.data.drop sizeofInt } = some g →
      f.data.take sizeofInt ++ g.data = responseBytes s.log pid := by
    intro g hg
    rw [← Option.some.inj hg]
    exact hcut
  simp only [readResponse, Option.ite_none_left_eq_some] at hstep
  obtain ⟨_, hstep⟩ := hstep
  split at hstep
  · cases hstep
    apply h.update_client
    · exact fun _ => ⟨trivial, rfl⟩
    · refine
        { got_start := hstart
          data := hdrop
          unread := fun hunread => hunread.elim
          printed := ?_ }
      intro v hv
      obtain ⟨hlen, _⟩ := hstored.printed v hv
      rw [hgot] at hlen
      exact absurd hlen (by decide)
  · rename_i hlen
    cases hstep
    apply h.update_client
    · exact fun _ => ⟨trivial, rfl⟩
    · refine
        { got_start := hstart
          data := hdrop
          unread := fun hunread => hunread.elim
          printed := ?_ }
      intro v hv
      exact ⟨not_not.1 hlen, (Option.some.inj hv).symm⟩

theorem Inv.client_ok {s t : State} (h : Inv s) {pid : Int32}
    (hstep : clientStep s pid .ok = some t) : Inv t := by
  have hstored := h.stored pid
  cases hpc : (s.client pid).pc with
  | idle | exited status => simp [clientStep, hpc] at hstep
  | mkfifo =>
      simp only [clientStep, hpc, Option.some.injEq] at hstep
      subst hstep
      have hresponse : responseBytes s.log pid = [] := by
        apply h.responseBytes_of_unsent
        rw [hpc]
        exact id
      have hgot : (s.client pid).got = [] :=
        hstored.unread (by rw [hpc]; trivial)
      apply h.update_client
      · intro hsent
        rw [hpc] at hsent
        exact hsent.elim
      · refine
          { got_start := hstored.got_start
            data := ?_
            unread := fun _ => hgot
            printed := hstored.printed }
        intro f hf
        cases hold : s.fifo (clientFifo pid) with
        | none =>
            rw [hold, Option.getD_none, Option.some.injEq] at hf
            rw [← hf, hresponse]
            simpa using hgot
        | some g =>
            rw [hold, Option.getD_some, Option.some.injEq] at hf
            exact hf ▸ hstored.data g hold
  | atexit | openServer =>
      simp only [clientStep, hpc, Option.some.injEq] at hstep
      subst hstep
      apply h.set_client
      · intro hsent
        rw [hpc] at hsent
        exact hsent.elim
      · apply hstored.moves
        · exact fun _ => by rw [hpc]; trivial
        · exact fun f' hf' => ⟨f', hf', rfl⟩
  | writeRequest =>
      simp only [clientStep, hpc, Option.some.injEq] at hstep
      subst hstep
      exact h.write_request hpc rfl
  | closeServer =>
      simp only [clientStep, hpc, Option.some.injEq] at hstep
      subst hstep
      apply h.update_client
      · exact fun _ => ⟨trivial, rfl⟩
      · apply hstored.moves
        · exact fun _ => by rw [hpc]; trivial
        · exact map_fifo_data fun _ => rfl
  | openFifo =>
      simp only [clientStep, hpc, Option.ite_none_right_eq_some,
        Option.some.injEq] at hstep
      obtain ⟨_, rfl⟩ := hstep
      apply h.set_client
      · exact fun _ => ⟨trivial, rfl⟩
      · apply hstored.moves
        · exact fun _ => by rw [hpc]; trivial
        · exact fun f' hf' => ⟨f', hf', rfl⟩
  | readResponse =>
      simp only [clientStep, hpc, Option.bind_eq_some_iff] at hstep
      obtain ⟨f, hfifo, hread⟩ := hstep
      exact h.read_response hpc hfifo hread
  | closeFifo =>
      simp only [clientStep, hpc, Option.some.injEq] at hstep
      subst hstep
      apply h.update_client
      · exact fun _ => ⟨trivial, rfl⟩
      · apply hstored.moves
        · exact fun hunread => hunread.elim
        · exact map_fifo_data fun _ => rfl
  | unlink status =>
      simp only [clientStep, hpc, Option.some.injEq] at hstep
      subst hstep
      apply h.update_client
      · exact fun _ => ⟨trivial, rfl⟩
      · apply hstored.moves
        · exact fun hunread => hunread.elim
        · exact nofun

theorem Inv.client_err {s t : State} (h : Inv s) {pid : Int32}
    (hstep : clientStep s pid .err = some t) : Inv t := by
  have hstored := h.stored pid
  -- Every failure is a way out that leaves the FIFO's contents alone.
  have hout : ∀ pc : ClientPc, pc.Sent → ¬ pc.Unread →
      Inv (s.setClient pid { s.client pid with pc := pc }) := by
    intro pc hsent hread
    apply h.set_client
    · exact fun _ => ⟨hsent, rfl⟩
    · apply hstored.moves
      · exact fun hunread => absurd hunread hread
      · exact fun f' hf' => ⟨f', hf', rfl⟩
  cases hpc : (s.client pid).pc with
  | idle | exited status => simp [clientStep, hpc] at hstep
  | mkfifo | atexit =>
      simp only [clientStep, hpc, Option.some.injEq] at hstep
      exact hstep ▸ hout (.exited .failure) trivial id
  | openServer | writeRequest | closeServer | openFifo | readResponse
  | closeFifo =>
      simp only [clientStep, hpc, Option.some.injEq] at hstep
      exact hstep ▸ hout (.unlink .failure) trivial id
  | unlink status =>
      simp only [clientStep, hpc, Option.some.injEq] at hstep
      subst hstep
      apply h.update_client
      · exact fun _ => ⟨trivial, rfl⟩
      · apply hstored.moves
        · exact fun hunread => hunread.elim
        · exact map_fifo_data fun _ => rfl

/-! ## Steps of the server -/

/-- The next request is at the front of the server's FIFO, whole. -/
theorem Inv.next_request {s : State} (h : Inv s) (hread : s.server = .read)
    (hne : s.serverFifo ≠ []) :
    ∃ r pending, s.serverFifo = r.bytes ++ pending.flatMap Request.bytes ∧
      s.requests = s.log.map Reply.request ++ r :: pending := by
  obtain ⟨pending, hrequests, hfifo⟩ := h.framed
  rw [hread] at hrequests
  cases pending with
  | nil => exact absurd hfifo hne
  | cons r rest =>
      refine ⟨r, rest, hfifo, ?_⟩
      rw [hrequests]
      simp [ServerPc.inHand]

theorem readRequest_eq {s : State} {r : Request} {rest : List UInt8}
    (hfifo : s.serverFifo = r.bytes ++ rest) :
    readRequest s = some { s with serverFifo := rest, server := .openFifo r } := by
  have hlen := length_requestBytes r
  have htake : s.serverFifo.take sizeofRequest = r.bytes := by
    rw [hfifo, ← hlen, List.take_left]
  have hdrop : s.serverFifo.drop sizeofRequest = rest := by
    rw [hfifo, ← hlen, List.drop_left]
  have hne : s.serverFifo ≠ [] := by
    intro hnil
    rw [hnil, List.take_nil] at htake
    rw [← htake] at hlen
    exact absurd hlen (by decide)
  simp only [readRequest, if_neg hne, htake, hdrop, hlen, ne_eq,
    not_true_eq_false, if_false, requestOfBytes_bytes]

/-- The server moves on without a record. -/
theorem Inv.server_moves {s t : State} (h : Inv s) (hrequests : t.requests = s.requests)
    (hlog : t.log = s.log) (hclient : t.client = s.client)
    (hframed : Framed s.requests s.log t.server t.serverFifo)
    (hwhole : t.server ≠ .misframed) (hclose : ∀ r, t.server ≠ .close r)
    (hcounted : counter 0 (s.log.filterMap Reply.inc) = counter t.seqNum t.server.owes)
    (hstored : ∀ pid,
      Stored (s.client pid) (t.fifo (clientFifo pid)) (responseBytes s.log pid)) :
    Inv t where
  framed := by
    rw [hrequests, hlog]
    exact hframed
  whole := hwhole
  written := by
    rw [hlog]
    exact h.written
  numbered := by
    rw [hlog]
    exact h.numbered
  counted := by
    rw [hlog]
    exact hcounted
  answered := fun r hr => absurd hr (hclose r)
  nodup := by
    rw [hrequests]
    exact h.nodup
  sent := by
    rw [hrequests, hclient]
    exact h.sent
  stored := by
    rw [hlog, hclient]
    exact hstored

theorem Inv.read_request {s t : State} (h : Inv s) (hread : s.server = .read)
    (hstep : readRequest s = some t) : Inv t := by
  have hne : s.serverFifo ≠ [] := by
    intro hnil
    simp [readRequest, hnil] at hstep
  obtain ⟨r, pending, hfifo, hrequests⟩ := h.next_request hread hne
  rw [readRequest_eq hfifo, Option.some.injEq] at hstep
  subst hstep
  have hcounted := h.counted
  rw [hread] at hcounted
  have hframed : Framed s.requests s.log (.openFifo r) (pending.flatMap Request.bytes) :=
    ⟨pending, by simpa [ServerPc.inHand] using hrequests, rfl⟩
  exact h.server_moves rfl rfl rfl hframed nofun nofun hcounted h.stored

theorem responseBytes_concat (log : List Reply) (e : Reply) (pid : Int32) :
    responseBytes (log ++ [e]) pid =
      responseBytes log pid ++ if e.request.pid = pid then e.bytes else [] := by
  unfold responseBytes
  rw [List.filter_append, List.flatMap_append]
  by_cases hpid : e.request.pid = pid
  · simp [hpid]
  · simp [hpid]

/-- More was written into the FIFO. -/
theorem Stored.append {k : Client} {fifo fifo' : Option Fifo}
    {response bs : List UInt8} (h : Stored k fifo response)
    (hfifo : ∀ f', fifo' = some f' →
      ∃ f, fifo = some f ∧ f'.data = f.data ++ bs) :
    Stored k fifo' (response ++ bs) where
  got_start := h.got_start.trans (List.prefix_append _ _)
  data := by
    intro f' hf'
    obtain ⟨f, hf, hdata⟩ := hfifo f' hf'
    rw [hdata, ← List.append_assoc, h.data f hf]
  unread := h.unread
  printed := h.printed

/-- The server is done with the request in its hand, having written `n`
bytes into its client's FIFO. -/
theorem Inv.record {s t : State} (h : Inv s) {r : Request} {n : Nat}
    (hhand : s.server = .openFifo r ∨ s.server = .write r)
    (hle : n ≤ sizeofInt) (hlog : t.log = s.log ++ [⟨r, s.seqNum, n⟩])
    (hpc : t.server = .read ∧ n ≠ sizeofInt ∨ t.server = .close r ∧ n = sizeofInt)
    (hseqNum : t.seqNum = s.seqNum) (hserverFifo : t.serverFifo = s.serverFifo)
    (hrequests : t.requests = s.requests) (hclient : t.client = s.client)
    (hother : ∀ pid, pid ≠ r.pid →
      t.fifo (clientFifo pid) = s.fifo (clientFifo pid))
    (hown : ∀ f', t.fifo (clientFifo r.pid) = some f' →
      ∃ f, s.fifo (clientFifo r.pid) = some f ∧
        f'.data = f.data ++ (bytesOfInt s.seqNum).take n) :
    Inv t := by
  have hcounted : s.seqNum = counter 0 (s.log.filterMap Reply.inc) := by
    rw [h.counted]
    rcases hhand with hhand | hhand <;> rw [hhand] <;> rfl
  refine
    { framed := ?_
      whole := ?_
      written := ?_
      numbered := ?_
      counted := ?_
      answered := ?_
      nodup := ?_
      sent := ?_
      stored := ?_ }
  · obtain ⟨pending, hall, hfifo⟩ := h.framed
    have hin : s.server.inHand = [r] := by
      rcases hhand with hhand | hhand <;> rw [hhand] <;> rfl
    have hout : t.server.inHand = [] := by
      rcases hpc with ⟨hpc, _⟩ | ⟨hpc, _⟩ <;> rw [hpc] <;> rfl
    refine ⟨pending, ?_, ?_⟩
    · rw [hrequests, hall, hin, hlog, hout, List.map_append]
      simp
    · rw [hserverFifo, hfifo]
  · rcases hpc with ⟨hpc, _⟩ | ⟨hpc, _⟩ <;> rw [hpc] <;> exact nofun
  · intro e he
    rw [hlog, List.mem_append, List.mem_singleton] at he
    rcases he with he | rfl
    · exact h.written e he
    · exact hle
  · rw [hlog]
    exact h.numbered.concat hcounted
  · rw [hlog, hseqNum, List.filterMap_append, counter_append, ← hcounted]
    rcases hpc with ⟨hpc, hn⟩ | ⟨hpc, hn⟩
    · simp [hpc, ServerPc.owes, Reply.inc, Reply.full, hn]
    · simp [hpc, ServerPc.owes, Reply.inc, Reply.full, hn]
  · intro q hq
    rcases hpc with ⟨hpc, _⟩ | ⟨hpc, hn⟩
    · rw [hpc] at hq
      cases hq
    · rw [hpc, ServerPc.close.injEq] at hq
      refine ⟨⟨r, s.seqNum, n⟩, ?_, hq, ?_⟩
      · rw [hlog, List.getLast?_concat]
      · simp [Reply.full, hn]
  · rw [hrequests]
    exact h.nodup
  · rw [hrequests, hclient]
    exact h.sent
  · intro pid
    have hstored := h.stored pid
    rw [hlog, hclient, responseBytes_concat]
    by_cases hpid : r.pid = pid
    · subst hpid
      rw [if_pos rfl]
      exact hstored.append hown
    · rw [if_neg hpid, List.append_nil, hother pid (Ne.symm hpid)]
      exact hstored

/-- `close`, whatever it returns, is followed by the addition. -/
theorem Inv.close_fifo {s : State} (h : Inv s) {r : Request}
    (hclose : s.server = .close r) :
    Inv { s with server := .read, seqNum := s.seqNum + r.seqLen } := by
  have hframed := h.framed
  have hcounted := h.counted
  rw [hclose] at hframed hcounted
  exact h.server_moves rfl rfl rfl hframed nofun nofun hcounted h.stored

theorem Inv.server_ok {s t : State} (h : Inv s)
    (hstep : serverStep s .ok = some t) : Inv t := by
  cases hpc : s.server with
  | read =>
      simp only [serverStep, hpc] at hstep
      exact h.read_request hpc hstep
  | openFifo r =>
      cases hfifo : s.fifo (clientFifo r.pid) with
      | none => simp [serverStep, hpc, hfifo] at hstep
      | some f =>
          simp only [serverStep, hpc, hfifo, Option.ite_none_right_eq_some,
            Option.some.injEq] at hstep
          obtain ⟨_, rfl⟩ := hstep
          have hframed := h.framed
          have hcounted := h.counted
          rw [hpc] at hframed hcounted
          refine h.server_moves rfl rfl rfl hframed nofun nofun hcounted ?_
          intro pid
          have hstored := h.stored pid
          by_cases hpid : pid = r.pid
          · subst hpid
            rw [hfifo] at hstored
            simp only [State.setFifo, Function.update_self]
            refine hstored.moves id ?_
            rintro f' ⟨⟩
            exact ⟨f, rfl, rfl⟩
          · simp only [State.setFifo,
              Function.update_of_ne (clientFifo_injective.ne hpid)]
            exact hstored
  | close r =>
      simp only [serverStep, hpc, Option.some.injEq] at hstep
      exact hstep ▸ h.close_fifo hpc
  | write r | readFailed | misframed => simp [serverStep, hpc] at hstep

theorem Inv.server_count {s t : State} (h : Inv s) {n : Nat}
    (hstep : serverStep s (.count n) = some t) : Inv t := by
  cases hpc : s.server with
  | write r =>
      cases hfifo : s.fifo (clientFifo r.pid) with
      | none => simp [serverStep, hpc, hfifo] at hstep
      | some f =>
          simp only [serverStep, hpc, hfifo, Option.ite_none_right_eq_some,
            Option.some.injEq] at hstep
          obtain ⟨⟨_, hle⟩, rfl⟩ := hstep
          have hother : ∀ pid, pid ≠ r.pid → ∀ g : Option Fifo,
              Function.update s.fifo (clientFifo r.pid) g (clientFifo pid) =
                s.fifo (clientFifo pid) := by
            intro pid hpid g
            exact Function.update_of_ne (clientFifo_injective.ne hpid) g s.fifo
          have hown : ∀ f', Function.update s.fifo (clientFifo r.pid)
              (some { f with data := f.data ++ (bytesOfInt s.seqNum).take n })
              (clientFifo r.pid) = some f' →
              ∃ f, s.fifo (clientFifo r.pid) = some f ∧
                f'.data = f.data ++ (bytesOfInt s.seqNum).take n := by
            intro f' hf'
            rw [Function.update_self, Option.some.injEq] at hf'
            exact ⟨f, hfifo, hf' ▸ rfl⟩
          unfold writeResponse
          by_cases hn : n = sizeofInt
          · simp only [ne_eq, hn, not_true_eq_false, if_false]
            subst hn
            exact h.record (Or.inr hpc) hle rfl (Or.inr ⟨rfl, rfl⟩) rfl rfl rfl rfl
              (fun pid hpid => hother pid hpid _) hown
          · simp only [ne_eq, hn, not_false_eq_true, if_true]
            exact h.record (Or.inr hpc) hle rfl (Or.inl ⟨rfl, hn⟩) rfl rfl rfl rfl
              (fun pid hpid => hother pid hpid _) hown
  | read | openFifo r | close r | readFailed | misframed =>
      simp [serverStep, hpc] at hstep

theorem Inv.server_err {s t : State} (h : Inv s)
    (hstep : serverStep s .err = some t) : Inv t := by
  have hkeep : ∀ {pid : Int32} {f' : Fifo}, s.fifo (clientFifo pid) = some f' →
      ∃ f, s.fifo (clientFifo pid) = some f ∧
        f'.data = f.data ++ (bytesOfInt s.seqNum).take 0 := by
    intro pid f' hf'
    exact ⟨f', hf', by simp⟩
  cases hpc : s.server with
  | read =>
      simp only [serverStep, hpc, Option.some.injEq] at hstep
      subst hstep
      have hframed := h.framed
      have hcounted := h.counted
      rw [hpc] at hframed hcounted
      exact h.server_moves rfl rfl rfl hframed nofun nofun hcounted h.stored
  | openFifo r =>
      simp only [serverStep, hpc, Option.some.injEq] at hstep
      subst hstep
      exact h.record (Or.inl hpc) (by decide) rfl (Or.inl ⟨rfl, by decide⟩) rfl rfl rfl rfl
        (fun _ _ => rfl) (fun _ hf' => hkeep hf')
  | write r =>
      simp only [serverStep, hpc, Option.some.injEq] at hstep
      subst hstep
      exact h.record (Or.inr hpc) (by decide) rfl (Or.inl ⟨rfl, by decide⟩) rfl rfl rfl rfl
        (fun _ _ => rfl) (fun _ hf' => hkeep hf')
  | close r =>
      simp only [serverStep, hpc, Option.some.injEq] at hstep
      exact hstep ▸ h.close_fifo hpc
  | readFailed | misframed => simp [serverStep, hpc] at hstep

/-! ## Whole runs -/

theorem Inv.next {s t : State} {l : Label} (h : Inv s)
    (hstep : step s l = some t) : Inv t := by
  cases l with
  | start pid seqLen => exact h.start_client hstep
  | client pid a =>
      cases a with
      | ok => exact h.client_ok hstep
      | count n => simp [step, clientStep] at hstep
      | err => exact h.client_err hstep
  | server a =>
      cases a with
      | ok => exact h.server_ok hstep
      | count n => exact h.server_count hstep
      | err => exact h.server_err hstep

theorem inv_of_reachable {stale : List UInt8 → Bool} {s : State}
    (h : Reachable step (start stale) s) : Inv s :=
  h.invariant (fun _ _ _ hI hstep => hI.next hstep) (start_inv stale)

/-! ## What a client reads -/

theorem Inv.log_nodup {s : State} (h : Inv s) :
    (s.log.map fun e => e.request.pid).Nodup := by
  obtain ⟨pending, hrequests, _⟩ := h.framed
  have hnodup := h.nodup
  rw [hrequests, List.map_append, List.map_append, List.map_map,
    List.append_assoc] at hnodup
  exact (List.nodup_append.1 hnodup).1

theorem Inv.request_mem {s : State} (h : Inv s) {e : Reply} (he : e ∈ s.log) :
    e.request ∈ s.requests := by
  obtain ⟨pending, hrequests, _⟩ := h.framed
  rw [hrequests, List.append_assoc]
  exact List.mem_append_left _ (List.mem_map_of_mem he)

/-- Whatever a client has read is of the response to its own request. -/
theorem Inv.response_of_got {s : State} (h : Inv s) {pid : Int32}
    (hgot : (s.client pid).got ≠ []) :
    ∃ e ∈ s.log, e.request = ⟨pid, (s.client pid).seqLen⟩ ∧
      (s.client pid).got <+: e.bytes := by
  have hstart := (h.stored pid).got_start
  rcases Keyed.filter_key (fun e : Reply => e.request.pid) h.log_nodup pid with
    hnone | ⟨e, he, hpid, hone⟩
  · rw [responseBytes, hnone, List.flatMap_nil, List.prefix_nil] at hstart
    exact absurd hstart hgot
  · rw [responseBytes, hone, List.flatMap_singleton] at hstart
    refine ⟨e, he, ?_, hstart⟩
    have hlen := (h.sent _ (h.request_mem he)).2
    rw [hpid] at hlen
    rw [hlen, ← hpid]

/-- Four bytes of a response are all of it. -/
theorem Reply.full_of_start {e : Reply} {bs : List UInt8}
    (hstart : bs <+: e.bytes) (hlen : bs.length = sizeofInt)
    (hwritten : e.written ≤ sizeofInt) :
    e.full = true ∧ bs = bytesOfInt e.seqNum := by
  have hle := hstart.length_le
  have htake : e.bytes.length = min e.written sizeofInt := by
    rw [Reply.bytes, List.length_take, length_bytesOfInt]
    rfl
  have hfull : e.written = sizeofInt := by omega
  have hbytes : e.bytes = bytesOfInt e.seqNum := by
    rw [Reply.bytes, hfull]
    exact List.take_of_length_le (by simp [sizeofInt])
  refine ⟨by simp [Reply.full, hfull], ?_⟩
  rw [← hbytes]
  apply hstart.eq_of_length
  rw [hlen, htake, hfull, min_self]

/-! ## The service -/

theorem filterMap_inc (log : List Reply) :
    log.filterMap Reply.inc = (log.filter Reply.full).map (·.request.seqLen) := by
  induction log with
  | nil => rfl
  | cons e log ih =>
      by_cases hfull : e.full = true
      · simp [Reply.inc, hfull, ih]
      · simp [Reply.inc, hfull, ih]

theorem clientStep_seqNum {s t : State} {pid : Int32} {a : Answer}
    (h : clientStep s pid a = some t) : t.seqNum = s.seqNum := by
  cases a with
  | count n => simp [clientStep] at h
  | err =>
      cases hpc : (s.client pid).pc <;>
        simp only [clientStep, hpc, Option.some.injEq, reduceCtorEq] at h
      all_goals
        rw [← h]
        rfl
  | ok =>
      cases hpc : (s.client pid).pc with
      | readResponse =>
          simp only [clientStep, hpc, Option.bind_eq_some_iff] at h
          obtain ⟨f, _, hread⟩ := h
          simp only [readResponse, Option.ite_none_left_eq_some] at hread
          obtain ⟨_, hread⟩ := hread
          split at hread <;> cases hread <;> rfl
      | openFifo =>
          simp only [clientStep, hpc, Option.ite_none_right_eq_some,
            Option.some.injEq] at h
          rw [← h.2]
          rfl
      | idle | exited status => simp [clientStep, hpc] at h
      | mkfifo | atexit | openServer | writeRequest | closeServer | closeFifo
      | unlink status =>
          simp only [clientStep, hpc, Option.some.injEq] at h
          rw [← h]
          rfl

/-- The one step that changes the counter. -/
theorem seqNum_changes {s t : State} {l : Label} (hstep : step s l = some t)
    (hne : t.seqNum ≠ s.seqNum) :
    ∃ r, s.server = .close r ∧ t.seqNum = s.seqNum + r.seqLen := by
  cases l with
  | start pid seqLen =>
      simp only [step, startClient, ne_eq, ite_not,
        Option.ite_none_right_eq_some, Option.some.injEq] at hstep
      rw [← hstep.2] at hne
      exact absurd rfl hne
  | client pid a => exact absurd (clientStep_seqNum hstep) hne
  | server a =>
      cases hpc : s.server with
      | close r =>
          cases a <;> simp only [step, serverStep, hpc, Option.some.injEq,
            reduceCtorEq] at hstep
          all_goals exact ⟨r, rfl, by rw [← hstep]⟩
      | read | openFifo r | write r | readFailed | misframed =>
          refine absurd ?_ hne
          cases a <;> simp only [step, serverStep, hpc, readRequest,
            writeResponse, reduceCtorEq] at hstep
          all_goals
            repeat' split at hstep
          all_goals first
            | (cases hstep; rfl)
            | simp at hstep

/-- The server's `read` returns one whole request that some client sent. -/
def ReadsWhole (s : State) : Prop :=
  s.server ≠ .misframed ∧
  ∀ t, s.server = .read → step s (.server .ok) = some t →
    ∃ r ∈ s.requests, ∃ rest, s.serverFifo = r.bytes ++ rest ∧
      t.serverFifo = rest ∧ t.server = .openFifo r

/-- The `k`-th request was given the total of the lengths of the earlier
requests answered in full, and at the top of its loop the server has the
total of all of them; nothing else moves the counter. -/
def CountsAnswered (s : State) : Prop :=
  (∀ k e, s.log[k]? = some e → s.requests[k]? = some e.request ∧
    e.seqNum = counter 0
      (((s.log.take k).filter Reply.full).map (·.request.seqLen))) ∧
  (s.server = .read → s.seqNum = counter 0
    ((s.log.filter Reply.full).map (·.request.seqLen))) ∧
  ∀ l t, step s l = some t → t.seqNum ≠ s.seqNum →
    ∃ e, s.log.getLast? = some e ∧ e.full = true ∧
      s.server = .close e.request ∧ t.seqNum = s.seqNum + e.request.seqLen

/-- Client `pid` has read nothing but the response to its own request, and
printed only the number in it. -/
def OwnResponse (s : State) (pid : Int32) : Prop :=
  ((s.client pid).got ≠ [] →
    ∃ e ∈ s.log, e.request = ⟨pid, (s.client pid).seqLen⟩ ∧
      (s.client pid).got <+: bytesOfInt e.seqNum) ∧
  ∀ v, (s.client pid).printed = some v →
    ∃ e ∈ s.log, e.request = ⟨pid, (s.client pid).seqLen⟩ ∧
      e.full = true ∧ v = e.seqNum

theorem Inv.reads_whole {s : State} (h : Inv s) : ReadsWhole s := by
  refine ⟨h.whole, ?_⟩
  intro t hread hstep
  have hne : s.serverFifo ≠ [] := by
    intro hnil
    simp [step, serverStep, hread, readRequest, hnil] at hstep
  obtain ⟨r, pending, hfifo, hrequests⟩ := h.next_request hread hne
  simp only [step, serverStep, hread, readRequest_eq hfifo,
    Option.some.injEq] at hstep
  refine ⟨r, ?_, _, hfifo, ?_, ?_⟩
  · rw [hrequests]
    simp
  · rw [← hstep]
  · rw [← hstep]

theorem Inv.counts_answered {s : State} (h : Inv s) : CountsAnswered s := by
  refine ⟨?_, ?_, ?_⟩
  · intro k e hk
    obtain ⟨pending, hrequests, _⟩ := h.framed
    have hlt : k < (s.log.map Reply.request).length := by
      rw [List.length_map]
      exact (List.getElem?_eq_some_iff.1 hk).1
    constructor
    · rw [hrequests, List.append_assoc, List.getElem?_append_left hlt,
        List.getElem?_map, hk]
      rfl
    · rw [h.numbered k e hk, filterMap_inc]
  · intro hread
    have hcounted := h.counted
    rw [hread, filterMap_inc] at hcounted
    exact hcounted.symm
  · intro l t hstep hne
    obtain ⟨r, hclose, hadd⟩ := seqNum_changes hstep hne
    obtain ⟨e, hlast, hr, hfull⟩ := h.answered r hclose
    exact ⟨e, hlast, hfull, by rw [hr, hclose], by rw [hr, hadd]⟩

theorem Inv.own_response {s : State} (h : Inv s) (pid : Int32) :
    OwnResponse s pid := by
  constructor
  · intro hgot
    obtain ⟨e, he, hrequest, hstart⟩ := h.response_of_got hgot
    exact ⟨e, he, hrequest, hstart.trans (List.take_prefix _ _)⟩
  · intro v hv
    obtain ⟨hlen, hvalue⟩ := (h.stored pid).printed v hv
    have hgot : (s.client pid).got ≠ [] := by
      intro hnil
      rw [hnil] at hlen
      exact absurd hlen (by decide)
    obtain ⟨e, he, hrequest, hstart⟩ := h.response_of_got hgot
    obtain ⟨hfull, hbytes⟩ := Reply.full_of_start hstart hlen (h.written e he)
    refine ⟨e, he, hrequest, hfull, ?_⟩
    rw [hvalue, hbytes, intOfBytes_bytesOfInt]

/-- **Order and routing.**  In every state that any number of clients and the
server can reach, whatever `open`, `write` and `close` return: the server
reads whole requests, each sent by the client it names and no two by one
client; the responses carry the running total of the answered requests; and
no client sees a response that is not its own, since the names of the FIFOs
are never cut and never the same. -/
theorem fifo_service_in_order (stale : List UInt8 → Bool) (s : State)
    (hreach : Reachable step (start stale) s) :
    ReadsWhole s ∧
    (∀ r ∈ s.requests, (s.client r.pid).seqLen = r.seqLen) ∧
    (s.requests.map Request.pid).Nodup ∧
    CountsAnswered s ∧
    (∀ pid, OwnResponse s pid) ∧
    (∀ pid, clientFifo pid = clientFifoText pid) ∧
    Function.Injective clientFifo := by
  have h := inv_of_reachable hreach
  exact ⟨h.reads_whole, fun r hr => (h.sent r hr).2, h.nodup,
    h.counts_answered, h.own_response, clientFifo_eq_text,
    clientFifo_injective⟩

/-- A client that gets its number. -/
def served (pid seqLen : Int32) : List Label :=
  [.start pid seqLen, .client pid .ok, .client pid .ok, .client pid .ok,
    .client pid .ok, .client pid .ok, .server .ok, .server .ok,
    .server (.count 4), .client pid .ok, .client pid .ok, .server .ok]

/-- Process 8 asks and fails before it can be answered; process 7 is
answered before it and process 9 after. -/
def threeClients : List Label :=
  served 7 3 ++
    [.start 8 100, .client 8 .ok, .client 8 .ok, .client 8 .ok, .client 8 .ok,
      .client 8 .err, .client 8 .ok, .server .ok, .server .err] ++
    served 9 5

theorem fifo_service_three_clients :
    ∃ s, exec step (start fun _ => false) threeClients = some s ∧
      (s.client 7).printed = some 0 ∧ (s.client 8).printed = none ∧
      (s.client 9).printed = some 3 ∧ CountsAnswered s := by
  obtain ⟨s, hs, hprinted⟩ := exists_exec step
    (fun s => (s.client 7).printed = some 0 ∧ (s.client 8).printed = none ∧
      (s.client 9).printed = some 3)
    (start fun _ => false) threeClients (by decide)
  have hservice :=
    fifo_service_in_order (fun _ => false) s ⟨threeClients, hs⟩
  exact ⟨s, hs, hprinted.1, hprinted.2.1, hprinted.2.2, hservice.2.2.2.1⟩

end Lpi.Ports.FifoSeqnum
