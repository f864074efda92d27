import Lpi.Ports.SvmsgFile
import Lpi.Verified.Keyed

/-!
# Who serves whom, and how far

A request is on the server's queue, in the server's hands, or with the child
forked for it; `State.pending` lists all of them as if they were children.
No client has two, and the row of a client says everything about what was
ever put on that client's queue (`Progress`).  The other half of the
invariant follows the client (`Receiving`): what it got is the start of what
was sent, and its totals count what it got.

The invariant holds with every failure the programs can meet; what a failure
may cost is in the child's `left`.
-/

namespace Lpi.Ports.SvmsgFile

open Lpi.Verified
open Lpi.Verified.CData
open Lpi.Verified.CString
open Lpi.Verified.Pieces
open Lpi.Verified.Run

/-! ## The child -/

/-- A `DATA` message with one result of `read()`. -/
def dataMsg (c : Chunk responseMsgDataSize) : ResponseMsg := ⟨.msgData, c.bytes⟩

/-- The `END` message. -/
def endMsg : ResponseMsg := ⟨.msgEnd, []⟩

/-- The `FAILURE` message for a name that cannot be opened. -/
def failureMsg (w : World) (path : List UInt8) (errno : Nat) : ResponseMsg :=
  ⟨.msgFailure, failureText w path errno ++ [0]⟩

/-- The name in the child's request. -/
def Child.path (ch : Child) : List UInt8 := cString ch.request.pathname

/-- The child has opened the file and cut `chunks` off it. -/
def Opened (w : World) (ch : Child) (chunks : List (Chunk responseMsgDataSize)) :
    Prop :=
  ∃ file, w.openFile ch.path = .ok file ∧ join chunks ++ ch.left = file.bytes

/-- What a child has sent, by its position. -/
def Progress (w : World) (ch : Child) (sent : List ResponseMsg) : Prop :=
  match ch.pc with
  | .openFile => sent = [] ∧ ch.reads = 0
  | .sendFailure text =>
      sent = [] ∧ ∃ e, w.openFile ch.path = .error e ∧
        text = failureText w ch.path e
  | .refused =>
      ∃ e, w.openFile ch.path = .error e ∧ sent <+: [failureMsg w ch.path e]
  | .readFile =>
      ∃ chunks, Opened w ch chunks ∧ sent = chunks.map dataMsg ∧
        ch.reads = chunks.length
  | .sendData bytes =>
      ∃ chunks, Opened w ch chunks ∧ sent = chunks.map dataMsg ∧
        ch.reads = chunks.length + 1 ∧
        bytes ≠ [] ∧ bytes.length ≤ responseMsgDataSize ∧ bytes <+: ch.left
  | .sendEnd =>
      ∃ chunks, Opened w ch chunks ∧ sent = chunks.map dataMsg ∧
        (ch.left = [] → ch.reads = chunks.length)
  | .closeFile | .exited _ =>
      ∃ chunks, Opened w ch chunks ∧
        (sent = chunks.map dataMsg ∨ sent = chunks.map dataMsg ++ [endMsg]) ∧
        (ch.left = [] → ch.reads = chunks.length)

theorem progress_forked (w : World) (r : RequestMsg) :
    Progress w (.forked r) [] := ⟨rfl, rfl⟩

theorem childStep_request {w : World} {ch ch' : Child} {a : Answer}
    {out : Option ResponseMsg} (h : childStep w ch a = some (ch', out)) :
    ch'.request = ch.request := by
  unfold childStep at h
  repeat' split at h
  all_goals first
    | (simp only [Option.some.injEq, Prod.mk.injEq] at h; rw [← h.1])
    | simp at h

/-- The piece a child has just read is one message, and what remains of the
file is what comes after it. -/
theorem Opened.sendData {w : World} {ch : Child}
    {chunks : List (Chunk responseMsgDataSize)} {bytes : List UInt8}
    (h : Opened w ch chunks) (hne : bytes ≠ [])
    (hlen : bytes.length ≤ responseMsgDataSize) (hcut : bytes <+: ch.left) :
    Opened w { ch with pc := .readFile, left := ch.left.drop bytes.length }
        (chunks ++ [⟨bytes, hne, hlen⟩]) := by
  obtain ⟨file, hfile, hjoin⟩ := h
  obtain ⟨rest, hrest⟩ := hcut
  refine ⟨file, hfile, ?_⟩
  rw [join_append, join_cons, join_nil, List.append_nil, List.append_assoc,
    ← hrest, List.drop_left, hrest]
  exact hjoin

theorem Progress.child_step {w : World} {ch ch' : Child} {a : Answer}
    {out : Option ResponseMsg} {sent : List ResponseMsg}
    (h : Progress w ch sent)
    (hstep : childStep w ch a = some (ch', out)) :
    Progress w ch' (sent ++ out.toList) := by
  cases hpc : ch.pc with
  | openFile =>
      simp only [Progress, hpc] at h
      obtain ⟨rfl, hreads⟩ := h
      cases a <;> simp only [childStep, hpc, reduceCtorEq] at hstep
      cases hfile : w.openFile (cString ch.request.pathname) with
      | ok file =>
          simp only [hfile, Option.some.injEq, Prod.mk.injEq] at hstep
          obtain ⟨rfl, rfl⟩ := hstep
          exact ⟨[], ⟨file, hfile, by simp⟩, rfl, hreads⟩
      | error e =>
          simp only [hfile, Option.some.injEq, Prod.mk.injEq] at hstep
          obtain ⟨rfl, rfl⟩ := hstep
          exact ⟨rfl, e, hfile, rfl⟩
  | sendFailure text =>
      simp only [Progress, hpc] at h
      obtain ⟨rfl, e, hfile, rfl⟩ := h
      cases a <;> simp only [childStep, hpc, Option.some.injEq,
        Prod.mk.injEq, reduceCtorEq] at hstep
      all_goals
        obtain ⟨rfl, rfl⟩ := hstep
        refine ⟨e, hfile, ?_⟩
      · exact List.prefix_refl _
      · exact List.nil_prefix
  | refused => cases a <;> simp [childStep, hpc] at hstep
  | readFile =>
      simp only [Progress, hpc] at h
      obtain ⟨chunks, hopened, rfl, hreads⟩ := h
      cases a with
      | ok =>
          simp only [childStep, hpc, Option.ite_none_right_eq_some,
            Option.some.injEq, Prod.mk.injEq] at hstep
          obtain ⟨hleft, rfl, rfl⟩ := hstep
          exact ⟨chunks, hopened, by simp, fun _ => hreads⟩
      | count n =>
          simp only [childStep, hpc, Option.ite_none_right_eq_some,
            Option.some.injEq, Prod.mk.injEq] at hstep
          obtain ⟨⟨hpos, hcap, hle⟩, rfl, rfl⟩ := hstep
          refine ⟨chunks, hopened, by simp, ?_, ?_, ?_, List.take_prefix _ _⟩
          · simp [hreads]
          · intro hnil
            have hlen := congrArg List.length hnil
            simp only [List.length_take, List.length_nil] at hlen
            omega
          · simp only [List.length_take]
            omega
      | eintr => simp [childStep] at hstep
      | err =>
          simp only [childStep, hpc, Option.some.injEq,
            Prod.mk.injEq] at hstep
          obtain ⟨rfl, rfl⟩ := hstep
          exact ⟨chunks, hopened, by simp, fun _ => hreads⟩
  | sendData bytes =>
      simp only [Progress, hpc] at h
      obtain ⟨chunks, hopened, rfl, hreads, hne, hcap, hcut⟩ := h
      cases a <;> simp only [childStep, hpc, Option.some.injEq,
        Prod.mk.injEq, reduceCtorEq] at hstep
      · obtain ⟨rfl, rfl⟩ := hstep
        refine ⟨chunks ++ [⟨bytes, hne, hcap⟩],
          hopened.sendData hne hcap hcut, ?_, ?_⟩
        · simp [dataMsg]
        · simp [hreads]
      · obtain ⟨rfl, rfl⟩ := hstep
        refine ⟨chunks, hopened, by simp, ?_⟩
        -- The unsent piece is still part of `left`.
        intro hleft
        rw [show ch.left = [] from hleft, List.prefix_nil] at hcut
        exact absurd hcut hne
  | sendEnd =>
      simp only [Progress, hpc] at h
      obtain ⟨chunks, hopened, rfl, hreads⟩ := h
      cases a <;> simp only [childStep, hpc, Option.some.injEq,
        Prod.mk.injEq, reduceCtorEq] at hstep
      · obtain ⟨rfl, rfl⟩ := hstep
        exact ⟨chunks, hopened, Or.inr rfl, hreads⟩
      · obtain ⟨rfl, rfl⟩ := hstep
        exact ⟨chunks, hopened, Or.inl (by simp), hreads⟩
  | closeFile =>
      simp only [Progress, hpc] at h
      cases a <;> simp only [childStep, hpc, Option.some.injEq,
        Prod.mk.injEq, reduceCtorEq] at hstep
      all_goals
        obtain ⟨rfl, rfl⟩ := hstep
        rw [Option.toList_none, List.append_nil]
        exact h
  | exited status => cases a <;> simp [childStep, hpc] at hstep

/-! ## The system -/

/-- Requests no child has been forked for. -/
def State.waiting (s : State) : List RequestMsg :=
  match s.server with
  | .fork r => r :: s.serverQueue
  | _ => s.serverQueue

/-- Every request ever sent and not dropped, with the child serving it. -/
def State.pending (s : State) : List Child :=
  s.children ++ s.waiting.map .forked

/-- The client a child works for. -/
def Child.client (ch : Child) : MsqId := ch.request.clientId

/-- The client has not sent its request. -/
def Client.Unsent (k : Client) : Prop := k.pc = .idle ∨ k.pc = .sendRequest

/-- A row of `pending` belongs to a client that has sent a request for this
name, and has got as far as `sent` says. -/
structure Served (w : World) (s : State) (ch : Child) : Prop where
  asked : ¬ (s.client ch.client).Unsent
  path : ch.path = (s.client ch.client).pathname.bytes
  progress : Progress w ch (s.sent ch.client)

/-- A row is read off the client it belongs to. -/
theorem Served.of_eq {w : World} {s t : State} {ch : Child} (h : Served w s ch)
    (hclient : t.client ch.client = s.client ch.client)
    (hsent : t.sent ch.client = s.sent ch.client) : Served w t ch where
  asked := by
    rw [hclient]
    exact h.asked
  path := by
    rw [hclient]
    exact h.path
  progress := by
    rw [hsent]
    exact h.progress

/-- All the bytes in a list of messages. -/
def payload (ms : List ResponseMsg) : List UInt8 := ms.flatMap (·.data)

/-- The last message received is the `END` message. -/
def Ended (got : List ResponseMsg) : Prop :=
  ∃ before m, got = before ++ [m] ∧ m.type = .msgEnd

/-- The client's two totals count what it has received. -/
structure Totals (k : Client) : Prop where
  bytes : k.totalBytes = Int64.ofNat (payload k.got).length
  msgs : k.numMsgs = Int32.ofNat k.got.length

/-- The client's side of the conversation. -/
structure Receiving (k : Client) (queue : Option (List ResponseMsg))
    (sent : List ResponseMsg) : Prop where
  flow : match queue with
    | some q => sent = k.got ++ q
    | none => k.got <+: sent
  short : k.pc = .sendRequest → k.pathname.bytes.length ≤ pathMax - 1
  nothing : k.Unsent ∨ k.pc = .receiveFirst → k.got = []
  totals : (∃ ty, k.pc = .testType ty) ∨ k.pc = .receiveNext ∨ k.pc = .report →
    Totals k
  tested : ∀ ty, k.pc = .testType ty →
    ∃ before m, k.got = before ++ [m] ∧ m.type = ty
  ended : k.pc = .report → Ended k.got
  unprinted : (∀ st, k.pc ≠ .exited st) → k.printed = none
  printed : ∀ total num, k.printed = some (total, num) →
    total = Int64.ofNat (payload k.got).length ∧
      num = Int32.ofNat k.got.length ∧ Ended k.got

/-- The invariant of the file service. -/
structure Inv (w : World) (s : State) : Prop where
  nodup : (s.pending.map Child.client).Nodup
  served : ∀ ch ∈ s.pending, Served w s ch
  unserved : ∀ c, c ∉ s.pending.map Child.client → s.sent c = []
  clients : ∀ c, Receiving (s.client c) (s.queue c) (s.sent c)

theorem init_inv (w : World) : Inv w init where
  nodup := by simp [State.pending, State.waiting, init]
  served := by simp [State.pending, State.waiting, init]
  unserved := by simp [init]
  clients := by
    intro c
    exact
      { flow := List.prefix_refl _
        short := nofun
        nothing := fun _ => rfl
        totals := by simp [init]
        tested := nofun
        ended := nofun
        unprinted := fun _ => rfl
        printed := nofun }

/-! ## Steps of a client -/

/-- A client whose request is still to come has no row and no messages. -/
theorem Inv.sent_of_unsent {w : World} {s : State} (h : Inv w s) {c : MsqId}
    (hc : (s.client c).Unsent) :
    c ∉ s.pending.map Child.client ∧ s.sent c = [] := by
  have hfree : c ∉ s.pending.map Child.client := by
    intro hmem
    obtain ⟨ch, hch, rfl⟩ := List.mem_map.1 hmem
    exact (h.served ch hch).asked hc
  exact ⟨hfree, h.unserved c hfree⟩

/-- A step that changes only client `c` and takes messages off its queue. -/
theorem Inv.update_client {w : World} {s : State} (h : Inv w s) {c : MsqId}
    {k : Client} {q : Option (List ResponseMsg)}
    (hk : Receiving k q (s.sent c))
    (hunsent : ¬ (s.client c).Unsent →
      ¬ k.Unsent ∧ k.pathname = (s.client c).pathname) :
    Inv w { s with client := Function.update s.client c k
                   queue := Function.update s.queue c q } where
  nodup := h.nodup
  unserved := h.unserved
  served := by
    intro ch hch
    have hserved := h.served ch hch
    by_cases hc : ch.client = c
    · obtain ⟨hasked, hpath⟩ := hunsent (hc ▸ hserved.asked)
      refine ⟨?_, ?_, hserved.progress⟩
      · simpa [hc] using hasked
      · simpa [hc, hpath] using hserved.path
    · refine ⟨?_, ?_, hserved.progress⟩
      · simpa [Function.update_of_ne hc] using hserved.asked
      · simpa [Function.update_of_ne hc] using hserved.path
  clients := by
    intro d
    by_cases hd : d = c
    · subst hd
      simpa using hk
    · simpa [Function.update_of_ne hd] using h.clients d

theorem Inv.set_client {w : World} {s : State} (h : Inv w s) {c : MsqId}
    {k : Client} (hk : Receiving k (s.queue c) (s.sent c))
    (hunsent : ¬ (s.client c).Unsent →
      ¬ k.Unsent ∧ k.pathname = (s.client c).pathname) :
    Inv w (s.setClient c k) := by
  have hupdate := h.update_client hk hunsent
  rw [Function.update_eq_self] at hupdate
  exact hupdate

/-- A client has got messages from the start of what was sent. -/
theorem Receiving.got_start {k : Client} {queue : Option (List ResponseMsg)}
    {sent : List ResponseMsg} (h : Receiving k queue sent) : k.got <+: sent := by
  have hflow := h.flow
  cases queue with
  | none => exact hflow
  | some q => exact ⟨q, hflow.symm⟩

/-- A client that exits leaves its queue behind; what it has got is still
the start of what was sent. -/
theorem Inv.client_exits {w : World} {s : State} (h : Inv w s) {c : MsqId}
    {k : Client} {status : Exit} (hgot : k.got <+: s.sent c)
    (hpath : k.pathname = (s.client c).pathname)
    (hprinted : ∀ total num, k.printed = some (total, num) →
      total = Int64.ofNat (payload k.got).length ∧
        num = Int32.ofNat k.got.length ∧ Ended k.got) :
    Inv w (s.clientExits c k status) := by
  apply h.update_client
  · exact
      { flow := hgot
        short := nofun
        nothing := by simp [Client.Unsent]
        totals := by simp
        tested := nofun
        ended := nofun
        unprinted := fun hne => absurd rfl (hne status)
        printed := hprinted }
  · exact fun _ => ⟨by simp [Client.Unsent], hpath⟩

theorem Inv.start_client {w : World} {s t : State} (h : Inv w s) {c : MsqId}
    {pathname : CStr} (hstep : startClient s c pathname = some t) :
    Inv w t := by
  unfold startClient at hstep
  by_cases hidle : (s.client c).pc = .idle
  · have hunsent : (s.client c).Unsent := Or.inl hidle
    obtain ⟨_, hsent⟩ := h.sent_of_unsent hunsent
    have hgot := (h.clients c).nothing (Or.inl hunsent)
    have hprinted := (h.clients c).unprinted (by simp [hidle])
    simp only [hidle, ne_eq, not_true_eq_false, if_false] at hstep
    by_cases hbad : pathname.bytes = helpOption ∨
        pathname.bytes.length > pathMax - 1
    · simp only [hbad, if_true, Option.some.injEq] at hstep
      subst hstep
      apply h.set_client
      · refine
          { flow := ?_
            short := nofun
            nothing := by simp [Client.Unsent]
            totals := by simp
            tested := nofun
            ended := nofun
            unprinted := fun hne => absurd rfl (hne .failure)
            printed := by simp [hprinted] }
        exact (h.clients c).flow
      · exact fun hasked => absurd hunsent hasked
    · simp only [hbad, if_false, Option.some.injEq] at hstep
      subst hstep
      apply h.update_client
      · refine
          { flow := by simp [hsent, hgot]
            short := fun _ => Nat.le_of_not_lt fun hlt => hbad (Or.inr hlt)
            nothing := fun _ => hgot
            totals := by simp
            tested := nofun
            ended := nofun
            unprinted := fun _ => hprinted
            printed := by simp [hprinted] }
      · exact fun hasked => absurd hunsent hasked
  · simp [hidle] at hstep

/-- The new request is read back by the server as the client's argument. -/
theorem path_requestOf (c : MsqId) (pathname : CStr)
    (hlen : pathname.bytes.length ≤ pathMax - 1) :
    (Child.forked (requestOf c pathname)).path = pathname.bytes :=
  cString_strncpy pathname hlen

theorem Inv.send_request {w : World} {s : State} (h : Inv w s) {c : MsqId}
    (hpc : (s.client c).pc = .sendRequest) :
    Inv w { s.setClient c { s.client c with pc := .receiveFirst } with
      serverQueue := s.serverQueue ++ [requestOf c (s.client c).pathname] } := by
  have hunsent : (s.client c).Unsent := Or.inr hpc
  obtain ⟨hfree, hsent⟩ := h.sent_of_unsent hunsent
  have hrecv := h.clients c
  -- The client alone first: it now waits for its first message.
  have hclient : Inv w (s.setClient c { s.client c with pc := .receiveFirst }) := by
    apply h.set_client
    · exact
        { flow := hrecv.flow
          short := nofun
          nothing := fun _ => hrecv.nothing (Or.inl hunsent)
          totals := by simp
          tested := nofun
          ended := nofun
          unprinted := fun _ => hrecv.unprinted (by simp [hpc])
          printed := hrecv.printed }
    · exact fun hasked => absurd hunsent hasked
  have hpending : State.pending
      { s.setClient c { s.client c with pc := .receiveFirst } with
        serverQueue := s.serverQueue ++ [requestOf c (s.client c).pathname] } =
      s.pending ++ [.forked (requestOf c (s.client c).pathname)] := by
    simp only [State.pending, State.waiting, State.setClient]
    cases s.server <;> simp
  refine
    { nodup := ?_
      served := ?_
      unserved := ?_
      clients := hclient.clients }
  · rw [hpending, List.map_append, List.nodup_append]
    refine ⟨h.nodup, by simp, ?_⟩
    intro a ha b hb hab
    simp only [List.map_cons, List.map_nil, List.mem_singleton] at hb
    exact hfree (by rw [hab, hb] at ha; exact ha)
  · intro ch hch
    rw [hpending, List.mem_append, List.mem_singleton] at hch
    rcases hch with hch | rfl
    · have hserved := hclient.served ch hch
      exact ⟨hserved.asked, hserved.path, hserved.progress⟩
    · refine ⟨?_, ?_, ?_⟩
      · simp [State.setClient, Child.client, Child.forked, requestOf,
          Client.Unsent]
      · rw [path_requestOf c _ (hrecv.short hpc)]
        simp [State.setClient, Child.client, Child.forked, requestOf]
      · have hfresh := progress_forked w (requestOf c (s.client c).pathname)
        rw [← hsent] at hfresh
        exact hfresh
  · intro d hd
    rw [hpending, List.map_append, List.mem_append, not_or] at hd
    exact h.unserved d hd.1

/-- Taking a message off the queue. -/
theorem msgrcv_eq_some {s t : State} {c : MsqId} {m : ResponseMsg}
    (h : s.msgrcv c = some (m, t)) :
    ∃ q, s.queue c = some (m :: q) ∧
      t = { s with queue := Function.update s.queue c (some q) } := by
  unfold State.msgrcv at h
  split at h
  · rename_i m' q hq
    simp only [Option.some.injEq, Prod.mk.injEq] at h
    obtain ⟨rfl, rfl⟩ := h
    exact ⟨q, hq, rfl⟩
  · simp at h

theorem payload_append (ms ns : List ResponseMsg) :
    payload (ms ++ ns) = payload ms ++ payload ns := by
  simp [payload]

/-- A received message is added to the totals; the client then looks at its
type. -/
theorem Receiving.receive {k : Client} {m : ResponseMsg}
    {q sent : List ResponseMsg} (h : Receiving k (some (m :: q)) sent)
    (hprinted : k.printed = none) {total : Int64} {num : Int32}
    (htotal : total = Int64.ofNat (payload (k.got ++ [m])).length)
    (hnum : num = Int32.ofNat (k.got ++ [m]).length) :
    Receiving { k with got := k.got ++ [m], totalBytes := total,
                       numMsgs := num, pc := .testType m.type }
      (some q) sent where
  flow := by
    have hflow := h.flow
    simpa using hflow
  short := nofun
  nothing := by simp [Client.Unsent]
  totals := fun _ => ⟨htotal, hnum⟩
  tested := by
    intro ty hty
    simp only [ClientPc.testType.injEq] at hty
    exact ⟨k.got, m, rfl, hty⟩
  ended := nofun
  unprinted := fun _ => hprinted
  printed := by simp [hprinted]

/-- The client looks at the type of the message it has got last. -/
theorem Inv.test_type {w : World} {s : State} (h : Inv w s) {c : MsqId}
    {ty : ResponseType} (hpc : (s.client c).pc = .testType ty) :
    Inv w (s.setClient c { s.client c with
      pc := if ty ≠ .msgEnd then .receiveNext else .report }) := by
  have hrecv := h.clients c
  have htotals := hrecv.totals (Or.inl ⟨ty, hpc⟩)
  have hprinted := hrecv.unprinted (by simp [hpc])
  apply h.set_client
  · refine
      { flow := hrecv.flow
        short := ?_
        nothing := ?_
        totals := fun _ => ⟨htotals.bytes, htotals.msgs⟩
        tested := ?_
        ended := ?_
        unprinted := fun _ => hprinted
        printed := hrecv.printed }
    · split <;> simp
    · unfold Client.Unsent
      split <;> simp
    · split <;> simp
    · intro hreport
      obtain ⟨before, m, hgot, hm⟩ := hrecv.tested ty hpc
      refine ⟨before, m, hgot, ?_⟩
      by_cases hty : ty = .msgEnd
      · rw [hm, hty]
      · simp [hty] at hreport
  · refine fun _ => ⟨?_, rfl⟩
    unfold Client.Unsent
    split <;> simp

theorem Inv.client_step {w : World} {s t : State} (h : Inv w s) {c : MsqId}
    {a : Answer} (hstep : clientStep s c a = some t) : Inv w t := by
  have hrecv := h.clients c
  cases a with
  | count n | eintr => simp [clientStep] at hstep
  | err =>
      cases hpc : (s.client c).pc with
      | sendRequest | receiveFirst | receiveNext =>
          simp only [clientStep, hpc, Option.some.injEq] at hstep
          subst hstep
          exact h.client_exits hrecv.got_start rfl hrecv.printed
      | idle | testType ty | report | exited status =>
          simp [clientStep, hpc] at hstep
  | ok =>
      cases hpc : (s.client c).pc with
      | idle | exited status => simp [clientStep, hpc] at hstep
      | sendRequest =>
          simp only [clientStep, hpc, Option.ite_none_left_eq_some,
            Option.some.injEq] at hstep
          obtain ⟨_, rfl⟩ := hstep
          exact h.send_request hpc
      | receiveFirst =>
          have hprinted := hrecv.unprinted (by simp [hpc])
          have hgot := hrecv.nothing (Or.inr hpc)
          simp only [clientStep, hpc, Option.map_eq_some_iff,
            Prod.exists] at hstep
          obtain ⟨m, u, hrcv, rfl⟩ := hstep
          obtain ⟨q, hq, rfl⟩ := msgrcv_eq_some hrcv
          rw [hq] at hrecv
          by_cases hfail : m.type = .msgFailure
          · have hflow : s.sent c = (s.client c).got ++ m :: q := hrecv.flow
            have hgot : (s.client c).got ++ [m] <+: s.sent c :=
              ⟨q, by simp [hflow]⟩
            simp only [hfail, if_true, State.clientExits, Function.update_idem]
            apply h.client_exits (k := { s.client c with
              pc := .receiveFirst, got := (s.client c).got ++ [m] })
            · exact hgot
            · rfl
            · simp [hprinted]
          · simp only [hfail, if_false]
            have hnext := hrecv.receive hprinted
              (show Int64.ofNat m.data.length = _ by simp [hgot, payload])
              (show (1 : Int32) = _ by simp [hgot])
            exact h.update_client hnext
              (fun _ => ⟨by simp [Client.Unsent], rfl⟩)
      | testType ty =>
          simp only [clientStep, hpc, Option.some.injEq] at hstep
          subst hstep
          exact h.test_type hpc
      | receiveNext =>
          have htotals := hrecv.totals (Or.inr (Or.inl hpc))
          have hprinted := hrecv.unprinted (by simp [hpc])
          simp only [clientStep, hpc, Option.map_eq_some_iff,
            Prod.exists] at hstep
          obtain ⟨m, u, hrcv, rfl⟩ := hstep
          obtain ⟨q, hq, rfl⟩ := msgrcv_eq_some hrcv
          rw [hq] at hrecv
          have hbytes : (s.client c).totalBytes + Int64.ofNat m.data.length =
              Int64.ofNat (payload ((s.client c).got ++ [m])).length := by
            rw [payload_append, List.length_append, Int64.ofNat_add,
              htotals.bytes]
            simp [payload]
          have hmsgs : (s.client c).numMsgs + 1 =
              Int32.ofNat ((s.client c).got ++ [m]).length := by
            rw [List.length_append, Int32.ofNat_add, htotals.msgs]
            rfl
          exact h.update_client (hrecv.receive hprinted hbytes hmsgs)
            (fun _ => ⟨by simp [Client.Unsent], rfl⟩)
      | report =>
          have htotals := hrecv.totals (Or.inr (Or.inr hpc))
          have hended := hrecv.ended hpc
          simp only [clientStep, hpc, Option.some.injEq] at hstep
          subst hstep
          apply h.client_exits
          · exact hrecv.got_start
          · rfl
          · intro total num hprint
            simp only [Option.some.injEq, Prod.mk.injEq] at hprint
            exact ⟨hprint.1 ▸ htotals.bytes, hprint.2 ▸ htotals.msgs, hended⟩

/-! ## Steps of the server -/

/-- A request no child has been forked for has not been answered. -/
theorem Inv.sent_of_waiting {w : World} {s : State} (h : Inv w s)
    {r : RequestMsg} (hr : r ∈ s.waiting) : s.sent r.clientId = [] := by
  have hmem : Child.forked r ∈ s.pending := by
    rw [State.pending, List.mem_append]
    exact Or.inr (List.mem_map_of_mem hr)
  exact (h.served _ hmem).progress.1

/-- Requests may be dropped: nothing was put on their clients' queues. -/
theorem Inv.drop_waiting {w : World} {s t : State} (h : Inv w s)
    (hchildren : t.children = s.children) (hwaiting : t.waiting.Sublist s.waiting)
    (hclient : t.client = s.client) (hqueue : t.queue = s.queue)
    (hsent : t.sent = s.sent) : Inv w t := by
  have hsub : t.pending.Sublist s.pending := by
    rw [State.pending, State.pending, hchildren]
    exact List.Sublist.append_left (hwaiting.map _) _
  refine
    { nodup := (hsub.map _).nodup h.nodup
      served := ?_
      unserved := ?_
      clients := ?_ }
  · intro ch hch
    exact (h.served ch (hsub.subset hch)).of_eq (by rw [hclient]) (by rw [hsent])
  · intro c hc
    rw [hsent]
    by_cases hmem : c ∈ s.pending.map Child.client
    · obtain ⟨ch, hch, rfl⟩ := List.mem_map.1 hmem
      rw [State.pending, List.mem_append, List.mem_map] at hch
      rcases hch with hch | ⟨r, hr, rfl⟩
      · -- A child that exists is still there.
        refine absurd (List.mem_map_of_mem ?_) hc
        rw [State.pending, hchildren]
        exact List.mem_append_left _ hch
      · exact h.sent_of_waiting hr
    · exact h.unserved c hmem
  · intro c
    rw [hclient, hqueue, hsent]
    exact h.clients c

/-- The server moves requests along without changing `pending`. -/
theorem Inv.same_pending {w : World} {s t : State} (h : Inv w s)
    (hpending : t.pending = s.pending)
    (hclient : t.client = s.client) (hqueue : t.queue = s.queue)
    (hsent : t.sent = s.sent) : Inv w t where
  nodup := by
    rw [hpending]
    exact h.nodup
  served := by
    intro ch hch
    exact (h.served ch (hpending ▸ hch)).of_eq (by rw [hclient]) (by rw [hsent])
  unserved := by
    intro c hc
    rw [hsent]
    exact h.unserved c (hpending ▸ hc)
  clients := by
    intro c
    rw [hclient, hqueue, hsent]
    exact h.clients c

theorem Inv.server_step {w : World} {s t : State} (h : Inv w s) {a : Answer}
    (hstep : serverStep s a = some t) : Inv w t := by
  cases hpc : s.server with
  | receive =>
      cases a with
      | ok =>
          cases hqueue : s.serverQueue with
          | nil => simp [serverStep, hpc, hqueue] at hstep
          | cons r q =>
              simp only [serverStep, hpc, hqueue,
                Option.some.injEq] at hstep
              subst hstep
              refine h.same_pending ?_ rfl rfl rfl
              simp [State.pending, State.waiting, hpc, hqueue]
      | count n => simp [serverStep] at hstep
      | eintr =>
          simp only [serverStep, hpc, Option.some.injEq] at hstep
          exact hstep ▸ h
      | err =>
          simp only [serverStep, hpc, Option.some.injEq] at hstep
          subst hstep
          refine h.same_pending ?_ rfl rfl rfl
          simp [State.pending, State.waiting, hpc]
  | fork r =>
      cases a with
      | ok =>
          simp only [serverStep, hpc, Option.some.injEq] at hstep
          subst hstep
          refine h.same_pending ?_ rfl rfl rfl
          simp [State.pending, State.waiting, hpc]
      | count n | eintr => simp [serverStep, hpc] at hstep
      | err =>
          simp only [serverStep, hpc, Option.some.injEq] at hstep
          subst hstep
          refine h.drop_waiting rfl ?_ rfl rfl rfl
          simp [State.waiting, hpc]
  | remove =>
      cases a with
      | ok =>
          simp only [serverStep, hpc, Option.some.injEq] at hstep
          subst hstep
          refine h.drop_waiting rfl ?_ rfl rfl rfl
          simp [State.waiting]
      | count n | eintr => simp [serverStep, hpc] at hstep
      | err =>
          simp only [serverStep, hpc, Option.some.injEq] at hstep
          subst hstep
          refine h.same_pending ?_ rfl rfl rfl
          simp [State.pending, State.waiting, hpc]
  | exited status => cases a <;> simp [serverStep, hpc] at hstep

/-! ## Steps of a child -/

/-- What a child's step does to the system. -/
theorem step_child {w : World} {s t : State} {i : Nat} {a : Answer}
    (hstep : step w s (.child i a) = some t) :
    ∃ ch ch' out, s.children[i]? = some ch ∧
      childStep w ch a = some (ch', out) ∧
      ({ s with children := s.children.set i ch' }).deliver ch.client out =
        some t := by
  simp only [step, Option.bind_eq_some_iff] at hstep
  obtain ⟨ch, hget, ⟨ch', out⟩, hchild, hdeliver⟩ := hstep
  exact ⟨ch, ch', out, hget, hchild, hdeliver⟩

theorem deliver_eq_some {s t : State} {c : MsqId} {out : Option ResponseMsg}
    (h : s.deliver c out = some t) :
    t.children = s.children ∧ t.waiting = s.waiting ∧ t.client = s.client ∧
      t.sent = Function.update s.sent c (s.sent c ++ out.toList) ∧
      (∀ k, Receiving k (s.queue c) (s.sent c) →
        Receiving k (t.queue c) (t.sent c)) ∧
      (∀ d, d ≠ c → t.queue d = s.queue d) := by
  cases out with
  | none =>
      simp only [State.deliver, Option.some.injEq] at h
      subst h
      simp
  | some m =>
      simp only [State.deliver, State.msgsnd, Option.map_eq_some_iff] at h
      obtain ⟨q, hq, rfl⟩ := h
      refine ⟨rfl, rfl, rfl, by simp, ?_, ?_⟩
      · intro k hk
        rw [hq] at hk
        have hflow := hk.flow
        refine { hk with flow := ?_ }
        simp only at hflow
        simp [hflow]
      · intro d hd
        simp [Function.update_of_ne hd]

theorem Inv.child_step {w : World} {s t : State} (h : Inv w s) {i : Nat}
    {a : Answer} (hstep : step w s (.child i a) = some t) : Inv w t := by
  obtain ⟨ch, ch', out, hget, hchild, hdeliver⟩ := step_child hstep
  obtain ⟨hchildren, hwaiting, hclient, hsent, hrecv, hqueue⟩ :=
    deliver_eq_some hdeliver
  have hrequest := childStep_request hchild
  have hkey : ch'.client = ch.client := by rw [Child.client, hrequest]; rfl
  have hi : i < s.children.length := (List.getElem?_eq_some_iff.1 hget).1
  have hgetPending : s.pending[i]? = some ch := by
    rw [State.pending, List.getElem?_append_left hi, hget]
  have hpending : t.pending = s.pending.set i ch' := by
    rw [State.pending, hchildren, hwaiting, State.pending,
      List.set_append_left _ _ hi]
    rfl
  have hkeys : t.pending.map Child.client = s.pending.map Child.client := by
    rw [hpending]
    exact Keyed.map_set Child.client hgetPending hkey
  have hserved := h.served ch (List.mem_of_getElem? hgetPending)
  refine
    { nodup := hkeys ▸ h.nodup
      served := ?_
      unserved := ?_
      clients := ?_ }
  · intro x hx
    rw [hpending] at hx
    rcases Keyed.mem_set Child.client h.nodup hgetPending hx with rfl | ⟨hx, hne⟩
    · refine ⟨?_, ?_, ?_⟩
      · rw [hclient, hkey]
        exact hserved.asked
      · rw [hclient, hkey, Child.path, hrequest]
        exact hserved.path
      · rw [hsent, hkey, Function.update_self]
        exact hserved.progress.child_step hchild
    · apply (h.served x hx).of_eq
      · rw [hclient]
      · rw [hsent, Function.update_of_ne hne]
  · intro c hc
    rw [hkeys] at hc
    have hne : c ≠ ch.client := by
      rintro rfl
      exact hc (List.mem_map_of_mem (List.mem_of_getElem? hgetPending))
    rw [hsent, Function.update_of_ne hne]
    exact h.unserved c hc
  · intro c
    by_cases hc : c = ch.client
    · subst hc
      rw [hclient]
      exact hrecv _ (h.clients _)
    · rw [hclient, hsent, Function.update_of_ne hc, hqueue c hc]
      exact h.clients c

/-! ## Whole runs -/

theorem Inv.next {w : World} {s t : State} {l : Label} (h : Inv w s)
    (hstep : step w s l = some t) : Inv w t := by
  cases l with
  | start c pathname => exact h.start_client hstep
  | client c a => exact h.client_step hstep
  | server a => exact h.server_step hstep
  | child i a => exact h.child_step hstep

theorem inv_of_reachable {w : World} {s : State}
    (h : Reachable (step w) init s) : Inv w s :=
  h.invariant (fun _ _ _ hI hstep => hI.next hstep) (init_inv w)

end Lpi.Ports.SvmsgFile
