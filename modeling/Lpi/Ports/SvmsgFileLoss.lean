import Lpi.Ports.SvmsgFileDelivery

/-!
# What a client's report is worth

The client's only evidence that it has the whole file is the `END` message,
and `serveRequest` sends that message after its loop however the loop ended.
So a report is about the whole file exactly when the child serving the client
lost nothing on the way: no `read()` failed before the end of the file and no
`msgsnd` of a `DATA` message failed (`loses`).

`file_service_delivers` is the service without such failures,
`report_complete_iff` the service with them.
-/

namespace Lpi.Ports.SvmsgFile

open Lpi.Verified
open Lpi.Verified.CData
open Lpi.Verified.CString
open Lpi.Verified.Pieces
open Lpi.Verified.Run

/-! ## Losing part of the file -/

/-- A failure of the call the child is at would leave part of the file
unsent. -/
def Child.unsent (ch : Child) : Bool :=
  match ch.pc with
  | .readFile => ch.left ≠ []
  | .sendData _ => true
  | _ => false

/-- The child has gone on to its `END` message with part of the file
unsent. -/
def Child.Lost (ch : Child) : Prop :=
  ch.left ≠ [] ∧
    match ch.pc with
    | .sendEnd | .closeFile | .exited _ => True
    | _ => False

/-- The step is a failure that costs client `c` part of its file. -/
def loses (c : MsqId) (s : State) : Label → Bool
  | .child i .err =>
      (s.children[i]?).any fun ch => decide (ch.client = c) && ch.unsent
  | _ => false

/-- Some child of client `c` has lost part of the file. -/
def LostFor (c : MsqId) (s : State) : Prop :=
  ∃ ch ∈ s.children, ch.client = c ∧ ch.Lost

theorem Progress.lost_iff {w : World} {ch ch' : Child} {a : Answer}
    {out : Option ResponseMsg} {sent : List ResponseMsg}
    (h : Progress w ch sent) (hstep : childStep w ch a = some (ch', out)) :
    ch'.Lost ↔ ch.Lost ∨ (a = .err ∧ ch.unsent = true) := by
  cases hpc : ch.pc with
  | openFile =>
      cases a <;> simp only [childStep, hpc, reduceCtorEq] at hstep
      cases hfile : w.openFile (cString ch.request.pathname) <;>
        simp only [hfile, Option.some.injEq, Prod.mk.injEq] at hstep
      all_goals
        rw [← hstep.1]
        simp [Child.Lost, hpc]
  | sendFailure text =>
      cases a <;> simp only [childStep, hpc, Option.some.injEq,
        Prod.mk.injEq, reduceCtorEq] at hstep
      all_goals
        rw [← hstep.1]
        simp [Child.Lost, Child.unsent, hpc]
  | refused => cases a <;> simp [childStep, hpc] at hstep
  | readFile =>
      cases a with
      | ok =>
          simp only [childStep, hpc, Option.ite_none_right_eq_some,
            Option.some.injEq, Prod.mk.injEq] at hstep
          rw [← hstep.2.1]
          simp [Child.Lost, hpc, hstep.1]
      | count n =>
          simp only [childStep, hpc, Option.ite_none_right_eq_some,
            Option.some.injEq, Prod.mk.injEq] at hstep
          rw [← hstep.2.1]
          simp [Child.Lost, hpc]
      | eintr => simp [childStep] at hstep
      | err =>
          simp only [childStep, hpc, Option.some.injEq,
            Prod.mk.injEq] at hstep
          rw [← hstep.1]
          simp [Child.Lost, Child.unsent, hpc]
  | sendData bytes =>
      simp only [Progress, hpc] at h
      obtain ⟨_, _, _, _, hne, _, hcut⟩ := h
      have hleft : ch.left ≠ [] := by
        intro hnil
        rw [hnil, List.prefix_nil] at hcut
        exact hne hcut
      cases a <;> simp only [childStep, hpc, Option.some.injEq,
        Prod.mk.injEq, reduceCtorEq] at hstep
      · rw [← hstep.1]
        simp [Child.Lost, hpc]
      · rw [← hstep.1]
        simp [Child.Lost, Child.unsent, hpc, hleft]
  | sendEnd | closeFile =>
      cases a <;> simp only [childStep, hpc, Option.some.injEq,
        Prod.mk.injEq, reduceCtorEq] at hstep
      all_goals
        rw [← hstep.1]
        simp [Child.Lost, Child.unsent, hpc]
  | exited status => cases a <;> simp [childStep, hpc] at hstep

/-- Replacing one child changes what the client has lost only through that
child. -/
theorem lostFor_child {w : World} {s t : State} (h : Inv w s) {i : Nat}
    {a : Answer} (c : MsqId) (hstep : step w s (.child i a) = some t) :
    LostFor c t ↔ LostFor c s ∨ loses c s (.child i a) = true := by
  obtain ⟨ch, ch', out, hget, hchild, hdeliver⟩ := step_child hstep
  have hchildren : t.children = s.children.set i ch' :=
    (deliver_eq_some hdeliver).1
  have hmem : ch ∈ s.children := List.mem_of_getElem? hget
  have hi : i < s.children.length := (List.getElem?_eq_some_iff.1 hget).1
  have hclient : ch'.client = ch.client := by
    rw [Child.client, childStep_request hchild]
    rfl
  have hlost : ch'.Lost ↔ ch.Lost ∨ (a = .err ∧ ch.unsent = true) :=
    (h.served ch (by
      rw [State.pending]
      exact List.mem_append_left _ hmem)).progress.lost_iff hchild
  have hloses : loses c s (.child i a) = true ↔
      a = .err ∧ ch.client = c ∧ ch.unsent = true := by
    cases a <;> simp [loses, hget]
  rw [hloses]
  constructor
  · rintro ⟨x, hx, hxc, hxl⟩
    rw [hchildren] at hx
    rcases List.mem_or_eq_of_mem_set hx with hx | rfl
    · exact Or.inl ⟨x, hx, hxc, hxl⟩
    · rw [hclient] at hxc
      rcases hlost.1 hxl with hold | ⟨ha, hun⟩
      · exact Or.inl ⟨ch, hmem, hxc, hold⟩
      · exact Or.inr ⟨ha, hxc, hun⟩
  · have hnew : ch'.Lost → ch.client = c → LostFor c t := by
      intro hl hc
      refine ⟨ch', ?_, hclient.trans hc, hl⟩
      rw [hchildren]
      exact List.mem_set hi ch'
    rintro (⟨x, hx, hxc, hxl⟩ | ⟨ha, hc, hun⟩)
    · obtain ⟨j, hj⟩ := List.mem_iff_getElem?.1 hx
      by_cases hij : i = j
      · subst hij
        rw [hget, Option.some.injEq] at hj
        subst hj
        exact hnew (hlost.2 (Or.inl hxl)) hxc
      · refine ⟨x, ?_, hxc, hxl⟩
        rw [hchildren]
        apply List.mem_of_getElem?
        rw [List.getElem?_set_ne hij]
        exact hj
    · exact hnew (hlost.2 (Or.inr ⟨ha, hun⟩)) hc

/-- A newly forked child has lost nothing. -/
theorem lostFor_append_forked {c : MsqId} {s t : State} {r : RequestMsg}
    (h : t.children = s.children ++ [.forked r]) : LostFor c t ↔ LostFor c s := by
  constructor
  · rintro ⟨ch, hch, hc, hl⟩
    rw [h, List.mem_append, List.mem_singleton] at hch
    rcases hch with hch | rfl
    · exact ⟨ch, hch, hc, hl⟩
    · exact absurd rfl hl.1
  · rintro ⟨ch, hch, hc, hl⟩
    refine ⟨ch, ?_, hc, hl⟩
    rw [h]
    exact List.mem_append_left _ hch

theorem startClient_children {s t : State} {c : MsqId} {pathname : CStr}
    (h : startClient s c pathname = some t) : t.children = s.children := by
  unfold startClient at h
  split at h
  · simp at h
  · simp only at h
    split at h <;> cases h <;> rfl

theorem clientStep_children {s t : State} {c : MsqId} {a : Answer}
    (h : clientStep s c a = some t) : t.children = s.children := by
  cases a with
  | count n | eintr => simp [clientStep] at h
  | err =>
      cases hpc : (s.client c).pc <;>
        simp only [clientStep, hpc, Option.some.injEq, reduceCtorEq] at h
      all_goals
        subst h
        rfl
  | ok =>
      cases hpc : (s.client c).pc with
      | idle | exited status => simp [clientStep, hpc] at h
      | sendRequest =>
          simp only [clientStep, hpc, Option.ite_none_left_eq_some,
            Option.some.injEq] at h
          obtain ⟨_, rfl⟩ := h
          rfl
      | receiveFirst | receiveNext =>
          simp only [clientStep, hpc, Option.map_eq_some_iff, Prod.exists] at h
          obtain ⟨m, u, hrcv, rfl⟩ := h
          obtain ⟨q, _, rfl⟩ := msgrcv_eq_some hrcv
          first | rfl | (split <;> rfl)
      | testType ty | report =>
          simp only [clientStep, hpc, Option.some.injEq] at h
          subst h
          rfl

theorem serverStep_children {s t : State} {a : Answer}
    (h : serverStep s a = some t) :
    t.children = s.children ∨ ∃ r, t.children = s.children ++ [.forked r] := by
  cases hpc : s.server with
  | fork r =>
      cases a <;> simp only [serverStep, hpc, Option.some.injEq,
        reduceCtorEq] at h
      · subst h
        exact Or.inr ⟨r, rfl⟩
      · subst h
        exact Or.inl rfl
  | receive =>
      cases a with
      | ok =>
          cases hqueue : s.serverQueue <;>
            simp only [serverStep, hpc, hqueue, Option.some.injEq,
              reduceCtorEq] at h
          subst h
          exact Or.inl rfl
      | count n => simp [serverStep] at h
      | eintr | err =>
          simp only [serverStep, hpc, Option.some.injEq] at h
          subst h
          exact Or.inl rfl
  | remove =>
      cases a <;> simp only [serverStep, hpc, Option.some.injEq,
        reduceCtorEq] at h
      all_goals
        subst h
        exact Or.inl rfl
  | exited status => cases a <;> simp [serverStep, hpc] at h

/-- The flag `LostFor c` is set exactly by the steps that `loses c` names. -/
theorem lostFor_step {w : World} {s t : State} {l : Label} (h : Inv w s)
    (c : MsqId) (hstep : step w s l = some t) :
    LostFor c t ↔ LostFor c s ∨ loses c s l = true := by
  cases l with
  | start d pathname =>
      have hchildren := startClient_children hstep
      simp [LostFor, hchildren, loses]
  | client d a =>
      have hchildren := clientStep_children hstep
      simp [LostFor, hchildren, loses]
  | server a =>
      rcases serverStep_children hstep with hchildren | ⟨r, hchildren⟩
      · simp [LostFor, hchildren, loses]
      · simp [lostFor_append_forked hchildren, loses]
  | child i a => exact lostFor_child h c hstep

/-- At the end of a run client `c` has lost nothing exactly when no step of
the run was such a failure. -/
theorem not_lostFor_iff {w : World} {ls : List Label} {s : State}
    (hrun : exec (step w) init ls = some s) (c : MsqId) :
    ¬ LostFor c s ↔
      Along (step w) (fun s l => ¬ loses c s l = true) init ls := by
  rw [latch_along (fun s l t hI hstep => Inv.next hI hstep)
    (fun s l t hI hstep => lostFor_step hI c hstep) (init_inv w) hrun]
  simp [LostFor, init]

/-! ## Complete answers -/

/-- `sent` is the start of an answer to a request for `path`: one `FAILURE`
message, or the file in `DATA` messages and an `END`. -/
def Answers (w : World) (path : List UInt8) (sent : List ResponseMsg) : Prop :=
  (∃ e, w.openFile path = .error e ∧ sent <+: [failureMsg w path e]) ∨
  (∃ file, w.openFile path = .ok file ∧
    ∃ chunks : List (Chunk responseMsgDataSize), join chunks = file.bytes ∧
      sent <+: chunks.map dataMsg ++ [endMsg])

theorem answers_nil (w : World) (path : List UInt8) : Answers w path [] := by
  cases hfile : w.openFile path with
  | error e => exact Or.inl ⟨e, hfile, List.nil_prefix⟩
  | ok file =>
      obtain ⟨chunks, hjoin⟩ :
          ∃ cs : List (Chunk responseMsgDataSize), join cs = file.bytes :=
        exists_join_eq (by decide) file.bytes
      exact Or.inr ⟨file, hfile, chunks, hjoin, List.nil_prefix⟩

/-- `DATA` messages that make up a first part of the file can be completed
to an answer. -/
theorem Opened.answers {w : World} {ch : Child}
    {chunks : List (Chunk responseMsgDataSize)} (h : Opened w ch chunks) :
    Answers w ch.path (chunks.map dataMsg) := by
  obtain ⟨file, hfile, hjoin⟩ := h
  obtain ⟨rest, hrest⟩ :
      ∃ cs : List (Chunk responseMsgDataSize), join cs = ch.left :=
    exists_join_eq (by decide) ch.left
  refine Or.inr ⟨file, hfile, chunks ++ rest, ?_, ?_⟩
  · rw [join_append, hrest, hjoin]
  · rw [List.map_append, List.append_assoc]
    exact List.prefix_append _ _

theorem Progress.answers {w : World} {ch : Child} {sent : List ResponseMsg}
    (h : Progress w ch sent) (hlost : ¬ ch.Lost) : Answers w ch.path sent := by
  unfold Child.Lost at hlost
  cases hpc : ch.pc with
  | openFile =>
      simp only [Progress, hpc] at h
      exact h.1 ▸ answers_nil w ch.path
  | sendFailure text =>
      simp only [Progress, hpc] at h
      exact h.1 ▸ answers_nil w ch.path
  | refused =>
      simp only [Progress, hpc] at h
      exact Or.inl h
  | readFile | sendData bytes | sendEnd =>
      simp only [Progress, hpc] at h
      obtain ⟨chunks, hopened, rfl, _⟩ := h
      exact hopened.answers
  | closeFile | exited status =>
      simp only [Progress, hpc] at h
      obtain ⟨chunks, hopened, rfl | rfl, _⟩ := h
      · exact hopened.answers
      · obtain ⟨file, hfile, hjoin⟩ := hopened
        simp only [hpc, and_true, ne_eq, not_not] at hlost
        refine Or.inr ⟨file, hfile, chunks, ?_, List.prefix_refl _⟩
        simpa [hlost] using hjoin

/-! ## Reports -/

/-- The concatenated payloads of the `DATA` messages. -/
def dataPayload (ms : List ResponseMsg) : List UInt8 :=
  payload (ms.filter (·.type = .msgData))

theorem dataPayload_answer (chunks : List (Chunk responseMsgDataSize)) :
    dataPayload (chunks.map dataMsg ++ [endMsg]) = join chunks := by
  have hdata : (chunks.map dataMsg ++ [endMsg]).filter (·.type = .msgData) =
      chunks.map dataMsg := by
    rw [List.filter_append, List.filter_eq_self.2]
    · simp [endMsg]
    · intro m hm
      obtain ⟨c, _, rfl⟩ := List.mem_map.1 hm
      simp [dataMsg]
  rw [dataPayload, hdata]
  simp [payload, join, List.flatMap_map, dataMsg]

theorem payload_answer (chunks : List (Chunk responseMsgDataSize)) :
    payload (chunks.map dataMsg ++ [endMsg]) = join chunks := by
  simp [payload, join, List.flatMap_map, dataMsg, endMsg]

/-- A message list that ends with `END` and starts an answer is the whole
answer. -/
theorem eq_answer_of_ended {got : List ResponseMsg}
    {chunks : List (Chunk responseMsgDataSize)} (hended : Ended got)
    (hstart : got <+: chunks.map dataMsg ++ [endMsg]) :
    got = chunks.map dataMsg ++ [endMsg] := by
  rcases List.prefix_concat_iff.1 hstart with hwhole | hpart
  · exact hwhole
  · obtain ⟨before, m, rfl, hm⟩ := hended
    have hmem : m ∈ chunks.map dataMsg := hpart.subset (by simp)
    obtain ⟨c, _, rfl⟩ := List.mem_map.1 hmem
    simp [dataMsg] at hm

/-- A client that has received `END` has everything its child sent, and the
child is past its `END` message. -/
theorem Progress.of_ended {w : World} {ch : Child}
    {sent got : List ResponseMsg} (h : Progress w ch sent)
    (hstart : got <+: sent) (hended : Ended got) :
    ∃ chunks, Opened w ch chunks ∧ got = chunks.map dataMsg ++ [endMsg] ∧
      (ch.Lost ↔ ch.left ≠ []) ∧ (ch.left = [] → ch.reads = chunks.length) := by
  have hlast : ∃ m ∈ got, m.type = .msgEnd := by
    obtain ⟨before, m, rfl, hm⟩ := hended
    exact ⟨m, by simp, hm⟩
  obtain ⟨m, hmgot, hm⟩ := hlast
  have hmsent : m ∈ sent := hstart.subset hmgot
  -- Before `closeFile` nothing of type `END` has been sent.
  have hnone : ∀ chunks : List (Chunk responseMsgDataSize),
      sent = chunks.map dataMsg → False := by
    intro chunks heq
    rw [heq] at hmsent
    obtain ⟨c, _, rfl⟩ := List.mem_map.1 hmsent
    simp [dataMsg] at hm
  cases hpc : ch.pc with
  | openFile =>
      simp only [Progress, hpc] at h
      exact (hnone [] h.1).elim
  | sendFailure text =>
      simp only [Progress, hpc] at h
      exact (hnone [] h.1).elim
  | refused =>
      simp only [Progress, hpc] at h
      obtain ⟨e, _, hfail⟩ := h
      have hmem := hfail.subset hmsent
      rw [List.mem_singleton] at hmem
      simp [hmem, failureMsg] at hm
  | readFile | sendData bytes | sendEnd =>
      simp only [Progress, hpc] at h
      obtain ⟨chunks, _, hsent, _⟩ := h
      exact (hnone chunks hsent).elim
  | closeFile | exited status =>
      simp only [Progress, hpc] at h
      obtain ⟨chunks, hopened, hsent | hsent, hreads⟩ := h
      · exact (hnone chunks hsent).elim
      · rw [hsent] at hstart
        refine ⟨chunks, hopened, eq_answer_of_ended hended hstart, ?_, hreads⟩
        simp [Child.Lost, hpc]

/-- The report of client `c`, whoever failed: the child that served it, what
of the file that child had cut off, and the printed totals. -/
theorem Inv.report {w : World} {s : State} (h : Inv w s) {c : MsqId}
    {total : Int64} {num : Int32}
    (hprinted : (s.client c).printed = some (total, num)) :
    ∃ ch ∈ s.children, ch.client = c ∧ ch.path = (s.client c).pathname.bytes ∧
      ∃ chunks, Opened w ch chunks ∧
        (s.client c).got = chunks.map dataMsg ++ [endMsg] ∧
        (LostFor c s ↔ ch.left ≠ []) ∧
        (ch.left = [] → ch.reads = chunks.length) := by
  have hrecv := h.clients c
  obtain ⟨_, _, hended⟩ := hrecv.printed total num hprinted
  have hstart := hrecv.got_start
  -- Somebody sent the `END`, so the client has a row in `pending`.
  have hrow : c ∈ s.pending.map Child.client := by
    by_contra hfree
    obtain ⟨before, m, hgot, _⟩ := hended
    rw [h.unserved c hfree, List.prefix_nil, hgot] at hstart
    simp at hstart
  obtain ⟨ch, hch, rfl⟩ := List.mem_map.1 hrow
  have hserved := h.served ch hch
  obtain ⟨chunks, hopened, hgot, hlost, hreads⟩ :=
    hserved.progress.of_ended hstart hended
  have hchild : ch ∈ s.children := by
    rw [State.pending, List.mem_append, List.mem_map] at hch
    rcases hch with hch | ⟨r, hr, rfl⟩
    · exact hch
    · have hsent := h.sent_of_waiting hr
      rw [show s.sent (Child.forked r).client = [] from hsent,
        List.prefix_nil, hgot] at hstart
      simp at hstart
  refine ⟨ch, hchild, rfl, hserved.path, chunks, hopened, hgot, ?_, hreads⟩
  rw [← hlost]
  constructor
  · rintro ⟨x, hx, hxc, hxl⟩
    have hxp : x ∈ s.pending := by
      rw [State.pending]
      exact List.mem_append_left _ hx
    rw [Keyed.eq_of_key_eq Child.client h.nodup hch hxp hxc.symm]
    exact hxl
  · exact fun hl => ⟨ch, hchild, rfl, hl⟩

/-- The totals of a report, in terms of what the child cut off. -/
theorem Inv.report_totals {w : World} {s : State} (h : Inv w s) {c : MsqId}
    {total : Int64} {num : Int32}
    (hprinted : (s.client c).printed = some (total, num))
    {chunks : List (Chunk responseMsgDataSize)}
    (hgot : (s.client c).got = chunks.map dataMsg ++ [endMsg]) :
    total = Int64.ofNat (join chunks).length ∧
      num = Int32.ofNat (chunks.length + 1) := by
  obtain ⟨htotal, hnum, _⟩ := (h.clients c).printed total num hprinted
  rw [hgot, payload_answer] at htotal
  rw [hgot] at hnum
  exact ⟨htotal, by simpa using hnum⟩

/-! ## The service without failures -/

/-- The step is a failed `read()` or `msgsnd` of a child. -/
def childCallFails (s : State) : Label → Bool
  | .child i .err => (s.children[i]?).any fun ch => ch.pc ≠ .closeFile
  | _ => false

theorem childCallFails_of_loses {c : MsqId} {s : State} {l : Label}
    (h : loses c s l = true) : childCallFails s l = true := by
  unfold loses at h
  split at h
  · rename_i i
    cases hget : s.children[i]? with
    | none => simp [hget] at h
    | some ch =>
        simp only [hget, Option.any_some, Bool.and_eq_true] at h
        have hunsent := h.2
        rw [childCallFails, hget, Option.any_some, decide_eq_true_iff]
        intro hpc
        simp [Child.unsent, hpc] at hunsent
  · simp at h

/-- **Delivery.**  In every run in which no `read()` and no `msgsnd` of a
child fails, whatever else happens: what was ever put on a client's queue is
the start of an answer to that client's own request; and a client that
reaches its final report has received exactly its file, prints its length,
and counts one message for each non-empty `read()` of the child that served
it and one for the `END`. -/
theorem file_service_delivers (w : World) (ls : List Label) (s : State)
    (hrun : exec (step w) init ls = some s)
    (hok : Along (step w) (fun s l => childCallFails s l = false) init ls)
    (c : MsqId) :
    Answers w (s.client c).pathname.bytes (s.sent c) ∧
    ∀ total num, (s.client c).printed = some (total, num) →
      ∃ file, w.openFile (s.client c).pathname.bytes = .ok file ∧
        dataPayload (s.client c).got = file.bytes ∧
        total.toInt = file.bytes.length ∧
        ∃ ch ∈ s.children, ch.client = c ∧ num = Int32.ofNat (ch.reads + 1) := by
  have hinv : Inv w s := inv_of_reachable ⟨ls, hrun⟩
  have hnolost : ¬ LostFor c s := by
    rw [not_lostFor_iff hrun c]
    refine hok.mono ?_
    intro u l hcall hloses
    rw [childCallFails_of_loses hloses] at hcall
    exact absurd hcall (by decide)
  constructor
  · by_cases hrow : c ∈ s.pending.map Child.client
    · obtain ⟨ch, hch, rfl⟩ := List.mem_map.1 hrow
      have hserved := hinv.served ch hch
      rw [← hserved.path]
      apply hserved.progress.answers
      intro hlost
      apply hnolost
      rw [State.pending, List.mem_append, List.mem_map] at hch
      rcases hch with hch | ⟨r, _, rfl⟩
      · exact ⟨ch, hch, rfl, hlost⟩
      · exact absurd rfl hlost.1
    · rw [hinv.unserved c hrow]
      exact answers_nil w _
  · intro total num hprinted
    obtain ⟨ch, hch, hc, hpath, chunks, ⟨file, hfile, hjoin⟩, hgot, hlost,
      hreads⟩ := hinv.report hprinted
    have hleft : ch.left = [] := by
      by_contra hne
      exact hnolost (hlost.2 hne)
    obtain ⟨htotal, hnum⟩ := hinv.report_totals hprinted hgot
    rw [hleft, List.append_nil] at hjoin
    refine ⟨file, hpath ▸ hfile, ?_, ?_, ch, hch, hc, ?_⟩
    · rw [hgot, dataPayload_answer, hjoin]
    · rw [htotal, hjoin, Int64.toInt_ofNat_of_lt file.size_lt]
    · rw [hnum, hreads hleft]

/-- A system with one file, called `f`. -/
def oneFile : World where
  openFile := fun path =>
    if path = ascii "f" then .ok ⟨[1, 2, 3], by decide⟩ else .error 2
  strerror := fun _ => ascii "No such file or directory"

/-- Client 7 asks for `f`, the server's `msgrcv` is interrupted once, and a
child is forked. -/
def request : List Label :=
  [.start 7 ⟨ascii "f", by decide⟩, .client 7 .ok, .server .eintr,
    .server .ok, .server .ok, .child 0 .ok]

/-- The child reads two bytes and then one. -/
def wholeFile : List Label :=
  request ++
    [.child 0 (.count 2), .child 0 .ok, .client 7 .ok, .child 0 (.count 1),
      .child 0 .ok, .child 0 .ok, .child 0 .ok, .child 0 .ok, .client 7 .ok,
      .client 7 .ok, .client 7 .ok, .client 7 .ok, .client 7 .ok,
      .client 7 .ok]

theorem file_service_delivers_three_bytes :
    ∃ s, exec (step oneFile) init wholeFile = some s ∧
      (s.client 7).printed = some (3, 3) ∧
      dataPayload (s.client 7).got = [1, 2, 3] := by
  obtain ⟨s, hs, hprinted, hname⟩ := exists_exec (step oneFile)
    (fun s => (s.client 7).printed = some (3, 3) ∧
      (s.client 7).pathname.bytes = ascii "f")
    init wholeFile (by decide)
  obtain ⟨file, hfile, hgot, _⟩ :=
    (file_service_delivers oneFile wholeFile s hs (by decide) 7).2 3 3 hprinted
  rw [hname, show oneFile.openFile (ascii "f") = .ok ⟨[1, 2, 3], by decide⟩
    by decide, Except.ok.injEq] at hfile
  exact ⟨s, hs, hprinted, hgot.trans (hfile ▸ rfl)⟩

/-- Nothing fails, the child reads twice, and the client counts three: the
`END` is a message too. -/
theorem end_message_is_counted :
    ∃ s, exec (step oneFile) init wholeFile = some s ∧
      Along (step oneFile) (fun s l => childCallFails s l = false) init
        wholeFile ∧
      (s.client 7).printed = some (3, 3) ∧
      s.children.map (fun ch => (ch.client, ch.reads)) = [(7, 2)] ∧
      ∀ ch ∈ s.children, (3 : Int32) ≠ Int32.ofNat ch.reads := by
  obtain ⟨s, hs, hprinted, hreads, hne⟩ := exists_exec (step oneFile)
    (fun s => (s.client 7).printed = some (3, 3) ∧
      s.children.map (fun ch => (ch.client, ch.reads)) = [(7, 2)] ∧
      ∀ ch ∈ s.children, (3 : Int32) ≠ Int32.ofNat ch.reads)
    init wholeFile (by decide)
  exact ⟨s, hs, by decide, hprinted, hreads, hne⟩

/-! ## The service with failures -/

/-- The report of client `c` is about the whole file it named. -/
def ReportComplete (w : World) (c : MsqId) (total : Int64) (s : State) : Prop :=
  ∃ file, w.openFile (s.client c).pathname.bytes = .ok file ∧
    total.toInt = file.bytes.length ∧
    dataPayload (s.client c).got = file.bytes

/-- **Truncation.**  Whatever fails in a run, a client that prints its final
report has the whole file exactly when no `read()` before the end of the file
and no `msgsnd` of a `DATA` message failed in the child serving it. -/
theorem report_complete_iff (w : World) (ls : List Label) (s : State)
    (hrun : exec (step w) init ls = some s) (c : MsqId) (total : Int64)
    (num : Int32) (hprinted : (s.client c).printed = some (total, num)) :
    ReportComplete w c total s ↔
      Along (step w) (fun s l => loses c s l = false) init ls := by
  have hinv : Inv w s := inv_of_reachable ⟨ls, hrun⟩
  obtain ⟨ch, _, _, hpath, chunks, ⟨file, hfile, hjoin⟩, hgot, hlost, _⟩ :=
    hinv.report hprinted
  have htotal := (hinv.report_totals hprinted hgot).1
  have hquiet := not_lostFor_iff hrun c
  simp only [Bool.not_eq_true] at hquiet
  rw [← hquiet, hlost, not_not]
  constructor
  · rintro ⟨named, hnamed, _, hpayload⟩
    have hsame : file = named := by
      rw [← hpath, hfile] at hnamed
      exact Except.ok.inj hnamed
    rw [hgot, dataPayload_answer, ← hsame, ← hjoin] at hpayload
    exact List.self_eq_append_right.1 hpayload
  · intro hleft
    rw [hleft, List.append_nil] at hjoin
    refine ⟨file, hpath ▸ hfile, ?_, ?_⟩
    · rw [htotal, hjoin, Int64.toInt_ofNat_of_lt file.size_lt]
    · rw [hgot, dataPayload_answer, hjoin]

theorem report_complete_whole_file :
    ∃ s, exec (step oneFile) init wholeFile = some s ∧
      ReportComplete oneFile 7 3 s := by
  obtain ⟨s, hs, hprinted⟩ := exists_exec (step oneFile)
    (fun s => (s.client 7).printed = some (3, 3)) init wholeFile (by decide)
  exact ⟨s, hs,
    (report_complete_iff oneFile wholeFile s hs 7 3 3 hprinted).2 (by decide)⟩

/-- The child reads two bytes of three, and the next `read()` fails. -/
def readFails : List Label :=
  request ++
    [.child 0 (.count 2), .child 0 .ok, .child 0 .err, .child 0 .ok,
      .child 0 .ok, .client 7 .ok, .client 7 .ok, .client 7 .ok,
      .client 7 .ok, .client 7 .ok]

/-- The client reports two bytes of three and a success. -/
theorem failed_read_reported_as_success :
    ∃ s, exec (step oneFile) init readFails = some s ∧
      (s.client 7).pc = .exited .success ∧
      (s.client 7).printed = some (2, 2) ∧
      ¬ ReportComplete oneFile 7 2 s := by
  obtain ⟨s, hs, hpc, hprinted, hname, hgot⟩ := exists_exec (step oneFile)
    (fun s => (s.client 7).pc = .exited .success ∧
      (s.client 7).printed = some (2, 2) ∧
      (s.client 7).pathname.bytes = ascii "f" ∧
      dataPayload (s.client 7).got = [1, 2])
    init readFails (by decide)
  refine ⟨s, hs, hpc, hprinted, ?_⟩
  rintro ⟨file, hfile, _, hpayload⟩
  rw [hname, show oneFile.openFile (ascii "f") = .ok ⟨[1, 2, 3], by decide⟩
    by decide, Except.ok.injEq] at hfile
  rw [hgot, ← hfile] at hpayload
  exact absurd hpayload (by decide)

end Lpi.Ports.SvmsgFile
