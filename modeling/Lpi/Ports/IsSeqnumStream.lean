import Lpi.Ports.IsSeqnum
import Lpi.Verified.Counter
import Lpi.Verified.Run

/-!
# What the TCP server adds and the client prints

Both programs check their `read` for failure only, so a `read` that returns
fewer than four bytes goes on with whatever the variable held.  `Inv` is what
holds however the network cuts the streams: at most one `int` ever travels
each way on a connection, and the log is numbered by the counter.  `Intact`,
that the values added and printed are the ones that travelled, is kept by the
steps that are not such short reads.
-/

namespace Lpi.Ports.IsSeqnum

open Lpi.Verified.Channel
open Lpi.Verified.CData
open Lpi.Verified.Counter
open Lpi.Verified.Run

/-! ## One `int` each way -/

/-- A whole `int` read from a stream that carries no more than one. -/
theorem readInto_whole {x y : Stream} {bs : List UInt8} {v old : Int32}
    (hstart : x.sent <+: bytesOfInt v)
    (hread : x.read sizeofInt sizeofInt = some (bs, y)) :
    x.sent = bytesOfInt v ∧ readInto bs old = v := by
  have hlen : (bytesOfInt v).length = sizeofInt := length_bytesOfInt v
  have hbs : bs = x.sent := by
    apply eq_sent_of_read hread (by decide)
    rw [← hlen]
    exact hstart.length_le
  have hall : x.sent = bytesOfInt v := by
    apply hstart.eq_of_length
    rw [hlen, ← hbs, length_of_read hread]
  refine ⟨hall, ?_⟩
  rw [readInto, overlay_full, hbs, hall, intOfBytes_bytesOfInt]
  rw [hbs, hall, length_bytesOfInt, length_bytesOfInt]

/-- The connections the server has not answered: the one it is at and those
in the backlog. -/
def ServerPc.current : ServerPc → List Nat
  | .read c | .write c _ => [c]
  | _ => []

def State.waiting (s : State) : List Nat := s.server.current ++ s.backlog

/-- The client has not connected. -/
def ClientPc.Unconnected : ClientPc → Prop
  | .idle | .connect => True
  | _ => False

/-- The client has not written its request. -/
def ClientPc.Unsent : ClientPc → Prop
  | .idle | .connect | .write => True
  | _ => False

/-- A client, the two streams of its connection, and whether the server still
has to answer it. -/
structure Linked (k : Client) (up down : Stream) (waits : Prop) : Prop where
  up_start : up.sent <+: bytesOfInt k.request
  unsent : k.pc.Unsent → up.sent = []
  down_start : ∃ v, down.sent <+: bytesOfInt v
  unanswered : waits → down.sent = []
  unconnected : k.pc.Unconnected → ¬ waits ∧ down.sent = []

/-- What answering a connection added to the counter. -/
def Reply.inc (e : Reply) : Option Int32 := some e.request

structure Inv (initial : Int32) (s : State) : Prop where
  numbered : Numbered Reply.seqNum Reply.inc initial s.log
  counted : s.seqNum = counter initial (s.log.filterMap Reply.inc)
  nodup : s.waiting.Nodup
  linked : ∀ c, Linked (s.client c) (s.up c) (s.down c) (c ∈ s.waiting)

theorem start_inv (initial : Int32) : Inv initial (start initial) where
  numbered := numbered_nil initial
  counted := rfl
  nodup := List.nodup_nil
  linked := by
    intro c
    exact
      { up_start := List.nil_prefix
        unsent := fun _ => rfl
        down_start := ⟨0, List.nil_prefix⟩
        unanswered := fun _ => rfl
        unconnected := fun _ => ⟨List.not_mem_nil, rfl⟩ }

/-! ## Steps of a client -/

/-- Client `c` moves; the server and the other connections are as they
were. -/
theorem Inv.update_client {initial : Int32} {s t : State} (h : Inv initial s)
    {c : Nat} {k : Client} {x y : Stream}
    (hclient : t.client = Function.update s.client c k)
    (hup : t.up = Function.update s.up c x)
    (hdown : t.down = Function.update s.down c y)
    (hserver : t.server = s.server) (hbacklog : t.backlog = s.backlog)
    (hseqNum : t.seqNum = s.seqNum) (hlog : t.log = s.log)
    (hlinked : Linked k x y (c ∈ s.waiting)) : Inv initial t := by
  have hwaiting : t.waiting = s.waiting := by
    rw [State.waiting, hserver, hbacklog, State.waiting]
  refine
    { numbered := hlog ▸ h.numbered
      counted := ?_
      nodup := hwaiting ▸ h.nodup
      linked := ?_ }
  · rw [hseqNum, hlog]
    exact h.counted
  · intro d
    rw [hclient, hup, hdown, hwaiting]
    by_cases hd : d = c
    · subst hd
      simp only [Function.update_self]
      exact hlinked
    · simp only [Function.update_of_ne hd]
      exact h.linked d

/-- The client's process is gone. -/
theorem Linked.exits {k : Client} {up down : Stream} {waits : Prop}
    (h : Linked k up down waits) (status : Exit) :
    Linked { k with pc := .exited status } up.close down waits where
  up_start := h.up_start
  unsent := fun hunsent => hunsent.elim
  down_start := h.down_start
  unanswered := h.unanswered
  unconnected := fun hunconnected => hunconnected.elim

theorem Inv.client_exits {initial : Int32} {s : State} (h : Inv initial s)
    (c : Nat) (status : Exit) : Inv initial (s.clientExits c status) :=
  h.update_client rfl rfl (Function.update_eq_self c s.down).symm rfl rfl rfl
    rfl ((h.linked c).exits status)

theorem Inv.start_client {initial : Int32} {s t : State} (h : Inv initial s)
    {c : Nat} {request : Int32} (hstep : startClient s c request = some t) :
    Inv initial t := by
  simp only [startClient, ne_eq, ite_not, Option.ite_none_right_eq_some,
    Option.some.injEq] at hstep
  obtain ⟨hidle, rfl⟩ := hstep
  have hlinked := h.linked c
  have hnone : (s.up c).sent = [] := hlinked.unsent (by rw [hidle]; trivial)
  have hfree := hlinked.unconnected (by rw [hidle]; trivial)
  refine h.update_client rfl (Function.update_eq_self c s.up).symm
    (Function.update_eq_self c s.down).symm rfl rfl rfl rfl ?_
  refine
    { up_start := ?_
      unsent := fun _ => hnone
      down_start := hlinked.down_start
      unanswered := hlinked.unanswered
      unconnected := fun _ => hfree }
  rw [hnone]
  exact List.nil_prefix

/-- `connect`: the connection joins the backlog, and nothing was sent on it. -/
theorem Inv.connect {initial : Int32} {s : State} (h : Inv initial s) {c : Nat}
    (hpc : (s.client c).pc = .connect) :
    Inv initial { s.setClient c { s.client c with pc := .write } with
      backlog := s.backlog ++ [c] } := by
  have hlinked := h.linked c
  obtain ⟨hfree, hnone⟩ := hlinked.unconnected (by rw [hpc]; trivial)
  have hsent := hlinked.unsent (by rw [hpc]; trivial)
  have hwaiting : (State.waiting { s.setClient c { s.client c with pc := .write }
      with backlog := s.backlog ++ [c] }) = s.waiting ++ [c] := by
    simp [State.waiting, State.setClient]
  refine
    { numbered := h.numbered
      counted := h.counted
      nodup := ?_
      linked := ?_ }
  · rw [hwaiting]
    exact List.nodup_append_comm.2 (List.nodup_cons.2 ⟨hfree, h.nodup⟩)
  · intro d
    rw [hwaiting]
    by_cases hd : d = c
    · subst hd
      simp only [State.setClient, Function.update_self]
      exact
        { up_start := hlinked.up_start
          unsent := fun _ => hsent
          down_start := hlinked.down_start
          unanswered := fun _ => hnone
          unconnected := fun hunconnected => hunconnected.elim }
    · simp only [State.setClient, Function.update_of_ne hd, List.mem_append,
        List.mem_singleton, hd, or_false]
      exact h.linked d

/-- `write` of the request, or of a part of it. -/
theorem Linked.writes {k : Client} {up down : Stream} {waits : Prop}
    (h : Linked k up down waits) (hpc : k.pc = .write) (n : Nat) :
    Linked { k with pc := .read } (up.write ((bytesOfInt k.request).take n))
      down waits := by
  have hnone : up.sent = [] := h.unsent (by rw [hpc]; trivial)
  refine
    { up_start := ?_
      unsent := fun hunsent => hunsent.elim
      down_start := h.down_start
      unanswered := h.unanswered
      unconnected := fun hunconnected => hunconnected.elim }
  rw [sent_write, hnone, List.nil_append]
  exact List.take_prefix _ _

theorem Inv.client_step {initial : Int32} {s t : State} (h : Inv initial s)
    {c : Nat} {a : Answer} (hstep : clientStep s c a = some t) :
    Inv initial t := by
  have hlinked := h.linked c
  cases a with
  | ok =>
      cases hpc : (s.client c).pc with
      | connect =>
          simp only [clientStep, hpc, Option.ite_none_left_eq_some,
            Option.some.injEq] at hstep
          obtain ⟨_, rfl⟩ := hstep
          exact h.connect hpc
      | close =>
          simp only [clientStep, hpc, Option.some.injEq] at hstep
          exact hstep ▸ h.client_exits c .success
      | idle | write | read | exited status => simp [clientStep, hpc] at hstep
  | wrote n =>
      cases hpc : (s.client c).pc with
      | write =>
          simp only [clientStep, hpc, Option.ite_none_right_eq_some] at hstep
          obtain ⟨_, hstep⟩ := hstep
          have hwrites := hlinked.writes hpc n
          split at hstep
          · cases hstep
            refine h.update_client rfl ?_ (Function.update_eq_self c s.down).symm
              rfl rfl rfl rfl (hwrites.exits .failure)
            simp [State.clientExits, State.setClient, State.setUp]
          · cases hstep
            exact h.update_client rfl rfl (Function.update_eq_self c s.down).symm
              rfl rfl rfl rfl hwrites
      | idle | connect | read | close | exited status =>
          simp [clientStep, hpc] at hstep
  | read n old =>
      cases hpc : (s.client c).pc with
      | read =>
          simp only [clientStep, hpc, Option.map_eq_some_iff,
            Prod.exists] at hstep
          obtain ⟨bs, x, hread, rfl⟩ := hstep
          have hsent := sent_of_read hread
          refine h.update_client rfl (Function.update_eq_self c s.up).symm rfl
            rfl rfl rfl rfl ?_
          exact
            { up_start := hlinked.up_start
              unsent := fun hunsent => hunsent.elim
              down_start := hsent ▸ hlinked.down_start
              unanswered := hsent ▸ hlinked.unanswered
              unconnected := fun hunconnected => hunconnected.elim }
      | idle | connect | write | close | exited status =>
          simp [clientStep, hpc] at hstep
  | err =>
      cases hpc : (s.client c).pc with
      | idle | exited status => simp [clientStep, hpc] at hstep
      | connect | write | read | close =>
          simp only [clientStep, hpc, Option.some.injEq] at hstep
          exact hstep ▸ h.client_exits c .failure

/-! ## Steps of the server -/

/-- The server has answered a connection or given it up. -/
theorem Linked.leaves {k : Client} {up down : Stream} {waits waits' : Prop}
    (h : Linked k up down waits) (hwaits : waits' → waits) :
    Linked k up down waits' where
  up_start := h.up_start
  unsent := h.unsent
  down_start := h.down_start
  unanswered := fun hw => h.unanswered (hwaits hw)
  unconnected := fun hpc =>
    ⟨fun hw => (h.unconnected hpc).1 (hwaits hw), (h.unconnected hpc).2⟩

/-- `Linked` does not see closing. -/
theorem Linked.same_sent {k : Client} {up up' down down' : Stream}
    {waits : Prop} (h : Linked k up down waits) (hup : up'.sent = up.sent)
    (hdown : down'.sent = down.sent) : Linked k up' down' waits where
  up_start := hup ▸ h.up_start
  unsent := hup ▸ h.unsent
  down_start := hdown ▸ h.down_start
  unanswered := hdown ▸ h.unanswered
  unconnected := hdown ▸ h.unconnected

/-- The server moves on without writing to a connection. -/
theorem Inv.server_moves {initial : Int32} {s t : State} (h : Inv initial s)
    (hclient : t.client = s.client) (hseqNum : t.seqNum = s.seqNum)
    (hlog : t.log = s.log) (hwaiting : t.waiting.Sublist s.waiting)
    (hup : ∀ c, (t.up c).sent = (s.up c).sent)
    (hdown : ∀ c, (t.down c).sent = (s.down c).sent) : Inv initial t where
  numbered := hlog ▸ h.numbered
  counted := by
    rw [hseqNum, hlog]
    exact h.counted
  nodup := hwaiting.nodup h.nodup
  linked := by
    intro c
    rw [hclient]
    exact ((h.linked c).leaves fun hc => hwaiting.subset hc).same_sent
      (hup c) (hdown c)

theorem Inv.server_exits {initial : Int32} {s : State} (h : Inv initial s) :
    Inv initial s.serverExits := by
  refine h.server_moves rfl rfl rfl ?_ (fun _ => rfl) (fun _ => rfl)
  simp [State.waiting, State.serverExits, ServerPc.current]

/-- `write` of the number, and the addition. -/
theorem Inv.answer {initial : Int32} {s : State} (h : Inv initial s) {c : Nat}
    {request : Int32} (hserver : s.server = .write c request) (n : Nat) :
    Inv initial (answerRequest s c request n) := by
  have hwaiting : s.waiting = c :: s.backlog := by
    rw [State.waiting, hserver]
    rfl
  have hnodup := h.nodup
  rw [hwaiting, List.nodup_cons] at hnodup
  refine
    { numbered := h.numbered.concat h.counted
      counted := ?_
      nodup := hnodup.2
      linked := ?_ }
  · simp [answerRequest, List.filterMap_append, Reply.inc, h.counted]
  · intro d
    have hlinked := h.linked d
    show Linked (s.client d) (s.up d) (Function.update s.down c _ d)
      (d ∈ s.backlog)
    by_cases hd : d = c
    · subst hd
      have hcurrent : d ∈ s.waiting := by
        rw [hwaiting]
        exact List.mem_cons_self
      have hnone := hlinked.unanswered hcurrent
      rw [Function.update_self]
      refine
        { up_start := hlinked.up_start
          unsent := hlinked.unsent
          down_start := ⟨s.seqNum, ?_⟩
          unanswered := fun hbacklog => absurd hbacklog hnodup.1
          unconnected := fun hpc => absurd hcurrent (hlinked.unconnected hpc).1 }
      rw [sent_write, hnone, List.nil_append]
      exact List.take_prefix _ _
    · rw [Function.update_of_ne hd]
      apply hlinked.leaves
      intro hbacklog
      rw [hwaiting]
      exact List.mem_cons_of_mem c hbacklog

theorem sent_update {f : Nat → Stream} {c : Nat} {x : Stream}
    (hx : x.sent = (f c).sent) (d : Nat) :
    (Function.update f c x d).sent = (f d).sent := by
  by_cases hd : d = c
  · subst hd
    rw [Function.update_self, hx]
  · rw [Function.update_of_ne hd]

theorem Inv.server_step {initial : Int32} {s t : State} (h : Inv initial s)
    {a : Answer} (hstep : serverStep s a = some t) : Inv initial t := by
  cases hpc : s.server with
  | accept =>
      cases a with
      | ok =>
          cases hbacklog : s.backlog with
          | nil => simp [serverStep, hpc, hbacklog] at hstep
          | cons c rest =>
              simp only [serverStep, hpc, hbacklog, Option.some.injEq] at hstep
              subst hstep
              refine h.server_moves rfl rfl rfl ?_ (fun _ => rfl) (fun _ => rfl)
              simp [State.waiting, hpc, hbacklog, ServerPc.current]
      | err =>
          simp only [serverStep, hpc, Option.some.injEq] at hstep
          exact hstep ▸ h
      | read n old | wrote n => simp [serverStep, hpc] at hstep
  | read c =>
      cases a with
      | read n old =>
          simp only [serverStep, hpc, Option.map_eq_some_iff,
            Prod.exists] at hstep
          obtain ⟨bs, x, hread, rfl⟩ := hstep
          refine h.server_moves rfl rfl rfl ?_
            (sent_update (sent_of_read hread)) (fun _ => rfl)
          simp [State.waiting, State.setUp, hpc, ServerPc.current]
      | err =>
          simp only [serverStep, hpc, Option.some.injEq] at hstep
          subst hstep
          refine h.server_moves rfl rfl rfl ?_ (fun _ => rfl) (fun _ => rfl)
          simp [State.waiting, hpc, ServerPc.current]
      | ok | wrote n => simp [serverStep, hpc] at hstep
  | write c request =>
      cases a with
      | wrote n =>
          simp only [serverStep, hpc, Option.ite_none_right_eq_some,
            Option.some.injEq] at hstep
          exact hstep.2 ▸ h.answer hpc n
      | err =>
          simp only [serverStep, hpc, Option.some.injEq] at hstep
          exact hstep ▸ h.answer hpc 0
      | ok | read n old => simp [serverStep, hpc] at hstep
  | close c =>
      cases a with
      | ok =>
          simp only [serverStep, hpc, Option.some.injEq] at hstep
          subst hstep
          refine h.server_moves rfl rfl rfl ?_ (fun _ => rfl)
            (sent_update (sent_close _))
          simp [State.waiting, State.setDown, hpc, ServerPc.current]
      | err =>
          simp only [serverStep, hpc, Option.some.injEq] at hstep
          exact hstep ▸ h.server_exits
      | read n old | wrote n => simp [serverStep, hpc] at hstep
  | exited => cases a <;> simp [serverStep, hpc] at hstep

theorem Inv.next {initial : Int32} {s t : State} {l : Label} (h : Inv initial s)
    (hstep : step s l = some t) : Inv initial t := by
  cases l with
  | start c request => exact h.start_client hstep
  | client c a => exact h.client_step hstep
  | server a => exact h.server_step hstep
  | killClient c =>
      cases hpc : (s.client c).pc <;>
        simp only [step, hpc, Option.some.injEq, reduceCtorEq] at hstep
      all_goals exact hstep ▸ h.client_exits c .failure
  | killServer =>
      simp only [step, Option.ite_none_left_eq_some, Option.some.injEq] at hstep
      exact hstep.2 ▸ h.server_exits

/-! ## Values that travelled -/

/-- The values added were sent by the clients they were added for, and the
values printed by the server. -/
structure Intact (s : State) : Prop where
  added : ∀ e ∈ s.log, (s.up e.conn).sent = bytesOfInt e.request
  printed : ∀ c v, (s.client c).printed = some v →
    (s.down c).sent = bytesOfInt v

/-- The same for the value the server is about to add. -/
structure Travelled (s : State) : Prop extends Intact s where
  inHand : ∀ c v, s.server = .write c v → (s.up c).sent = bytesOfInt v

/-- The step is no `read` that returned less than an `int`. -/
def readsWhole : Label → Bool
  | .server (.read n _) | .client _ (.read n _) => n = sizeofInt
  | _ => true

theorem bytesOfInt_ne_nil (v : Int32) : bytesOfInt v ≠ [] := by
  intro hnil
  have hlen := length_bytesOfInt v
  rw [hnil] at hlen
  exact absurd hlen (by decide)

/-- A stream that carried an `int` carries nothing else; so only new values
have to be looked at. -/
theorem Travelled.frame {s t : State} (h : Travelled s)
    (hup : ∀ c, (s.up c).sent ≠ [] → (t.up c).sent = (s.up c).sent)
    (hdown : ∀ c, (s.down c).sent ≠ [] → (t.down c).sent = (s.down c).sent)
    (hlog : ∀ e ∈ t.log, e ∈ s.log ∨ (s.up e.conn).sent = bytesOfInt e.request)
    (hprinted : ∀ c v, (t.client c).printed = some v →
      (s.client c).printed = some v ∨ (s.down c).sent = bytesOfInt v)
    (hserver : ∀ c v, t.server = .write c v →
      s.server = .write c v ∨ (s.up c).sent = bytesOfInt v) : Travelled t where
  added := by
    intro e he
    have hsent : (s.up e.conn).sent = bytesOfInt e.request := by
      rcases hlog e he with hold | hnew
      · exact h.added e hold
      · exact hnew
    rw [hup e.conn (hsent ▸ bytesOfInt_ne_nil _), hsent]
  printed := by
    intro c v hv
    have hsent : (s.down c).sent = bytesOfInt v := by
      rcases hprinted c v hv with hold | hnew
      · exact h.printed c v hold
      · exact hnew
    rw [hdown c (hsent ▸ bytesOfInt_ne_nil _), hsent]
  inHand := by
    intro c v hv
    have hsent : (s.up c).sent = bytesOfInt v := by
      rcases hserver c v hv with hold | hnew
      · exact h.inHand c v hold
      · exact hnew
    rw [hup c (hsent ▸ bytesOfInt_ne_nil _), hsent]

/-- Client `c` moves without printing. -/
theorem Travelled.client_moves {s t : State} (h : Travelled s) {c : Nat}
    {k : Client} (hclient : t.client = Function.update s.client c k)
    (hk : k.printed = (s.client c).printed)
    (hup : ∀ d, (s.up d).sent ≠ [] → (t.up d).sent = (s.up d).sent)
    (hdown : t.down = s.down) (hserver : t.server = s.server)
    (hlog : t.log = s.log) : Travelled t := by
  apply h.frame hup
  · intro d _
    rw [hdown]
  · intro e he
    exact Or.inl (hlog ▸ he)
  · intro d v hv
    refine Or.inl ?_
    rw [hclient] at hv
    by_cases hd : d = c
    · subst hd
      rw [Function.update_self, hk] at hv
      exact hv
    · rw [Function.update_of_ne hd] at hv
      exact hv
  · intro d v hv
    exact Or.inl (hserver ▸ hv)

theorem Travelled.client_exits {s : State} (h : Travelled s) (c : Nat)
    (status : Exit) : Travelled (s.clientExits c status) :=
  h.client_moves rfl rfl (fun d _ => sent_update (sent_close (s.up c)) d)
    rfl rfl rfl

theorem Travelled.client_step {initial : Int32} {s t : State}
    (h : Travelled s) (hinv : Inv initial s) {c : Nat} {a : Answer}
    (hwhole : readsWhole (.client c a) = true)
    (hstep : clientStep s c a = some t) : Travelled t := by
  have hlinked := hinv.linked c
  cases a with
  | ok =>
      cases hpc : (s.client c).pc with
      | connect =>
          simp only [clientStep, hpc, Option.ite_none_left_eq_some,
            Option.some.injEq] at hstep
          obtain ⟨_, rfl⟩ := hstep
          exact h.client_moves rfl rfl (fun _ _ => rfl) rfl rfl rfl
      | close =>
          simp only [clientStep, hpc, Option.some.injEq] at hstep
          exact hstep ▸ h.client_exits c .success
      | idle | write | read | exited status => simp [clientStep, hpc] at hstep
  | wrote n =>
      cases hpc : (s.client c).pc with
      | write =>
          simp only [clientStep, hpc, Option.ite_none_right_eq_some] at hstep
          obtain ⟨_, hstep⟩ := hstep
          have hnone : (s.up c).sent = [] :=
            hlinked.unsent (by rw [hpc]; trivial)
          -- Nothing had travelled up this connection yet.
          have hother : ∀ (x : Stream) (d : Nat), (s.up d).sent ≠ [] →
              (Function.update s.up c x d).sent = (s.up d).sent := by
            intro x d hd
            have hne : d ≠ c := by
              rintro rfl
              exact hd hnone
            rw [Function.update_of_ne hne]
          split at hstep
          · cases hstep
            refine h.client_moves rfl rfl ?_ rfl rfl rfl
            intro d hd
            simp only [State.clientExits, State.setClient, State.setUp,
              Function.update_idem]
            exact hother _ d hd
          · cases hstep
            exact h.client_moves rfl rfl (hother _) rfl rfl rfl
      | idle | connect | read | close | exited status =>
          simp [clientStep, hpc] at hstep
  | read n old =>
      cases hpc : (s.client c).pc with
      | read =>
          have hn : n = sizeofInt := of_decide_eq_true hwhole
          subst hn
          simp only [clientStep, hpc, Option.map_eq_some_iff,
            Prod.exists] at hstep
          obtain ⟨bs, x, hread, rfl⟩ := hstep
          obtain ⟨v, hstart⟩ := hlinked.down_start
          obtain ⟨hsent, hvalue⟩ : (s.down c).sent = bytesOfInt v ∧
              readInto bs old = v := readInto_whole hstart hread
          apply h.frame
          · exact fun _ _ => rfl
          · exact fun d _ => sent_update (sent_of_read hread) d
          · exact fun e he => Or.inl he
          · intro d u hu
            simp only [State.setClient, State.setDown] at hu
            by_cases hd : d = c
            · subst hd
              rw [Function.update_self, Option.some.injEq, hvalue] at hu
              exact Or.inr (hu ▸ hsent)
            · rw [Function.update_of_ne hd] at hu
              exact Or.inl hu
          · exact fun d u hu => Or.inl hu
      | idle | connect | write | close | exited status =>
          simp [clientStep, hpc] at hstep
  | err =>
      cases hpc : (s.client c).pc with
      | idle | exited status => simp [clientStep, hpc] at hstep
      | connect | write | read | close =>
          simp only [clientStep, hpc, Option.some.injEq] at hstep
          exact hstep ▸ h.client_exits c .failure

/-- The server moves on without a new value. -/
theorem Travelled.server_moves {s t : State} (h : Travelled s)
    (hclient : t.client = s.client) (hlog : t.log = s.log)
    (hserver : ∀ c v, t.server ≠ .write c v)
    (hup : t.up = s.up) (hdown : ∀ c, (t.down c).sent = (s.down c).sent) :
    Travelled t := by
  apply h.frame
  · intro c _
    rw [hup]
  · exact fun c _ => hdown c
  · exact fun e he => Or.inl (hlog ▸ he)
  · exact fun c v hv => Or.inl (hclient ▸ hv)
  · exact fun c v hv => absurd hv (hserver c v)

theorem Travelled.answer {initial : Int32} {s : State} (h : Travelled s)
    (hinv : Inv initial s) {c : Nat} {request : Int32}
    (hserver : s.server = .write c request) (n : Nat) :
    Travelled (answerRequest s c request n) := by
  have hnone : (s.down c).sent = [] := by
    apply (hinv.linked c).unanswered
    rw [State.waiting, hserver]
    exact List.mem_cons_self
  apply h.frame
  · exact fun _ _ => rfl
  · intro d hd
    have hne : d ≠ c := by
      rintro rfl
      exact hd hnone
    simp only [answerRequest, State.setDown, Function.update_of_ne hne]
  · intro e he
    simp only [answerRequest, List.mem_append, List.mem_singleton] at he
    rcases he with he | rfl
    · exact Or.inl he
    · exact Or.inr (h.inHand c request hserver)
  · exact fun d v hv => Or.inl hv
  · exact nofun

theorem Travelled.server_step {initial : Int32} {s t : State}
    (h : Travelled s) (hinv : Inv initial s) {a : Answer}
    (hwhole : readsWhole (.server a) = true)
    (hstep : serverStep s a = some t) : Travelled t := by
  cases hpc : s.server with
  | accept =>
      cases a with
      | ok =>
          cases hbacklog : s.backlog with
          | nil => simp [serverStep, hpc, hbacklog] at hstep
          | cons c rest =>
              simp only [serverStep, hpc, hbacklog, Option.some.injEq] at hstep
              subst hstep
              exact h.server_moves rfl rfl nofun rfl (fun _ => rfl)
      | err =>
          simp only [serverStep, hpc, Option.some.injEq] at hstep
          exact hstep ▸ h
      | read n old | wrote n => simp [serverStep, hpc] at hstep
  | read c =>
      cases a with
      | read n old =>
          have hn : n = sizeofInt := of_decide_eq_true hwhole
          subst hn
          simp only [serverStep, hpc, Option.map_eq_some_iff,
            Prod.exists] at hstep
          obtain ⟨bs, x, hread, rfl⟩ := hstep
          obtain ⟨hsent, hvalue⟩ :
              (s.up c).sent = bytesOfInt (s.client c).request ∧
                readInto bs old = (s.client c).request :=
            readInto_whole (hinv.linked c).up_start hread
          apply h.frame
          · exact fun d _ => sent_update (sent_of_read hread) d
          · exact fun _ _ => rfl
          · exact fun e he => Or.inl he
          · exact fun d v hv => Or.inl hv
          · intro d v hv
            simp only [ServerPc.write.injEq] at hv
            obtain ⟨rfl, rfl⟩ := hv
            rw [hvalue]
            exact Or.inr hsent
      | err =>
          simp only [serverStep, hpc, Option.some.injEq] at hstep
          subst hstep
          exact h.server_moves rfl rfl nofun rfl (fun _ => rfl)
      | ok | wrote n => simp [serverStep, hpc] at hstep
  | write c request =>
      cases a with
      | wrote n =>
          simp only [serverStep, hpc, Option.ite_none_right_eq_some,
            Option.some.injEq] at hstep
          exact hstep.2 ▸ h.answer hinv hpc n
      | err =>
          simp only [serverStep, hpc, Option.some.injEq] at hstep
          exact hstep ▸ h.answer hinv hpc 0
      | ok | read n old => simp [serverStep, hpc] at hstep
  | close c =>
      cases a with
      | ok =>
          simp only [serverStep, hpc, Option.some.injEq] at hstep
          subst hstep
          exact h.server_moves rfl rfl nofun rfl (sent_update (sent_close _))
      | err =>
          simp only [serverStep, hpc, Option.some.injEq] at hstep
          subst hstep
          exact h.server_moves rfl rfl nofun rfl (fun _ => rfl)
      | read n old | wrote n => simp [serverStep, hpc] at hstep
  | exited => cases a <;> simp [serverStep, hpc] at hstep

theorem Travelled.next {initial : Int32} {s t : State} {l : Label}
    (h : Travelled s) (hinv : Inv initial s) (hwhole : readsWhole l = true)
    (hstep : step s l = some t) : Travelled t := by
  cases l with
  | start c request =>
      simp only [step, startClient, ne_eq, ite_not,
        Option.ite_none_right_eq_some, Option.some.injEq] at hstep
      obtain ⟨_, rfl⟩ := hstep
      exact h.client_moves rfl rfl (fun _ _ => rfl) rfl rfl rfl
  | client c a => exact h.client_step hinv hwhole hstep
  | server a => exact h.server_step hinv hwhole hstep
  | killClient c =>
      cases hpc : (s.client c).pc <;>
        simp only [step, hpc, Option.some.injEq, reduceCtorEq] at hstep
      all_goals exact hstep ▸ h.client_exits c .failure
  | killServer =>
      simp only [step, Option.ite_none_left_eq_some, Option.some.injEq] at hstep
      obtain ⟨_, rfl⟩ := hstep
      exact h.server_moves rfl rfl nofun rfl (fun _ => rfl)

/-! ## Whole runs -/

theorem inv_of_reachable {initial : Int32} {s : State}
    (h : Reachable step (start initial) s) : Inv initial s :=
  h.invariant (fun _ _ _ hI hstep => hI.next hstep) (start_inv initial)

theorem filterMap_inc (log : List Reply) :
    log.filterMap Reply.inc = log.map Reply.request := by
  rw [← List.filterMap_eq_map]
  rfl

theorem start_travelled (initial : Int32) : Travelled (start initial) where
  added := nofun
  printed := nofun
  inHand := nofun

theorem travelled_of_whole {initial : Int32} {ls : List Label} {s : State}
    (hwhole : Along step (fun _ l => readsWhole l = true) (start initial) ls)
    (hrun : exec step (start initial) ls = some s) : Travelled s := by
  have hstep : ∀ s l t, Inv initial s ∧ Travelled s → readsWhole l = true →
      step s l = some t → Inv initial t ∧ Travelled t :=
    fun _ _ _ hI hC hstep => ⟨hI.1.next hstep, hI.2.next hI.1 hC hstep⟩
  exact (invariant_along hstep
    ⟨start_inv initial, start_travelled initial⟩ hwhole hrun).2

/-- **Stream integrity.**  In every run in which each `read` that does not
fail returns all four bytes, whoever closes or is killed when: the counter is
the sum of the values in the log, each of which the client of that connection
sent in full, and a client has printed only what the server sent on its
connection. -/
theorem intact_of_whole_reads (initial : Int32) (ls : List Label) (s : State)
    (hwhole : Along step (fun _ l => readsWhole l = true) (start initial) ls)
    (hrun : exec step (start initial) ls = some s) :
    s.seqNum = counter initial (s.log.map Reply.request) ∧ Intact s := by
  have hcounted := (inv_of_reachable ⟨ls, hrun⟩).counted
  rw [filterMap_inc] at hcounted
  exact ⟨hcounted, (travelled_of_whole hwhole hrun).toIntact⟩

/-- Client 1 asks for 5 numbers and gets 100. -/
def fiveNumbers : List Label :=
  [.start 1 5, .client 1 .ok, .server .ok, .client 1 (.wrote 4),
    .server (.read 4 9), .server (.wrote 4), .client 1 (.read 4 9),
    .server .ok, .client 1 .ok]

theorem intact_five_numbers :
    ∃ s, exec step (start 100) fiveNumbers = some s ∧ s.seqNum = 105 ∧
      (s.client 1).printed = some 100 ∧ Intact s := by
  obtain ⟨s, hs, hseqNum, hprinted⟩ := exists_exec step
    (fun s => s.seqNum = 105 ∧ (s.client 1).printed = some 100)
    (start 100) fiveNumbers (by decide)
  exact ⟨s, hs, hseqNum, hprinted,
    (intact_of_whole_reads 100 fiveNumbers s (by decide) hs).2⟩

/-- Client 1 connects and is killed; the server's `read` returns 0 and its
variable still holds 77.  Then the server's `read` for client 2 fails, and so
client 2's `read` returns 0. -/
def nothingSent : List Label :=
  [.start 1 5, .client 1 .ok, .killClient 1, .server .ok, .server (.read 0 77),
    .server .err, .server .ok, .start 2 5, .client 2 .ok, .client 2 (.wrote 4),
    .server .ok, .server .err, .server .ok, .client 2 (.read 0 55)]

/-- 77 was added and 55 printed, and nobody sent either. -/
theorem values_nobody_sent :
    ∃ s, exec step (start 0) nothingSent = some s ∧ s.seqNum = 77 ∧
      (s.up 1).sent = [] ∧ (s.client 2).printed = some 55 ∧
      (s.down 2).sent = [] ∧ ¬ Intact s := by
  obtain ⟨s, hs, hseqNum, hup, hprinted, hdown⟩ := exists_exec step
    (fun s => s.seqNum = 77 ∧ (s.up 1).sent = [] ∧
      (s.client 2).printed = some 55 ∧ (s.down 2).sent = [])
    (start 0) nothingSent (by decide)
  refine ⟨s, hs, hseqNum, hup, hprinted, hdown, ?_⟩
  intro h
  have hsent := h.printed 2 55 hprinted
  rw [hdown] at hsent
  exact absurd hsent (by decide)

end Lpi.Ports.IsSeqnum
