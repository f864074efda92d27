import Lpi.Ports.UdCase
import Lpi.Verified.Run

/-!
# Every client gets its own answers

Everything that is on its way for a client, be it a message in the server's
queue, the contents of the server's buffer, or a datagram in the client's
queue, stands for one response (`State.transit`).  A client that has sent a
message has exactly that one on its way, and otherwise none; nobody else's
steps change it.  So what it receives is the answer to what it sent last.
-/

namespace Lpi.Ports.UdCase

open Lpi.Ports.Ucase
open Lpi.Verified.CData
open Lpi.Verified.CString
open Lpi.Verified.Pieces
open Lpi.Verified.Run

theorem clientAddr_injective : Function.Injective clientAddr :=
  snprintf_pid_injective (by decide)

/-! ## What is on its way -/

/-- The response the server is working on, if it is for `addr`. -/
def State.inHand (s : State) (addr : List UInt8) : List (List UInt8) :=
  match s.server with
  | .upcase a n => if a = addr then [(upcase s.buffer n).bytes.take n] else []
  | .send a n => if a = addr then [s.buffer.bytes.take n] else []
  | .recv | .exited => []

/-- The responses that are in the server's queue as messages. -/
def State.requested (s : State) (addr : List UInt8) : List (List UInt8) :=
  (s.serverQueue.filter (·.sender = addr)).map fun d => response d.data

/-- The responses on their way to `addr`, in the order in which they will
arrive. -/
def State.transit (s : State) (addr : List UInt8) : List (List UInt8) :=
  (s.socket addr).getD [] ++ (s.inHand addr ++ s.requested addr)

/-- A client, its socket, and what is on its way to it. -/
def Paired (k : Client) (socket : Option (List (List UInt8)))
    (transit : List (List UInt8)) : Prop :=
  match k.pc with
  | .idle | .bind => socket = none ∧ transit = [] ∧ k.printed = []
  | .send i => socket.isSome = true ∧ transit = [] ∧ 1 ≤ i ∧
      i ≤ k.msgs.length ∧ k.printed = (responses k.msgs).take (i - 1)
  | .recv i => socket.isSome = true ∧ 1 ≤ i ∧
      k.printed = (responses k.msgs).take (i - 1) ∧
      ∃ m, k.msgs[i - 1]? = some m ∧
        (transit = [response m.bytes] ∨ transit = [])
  | .remove | .close => socket = some [] ∧ transit = [] ∧
      k.printed = responses k.msgs
  | .exited _ => socket = none ∧ k.printed <+: responses k.msgs

def Inv (s : State) : Prop :=
  ∀ pid, Paired (s.client pid) (s.socket (clientAddr pid))
    (s.transit (clientAddr pid))

theorem start_inv (buffer : Buffer bufferSize) : Inv (start buffer) :=
  fun _ => ⟨rfl, rfl, rfl⟩

theorem Paired.printed_start {k : Client} {socket : Option (List (List UInt8))}
    {transit : List (List UInt8)} (h : Paired k socket transit) :
    k.printed <+: responses k.msgs := by
  unfold Paired at h
  cases hpc : k.pc with
  | idle | bind =>
      rw [hpc] at h
      rw [h.2.2]
      exact List.nil_prefix
  | send i =>
      rw [hpc] at h
      rw [h.2.2.2.2]
      exact List.take_prefix _ _
  | recv i =>
      rw [hpc] at h
      rw [h.2.2.1]
      exact List.take_prefix _ _
  | remove | close =>
      rw [hpc] at h
      rw [h.2.2]
  | exited status =>
      rw [hpc] at h
      exact h.2

/-! ## Steps of a client -/

/-- A step of client `pid` that touches only its own socket. -/
theorem Inv.update_client {s : State} (h : Inv s) {pid : Int32} {k : Client}
    {q : Option (List (List UInt8))}
    (hpaired : Paired k q (q.getD [] ++ (s.inHand (clientAddr pid) ++
      s.requested (clientAddr pid)))) :
    Inv ((s.setSocket (clientAddr pid) q).setClient pid k) := by
  intro p
  by_cases hp : p = pid
  · subst hp
    simpa [State.setSocket, State.setClient, State.transit, State.inHand,
      State.requested] using hpaired
  · have hname : clientAddr p ≠ clientAddr pid := clientAddr_injective.ne hp
    have hother := h p
    simpa [State.setSocket, State.setClient, State.transit, State.inHand,
      State.requested, Function.update_of_ne hp,
      Function.update_of_ne hname] using hother

theorem Inv.set_client {s : State} (h : Inv s) {pid : Int32} {k : Client}
    (hpaired : Paired k (s.socket (clientAddr pid))
      (s.transit (clientAddr pid))) : Inv (s.setClient pid k) := by
  have hupdate := h.update_client hpaired
  rwa [show s.setSocket (clientAddr pid) (s.socket (clientAddr pid)) = s by
    simp [State.setSocket]] at hupdate

theorem Inv.client_exits {s : State} (h : Inv s) (pid : Int32)
    (status : Exit) : Inv (s.clientExits pid status) := by
  apply h.update_client
  exact ⟨rfl, (h pid).printed_start⟩

theorem Inv.start_client {s t : State} (h : Inv s) {pid : Int32}
    {msgs : List CStr} {buffer : Buffer bufferSize}
    (hstep : startClient s pid msgs buffer = some t) : Inv t := by
  have hpaired := h pid
  simp only [startClient, Option.ite_none_left_eq_some, ne_eq,
    not_not] at hstep
  obtain ⟨hidle, hstep⟩ := hstep
  rw [Paired, hidle] at hpaired
  split at hstep <;> cases hstep
  · exact h.set_client ⟨hpaired.1, List.nil_prefix⟩
  · exact h.set_client ⟨hpaired.1, hpaired.2.1, rfl⟩

/-- The next round of the loop, with nothing on its way. -/
theorem paired_round {k : Client} {i : Nat}
    (hprinted : k.printed = (responses k.msgs).take i)
    (hpc : k.pc = round k.msgs (i + 1)) :
    Paired k (some []) [] := by
  unfold round at hpc
  unfold Paired
  split at hpc
  · rename_i hle
    rw [hpc]
    exact ⟨rfl, rfl, Nat.succ_pos i, hle, hprinted⟩
  · rename_i hgt
    rw [hpc]
    refine ⟨rfl, rfl, ?_⟩
    rw [hprinted]
    apply List.take_of_length_le
    rw [length_responses]
    omega

theorem requested_append {s t : State} {d : Datagram}
    (hqueue : t.serverQueue = s.serverQueue ++ [d]) (addr : List UInt8) :
    t.requested addr = s.requested addr ++
      if d.sender = addr then [response d.data] else [] := by
  unfold State.requested
  rw [hqueue, List.filter_append, List.map_append]
  congr 1
  by_cases haddr : d.sender = addr <;> simp [haddr]

/-- A client sends a message: it is the only thing on its way to it. -/
theorem Inv.send {s t : State} (h : Inv s) {pid : Int32} {i : Nat} {m : CStr}
    (hpc : (s.client pid).pc = .send i)
    (hm : (s.client pid).msgs[i - 1]? = some m)
    (hclient : t.client =
      Function.update s.client pid { s.client pid with pc := .recv i })
    (hsocket : t.socket = s.socket) (hhand : t.inHand = s.inHand)
    (hqueue : t.serverQueue = s.serverQueue ++ [⟨clientAddr pid, m.bytes⟩]) :
    Inv t := by
  have htransit : ∀ addr, t.transit addr = s.transit addr ++
      if clientAddr pid = addr then [response m.bytes] else [] := by
    intro addr
    unfold State.transit
    rw [hsocket, hhand, requested_append hqueue, List.append_assoc,
      List.append_assoc]
  intro p
  rw [hclient, hsocket, htransit]
  by_cases hp : p = pid
  · subst hp
    have hpaired := h p
    rw [Paired, hpc] at hpaired
    obtain ⟨hbound, hnothing, hpos, _, hprinted⟩ := hpaired
    rw [Function.update_self, if_pos rfl, hnothing]
    exact ⟨hbound, hpos, hprinted, m, hm, Or.inl rfl⟩
  · have hname : clientAddr pid ≠ clientAddr p :=
      (clientAddr_injective.ne hp).symm
    rw [Function.update_of_ne hp, if_neg hname, List.append_nil]
    exact h p

/-- The datagram that a waiting client takes is the answer to its message. -/
theorem Inv.recv {s : State} (h : Inv s) {pid : Int32} {i : Nat}
    {d : List UInt8} {rest : List (List UInt8)}
    (hpc : (s.client pid).pc = .recv i)
    (hsocket : s.socket (clientAddr pid) = some (d :: rest)) :
    Inv ((s.setSocket (clientAddr pid) (some rest)).setClient pid
      { s.client pid with
        pc := round (s.client pid).msgs (i + 1)
        buffer := (s.client pid).buffer.fill d
        printed := (s.client pid).printed ++
          [(i, text ((s.client pid).buffer.fill d) (numBytes d))] }) := by
  have hpaired := h pid
  rw [Paired, hpc] at hpaired
  obtain ⟨_, hpos, hprinted, m, hm, htransit⟩ := hpaired
  rw [State.transit, hsocket, Option.getD_some, List.cons_append] at htransit
  rcases htransit with htransit | hnothing
  · obtain ⟨hd, hnil⟩ := List.cons.inj htransit
    have hrest : rest = [] := (List.append_eq_nil_iff.1 hnil).1
    have htext : text ((s.client pid).buffer.fill d) (numBytes d) =
        response m.bytes := by
      rw [hd, text_fill _ (zero_notMem_response m.nulFree), take_response]
    apply h.update_client
    rw [htext, hrest, Option.getD_some, List.nil_append,
      (List.append_eq_nil_iff.1 hnil).2]
    refine paired_round ?_ rfl
    have hnext := take_responses_succ hm
    rw [Nat.sub_add_cancel hpos] at hnext
    show (s.client pid).printed ++ [(i, response m.bytes)] = _
    rw [hprinted, hnext]
  · cases hnothing

theorem clientStep_err {s t : State} {pid : Int32}
    (hstep : clientStep s pid .err = some t) : t = s.clientExits pid .failure := by
  cases hpc : (s.client pid).pc with
  | idle | exited _ => simp [clientStep, hpc] at hstep
  | bind | send _ | recv _ | remove | close =>
      simp only [clientStep, hpc, Option.some.injEq] at hstep
      exact hstep.symm

/-- A step of a client, by its place in the program. -/
theorem Inv.client_step {s t : State} (h : Inv s) {pid : Int32} {a : Answer}
    (hstep : clientStep s pid a = some t) : Inv t := by
  have hpaired := h pid
  unfold Paired at hpaired
  cases a with
  | err =>
      rw [clientStep_err hstep]
      exact h.client_exits pid .failure
  | ok =>
      cases hpc : (s.client pid).pc with
      | idle | exited _ => simp [clientStep, hpc] at hstep
      | bind =>
          rw [hpc] at hpaired
          simp only [clientStep, hpc, hpaired.1, Option.isSome_none,
            Bool.false_eq_true, if_false, Option.some.injEq] at hstep
          subst hstep
          have hnothing := hpaired.2.1
          rw [State.transit, hpaired.1, Option.getD_none,
            List.nil_append] at hnothing
          apply h.update_client
          rw [Option.getD_some, List.nil_append, hnothing]
          refine paired_round (i := 0) ?_ rfl
          exact hpaired.2.2
      | send i =>
          simp only [clientStep, hpc, Option.ite_none_left_eq_some,
            Option.map_eq_some_iff] at hstep
          obtain ⟨_, m, hm, hstep⟩ := hstep
          subst hstep
          exact h.send hpc hm rfl rfl rfl rfl
      | recv i =>
          simp only [clientStep, hpc] at hstep
          split at hstep
          · rename_i d rest hsocket
            cases hstep
            exact h.recv hpc hsocket
          · cases hstep
      | remove =>
          rw [hpc] at hpaired
          simp only [clientStep, hpc, Option.some.injEq] at hstep
          subst hstep
          exact h.set_client hpaired
      | close =>
          simp only [clientStep, hpc, Option.some.injEq] at hstep
          subst hstep
          exact h.client_exits pid .success

/-! ## Steps of the server -/

/-- Some of what was on its way may get lost; the client then waits. -/
theorem Paired.sublist {k : Client} {q q' : Option (List (List UInt8))}
    {transit transit' : List (List UInt8)} (h : Paired k q transit)
    (hbound : q'.isSome = q.isSome) (hqueue : (q'.getD []).Sublist transit')
    (hsub : transit'.Sublist transit) : Paired k q' transit' := by
  have hunbound : q = none → q' = none := by
    rintro rfl
    exact Option.not_isSome_iff_eq_none.1 (by rw [hbound]; simp)
  unfold Paired at h ⊢
  cases hpc : k.pc with
  | idle | bind =>
      rw [hpc] at h
      obtain ⟨hnone, hempty, hprinted⟩ := h
      rw [hempty] at hsub
      exact ⟨hunbound hnone, List.sublist_nil.1 hsub, hprinted⟩
  | send i =>
      rw [hpc] at h
      obtain ⟨hsome, hempty, hround⟩ := h
      rw [hempty] at hsub
      exact ⟨hbound.trans hsome, List.sublist_nil.1 hsub, hround⟩
  | recv i =>
      rw [hpc] at h
      obtain ⟨hsome, hpos, hprinted, m, hm, hone⟩ := h
      refine ⟨hbound.trans hsome, hpos, hprinted, m, hm, ?_⟩
      rcases hone with hone | hempty
      · rw [hone] at hsub
        exact (List.sublist_singleton.1 hsub).symm
      · rw [hempty] at hsub
        exact Or.inr (List.sublist_nil.1 hsub)
  | remove | close =>
      rw [hpc] at h
      obtain ⟨hsome, hempty, hprinted⟩ := h
      rw [hempty] at hsub
      have hnothing := List.sublist_nil.1 hsub
      rw [hnothing, List.sublist_nil] at hqueue
      rw [hsome, Option.isSome_some] at hbound
      obtain ⟨l, hl⟩ := Option.isSome_iff_exists.1 hbound
      rw [hl, Option.getD_some] at hqueue
      exact ⟨hl.trans (congrArg some hqueue), hnothing, hprinted⟩
  | exited status =>
      rw [hpc] at h
      exact ⟨hunbound h.1, h.2⟩

/-- A step of the server moves what is on its way, or loses it. -/
theorem Inv.server_moves {s t : State} (h : Inv s)
    (hclient : t.client = s.client)
    (hbound : ∀ addr, (t.socket addr).isSome = (s.socket addr).isSome)
    (htransit : ∀ addr, (t.transit addr).Sublist (s.transit addr)) : Inv t := by
  intro pid
  rw [hclient]
  exact (h pid).sublist (hbound _) (List.sublist_append_left _ _)
    (htransit _)

/-- The message at the head of the queue is now in the buffer. -/
theorem transit_recv {s : State} {d : Datagram} {rest : List Datagram}
    (hserver : s.server = .recv) (hqueue : s.serverQueue = d :: rest)
    (addr : List UInt8) :
    State.transit { s with serverQueue := rest
                           buffer := s.buffer.fill d.data
                           server := .upcase d.sender (numBytes d.data) } addr =
      s.transit addr := by
  by_cases haddr : d.sender = addr
  · simp [State.transit, State.inHand, State.requested, hserver, hqueue, haddr,
      take_upcase_fill]
  · simp [State.transit, State.inHand, State.requested, hserver, hqueue, haddr]

theorem transit_upcase {s : State} {a : List UInt8} {n : Nat}
    (hserver : s.server = .upcase a n) (addr : List UInt8) :
    State.transit { s with buffer := upcase s.buffer n
                           server := .send a n } addr = s.transit addr := by
  simp [State.transit, State.inHand, State.requested, hserver]

/-- The answer leaves the buffer for the end of the client's queue. -/
theorem transit_send {s : State} {a : List UInt8} {n : Nat}
    {q : List (List UInt8)} (hserver : s.server = .send a n)
    (hq : s.socket a = some q) (addr : List UInt8) :
    State.transit { s.setSocket a (some (q ++ [s.buffer.bytes.take n])) with
      server := .recv } addr = s.transit addr := by
  by_cases haddr : addr = a
  · subst haddr
    simp [State.transit, State.inHand, State.requested, State.setSocket,
      hserver, hq]
  · have hne : ¬ a = addr := fun h => haddr h.symm
    simp [State.transit, State.inHand, State.requested, State.setSocket,
      hserver, hne, Function.update_of_ne haddr]

/-- A server that ends takes what it has in hand with it. -/
theorem transit_exited (s : State) (addr : List UInt8) :
    (State.transit { s with server := .exited } addr).Sublist
      (s.transit addr) := by
  apply List.Sublist.append_left
  exact List.sublist_append_right _ _

theorem Inv.server_step {s t : State} (h : Inv s) {a : Answer}
    (hstep : serverStep s a = some t) : Inv t := by
  cases hserver : s.server with
  | recv =>
      cases a with
      | ok =>
          cases hqueue : s.serverQueue with
          | nil => simp [serverStep, hserver, hqueue] at hstep
          | cons d rest =>
              simp only [serverStep, hserver, hqueue, Option.some.injEq] at hstep
              subst hstep
              refine h.server_moves rfl (fun _ => rfl) ?_
              intro addr
              rw [transit_recv hserver hqueue]
      | err =>
          simp only [serverStep, hserver, Option.some.injEq] at hstep
          subst hstep
          exact h.server_moves rfl (fun _ => rfl) (transit_exited s)
  | upcase addr n =>
      cases a with
      | ok =>
          simp only [serverStep, hserver, Option.some.injEq] at hstep
          subst hstep
          refine h.server_moves rfl (fun _ => rfl) ?_
          intro other
          rw [transit_upcase hserver]
      | err => simp [serverStep, hserver] at hstep
  | send addr n =>
      cases a with
      | ok =>
          simp only [serverStep, hserver, Option.map_eq_some_iff] at hstep
          obtain ⟨q, hq, hstep⟩ := hstep
          subst hstep
          refine h.server_moves rfl ?_ ?_
          · intro other
            by_cases hother : other = addr
            · subst hother
              simp [State.setSocket, hq]
            · simp [State.setSocket, Function.update_of_ne hother]
          · intro other
            rw [transit_send hserver hq]
      | err =>
          simp only [serverStep, hserver, Option.some.injEq] at hstep
          subst hstep
          exact h.server_moves rfl (fun _ => rfl) (transit_exited s)
  | exited =>
      cases a <;> simp [serverStep, hserver] at hstep

theorem Inv.next {s t : State} {l : Label} (h : Inv s)
    (hstep : step s l = some t) : Inv t := by
  cases l with
  | start pid msgs buffer => exact h.start_client hstep
  | client pid a => exact h.client_step hstep
  | server a => exact h.server_step hstep

/-! ## What a client prints -/

/-- Nothing is left in the queue of a client that has all its answers. -/
theorem Paired.queue_empty {k : Client} {q : List (List UInt8)}
    {transit : List (List UInt8)} (h : Paired k (some q) transit)
    (hall : k.printed.length = k.msgs.length) : q = [] := by
  unfold Paired at h
  cases hpc : k.pc with
  | idle | bind =>
      rw [hpc] at h
      cases h.1
  | exited _ =>
      rw [hpc] at h
      cases h.1
  | send i =>
      rw [hpc] at h
      obtain ⟨_, _, hpos, hle, hprinted⟩ := h
      rw [hprinted, List.length_take, length_responses] at hall
      omega
  | recv i =>
      rw [hpc] at h
      obtain ⟨_, hpos, hprinted, m, hm, _⟩ := h
      have hlt := (List.getElem?_eq_some_iff.1 hm).1
      rw [hprinted, List.length_take, length_responses] at hall
      omega
  | remove | close =>
      rw [hpc] at h
      exact Option.some.inj h.1

/-- **Responses belong to their messages.**  In every run of any number of
clients and the server, what a client has printed are the answers to its own
messages, from the first one on and with their numbers: the first
`BUFFER_SIZE` bytes of the message in upper case.  Once it has printed the
last one, nothing is left in the queue of its socket. -/
theorem responses_paired (buffer : Buffer bufferSize) (ls : List Label)
    (s : State) (hrun : exec step (start buffer) ls = some s) (pid : Int32) :
    ((s.client pid).printed <+: (s.client pid).msgs.mapIdx fun i m =>
      (i + 1, (m.bytes.take bufferSize).map toupper)) ∧
    ((s.client pid).printed.length = (s.client pid).msgs.length →
      ∀ q, s.socket (clientAddr pid) = some q → q = []) := by
  have h : Inv s := Reachable.invariant
    (fun _ _ _ h hstep => Inv.next h hstep) (start_inv buffer) ⟨ls, hrun⟩
  have hpaired := h pid
  refine ⟨hpaired.printed_start, ?_⟩
  intro hall q hq
  rw [hq] at hpaired
  exact hpaired.queue_empty hall

/-- Two clients at once: client 7 sends "abcdefghijkl" and an empty message,
client 8 sends "q". -/
def twoClients : List Label :=
  [.start 7 [⟨ascii "abcdefghijkl", by decide⟩, CStr.empty] zeroBuffer,
    .start 8 [⟨ascii "q", by decide⟩] zeroBuffer, .client 7 .ok, .client 8 .ok,
    .client 8 .ok, .client 7 .ok, .server .ok, .server .ok, .server .ok,
    .server .ok, .server .ok, .server .ok, .client 7 .ok, .client 7 .ok,
    .server .ok, .client 8 .ok, .server .ok, .server .ok, .client 7 .ok]

theorem responses_paired_two_clients :
    ∃ s, exec step (start zeroBuffer) twoClients = some s ∧
      (s.client 7).printed = [(1, ascii "ABCDEFGHIJ"), (2, [])] ∧
      (s.client 8).printed = [(1, ascii "Q")] ∧
      s.socket (clientAddr 7) = some [] := by
  obtain ⟨s, hs, hseven, height, hall, hbound⟩ := exists_exec step
    (fun s => (s.client 7).printed = [(1, ascii "ABCDEFGHIJ"), (2, [])] ∧
      (s.client 8).printed = [(1, ascii "Q")] ∧
      (s.client 7).printed.length = (s.client 7).msgs.length ∧
      (s.socket (clientAddr 7)).isSome = true)
    (start zeroBuffer) twoClients (by decide)
  obtain ⟨q, hq⟩ := Option.isSome_iff_exists.1 hbound
  have hempty := (responses_paired zeroBuffer twoClients s hs 7).2 hall q hq
  exact ⟨s, hs, hseven, height, by rw [hq, hempty]⟩

end Lpi.Ports.UdCase
