import Lpi.Verified.CData
import Lpi.Verified.CString
import Lpi.Verified.Descriptors
import Lpi.Verified.TryEach

/-!
# The addresses of a server (`sockets/is_seqnum_*.c`)

`getaddrinfo` gives a list of addresses.  The server takes the first that it can
bind a socket to, and the client the first that it can connect one to.  Behind the
loop the variable for the descriptor may hold anything, also -1 or the number of a
socket that is closed; only the pointer into the list tells whether it is good.

A turn that fails closes its socket and leaves the descriptors as they were, and
this is the invariant of the loops.  So just one of their sockets is open when the
variable is used (`chooses_first_good_address`).
-/

namespace Lpi.Ports.AddressLoops

open Lpi.Verified.CData
open Lpi.Verified.CString
open Lpi.Verified.Descriptors
open Lpi.Verified.TryEach

/-! ## State -/

/-- An address, as the errors of the calls that are made for it; there is none
for a call that succeeds.  `attach` is `bind` or `connect`. -/
structure Addrinfo where
  socket : Option (List UInt8)
  setsockopt : Option (List UInt8)
  attach : Option (List UInt8)
  close : Option (List UInt8)

/-- What a descriptor is for: the socket that was made when the loop was at
`addrp`, or what was open before. -/
inductive File (α : Type) where
  | inherited (a : α)
  | socket (addrp : List Addrinfo)

/-- `used` is the descriptor of the first call behind the loop, when it has been
made. -/
structure State (α : Type) where
  socketFd : Int
  fds : Table (File α)
  stderr : List UInt8
  used : Option Int
  status : Option Exit

variable {α : Type}

/-- Before the loop; the variable has no value of the program yet. -/
def start (inherited : Table α) (garbage : Int) : State α where
  socketFd := garbage
  fds := inherited.map .inherited
  stderr := []
  used := none
  status := none

def State.print (s : State α) (message : List UInt8) : State α :=
  { s with stderr := s.stderr ++ message }

/-- A message, and `exit(EXIT_FAILURE)`. -/
def State.fail (s : State α) (message : List UInt8) : State α :=
  { s.print message with status := some .failure }

/-- `socketFd = socket(...)` -/
def State.socket (s : State α) (addrp : List Addrinfo) : Option (List UInt8) → State α
  | none =>
      let opened := s.fds.alloc (.socket addrp)
      { s with socketFd := opened.1, fds := opened.2 }
  | some _ => { s with socketFd := -1 }

/-- `close(socketFd)`, or its error. -/
def State.close (s : State α) : Option (List UInt8) → Except (List UInt8) (State α)
  | none =>
      if s.socketFd < 0 then .error (ascii "Bad file descriptor")
      else
        match s.fds.close s.socketFd.toNat with
        | none => .error (ascii "Bad file descriptor")
        | some fds => .ok { s with fds := fds }
  | some e => .error e

/-! ## The programs -/

/-- What follows a loop: the check of its pointer, and the first call. -/
def afterLoop (message : List UInt8) : Except (State α) (List Addrinfo × State α) → State α
  | .error s => s
  | .ok ([], s) => s.fail message
  | .ok (_ :: _, s) => { s with used := some s.socketFd }

def SERVER_PORT : List UInt8 := ascii "50000"

namespace IsSeqnumSv

def turn (addrp : Addrinfo) (ai_next : List Addrinfo) (s : State α) : Turn (State α) :=
  let s := s.socket (addrp :: ai_next) addrp.socket
  match addrp.socket with
  | some _ => .next s
  | none =>
      match addrp.setsockopt with
      | some e => .exit (s.fail (ascii "Failed to setsockopt() - " ++ e ++ ascii "\n"))
      | none =>
          match addrp.attach with
          | none => .found s
          | some _ =>
              match s.close addrp.close with
              | .ok s => .next s
              | .error e =>
                  .exit (s.fail (ascii "Failed to close() server listening socket - " ++ e ++
                    ascii "\n"))

def main (serverAddrs : List Addrinfo) (s : State α) : State α :=
  afterLoop (ascii "Failed to bind socket to any address\n") (tryEach turn serverAddrs s)

end IsSeqnumSv

namespace IsSeqnumCl

def turn (addrp : Addrinfo) (ai_next : List Addrinfo) (s : State α) : Turn (State α) :=
  let s := s.socket (addrp :: ai_next) addrp.socket
  match addrp.socket with
  | some e => .next (s.print (ascii "Failed to create socket() - " ++ e ++ ascii "\n"))
  | none =>
      match addrp.attach with
      | none => .found s
      | some e =>
          let s := s.print (ascii "Failed to connect() - " ++ e ++ ascii "\n")
          match s.close addrp.close with
          | .ok s => .next s
          | .error e =>
              .exit (s.fail (ascii "Failed to close() socket - " ++ e ++ ascii "\n"))

def main (hostname : List UInt8) (serverAddrs : List Addrinfo) (s : State α) : State α :=
  afterLoop (ascii "Failed to locate addr (" ++ hostname ++ ascii ", " ++ SERVER_PORT ++
    ascii ")\n") (tryEach turn serverAddrs s)

end IsSeqnumCl

/-! ## Turns -/

/-- Both calls for the address succeed. -/
def Addrinfo.Good (addr : Addrinfo) : Prop := addr.socket = none ∧ addr.attach = none

instance (addr : Addrinfo) : Decidable addr.Good := inferInstanceAs (Decidable (_ ∧ _))

/-- The invariant of the loops: no descriptor is open that was not before. -/
structure Inv (before : Table (File α)) (s : State α) : Prop where
  fds : s.fds = before
  used : s.used = none
  status : s.status = none

/-- After `break`: the socket for the address is open, and the variable has its
number. -/
structure Found (before : Table (File α)) (addrp : List Addrinfo) (s : State α) : Prop where
  fds : s.fds = (before.alloc (.socket addrp)).2
  socketFd : s.socketFd = (before.alloc (.socket addrp)).1
  used : s.used = none
  status : s.status = none

variable {before : Table (File α)} {addrp : List Addrinfo} {s : State α}

private theorem Inv.print (hs : Inv before s) (message : List UInt8) :
    Inv before (s.print message) := ⟨hs.fds, hs.used, hs.status⟩

private theorem Found.print (hs : Found before addrp s) (message : List UInt8) :
    Found before addrp (s.print message) := ⟨hs.fds, hs.socketFd, hs.used, hs.status⟩

private theorem Inv.socket_error (hs : Inv before s) (addrp : List Addrinfo) (e : List UInt8) :
    Inv before (s.socket addrp (some e)) := ⟨hs.fds, hs.used, hs.status⟩

private theorem Inv.socket (hs : Inv before s) (addrp : List Addrinfo) :
    Found before addrp (s.socket addrp none) := by
  refine ⟨?_, ?_, hs.used, hs.status⟩
  · rw [← hs.fds]
    rfl
  · rw [← hs.fds]
    rfl

private theorem Found.close (hs : Found before addrp s) :
    ∃ s', s.close none = .ok s' ∧ Inv before s' := by
  have hclose : s.fds.close s.socketFd.toNat = some before := by
    rw [hs.fds, hs.socketFd]
    exact Table.close_alloc before (.socket addrp)
  have hnonneg : ¬ s.socketFd < 0 := by
    rw [hs.socketFd]
    omega
  refine ⟨{ s with fds := before }, ?_, rfl, hs.used, hs.status⟩
  rw [State.close, if_neg hnonneg, hclose]

/-- What the turn for an address does: it leaves nothing behind, or has found what
the loop is for. -/
structure Tries (turn : Addrinfo → List Addrinfo → State α → Turn (State α))
    (addr : Addrinfo) : Prop where
  next : ¬ addr.Good → ∀ before rest s, Inv before s →
    ∃ s', turn addr rest s = .next s' ∧ Inv before s'
  found : addr.Good → ∀ before rest s, Inv before s →
    ∃ s', turn addr rest s = .found s' ∧ Found before (addr :: rest) s'

private theorem tries_server {addr : Addrinfo} (hopt : addr.setsockopt = none)
    (hclose : addr.close = none) : Tries (α := α) IsSeqnumSv.turn addr := by
  constructor
  · intro hbad before rest s hs
    cases hsocket : addr.socket with
    | some e =>
        refine ⟨_, ?_, hs.socket_error (addr :: rest) e⟩
        simp only [IsSeqnumSv.turn, hsocket]
    | none =>
        cases hattach : addr.attach with
        | none => exact absurd ⟨hsocket, hattach⟩ hbad
        | some e =>
            have hclosed := (hs.socket (addr :: rest)).close
            rcases hclosed with ⟨s', hclosed, hs'⟩
            refine ⟨s', ?_, hs'⟩
            simp only [IsSeqnumSv.turn, hsocket, hopt, hattach, hclose, hclosed]
  · intro hgood before rest s hs
    refine ⟨_, ?_, hs.socket (addr :: rest)⟩
    simp only [IsSeqnumSv.turn, hgood.1, hopt, hgood.2]

private theorem tries_client {addr : Addrinfo} (hclose : addr.close = none) :
    Tries (α := α) IsSeqnumCl.turn addr := by
  constructor
  · intro hbad before rest s hs
    cases hsocket : addr.socket with
    | some e =>
        refine ⟨_, ?_, (hs.socket_error (addr :: rest) e).print
          (ascii "Failed to create socket() - " ++ e ++ ascii "\n")⟩
        simp only [IsSeqnumCl.turn, hsocket]
    | none =>
        cases hattach : addr.attach with
        | none => exact absurd ⟨hsocket, hattach⟩ hbad
        | some e =>
            have hclosed := ((hs.socket (addr :: rest)).print
              (ascii "Failed to connect() - " ++ e ++ ascii "\n")).close
            rcases hclosed with ⟨s', hclosed, hs'⟩
            refine ⟨s', ?_, hs'⟩
            simp only [IsSeqnumCl.turn, hsocket, hattach, hclose, hclosed]
  · intro hgood before rest s hs
    refine ⟨_, ?_, hs.socket (addr :: rest)⟩
    simp only [IsSeqnumCl.turn, hgood.1, hgood.2]

/-! ## The loops -/

/-- What becomes of the addresses: the program uses the socket for the first good
one, and it has no other; without a good one it exits. -/
structure Chooses (inherited : Table α) (serverAddrs : List Addrinfo) (s : State α) : Prop where
  past : s.used ≠ none ↔ ∃ addr ∈ serverAddrs, addr.Good
  first : ∀ pre addr post, serverAddrs = pre ++ addr :: post → (∀ a ∈ pre, ¬ a.Good) →
    addr.Good → ∃ fd : Nat, s.used = some (fd : Int) ∧ s.status = none ∧
      (fd, s.fds) = (inherited.map .inherited).alloc (.socket (addr :: post)) ∧
      ∀ fd' addrp, s.fds.get fd' = some (.socket addrp) ↔ fd' = fd ∧ addrp = addr :: post
  failed : (∀ addr ∈ serverAddrs, ¬ addr.Good) →
    s.status = some .failure ∧ s.used = none ∧ s.fds = inherited.map .inherited

private theorem get_eq_socket {inherited : Table α} {first : List Addrinfo}
    (hs : Found (inherited.map .inherited) first s) (fd : Nat) (addrp : List Addrinfo) :
    s.fds.get fd = some (.socket addrp) ↔ (fd : Int) = s.socketFd ∧ addrp = first := by
  rw [hs.fds, hs.socketFd, Table.get_alloc_eq_some]
  simp

private theorem exists_first {serverAddrs : List Addrinfo}
    (h : ∃ addr ∈ serverAddrs, addr.Good) :
    ∃ pre addr post, serverAddrs = pre ++ addr :: post ∧ (∀ a ∈ pre, ¬ a.Good) ∧ addr.Good := by
  rcases h with ⟨addr, hmem, hgood⟩
  cases hfind : serverAddrs.find? fun a => decide a.Good with
  | none =>
      have hbad := List.find?_eq_none.1 hfind addr hmem
      exact absurd hgood (by simpa using hbad)
  | some a =>
      rcases List.find?_eq_some_iff_append.1 hfind with ⟨ha, pre, post, hsplit, hpre⟩
      exact ⟨pre, a, post, hsplit, fun b hb => by simpa using hpre b hb, by simpa using ha⟩

private theorem chooses_of_tries {turn : Addrinfo → List Addrinfo → State α → Turn (State α)}
    {serverAddrs : List Addrinfo} (h : ∀ addr ∈ serverAddrs, Tries turn addr)
    (message : List UInt8) (inherited : Table α) (garbage : Int) :
    Chooses inherited serverAddrs
      (afterLoop message (tryEach turn serverAddrs (start inherited garbage))) := by
  have hstart : Inv (inherited.map .inherited) (start inherited garbage) := ⟨rfl, rfl, rfl⟩
  have hfailed : (∀ addr ∈ serverAddrs, ¬ addr.Good) → ∃ s,
      Inv (inherited.map .inherited) s ∧
        tryEach turn serverAddrs (start inherited garbage) = .ok ([], s) := by
    intro hbad
    exact tryEach_of_next (fun addr haddr => (h addr haddr).next (hbad addr haddr) _) hstart
  have hfirst : ∀ pre addr post, serverAddrs = pre ++ addr :: post → (∀ a ∈ pre, ¬ a.Good) →
      addr.Good → ∃ s, Found (inherited.map .inherited) (addr :: post) s ∧
        tryEach turn serverAddrs (start inherited garbage) = .ok (addr :: post, s) := by
    intro pre addr post hsplit hbad hgood
    subst hsplit
    exact tryEach_of_found (fun a ha => (h a (by simp [ha])).next (hbad a ha) _)
      ((h addr (by simp)).found hgood _ post) hstart
  constructor
  · constructor
    · intro hused
      apply Classical.byContradiction
      intro hnone
      rcases hfailed fun addr haddr hgood => hnone ⟨addr, haddr, hgood⟩ with ⟨s, hs, hloop⟩
      rw [hloop] at hused
      exact hused hs.used
    · intro hgood
      rcases exists_first hgood with ⟨pre, addr, post, hsplit, hbad, hgood⟩
      rcases hfirst pre addr post hsplit hbad hgood with ⟨s, hs, hloop⟩
      rw [hloop]
      simp [afterLoop]
  · intro pre addr post hsplit hbad hgood
    rcases hfirst pre addr post hsplit hbad hgood with ⟨s, hs, hloop⟩
    rw [hloop]
    refine ⟨_, congrArg some hs.socketFd, hs.status, Prod.ext rfl hs.fds, ?_⟩
    intro fd' addrp
    have hget := get_eq_socket hs fd' addrp
    rw [hs.socketFd, Int.natCast_inj] at hget
    exact hget
  · intro hbad
    rcases hfailed hbad with ⟨s, hs, hloop⟩
    rw [hloop]
    exact ⟨rfl, hs.used, hs.fds⟩

/-- **Both programs take the first address that is good**, and have no other
socket open then. -/
theorem chooses_first_good_address (inherited : Table α) (garbage : Int) (hostname : List UInt8)
    (serverAddrs : List Addrinfo) (hclose : ∀ addr ∈ serverAddrs, addr.close = none) :
    ((∀ addr ∈ serverAddrs, addr.setsockopt = none) →
        Chooses inherited serverAddrs (IsSeqnumSv.main serverAddrs (start inherited garbage))) ∧
      Chooses inherited serverAddrs
        (IsSeqnumCl.main hostname serverAddrs (start inherited garbage)) := by
  constructor
  · intro hopt
    exact chooses_of_tries (fun addr haddr => tries_server (hopt addr haddr) (hclose addr haddr))
      _ inherited garbage
  · exact chooses_of_tries (fun addr haddr => tries_client (hclose addr haddr)) _ inherited garbage

/-- No socket for the first address and an error for that of the second. -/
theorem chooses_first_good_address_third :
    (IsSeqnumSv.main [⟨some [], none, none, none⟩, ⟨none, none, some [], none⟩,
        ⟨none, none, none, none⟩] (start (Table.empty (α := Unit)) 7)).used ≠ none ∧
      (IsSeqnumCl.main [] [⟨some [], none, none, none⟩, ⟨none, none, some [], none⟩,
        ⟨none, none, none, none⟩] (start (Table.empty (α := Unit)) 7)).used ≠ none := by
  have hchooses := chooses_first_good_address (Table.empty (α := Unit)) 7 []
    [⟨some [], none, none, none⟩, ⟨none, none, some [], none⟩, ⟨none, none, none, none⟩] (by simp)
  exact ⟨(hchooses.1 (by simp)).past.2 ⟨⟨none, none, none, none⟩, by simp, rfl, rfl⟩,
    hchooses.2.past.2 ⟨⟨none, none, none, none⟩, by simp, rfl, rfl⟩⟩

end Lpi.Ports.AddressLoops
