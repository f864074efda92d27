import Lpi.Ports.NumericArgs
import Lpi.Ports.PmsgOptions
import Lpi.Verified.CData
import Lpi.Verified.Family
import Lpi.Verified.PosixQueue
import Lpi.Verified.Run
import Mathlib.Algebra.Order.BigOperators.Group.Finset

/-!
# Messages by way of a queue (`pmsg/pmsg_send.c`, `pmsg/pmsg_receive.c`)

A sender puts one message on the queue, and a receiver takes one off it and shows
it.  Any number of both run at the same time on one queue, which has room for
`maxmsg` messages of `msgsize` bytes.  Each system call is one step, and the order of
the steps is arbitrary.

The receiver shows the size and the priority with `printf()` and the bytes with
`write()`.  So it depends on whether standard output is a terminal which of the two
comes first.

The messages sent so far and those received are kept as a history.  Those of one
priority are received in the order in which they were sent (`Ordered`), and a
receiver holds what it has taken, so none is lost or shown twice (`Balanced`).
-/

namespace Lpi.Ports.PmsgTransfer

open Lpi.Ports.PmsgOptions (optstring O_NONBLOCK)
open Lpi.Verified.CData
open Lpi.Verified.CInt
open Lpi.Verified.CString
open Lpi.Verified.Family
open Lpi.Verified.Flags
open Lpi.Verified.Getopt
open Lpi.Verified.PosixQueue
open Lpi.Verified.Run

/-! ## State -/

/-- A process that has been started: the sender, or the receiver with what its
variable `opt` holds and whether its standard output is a terminal. -/
inductive Program where
  | send (program : CStr) (argv : List CStr)
  | receive (opt : Int32) (terminal : Bool) (program : CStr) (argv : List CStr)

/-- Where a process is.  The sender goes from `mqOpen` to `mqSend`, the receiver to
`mqGetattr`. -/
inductive Pc where
  | start
  | mqOpen (name : CStr) (oflag : BitVec 32)
  | mqSend (oflag : BitVec 32)
  | mqGetattr (oflag : BitVec 32)
  | malloc (oflag : BitVec 32)
  | mqReceive (oflag : BitVec 32)
  /-- At the `write()` of the message. -/
  | write
  /-- At the `write()` of the newline. -/
  | newline
  | mqClose
  | exited (status : Exit)
  deriving DecidableEq

/-- A process: the message it has received, what it has written to standard output and
what is still in the buffer of that, and what it has written to standard error. -/
structure Proc where
  pc : Pc
  got : Option Msg
  stdout : List UInt8
  buffered : List UInt8
  stderr : List UInt8
  deriving DecidableEq

/-- The queue, with the messages sent and received so far, the oldest first. -/
structure State (n : Nat) where
  queue : List Msg
  sent : List Msg
  received : List Msg
  proc : Fin n → Proc

/-- The name of the queue and its limits, the texts of the errors, and the processes. -/
structure System (n : Nat) where
  name : CStr
  maxmsg : Nat
  msgsize : Nat
  strerror : Nat → List UInt8
  programs : Fin n → Program

/-- The result of a call: success or an `errno`, or how many bytes are written. -/
inductive Answer where
  | ok
  | err (errno : Nat)
  | wrote (n : Nat)
  deriving DecidableEq, Repr

/-! ## The sender -/

def EAGAIN : Nat := 11
def EINVAL : Nat := 22
def EMSGSIZE : Nat := 90

/-- `MQ_PRIO_MAX`. -/
def mqPrioMax : Nat := 32768

/-- The message and the priority on the command line, if there is a message; the
priority is converted to `unsigned int`. -/
def sendOperands (argv : List CStr) : Option (CStr × Except (List UInt8) Nat) :=
  match (getopt optstring argv).2 with
  | _ :: msg :: more =>
    some (msg, match more with
      | [] => .ok 0
      | str :: _ => (NumericArgs.PmsgSend.getUnsignedLong str).map fun v =>
          (IntType.uint.wrap v).toNat)
  | _ => none

/-- The message process `k` is to send, if its priority can be read. -/
def Program.message (k : Nat) : Program → Option Msg
  | .send _ argv => (sendOperands argv).bind fun (msg, priority) =>
      priority.toOption.map fun p => ⟨k, p, msg.bytes⟩
  | .receive _ _ _ _ => none

/-- Why `mq_send()` fails, other than for lack of room. -/
def sendError (msgsize : Nat) (m : Msg) : Option Nat :=
  if mqPrioMax ≤ m.prio then some EINVAL
  else if msgsize < m.data.length then some EMSGSIZE
  else none

/-! ## The receiver -/

/-- `Read %ld bytes; priority = %u\n`. -/
def header (m : Msg) : List UInt8 :=
  ascii "Read " ++ decimal m.data.length ++ ascii " bytes; priority = " ++ decimal m.prio ++
    ascii "\n"

/-! ## Steps -/

/-- A process ends, and what is buffered for standard output is written. -/
def Proc.exit (p : Proc) (status : Exit) : Proc :=
  { p with pc := .exited status, stdout := p.stdout ++ p.buffered, buffered := [] }

/-- A process ends with a message on standard error. -/
def Proc.fail (p : Proc) (text : List UInt8) : Proc :=
  { p with stderr := p.stderr ++ text }.exit .failure

def Proc.goto (p : Proc) (pc : Pc) : Proc := { p with pc := pc }

/-- `printf()` with a text that ends a line. -/
def Proc.printf (p : Proc) (terminal : Bool) (text : List UInt8) : Proc :=
  if terminal then { p with stdout := p.stdout ++ p.buffered ++ text, buffered := [] }
  else { p with buffered := p.buffered ++ text }

variable {n : Nat}

def State.set (s : State n) (k : Fin n) (p : Proc) : State n :=
  { s with proc := Function.update s.proc k p }

/-- What `main` makes of the command line. -/
def Program.outcome : Program → PmsgOptions.Outcome
  | .send program argv => PmsgOptions.Send.main program argv
  | .receive opt _ program argv => PmsgOptions.Receive.main opt program argv

/-- What follows the options. -/
def begun (p : Proc) : PmsgOptions.Outcome → Proc
  | .usage text => p.fail text
  | .mqOpen name v => { p with pc := .mqOpen name v.oflag, stderr := v.stderr }

/-- A call of the process fails. -/
def failed (sys : System n) (e : Nat) (p : Proc) (before after : List UInt8) : Proc :=
  p.fail (before ++ after ++ ascii " - " ++ sys.strerror e ++ ascii "\n")

/-- What follows a successful `mq_open()`. -/
def opened (oflag : BitVec 32) (p : Proc) : Program → Proc
  | .send _ argv =>
    match (sendOperands argv).map Prod.snd with
    | some (.error text) => p.fail text
    | _ => p.goto (.mqSend oflag)
  | .receive _ _ _ _ => p.goto (.mqGetattr oflag)

/-- `mq_send()`, with the message of the process. -/
def sendStep (sys : System n) (s : State n) (k : Fin n) (oflag : BitVec 32) (m : Msg) :
    Option (State n) :=
  let fails e := s.set k (failed sys e (s.proc k) (ascii "Failed to mq_send() ") m.data)
  match sendError sys.msgsize m with
  | some e => some (fails e)
  | none =>
    if s.queue.length < sys.maxmsg then
      some { s.set k ((s.proc k).exit .success) with
        queue := enqueue m s.queue, sent := s.sent ++ [m] }
    else if Has oflag O_NONBLOCK then some (fails EAGAIN)
    else none

/-- `mq_receive()` and the `printf()` after it. -/
def receiveStep (sys : System n) (s : State n) (k : Fin n) (oflag : BitVec 32)
    (terminal : Bool) : Option (State n) :=
  match s.queue with
  | m :: queue =>
    let p := { s.proc k with pc := .write, got := some m }
    some { s.set k (p.printf terminal (header m)) with
      queue := queue, received := s.received ++ [m] }
  | [] =>
    if Has oflag O_NONBLOCK then
      some (s.set k (failed sys EAGAIN (s.proc k) (ascii "Failed to mq_receive() from ")
        sys.name.bytes))
    else none

/-- A call of process `k` succeeds. -/
def okStep (sys : System n) (s : State n) (k : Fin n) : Option (State n) :=
  match (s.proc k).pc with
  | .start => some (s.set k (begun (s.proc k) (sys.programs k).outcome))
  | .mqOpen name oflag =>
      if name = sys.name then some (s.set k (opened oflag (s.proc k) (sys.programs k)))
      else none
  | .mqSend oflag => ((sys.programs k).message k).bind fun m => sendStep sys s k oflag m
  | .mqGetattr oflag => some (s.set k ((s.proc k).goto (.malloc oflag)))
  | .malloc oflag => some (s.set k ((s.proc k).goto (.mqReceive oflag)))
  | .mqReceive oflag =>
    match sys.programs k with
    | .receive _ terminal _ _ => receiveStep sys s k oflag terminal
    | .send _ _ => none
  | .mqClose => some (s.set k ((s.proc k).exit .success))
  | .write | .newline | .exited _ => none

/-- What process `k` becomes where a call of it fails. -/
def errStep (sys : System n) (p : Proc) (e : Nat) : Option Proc :=
  match p.pc with
  | .mqOpen name _ => some (failed sys e p (ascii "Failed to mq_open() ") name.bytes)
  | .mqGetattr _ => some (failed sys e p (ascii "Failed to mq_getattr() ") sys.name.bytes)
  | .malloc _ => some (failed sys e p (ascii "Failed to malloc() ")
      (decimal sys.msgsize ++ ascii " bytes for msg buffer"))
  | .write => p.got.map fun m => failed sys e p (ascii "Failed to write() ")
      (decimal m.data.length ++ ascii " bytes")
  | .newline => some (p.goto .mqClose)
  | .mqClose => some (failed sys e p (ascii "Failed to mq_close() ") sys.name.bytes)
  | .start | .mqSend _ | .mqReceive _ | .exited _ => none

/-- What a process becomes where `write()` writes `count` bytes. -/
def wroteStep (p : Proc) (count : Nat) : Option Proc :=
  match p.pc with
  | .write => p.got.bind fun m =>
      if count ≤ m.data.length then
        some { p with pc := .newline, stdout := p.stdout ++ m.data.take count }
      else none
  | .newline =>
      if count ≤ 1 then
        some { p with pc := .mqClose, stdout := p.stdout ++ (ascii "\n").take count }
      else none
  | _ => none

/-- The next step of process `k`. -/
def step (sys : System n) (s : State n) : Fin n × Answer → Option (State n)
  | (k, .ok) => okStep sys s k
  | (k, .err e) => (errStep sys (s.proc k) e).map (s.set k)
  | (k, .wrote count) => (wroteStep (s.proc k) count).map (s.set k)

/-- The processes are about to look at their arguments. -/
def start (queue : List Msg) : State n where
  queue := queue
  sent := queue
  received := []
  proc := fun _ => ⟨.start, none, [], [], []⟩

/-- At a `write()` all bytes are written. -/
def Proc.Whole (p : Proc) (a : Answer) : Prop :=
  (p.pc = .write → a = .wrote (p.got.elim 0 fun m => m.data.length)) ∧
    (p.pc = .newline → a = .wrote 1)

def WritesWhole (s : State n) (l : Fin n × Answer) : Prop := (s.proc l.1).Whole l.2

instance (s : State n) (l : Fin n × Answer) : Decidable (WritesWhole s l) :=
  inferInstanceAs (Decidable (_ ∧ _))

/-! ## What a process is about -/

/-- What a receiver has written of a message itself, `i` bytes of it and `j` of the
newline. -/
def shown (terminal : Bool) (m : Msg) (i j : Nat) : List UInt8 :=
  (if terminal then header m else []) ++ m.data.take i ++ (ascii "\n").take j

/-- What is buffered until it ends. -/
def held (terminal : Bool) (m : Msg) : List UInt8 :=
  if terminal then [] else header m

/-- Nothing has been received and nothing written. -/
structure Proc.Fresh (p : Proc) : Prop where
  got : p.got = none
  stdout : p.stdout = []
  buffered : p.buffered = []

/-- The process is a receiver. -/
def Program.Receives (program : Program) (terminal : Bool) : Prop :=
  ∃ opt name argv, program = .receive opt terminal name argv

/-- The process has received `m` and written `i` bytes of it and `j` of the newline, all
of them if no `write()` falls short. -/
structure Proc.Shows (program : Program) (p : Proc) (terminal : Bool) (m : Msg)
    (i j : Nat) : Prop where
  receives : program.Receives terminal
  got : p.got = some m
  bytes : i ≤ m.data.length
  newline : j ≤ 1
  stdout : p.stdout ++ p.buffered = shown terminal m i j ++ held terminal m

/-- What is true of process `k` where it is.  If `whole`, no `write()` has fallen
short. -/
def ProcInv (whole : Prop) (sys : System n) (k : Fin n) (p : Proc) : Prop :=
  match p.pc with
  | .start => p.Fresh
  | .mqOpen _ _ => p.Fresh ∧ ∀ program argv, sys.programs k = .send program argv →
      ∃ operands, sendOperands argv = some operands
  | .mqSend _ => p.Fresh ∧ ∃ m, (sys.programs k).message k = some m
  | .mqGetattr _ | .malloc _ | .mqReceive _ =>
      p.Fresh ∧ ∃ terminal, (sys.programs k).Receives terminal
  | .write => ∃ terminal m, p.Shows (sys.programs k) terminal m 0 0 ∧
      p.buffered = held terminal m
  | .newline => ∃ terminal m i, p.Shows (sys.programs k) terminal m i 0 ∧
      p.buffered = held terminal m ∧ (whole → i = m.data.length)
  | .mqClose => ∃ terminal m i j, p.Shows (sys.programs k) terminal m i j ∧
      (whole → i = m.data.length ∧ j = 1)
  | .exited status =>
      (p.Fresh ∧ (status = .success → ∃ m, (sys.programs k).message k = some m)) ∨
      ∃ terminal m i j, p.Shows (sys.programs k) terminal m i j ∧ p.buffered = [] ∧
        (whole → i = m.data.length ∧ j = 1)

/-- How many steps a process has still to take at most. -/
def Pc.work : Pc → Nat
  | .start => 8
  | .mqOpen _ _ => 7
  | .mqSend _ | .mqGetattr _ => 6
  | .malloc _ => 5
  | .mqReceive _ => 4
  | .write => 3
  | .newline => 2
  | .mqClose => 1
  | .exited _ => 0

/-- The message the process has sent. -/
def given (sys : System n) (k : Fin n) (p : Proc) : Option Msg :=
  if p.pc = .exited .success then (sys.programs k).message k else none

variable {whole : Prop} {sys : System n} {s t : State n} {k : Fin n} {a : Answer} {p p' : Proc}

/-- What a step of process `k`, which becomes `p`, means for the queue. -/
inductive Effect (sys : System n) (s : State n) (k : Fin n) (p : Proc) : State n → Prop
  | moves (hgot : p.got = (s.proc k).got) (hgiven : given sys k p = none) :
      Effect sys s k p (s.set k p)
  | sends {m : Msg} (hm : (sys.programs k).message k = some m)
      (hvalid : sendError sys.msgsize m = none) (hroom : s.queue.length < sys.maxmsg)
      (hgot : p.got = (s.proc k).got) (hpc : p.pc = .exited .success) :
      Effect sys s k p { s.set k p with queue := enqueue m s.queue, sent := s.sent ++ [m] }
  | receives {m : Msg} {queue : List Msg} (hqueue : s.queue = m :: queue)
      (hold : (s.proc k).got = none) (hgot : p.got = some m) (hgiven : given sys k p = none) :
      Effect sys s k p { s.set k p with queue := queue, received := s.received ++ [m] }

/-! ## What a step can do -/

@[simp] theorem exit_pc (status : Exit) : (p.exit status).pc = .exited status := rfl

@[simp] theorem fail_pc (text : List UInt8) : (p.fail text).pc = .exited .failure := rfl

@[simp] theorem failed_pc (e : Nat) (before after : List UInt8) :
    (failed sys e p before after).pc = .exited .failure := rfl

theorem Proc.Fresh.fail (h : p.Fresh) (text : List UInt8) : (p.fail text).Fresh := by
  refine ⟨h.got, ?_, rfl⟩
  show p.stdout ++ p.buffered = []
  rw [h.stdout, h.buffered]
  rfl

theorem Proc.Fresh.exit (h : p.Fresh) (status : Exit) : (p.exit status).Fresh := by
  refine ⟨h.got, ?_, rfl⟩
  show p.stdout ++ p.buffered = []
  rw [h.stdout, h.buffered]
  rfl

theorem Proc.Shows.exit {program : Program} {terminal : Bool} {m : Msg} {i j : Nat}
    (h : p.Shows program terminal m i j) (status : Exit) (text : List UInt8) :
    ({ p with stderr := text }.exit status).Shows program terminal m i j := by
  refine ⟨h.receives, h.got, h.bytes, h.newline, ?_⟩
  show (p.stdout ++ p.buffered) ++ [] = _
  rw [List.append_nil]
  exact h.stdout

/-- The sender has a message if it opens the queue. -/
theorem sendOperands_of_mqOpen {program name : CStr} {argv : List CStr} {v : PmsgOptions.Vars}
    (h : PmsgOptions.Send.main program argv = .mqOpen name v) :
    ∃ operands, sendOperands argv = some operands := by
  unfold PmsgOptions.Send.main at h
  cases hopt : PmsgOptions.Send.options program argv with
  | error e => rw [hopt] at h; cases h
  | ok w =>
      rw [hopt] at h
      unfold sendOperands
      cases hargs : (getopt optstring argv).2 with
      | nil => simp [PmsgOptions.finish, hargs] at h
      | cons first more =>
          cases more with
          | nil => simp [PmsgOptions.finish, hargs] at h
          | cons msg more => exact ⟨_, rfl⟩

/-- What every step of process `k` does: it has one step less to take, and is where it
ought to be. -/
def Advances (whole : Prop) (sys : System n) (s : State n) (k : Fin n) (t : State n) : Prop :=
  ∃ p, p.pc.work < (s.proc k).pc.work ∧ ProcInv whole sys k p ∧ Effect sys s k p t

theorem given_of_ne (h : p.pc ≠ .exited .success) : given sys k p = none :=
  if_neg h

theorem given_of_receives {terminal : Bool} (h : (sys.programs k).Receives terminal) :
    given sys k p = none := by
  rcases h with ⟨opt, name, argv, hprogram⟩
  unfold given
  rw [hprogram]
  exact ite_self _

/-- A call fails before anything has been received. -/
theorem advances_fail (hnow : 0 < (s.proc k).pc.work) (hfresh : (s.proc k).Fresh)
    (text : List UInt8) : Advances whole sys s k (s.set k ((s.proc k).fail text)) :=
  ⟨(s.proc k).fail text, hnow, Or.inl ⟨hfresh.fail text, by simp⟩,
    .moves rfl (given_of_ne (by simp))⟩

/-- A call fails after that. -/
theorem advances_fail_shows {terminal : Bool} {m : Msg} {i j : Nat}
    (hnow : 0 < (s.proc k).pc.work) (hshows : (s.proc k).Shows (sys.programs k) terminal m i j)
    (hwhole : whole → i = m.data.length ∧ j = 1) (text : List UInt8) :
    Advances whole sys s k (s.set k ((s.proc k).fail text)) :=
  ⟨(s.proc k).fail text, hnow, Or.inr ⟨terminal, m, i, j, hshows.exit _ _, rfl, hwhole⟩,
    .moves rfl (given_of_ne (by simp))⟩

/-- A process goes on with nothing received. -/
theorem advances_goto (pc : Pc) {text : List UInt8} (hwork : pc.work < (s.proc k).pc.work)
    (hpc : pc ≠ .exited .success)
    (hinv : ProcInv whole sys k { s.proc k with pc := pc, stderr := text }) :
    Advances whole sys s k (s.set k { s.proc k with pc := pc, stderr := text }) :=
  ⟨_, hwork, hinv, .moves rfl (given_of_ne hpc)⟩

/-- The steps with an error. -/
theorem advances_err {e : Nat} (hinv : ProcInv whole sys k (s.proc k))
    (hwhole : whole → WritesWhole s (k, .err e)) (h : step sys s (k, .err e) = some t) :
    Advances whole sys s k t := by
  simp only [step, Option.map_eq_some_iff] at h
  rcases h with ⟨p, h, rfl⟩
  cases hpc : (s.proc k).pc with
  | mqOpen name oflag =>
      simp only [ProcInv, hpc] at hinv
      simp only [errStep, hpc, Option.some.injEq] at h
      exact h ▸ advances_fail (by simp [hpc, Pc.work]) hinv.1 _
  | mqGetattr oflag | malloc oflag =>
      simp only [ProcInv, hpc] at hinv
      simp only [errStep, hpc, Option.some.injEq] at h
      exact h ▸ advances_fail (by simp [hpc, Pc.work]) hinv.1 _
  | write =>
      have hcut := fun hw => (hwhole hw).1 hpc
      simp only [ProcInv, hpc] at hinv
      rcases hinv with ⟨terminal, m, hshows, _⟩
      simp only [errStep, hpc, hshows.got, Option.map_some, Option.some.injEq] at h
      exact h ▸ advances_fail_shows (by simp [hpc, Pc.work]) hshows
        (fun hw => nomatch hcut hw) _
  | newline =>
      have hcut := fun hw => (hwhole hw).2 hpc
      simp only [ProcInv, hpc] at hinv
      rcases hinv with ⟨terminal, m, i, hshows, _⟩
      simp only [errStep, hpc, Option.some.injEq] at h
      subst h
      refine ⟨_, ?_, ?_, .moves rfl (given_of_receives hshows.receives)⟩
      · simp [hpc, Pc.work, Proc.goto]
      · exact ⟨terminal, m, i, 0, ⟨hshows.receives, hshows.got, hshows.bytes, hshows.newline,
          hshows.stdout⟩, fun hw => nomatch hcut hw⟩
  | mqClose =>
      simp only [ProcInv, hpc] at hinv
      rcases hinv with ⟨terminal, m, i, j, hshows, hall⟩
      simp only [errStep, hpc, Option.some.injEq] at h
      exact h ▸ advances_fail_shows (by simp [hpc, Pc.work]) hshows hall _
  | start | mqSend oflag | mqReceive oflag | exited status =>
      simp [errStep, hpc] at h

theorem shown_bytes (terminal : Bool) (m : Msg) (i : Nat) :
    shown terminal m 0 0 ++ m.data.take i = shown terminal m i 0 := by
  simp [shown]

theorem shown_newline (terminal : Bool) (m : Msg) (i j : Nat) :
    shown terminal m i 0 ++ (ascii "\n").take j = shown terminal m i j := by
  simp [shown]

/-- What a process writes itself goes in front of what is buffered. -/
theorem stdout_of_shows {program : Program} {terminal : Bool} {m : Msg} {i j : Nat}
    (h : p.Shows program terminal m i j) (hheld : p.buffered = held terminal m) :
    p.stdout = shown terminal m i j := by
  have hout := h.stdout
  rw [hheld] at hout
  exact List.append_cancel_right hout

/-- The steps of a `write()`. -/
theorem advances_wrote {count : Nat} (hinv : ProcInv whole sys k (s.proc k))
    (hwhole : whole → WritesWhole s (k, .wrote count))
    (h : step sys s (k, .wrote count) = some t) : Advances whole sys s k t := by
  simp only [step, Option.map_eq_some_iff] at h
  rcases h with ⟨p, h, rfl⟩
  cases hpc : (s.proc k).pc with
  | write =>
      have hcut := fun hw => (hwhole hw).1 hpc
      simp only [ProcInv, hpc] at hinv
      rcases hinv with ⟨terminal, m, hshows, hheld⟩
      simp only [hshows.got, Option.elim_some, Answer.wrote.injEq] at hcut
      simp only [wroteStep, hpc, hshows.got, Option.bind_some, Option.ite_none_right_eq_some,
        Option.some.injEq] at h
      rcases h with ⟨hcount, rfl⟩
      refine ⟨_, ?_, ?_, .moves hshows.got.symm (given_of_receives hshows.receives)⟩
      · simp [hpc, Pc.work]
      · refine ⟨terminal, m, count, ⟨hshows.receives, rfl, hcount, Nat.zero_le _, ?_⟩, hheld,
          hcut⟩
        show (s.proc k).stdout ++ m.data.take count ++ (s.proc k).buffered = _
        rw [stdout_of_shows hshows hheld, shown_bytes, hheld]
  | newline =>
      have hcut := fun hw => (hwhole hw).2 hpc
      simp only [ProcInv, hpc] at hinv
      rcases hinv with ⟨terminal, m, i, hshows, hheld, hall⟩
      simp only [Answer.wrote.injEq] at hcut
      simp only [wroteStep, hpc, Option.ite_none_right_eq_some, Option.some.injEq] at h
      rcases h with ⟨hcount, rfl⟩
      refine ⟨_, ?_, ?_, .moves rfl (given_of_receives hshows.receives)⟩
      · simp [hpc, Pc.work]
      · refine ⟨terminal, m, i, count, ⟨hshows.receives, hshows.got, hshows.bytes, hcount, ?_⟩,
          fun hw => ⟨hall hw, hcut hw⟩⟩
        show (s.proc k).stdout ++ (ascii "\n").take count ++ (s.proc k).buffered = _
        rw [stdout_of_shows hshows hheld, shown_newline, hheld]
  | start | mqOpen name oflag | mqSend oflag | mqGetattr oflag | malloc oflag
    | mqReceive oflag | mqClose | exited status =>
      simp [wroteStep, hpc] at h

/-! ### The calls that succeed -/

theorem advances_start (hpc : (s.proc k).pc = .start) (hinv : ProcInv whole sys k (s.proc k))
    (h : okStep sys s k = some t) : Advances whole sys s k t := by
  simp only [ProcInv, hpc] at hinv
  simp only [okStep, hpc, Option.some.injEq] at h
  subst h
  cases hout : (sys.programs k).outcome with
  | usage text => exact advances_fail (by simp [hpc, Pc.work]) hinv text
  | mqOpen name v =>
      refine advances_goto (.mqOpen name v.oflag) ?_ (by simp) ?_
      · simp [hpc, Pc.work]
      · refine ⟨⟨hinv.got, hinv.stdout, hinv.buffered⟩, ?_⟩
        intro program argv hprogram
        rw [hprogram] at hout
        exact sendOperands_of_mqOpen hout

theorem advances_mqOpen {name : CStr} {oflag : BitVec 32}
    (hpc : (s.proc k).pc = .mqOpen name oflag) (hinv : ProcInv whole sys k (s.proc k))
    (h : okStep sys s k = some t) : Advances whole sys s k t := by
  simp only [ProcInv, hpc] at hinv
  rcases hinv with ⟨hfresh, hsend⟩
  have hsame : ∀ pc, (s.proc k).Fresh → ((s.proc k).goto pc).Fresh :=
    fun _ h => ⟨h.got, h.stdout, h.buffered⟩
  simp only [okStep, hpc, Option.ite_none_right_eq_some, Option.some.injEq] at h
  rcases h with ⟨_, rfl⟩
  cases hprogram : sys.programs k with
  | send program argv =>
      rcases hsend program argv hprogram with ⟨⟨msg, priority⟩, hoperands⟩
      cases priority with
      | error text =>
          simp only [opened, hoperands, Option.map_some]
          exact advances_fail (by simp [hpc, Pc.work]) hfresh text
      | ok prio =>
          simp only [opened, hoperands, Option.map_some]
          refine advances_goto (.mqSend oflag) ?_ (by simp) ?_
          · simp [hpc, Pc.work]
          · refine ⟨hsame _ hfresh, ⟨k, prio, msg.bytes⟩, ?_⟩
            simp [hprogram, Program.message, hoperands, Except.toOption]
  | receive opt terminal program argv =>
      refine advances_goto (.mqGetattr oflag) ?_ (by simp) ?_
      · simp [hpc, Pc.work]
      · exact ⟨hsame _ hfresh, terminal, opt, program, argv, hprogram⟩

theorem advances_mqSend {oflag : BitVec 32} (hpc : (s.proc k).pc = .mqSend oflag)
    (hinv : ProcInv whole sys k (s.proc k)) (h : okStep sys s k = some t) :
    Advances whole sys s k t := by
  simp only [ProcInv, hpc] at hinv
  rcases hinv with ⟨hfresh, m, hm⟩
  have hnow : 0 < (s.proc k).pc.work := by simp [hpc, Pc.work]
  simp only [okStep, hpc, hm, Option.bind_some, sendStep] at h
  cases hvalid : sendError sys.msgsize m with
  | some e =>
      simp only [hvalid, Option.some.injEq] at h
      exact h ▸ advances_fail hnow hfresh _
  | none =>
      simp only [hvalid] at h
      by_cases hroom : s.queue.length < sys.maxmsg
      · rw [if_pos hroom, Option.some.injEq] at h
        subst h
        exact ⟨(s.proc k).exit .success, hnow,
          Or.inl ⟨hfresh.exit .success, fun _ => ⟨m, hm⟩⟩, .sends hm hvalid hroom rfl rfl⟩
      · rw [if_neg hroom, Option.ite_none_right_eq_some, Option.some.injEq] at h
        exact h.2 ▸ advances_fail hnow hfresh _

theorem advances_mqReceive {oflag : BitVec 32} (hpc : (s.proc k).pc = .mqReceive oflag)
    (hinv : ProcInv whole sys k (s.proc k)) (h : okStep sys s k = some t) :
    Advances whole sys s k t := by
  simp only [ProcInv, hpc] at hinv
  rcases hinv with ⟨hfresh, terminal, hreceives⟩
  have hnow : 0 < (s.proc k).pc.work := by simp [hpc, Pc.work]
  have hprogram := hreceives
  rcases hprogram with ⟨opt, program, argv, hprogram⟩
  simp only [okStep, hpc, hprogram, receiveStep] at h
  cases hqueue : s.queue with
  | nil =>
      simp only [hqueue, Option.ite_none_right_eq_some, Option.some.injEq] at h
      exact h.2 ▸ advances_fail hnow hfresh _
  | cons m queue =>
      simp only [hqueue, Option.some.injEq] at h
      subst h
      refine ⟨_, ?_, ?_, .receives hqueue hfresh.got ?_ (given_of_receives hreceives)⟩
      · cases terminal <;> simp [hpc, Pc.work, Proc.printf]
      · have hinv : ∀ p : Proc, p.pc = .write →
            (∃ terminal m, p.Shows (sys.programs k) terminal m 0 0 ∧
              p.buffered = held terminal m) → ProcInv whole sys k p := by
          intro p hp h
          simpa only [ProcInv, hp] using h
        cases terminal with
        | false =>
            refine hinv _ rfl ⟨false, m, ⟨hreceives, rfl, Nat.zero_le _, Nat.zero_le _, ?_⟩, ?_⟩
            · simp [Proc.printf, hfresh.stdout, hfresh.buffered, shown, held]
            · simp [Proc.printf, hfresh.buffered, held]
        | true =>
            refine hinv _ rfl ⟨true, m, ⟨hreceives, rfl, Nat.zero_le _, Nat.zero_le _, ?_⟩, ?_⟩
            · simp [Proc.printf, hfresh.stdout, hfresh.buffered, shown, held]
            · simp [Proc.printf, held]
      · cases terminal <;> rfl

/-- **What every step does.** -/
theorem advances_step (hinv : ProcInv whole sys k (s.proc k))
    (hwhole : whole → WritesWhole s (k, a)) (h : step sys s (k, a) = some t) :
    Advances whole sys s k t := by
  cases a with
  | err e => exact advances_err hinv hwhole h
  | wrote count => exact advances_wrote hinv hwhole h
  | ok =>
      simp only [step] at h
      cases hpc : (s.proc k).pc with
      | start => exact advances_start hpc hinv h
      | mqOpen name oflag => exact advances_mqOpen hpc hinv h
      | mqSend oflag => exact advances_mqSend hpc hinv h
      | mqReceive oflag => exact advances_mqReceive hpc hinv h
      | mqGetattr oflag =>
          simp only [ProcInv, hpc] at hinv
          simp only [okStep, hpc, Option.some.injEq] at h
          refine h ▸ advances_goto (.malloc oflag) ?_ (by simp) ?_
          · simp [hpc, Pc.work]
          · exact ⟨⟨hinv.1.got, hinv.1.stdout, hinv.1.buffered⟩, hinv.2⟩
      | malloc oflag =>
          simp only [ProcInv, hpc] at hinv
          simp only [okStep, hpc, Option.some.injEq] at h
          refine h ▸ advances_goto (.mqReceive oflag) ?_ (by simp) ?_
          · simp [hpc, Pc.work]
          · exact ⟨⟨hinv.1.got, hinv.1.stdout, hinv.1.buffered⟩, hinv.2⟩
      | mqClose =>
          simp only [ProcInv, hpc] at hinv
          rcases hinv with ⟨terminal, m, i, j, hshows, hall⟩
          simp only [okStep, hpc, Option.some.injEq] at h
          subst h
          exact ⟨(s.proc k).exit .success, by simp [hpc, Pc.work],
            Or.inr ⟨terminal, m, i, j, hshows.exit .success _, rfl, hall⟩,
            .moves rfl (given_of_receives hshows.receives)⟩
      | write | newline | exited status => simp [okStep, hpc] at h

/-! ## The invariant -/

/-- The message, if there is one. -/
def bag (m : Option Msg) : Multiset Msg := m.toList

structure Inv (whole : Prop) (sys : System n) (q : List Msg) (s : State n) : Prop where
  proc : ∀ k, ProcInv whole sys k (s.proc k)
  order : ∀ prio, ofPrio prio s.sent = ofPrio prio s.received ++ ofPrio prio s.queue
  sorted : InOrder s.queue
  room : s.queue.length ≤ sys.maxmsg
  valid : ∀ m ∈ s.queue, sendError sys.msgsize m = none
  given : (s.sent : Multiset Msg) = q + ∑ k, bag (given sys k (s.proc k))
  taken : (s.received : Multiset Msg) = ∑ k, bag (s.proc k).got

/-- The queue can be there: its messages are in order, and within its limits. -/
structure Sound (sys : System n) (q : List Msg) : Prop where
  sorted : InOrder q
  room : q.length ≤ sys.maxmsg
  valid : ∀ m ∈ q, sendError sys.msgsize m = none

variable {q : List Msg}

theorem start_inv (whole : Prop) (hq : Sound sys q) : Inv whole sys q (start q) where
  proc := fun _ => ⟨rfl, rfl, rfl⟩
  order := fun _ => rfl
  sorted := hq.sorted
  room := hq.room
  valid := hq.valid
  given := by
    have hnone : ∑ k, bag (given sys k ((start q : State n).proc k)) = 0 := by
      apply Finset.sum_eq_zero
      intro k _
      rw [given_of_ne (by simp [start])]
      rfl
    rw [hnone, add_zero]
    rfl
  taken := Eq.symm (Finset.sum_const_zero)

/-- The processes after a step of `k`. -/
theorem Inv.proc_set (hs : Inv whole sys q s) (hp : ProcInv whole sys k p) (j : Fin n) :
    ProcInv whole sys j (Function.update s.proc k p j) := by
  by_cases hj : j = k
  · subst hj
    rw [Function.update_self]
    exact hp
  · rw [Function.update_of_ne hj]
    exact hs.proc j

theorem sum_given (hnow : (s.proc k).pc ≠ .exited .success) :
    ∑ j, bag (given sys j (Function.update s.proc k p j)) =
      ∑ j, bag (given sys j (s.proc j)) + bag (given sys k p) := by
  have hsum := sum_update_add (fun j v => bag (given sys j v)) s.proc k p
  rw [given_of_ne hnow] at hsum
  exact (add_zero _).symm.trans hsum

theorem sum_got_same (hgot : p.got = (s.proc k).got) :
    ∑ j, bag (Function.update s.proc k p j).got = ∑ j, bag (s.proc j).got := by
  have hsum := sum_update_add (fun _ (v : Proc) => bag v.got) s.proc k p
  rw [hgot] at hsum
  exact add_right_cancel hsum

theorem sum_got (hold : (s.proc k).got = none) :
    ∑ j, bag (Function.update s.proc k p j).got = ∑ j, bag (s.proc j).got + bag p.got := by
  have hsum := sum_update_add (fun _ (v : Proc) => bag v.got) s.proc k p
  rw [hold] at hsum
  exact (add_zero _).symm.trans hsum

theorem inv_step (hs : Inv whole sys q s) (hwhole : whole → WritesWhole s (k, a))
    (h : step sys s (k, a) = some t) : Inv whole sys q t := by
  rcases advances_step (hs.proc k) hwhole h with ⟨p, hwork, hp, heffect⟩
  have hnow : (s.proc k).pc ≠ .exited .success := by
    intro hpc
    rw [hpc] at hwork
    exact Nat.not_lt_zero _ hwork
  cases heffect with
  | moves hgot hgiven =>
      refine ⟨hs.proc_set hp, hs.order, hs.sorted, hs.room, hs.valid, ?_, ?_⟩
      · show (s.sent : Multiset Msg) = _ + ∑ j, bag (given sys j (Function.update s.proc k p j))
        rw [sum_given hnow, hgiven, hs.given]
        exact (congrArg _ (add_zero _)).symm
      · exact hs.taken.trans (sum_got_same hgot).symm
  | sends hm hvalid hroom hgot hpc =>
      rename_i m
      refine ⟨hs.proc_set hp, ?_, inOrder_enqueue m hs.sorted, ?_, ?_, ?_, ?_⟩
      · intro prio
        show ofPrio prio (s.sent ++ [m]) =
          ofPrio prio s.received ++ ofPrio prio (enqueue m s.queue)
        rw [ofPrio_append, hs.order, ofPrio_enqueue prio m hs.sorted, List.append_assoc]
      · show (enqueue m s.queue).length ≤ sys.maxmsg
        rw [length_enqueue]
        exact hroom
      · intro m' hm'
        rcases List.mem_cons.1 ((perm_enqueue m s.queue).mem_iff.1 hm') with rfl | hm'
        · exact hvalid
        · exact hs.valid m' hm'
      · show ((s.sent ++ [m] : List Msg) : Multiset Msg) =
          _ + ∑ j, bag (given sys j (Function.update s.proc k p j))
        have hgives : given sys k p = some m := (if_pos hpc).trans hm
        rw [sum_given hnow, hgives, ← add_assoc, ← hs.given]
        rfl
      · exact hs.taken.trans (sum_got_same hgot).symm
  | receives hqueue hold hgot hgiven =>
      rename_i m queue
      have hsorted := hs.sorted
      rw [hqueue, InOrder, List.pairwise_cons] at hsorted
      refine ⟨hs.proc_set hp, ?_, hsorted.2, ?_, ?_, ?_, ?_⟩
      · intro prio
        show ofPrio prio s.sent = ofPrio prio (s.received ++ [m]) ++ ofPrio prio queue
        rw [hs.order, hqueue, ofPrio_cons, ofPrio_append, List.append_assoc]
      · have hroom := hs.room
        rw [hqueue, List.length_cons] at hroom
        exact Nat.le_of_succ_le hroom
      · intro m' hm'
        exact hs.valid m' (hqueue ▸ List.mem_cons_of_mem m hm')
      · show (s.sent : Multiset Msg) = _ + ∑ j, bag (given sys j (Function.update s.proc k p j))
        rw [sum_given hnow, hgiven, hs.given]
        exact (congrArg _ (add_zero _)).symm
      · show ((s.received ++ [m] : List Msg) : Multiset Msg) =
          ∑ j, bag (Function.update s.proc k p j).got
        rw [sum_got hold, hgot, ← hs.taken]
        rfl

/-! ## Whole runs -/

def State.work (s : State n) : Nat := ∑ k, (s.proc k).pc.work

theorem step_work (hs : Inv whole sys q s) (hwhole : whole → WritesWhole s (k, a))
    (h : step sys s (k, a) = some t) : t.work < s.work := by
  rcases advances_step (hs.proc k) hwhole h with ⟨p, hwork, -, heffect⟩
  have hproc : t.proc = Function.update s.proc k p := by
    cases heffect with
    | moves | sends | receives => rfl
  have hsum := sum_update_add (fun _ (v : Proc) => v.pc.work) s.proc k p
  unfold State.work
  rw [hproc]
  omega

/-- The process waits for a message, or for room for one. -/
def Waits (sys : System n) (s : State n) (k : Fin n) : Prop :=
  match (s.proc k).pc with
  | .mqReceive oflag => ¬ Has oflag O_NONBLOCK ∧ s.queue = []
  | .mqSend oflag => ¬ Has oflag O_NONBLOCK ∧ s.queue.length = sys.maxmsg ∧
      ∃ m, (sys.programs k).message k = some m ∧ sendError sys.msgsize m = none
  | _ => False

def Pc.Ended (pc : Pc) : Prop := ∃ status, pc = .exited status

theorem stuck_iff (hs : Inv whole sys q s) :
    (∀ l, ¬ Enabled (step sys) s l) ↔ ∀ k, (s.proc k).pc.Ended ∨ Waits sys s k := by
  constructor
  · intro h k
    have hinv := hs.proc k
    have hok : okStep sys s k = none := by
      by_contra hne
      exact h (k, .ok) (enabled_iff.2 (Option.isSome_iff_ne_none.2 hne))
    have herr : errStep sys (s.proc k) 0 = none := by
      by_contra hne
      exact h (k, .err 0) (enabled_iff.2 (by
        simpa [step] using Option.isSome_iff_ne_none.2 hne))
    cases hpc : (s.proc k).pc with
    | exited status => exact Or.inl ⟨status, rfl⟩
    | start => simp [okStep, hpc] at hok
    | mqClose => simp [okStep, hpc] at hok
    | mqGetattr oflag | malloc oflag => simp [okStep, hpc] at hok
    | mqOpen name oflag => simp [errStep, hpc] at herr
    | newline => simp [errStep, hpc] at herr
    | write =>
        simp only [ProcInv, hpc] at hinv
        rcases hinv with ⟨terminal, m, hshows, _⟩
        simp [errStep, hpc, hshows.got] at herr
    | mqSend oflag =>
        simp only [ProcInv, hpc] at hinv
        rcases hinv with ⟨_, m, hm⟩
        simp only [okStep, hpc, hm, Option.bind_some, sendStep] at hok
        cases hvalid : sendError sys.msgsize m with
        | some e => simp [hvalid] at hok
        | none =>
            simp only [hvalid] at hok
            by_cases hroom : s.queue.length < sys.maxmsg
            · simp [hroom] at hok
            · have hfull : s.queue.length = sys.maxmsg := Nat.le_antisymm hs.room
                (Nat.le_of_not_lt hroom)
              by_cases hflag : Has oflag O_NONBLOCK
              · simp [hroom, hflag] at hok
              · exact Or.inr (by simp only [Waits, hpc]; exact ⟨hflag, hfull, m, hm, hvalid⟩)
    | mqReceive oflag =>
        simp only [ProcInv, hpc] at hinv
        rcases hinv with ⟨_, terminal, opt, program, argv, hprogram⟩
        simp only [okStep, hpc, hprogram, receiveStep] at hok
        cases hqueue : s.queue with
        | cons m queue => simp [hqueue] at hok
        | nil =>
            by_cases hflag : Has oflag O_NONBLOCK
            · simp [hqueue, hflag] at hok
            · exact Or.inr (by simp only [Waits, hpc]; exact ⟨hflag, hqueue⟩)
  · rintro h ⟨k, a⟩ ⟨t, ht⟩
    rcases h k with ⟨status, hpc⟩ | hwaits
    · cases a <;> simp [step, okStep, errStep, wroteStep, hpc] at ht
    · cases hpc : (s.proc k).pc with
      | mqReceive oflag =>
          simp only [Waits, hpc] at hwaits
          rcases hprogram : sys.programs k with ⟨program, argv⟩ | ⟨opt, terminal, program, argv⟩
          · cases a <;> simp [step, okStep, errStep, wroteStep, hpc, hprogram] at ht
          · cases a <;> simp [step, okStep, errStep, wroteStep, receiveStep, hpc, hprogram,
              hwaits.1, hwaits.2] at ht
      | mqSend oflag =>
          simp only [Waits, hpc] at hwaits
          rcases hwaits with ⟨hflag, hfull, m, hm, hvalid⟩
          cases a <;> simp [step, okStep, errStep, wroteStep, sendStep, hpc, hm, hvalid, hfull,
            hflag] at ht
      | _ => simp [Waits, hpc] at hwaits

/-- All that a receiver writes of a message. -/
def output (terminal : Bool) (m : Msg) : List UInt8 :=
  if terminal then header m ++ (m.data ++ ascii "\n") else m.data ++ ascii "\n" ++ header m

theorem output_eq (terminal : Bool) (m : Msg) :
    shown terminal m m.data.length 1 ++ held terminal m = output terminal m := by
  have hnewline : (ascii "\n").take 1 = ascii "\n" := rfl
  cases terminal <;> simp [shown, held, output, hnewline]

/-- A process that has ended has shown what it has received. -/
theorem stdout_of_ended (hp : ProcInv True sys k p) (hended : p.pc.Ended) :
    match p.got with
    | none => p.stdout = []
    | some m => ∃ terminal, (sys.programs k).Receives terminal ∧ p.stdout = output terminal m := by
  rcases hended with ⟨status, hpc⟩
  simp only [ProcInv, hpc] at hp
  rcases hp with ⟨hfresh, _⟩ | ⟨terminal, m, i, j, hshows, hbuffered, hall⟩
  · rw [hfresh.got]
    exact hfresh.stdout
  · rw [hshows.got]
    have hout := hshows.stdout
    rw [hbuffered, List.append_nil, (hall trivial).1, (hall trivial).2, output_eq] at hout
    exact ⟨terminal, hshows.receives, hout⟩

/-- What is received next is the oldest message of the highest priority. -/
theorem received_step (hs : Inv whole sys q s) (hwhole : whole → WritesWhole s (k, a))
    (h : step sys s (k, a) = some t) :
    t.received = s.received ∨ ∃ m queue, s.queue = m :: queue ∧
      t.received = s.received ++ [m] ∧ ∀ m' ∈ s.queue, m'.prio ≤ m.prio := by
  rcases advances_step (hs.proc k) hwhole h with ⟨p, -, -, heffect⟩
  cases heffect with
  | moves | sends => exact Or.inl rfl
  | receives hqueue hold hgot hgiven =>
      rename_i m queue
      refine Or.inr ⟨m, queue, hqueue, rfl, ?_⟩
      have hsorted := hs.sorted
      rw [hqueue, InOrder, List.pairwise_cons] at hsorted
      intro m' hm'
      rw [hqueue] at hm'
      rcases List.mem_cons.1 hm' with rfl | hm'
      · exact Nat.le_refl _
      · exact hsorted.1 m' hm'

/-- **Senders and receivers on one queue.**  They take no more than eight steps each, and
stop when each has ended or waits: receivers while there is no message, senders while
there is no room.  What has been sent, by the processes or before, has been received or
is still on the queue, and what has been received is what the processes hold.  The next
message received has the highest priority of all, and those of one priority are received
in the order in which they were sent.  If no `write()` falls short, each process has at
its end shown its message. -/
theorem sent_is_received_or_queued (sys : System n) (hq : Sound sys q) {ls : List (Fin n × Answer)}
    (h : exec (step sys) (start q) ls = some t) :
    (ls.length ≤ 8 * n ∧
      ((∀ l, ¬ Enabled (step sys) t l) ↔ ∀ k, (t.proc k).pc.Ended ∨ Waits sys t k)) ∧
    ((t.sent : Multiset Msg) = q + ∑ k, bag (given sys k (t.proc k)) ∧
      (t.received : Multiset Msg) = ∑ k, bag (t.proc k).got ∧
      (t.sent : Multiset Msg) = t.received + t.queue) ∧
    ((∀ prio, ofPrio prio t.sent = ofPrio prio t.received ++ ofPrio prio t.queue) ∧
      ∀ l u, step sys t l = some u → u.received = t.received ∨ ∃ m queue,
        t.queue = m :: queue ∧ u.received = t.received ++ [m] ∧
          ∀ m' ∈ t.queue, m'.prio ≤ m.prio) ∧
    (Along (step sys) WritesWhole (start q) ls → ∀ k, (t.proc k).pc.Ended →
      match (t.proc k).got with
      | none => (t.proc k).stdout = []
      | some m => ∃ terminal, (sys.programs k).Receives terminal ∧
          (t.proc k).stdout = output terminal m) := by
  have hkeep : ∀ s l t, Inv False sys q s → step sys s l = some t → Inv False sys q t :=
    fun _ _ _ hs hstep => inv_step hs False.elim hstep
  have hinv : Inv False sys q t :=
    Reachable.invariant hkeep (start_inv False hq) ⟨ls, h⟩
  refine ⟨⟨?_, stuck_iff hinv⟩, ⟨hinv.given, hinv.taken, ?_⟩, ⟨hinv.order, ?_⟩, ?_⟩
  · have hlen := exec_length_add_le hkeep
      (fun _ _ _ hs hstep => step_work hs False.elim hstep) (start_inv False hq) h
    have hstart : (start q : State n).work = n * 8 := by
      show ∑ _k : Fin n, 8 = n * 8
      rw [Finset.sum_const, Finset.card_univ, Fintype.card_fin, nsmul_eq_mul, Nat.cast_id]
    omega
  · -- a message is counted among those of its priority
    rw [Multiset.coe_add, Multiset.coe_eq_coe, List.perm_iff_count]
    intro m
    have hcount := congrArg (List.count m) (hinv.order m.prio)
    rw [List.count_append, ofPrio, ofPrio, ofPrio, List.count_filter (by simp),
      List.count_filter (by simp), List.count_filter (by simp)] at hcount
    rw [List.count_append]
    exact hcount
  · rintro ⟨k, a⟩ u hu
    exact received_step hinv False.elim hu
  · intro hwhole k hended
    have htrue : Inv True sys q t := invariant_along
      (fun _ _ _ hs hC hstep => inv_step hs (fun _ => hC) hstep) (start_inv True hq) hwhole h
    exact stdout_of_ended (htrue.proc k) hended

/-- One process sends `memo` with priority 12, another one receives it and writes to a
file, and a third one, where `opt` holds `n`, does not wait for a message. -/
def three : System 3 where
  name := ⟨ascii "/q", by decide⟩
  maxmsg := 10
  msgsize := 8192
  strerror := fun _ => ascii "error"
  programs := fun
    | 0 => .send ⟨ascii "pmsg_send", by decide⟩ [⟨ascii "/q", by decide⟩,
        ⟨ascii "memo", by decide⟩, ⟨ascii "12", by decide⟩]
    | 1 => .receive 0 false ⟨ascii "pmsg_receive", by decide⟩ [⟨ascii "/q", by decide⟩]
    | 2 => .receive 110 false ⟨ascii "pmsg_receive", by decide⟩
        [⟨ascii "-" ++ ascii "n", by decide⟩, ⟨ascii "/q", by decide⟩]

/-- The one receiver has left and the other one is waiting when the message comes. -/
def exchange : List (Fin 3 × Answer) :=
  [(2, .ok), (2, .ok), (2, .ok), (2, .ok), (1, .ok), (1, .ok), (1, .ok), (1, .ok), (2, .ok),
    (0, .ok), (0, .ok), (0, .ok), (1, .ok), (1, .wrote 4), (1, .wrote 1), (1, .ok)]

theorem sent_is_received_or_queued_exchange : ∃ t, exec (step three) (start []) exchange = some t ∧
    t.sent = [⟨0, 12, ascii "memo"⟩] ∧ (t.proc 2).pc = .exited .failure ∧
    (t.proc 1).stdout = ascii "memo\nRead 4 bytes; priority = 12\n" := by
  have hq : Sound three [] := ⟨List.Pairwise.nil, Nat.zero_le _, by simp⟩
  rcases exists_exec (step three) (fun t => t.sent = [⟨0, 12, ascii "memo"⟩] ∧
    (t.proc 2).pc = .exited .failure ∧ (t.proc 1).got = some ⟨0, 12, ascii "memo"⟩ ∧
    (t.proc 1).pc = .exited .success) (start []) exchange (by decide)
    with ⟨t, ht, hsent, hleft, hgot, hpc⟩
  have hshown := (sent_is_received_or_queued three hq ht).2.2.2 (by decide) 1 ⟨_, hpc⟩
  rw [hgot] at hshown
  rcases hshown with ⟨terminal, ⟨opt, program, argv, hprogram⟩, hout⟩
  have hfile : terminal = false := by
    cases hprogram
    rfl
  rw [hfile] at hout
  exact ⟨t, ht, hsent, hleft, hout.trans (by decide)⟩

end Lpi.Ports.PmsgTransfer
