import Lpi.Ports.PipeSync
import Lpi.Verified.Pieces

/-!
# A string through a pipe (`pipes/simple_pipe.c`)

The parent writes its argument to a pipe, closes it and waits for its child, which
copies what it reads from the pipe to standard output and then writes a newline.

A pipe has room for `cap` bytes.  The `write()` of the parent blocks until it has
got rid of all its bytes, some at a time, so the child may read in the middle of
it; a `read()` gives the end of the pipe once nobody has the write end open.  The
order of the two processes is arbitrary, and any call may fail.

What is on standard output, in the buffer of the child and in the pipe makes up
what the parent has written so far (`ChildInv`).  That both programs come to an end
rests on the descriptors: the write end is open in the parent only until it has
written, and in the child not when it reads (`progress`).
-/

namespace Lpi.Ports.SimplePipe

open Lpi.Verified.CData
open Lpi.Verified.CString
open Lpi.Verified.Pieces
open Lpi.Verified.Run
open Lpi.Ports.PipeSync (Fds helpOption)

/-! ## State -/

/-- `BUFFER_SIZE`. -/
def bufferSize : Nat := 10

/-- Where the parent is. -/
inductive ParentPc where
  | checkArgs
  | pipe
  | fork
  | closeRead
  /-- In `write(fd[1], argv[1], strlen(argv[1]))`. -/
  | write
  | closeWrite
  | wait
  | exited (status : Exit)
  /-- By `SIGPIPE`. -/
  | killed
  deriving DecidableEq, Repr

/-- Where the child is. -/
inductive ChildPc where
  | notForked
  | closeWrite
  | read
  | write
  | newline
  /-- `if (numRead == -1)`. -/
  | testRead
  | closeRead
  /-- `_exit(EXIT_SUCCESS)`. -/
  | exit
  | exited (status : Exit)
  deriving DecidableEq, Repr

/-- Both processes, the bytes in the pipe and their standard output.  `sent` are
the bytes the `write()` of the parent has got rid of; `numRead` and `buffer` are
those of the child. -/
structure State where
  parent : ParentPc
  fds : Fds
  sent : Nat
  child : ChildPc
  childFds : Fds
  numRead : Int
  buffer : Buffer bufferSize
  pipe : List UInt8
  stdout : List UInt8
  deriving DecidableEq

/-- The results of the calls of the parent: `copied` for bytes that a `write()`
moves to the pipe before it returns. -/
inductive ParentAnswer where
  | ok
  | err
  | copied (n : Nat)
  | sigpipe
  deriving DecidableEq, Repr

/-- The results of the calls of the child: `count` for what is read or written. -/
inductive ChildAnswer where
  | ok
  | err
  | count (n : Nat)
  deriving DecidableEq, Repr

inductive Label where
  | parent (a : ParentAnswer)
  | child (a : ChildAnswer)
  deriving DecidableEq, Repr

/-! ## Steps -/

def State.writeHeld (s : State) : Bool := s.fds.writeEnd || s.childFds.writeEnd

def State.readHeld (s : State) : Bool := s.fds.readEnd || s.childFds.readEnd

/-- The end of the parent closes its descriptors. -/
def State.parentEnd (s : State) (pc : ParentPc) : State :=
  { s with parent := pc, fds := .closed }

def State.childEnd (s : State) (status : Exit) : State :=
  { s with child := .exited status, childFds := .closed }

/-- `argv[1]`, if there is just that. -/
def argument : List CStr → Option CStr
  | [arg] => if arg.bytes = helpOption then none else some arg
  | _ => none

/-- The next step of the parent; `arg` is `argv[1]`. -/
def parentStep (cap : Nat) (args : List CStr) (s : State) : ParentAnswer → Option State
  | .ok =>
    match s.parent with
    | .checkArgs =>
      match argument args with
      | none => some (s.parentEnd (.exited .failure))
      | some _ => some { s with parent := .pipe }
    | .pipe => some { s with fds := .both, parent := .fork }
    | .fork => some
        { s with child := .closeWrite, childFds := s.fds, parent := .closeRead }
    | .closeRead => some
        (if s.fds.readEnd then
          { s with fds := { s.fds with readEnd := false }, parent := .write }
        else s.parentEnd (.exited .failure))
    | .write => (argument args).bind fun arg =>
        if s.sent = arg.bytes.length then some { s with parent := .closeWrite } else none
    | .closeWrite => some
        (if s.fds.writeEnd then
          { s with fds := { s.fds with writeEnd := false }, parent := .wait }
        else s.parentEnd (.exited .failure))
    | .wait =>
      match s.child with
      | .exited _ => some (s.parentEnd (.exited .success))
      | _ => none
    | .exited _ | .killed => none
  | .err =>
    match s.parent with
    | .pipe | .fork | .closeRead | .closeWrite | .wait => some (s.parentEnd (.exited .failure))
    | .write => (argument args).bind fun arg =>
        if s.sent < arg.bytes.length then some (s.parentEnd (.exited .failure)) else none
    | .checkArgs | .exited _ | .killed => none
  | .copied n =>
    match s.parent with
    | .write => (argument args).bind fun arg =>
        if 0 < n ∧ s.sent + n ≤ arg.bytes.length ∧ s.pipe.length + n ≤ cap ∧ s.readHeld then
          some { s with
            pipe := s.pipe ++ (arg.bytes.drop s.sent).take n
            sent := s.sent + n }
        else none
    | _ => none
  | .sigpipe =>
    match s.parent with
    | .write => (argument args).bind fun arg =>
        if s.sent < arg.bytes.length ∧ s.readHeld = false then some (s.parentEnd .killed)
        else none
    | _ => none

/-- The next step of the child. -/
def childStep (s : State) : ChildAnswer → Option State
  | .ok =>
    match s.child with
    | .closeWrite => some
        (if s.childFds.writeEnd then
          { s with childFds := { s.childFds with writeEnd := false }, child := .read }
        else s.childEnd .failure)
    | .testRead => some
        (if s.numRead = -1 then s.childEnd .failure else { s with child := .closeRead })
    | .closeRead => some
        (if s.childFds.readEnd then
          { s with childFds := { s.childFds with readEnd := false }, child := .exit }
        else s.childEnd .failure)
    | .exit => some (s.childEnd .success)
    | .notForked | .read | .write | .newline | .exited _ => none
  | .err =>
    match s.child with
    | .closeWrite | .write | .closeRead => some (s.childEnd .failure)
    | .read => some { s with numRead := -1, child := .newline }
    | .newline => some { s with child := .testRead }
    | .notForked | .testRead | .exit | .exited _ => none
  | .count n =>
    match s.child with
    | .read =>
        if n ≤ bufferSize ∧ n ≤ s.pipe.length ∧ (n = 0 → s.pipe = [] ∧ s.writeHeld = false) then
          some { s with
            numRead := n
            buffer := s.buffer.fill (s.pipe.take n)
            pipe := s.pipe.drop n
            child := if 0 < n then .write else .newline }
        else none
    | .write =>
        if (n : Int) ≤ s.numRead then
          let t := { s with stdout := s.stdout ++ s.buffer.bytes.take n }
          some (if (n : Int) ≠ s.numRead then t.childEnd .failure else { t with child := .read })
        else none
    | .newline =>
        if n ≤ 1 then
          some { s with stdout := s.stdout ++ (ascii "\n").take n, child := .testRead }
        else none
    | _ => none

/-- One step of one of the processes. -/
def step (cap : Nat) (args : List CStr) (s : State) : Label → Option State
  | .parent a => parentStep cap args s a
  | .child a => childStep s a

/-- The parent is about to look at its arguments; its variables have no values of
the program yet. -/
def start (buffer : Buffer bufferSize) (numRead : Int) : State where
  parent := .checkArgs
  fds := .closed
  sent := 0
  child := .notForked
  childFds := .closed
  numRead := numRead
  buffer := buffer
  pipe := []
  stdout := []

/-! ## The invariant -/

/-- What the child has written when it leaves its loop: all that the parent has
written, unless a `read()` has failed. -/
def LoopDone (arg : List UInt8) (s : State) (out : List UInt8) : Prop :=
  out <+: arg.take s.sent ∧
    (s.numRead = -1 ∨ s.numRead = 0 ∧ out = arg.take s.sent ∧ s.fds.writeEnd = false)

/-- The newline was written after the loop, or the `write()` of it has failed. -/
def Closing (arg : List UInt8) (s : State) : Prop :=
  ∃ out, LoopDone arg s out ∧ (s.stdout = out ∨ s.stdout = out ++ ascii "\n")

/-- The descriptors of the child, and where the bytes are that the parent has
written. -/
def ChildInv (arg : List UInt8) (s : State) : Prop :=
  match s.child with
  | .notForked => s.childFds = .closed ∧ s.stdout = [] ∧ s.pipe = [] ∧ s.sent = 0
  | .closeWrite => s.childFds = .both ∧ s.stdout ++ s.pipe = arg.take s.sent
  | .read => s.childFds = ⟨true, false⟩ ∧ s.stdout ++ s.pipe = arg.take s.sent
  | .write => s.childFds = ⟨true, false⟩ ∧ 0 < s.numRead ∧
      s.stdout ++ (s.buffer.bytes.take s.numRead.toNat ++ s.pipe) = arg.take s.sent
  | .newline => s.childFds = ⟨true, false⟩ ∧ LoopDone arg s s.stdout
  | .testRead => s.childFds = ⟨true, false⟩ ∧ Closing arg s
  | .closeRead => s.childFds = ⟨true, false⟩ ∧ Closing arg s ∧ s.numRead ≠ -1
  | .exit | .exited .success => s.childFds = .closed ∧ Closing arg s ∧ s.numRead ≠ -1
  | .exited .failure => s.childFds = .closed ∧ ∃ out, out <+: arg.take s.sent ∧
      (s.stdout = out ∨ s.stdout = out ++ ascii "\n")

/-- The descriptors of the parent and what it has got rid of. -/
def ParentInv (arg : List UInt8) (s : State) : Prop :=
  match s.parent with
  | .checkArgs | .pipe => s.child = .notForked ∧ s.fds = .closed
  | .fork => s.child = .notForked ∧ s.fds = .both
  | .closeRead => s.child ≠ .notForked ∧ s.fds = .both
  | .write => s.child ≠ .notForked ∧ s.fds = ⟨false, true⟩
  | .closeWrite => s.child ≠ .notForked ∧ s.fds = ⟨false, true⟩ ∧ s.sent = arg.length
  | .wait => s.child ≠ .notForked ∧ s.fds = .closed ∧ s.sent = arg.length
  | .exited .success => s.fds = .closed ∧ s.sent = arg.length ∧ ∃ status, s.child = .exited status
  | .exited .failure | .killed => s.fds = .closed

structure Inv (arg : List UInt8) (s : State) : Prop where
  sent : s.sent ≤ arg.length
  parent : ParentInv arg s
  child : ChildInv arg s

theorem start_inv (arg : List UInt8) (buffer : Buffer bufferSize) (numRead : Int) :
    Inv arg (start buffer numRead) :=
  ⟨Nat.zero_le _, ⟨rfl, rfl⟩, rfl, rfl, rfl, rfl⟩

variable {cap : Nat} {args : List CStr} {arg : CStr} {bs : List UInt8} {s t : State}

/-! ## What a step can do -/

/-- The steps of the parent.  Neither `close()` finds its descriptor closed. -/
inductive ParentStep (cap : Nat) (bs : List UInt8) (s : State) : ParentAnswer → State → Prop
  | checked (hpc : s.parent = .checkArgs) : ParentStep cap bs s .ok { s with parent := .pipe }
  | piped (hpc : s.parent = .pipe) :
      ParentStep cap bs s .ok { s with fds := .both, parent := .fork }
  | forked (hpc : s.parent = .fork) : ParentStep cap bs s .ok
      { s with child := .closeWrite, childFds := s.fds, parent := .closeRead }
  | closedRead (hpc : s.parent = .closeRead) : ParentStep cap bs s .ok
      { s with fds := { s.fds with readEnd := false }, parent := .write }
  | written (hpc : s.parent = .write) (hsent : s.sent = bs.length) :
      ParentStep cap bs s .ok { s with parent := .closeWrite }
  | closedWrite (hpc : s.parent = .closeWrite) : ParentStep cap bs s .ok
      { s with fds := { s.fds with writeEnd := false }, parent := .wait }
  | waited {status : Exit} (hpc : s.parent = .wait) (hchild : s.child = .exited status) :
      ParentStep cap bs s .ok (s.parentEnd (.exited .success))
  | failed (hpc : s.parent ∈ [.pipe, .fork, .closeRead, .write, .closeWrite, .wait]) :
      ParentStep cap bs s .err (s.parentEnd (.exited .failure))
  | copied {n : Nat} (hpc : s.parent = .write) (hn : 0 < n) (hsent : s.sent + n ≤ bs.length)
      (hcap : s.pipe.length + n ≤ cap) : ParentStep cap bs s (.copied n) { s with
        pipe := s.pipe ++ (bs.drop s.sent).take n
        sent := s.sent + n }
  | killed (hpc : s.parent = .write) (hread : s.readHeld = false) :
      ParentStep cap bs s .sigpipe (s.parentEnd .killed)

/-- The steps of the child. -/
inductive ChildStep (s : State) : ChildAnswer → State → Prop
  | closedWrite (hpc : s.child = .closeWrite) : ChildStep s .ok
      { s with childFds := { s.childFds with writeEnd := false }, child := .read }
  | readSome {n : Nat} (hpc : s.child = .read) (hn : 0 < n) (hcap : n ≤ bufferSize)
      (hlen : n ≤ s.pipe.length) : ChildStep s (.count n) { s with
        numRead := n
        buffer := s.buffer.fill (s.pipe.take n)
        pipe := s.pipe.drop n
        child := .write }
  | readEnd (hpc : s.child = .read) (hpipe : s.pipe = []) (hheld : s.writeHeld = false) :
      ChildStep s (.count 0) { s with
        numRead := 0, buffer := s.buffer.fill [], child := .newline }
  | readFailed (hpc : s.child = .read) :
      ChildStep s .err { s with numRead := -1, child := .newline }
  | wrote {n : Nat} (hpc : s.child = .write) (hn : (n : Int) = s.numRead) :
      ChildStep s (.count n) { s with
        stdout := s.stdout ++ s.buffer.bytes.take n, child := .read }
  | wroteLess {n : Nat} (hpc : s.child = .write) (hn : (n : Int) < s.numRead) :
      ChildStep s (.count n)
        (State.childEnd { s with stdout := s.stdout ++ s.buffer.bytes.take n } .failure)
  | ended {n : Nat} (hpc : s.child = .newline) (hn : n ≤ 1) : ChildStep s (.count n)
      { s with stdout := s.stdout ++ (ascii "\n").take n, child := .testRead }
  | notEnded (hpc : s.child = .newline) : ChildStep s .err { s with child := .testRead }
  | wasRead (hpc : s.child = .testRead) (hread : s.numRead ≠ -1) :
      ChildStep s .ok { s with child := .closeRead }
  | wasNotRead (hpc : s.child = .testRead) (hread : s.numRead = -1) :
      ChildStep s .ok (s.childEnd .failure)
  | closedRead (hpc : s.child = .closeRead) : ChildStep s .ok
      { s with childFds := { s.childFds with readEnd := false }, child := .exit }
  | exited (hpc : s.child = .exit) : ChildStep s .ok (s.childEnd .success)
  | failed (hpc : s.child ∈ [.closeWrite, .write, .closeRead]) :
      ChildStep s .err (s.childEnd .failure)

theorem Inv.parentStep_cases (h : Inv arg.bytes s) (hargs : argument args = some arg)
    {a : ParentAnswer} (hstep : parentStep cap args s a = some t) :
    ParentStep cap arg.bytes s a t := by
  have hparent := h.parent
  cases a with
  | ok =>
      cases hpc : s.parent with
      | checkArgs =>
          simp only [parentStep, hpc, hargs, Option.some.injEq] at hstep
          exact hstep ▸ .checked hpc
      | pipe =>
          simp only [parentStep, hpc, Option.some.injEq] at hstep
          exact hstep ▸ .piped hpc
      | fork =>
          simp only [parentStep, hpc, Option.some.injEq] at hstep
          exact hstep ▸ .forked hpc
      | closeRead =>
          simp only [ParentInv, hpc] at hparent
          have hfd : s.fds.readEnd = true := by rw [hparent.2]; rfl
          simp only [parentStep, hpc, hfd, if_true, Option.some.injEq] at hstep
          exact hstep ▸ .closedRead hpc
      | write =>
          simp only [parentStep, hpc, hargs, Option.bind_some,
            Option.ite_none_right_eq_some, Option.some.injEq] at hstep
          exact hstep.2 ▸ .written hpc hstep.1
      | closeWrite =>
          simp only [ParentInv, hpc] at hparent
          have hfd : s.fds.writeEnd = true := by rw [hparent.2.1]
          simp only [parentStep, hpc, hfd, if_true, Option.some.injEq] at hstep
          exact hstep ▸ .closedWrite hpc
      | wait =>
          simp only [parentStep, hpc] at hstep
          split at hstep
          · rename_i status hchild
            exact Option.some.inj hstep ▸ .waited hpc hchild
          · cases hstep
      | exited status => simp [parentStep, hpc] at hstep
      | killed => simp [parentStep, hpc] at hstep
  | err =>
      cases hpc : s.parent with
      | pipe | fork | closeRead | closeWrite | wait =>
          simp only [parentStep, hpc, Option.some.injEq] at hstep
          exact hstep ▸ .failed (by simp [hpc])
      | write =>
          simp only [parentStep, hpc, hargs, Option.bind_some,
            Option.ite_none_right_eq_some, Option.some.injEq] at hstep
          exact hstep.2 ▸ .failed (by simp [hpc])
      | checkArgs | exited status | killed => simp [parentStep, hpc] at hstep
  | copied n =>
      simp only [parentStep] at hstep
      split at hstep
      · rename_i hpc
        simp only [hargs, Option.bind_some, Option.ite_none_right_eq_some,
          Option.some.injEq] at hstep
        rcases hstep with ⟨⟨hn, hsent, hcap, _⟩, rfl⟩
        exact .copied hpc hn hsent hcap
      · cases hstep
  | sigpipe =>
      simp only [parentStep] at hstep
      split at hstep
      · rename_i hpc
        simp only [hargs, Option.bind_some, Option.ite_none_right_eq_some,
          Option.some.injEq] at hstep
        rcases hstep with ⟨⟨_, hread⟩, rfl⟩
        exact .killed hpc hread
      · cases hstep

theorem Inv.childStep_cases (h : Inv bs s) {a : ChildAnswer} (hstep : childStep s a = some t) :
    ChildStep s a t := by
  have hchild := h.child
  cases a with
  | ok =>
      cases hpc : s.child with
      | closeWrite =>
          simp only [ChildInv, hpc] at hchild
          have hfd : s.childFds.writeEnd = true := by rw [hchild.1]; rfl
          simp only [childStep, hpc, hfd, if_true, Option.some.injEq] at hstep
          exact hstep ▸ .closedWrite hpc
      | testRead =>
          simp only [childStep, hpc, Option.some.injEq] at hstep
          by_cases hread : s.numRead = -1
          · rw [if_pos hread] at hstep
            exact hstep ▸ .wasNotRead hpc hread
          · rw [if_neg hread] at hstep
            exact hstep ▸ .wasRead hpc hread
      | closeRead =>
          simp only [ChildInv, hpc] at hchild
          have hfd : s.childFds.readEnd = true := by rw [hchild.1]
          simp only [childStep, hpc, hfd, if_true, Option.some.injEq] at hstep
          exact hstep ▸ .closedRead hpc
      | exit =>
          simp only [childStep, hpc, Option.some.injEq] at hstep
          exact hstep ▸ .exited hpc
      | notForked | read | write | newline | exited status =>
          simp [childStep, hpc] at hstep
  | err =>
      cases hpc : s.child with
      | closeWrite | write | closeRead =>
          simp only [childStep, hpc, Option.some.injEq] at hstep
          exact hstep ▸ .failed (by simp [hpc])
      | read =>
          simp only [childStep, hpc, Option.some.injEq] at hstep
          exact hstep ▸ .readFailed hpc
      | newline =>
          simp only [childStep, hpc, Option.some.injEq] at hstep
          exact hstep ▸ .notEnded hpc
      | notForked | testRead | exit | exited status =>
          simp [childStep, hpc] at hstep
  | count n =>
      cases hpc : s.child with
      | read =>
          simp only [childStep, hpc, Option.ite_none_right_eq_some,
            Option.some.injEq] at hstep
          rcases hstep with ⟨⟨hcap, hlen, hend⟩, rfl⟩
          rcases Nat.eq_zero_or_pos n with rfl | hn
          · have hstep := ChildStep.readEnd hpc (hend rfl).1 (hend rfl).2
            simpa [(hend rfl).1] using hstep
          · rw [if_pos hn]
            exact .readSome hpc hn hcap hlen
      | write =>
          simp only [childStep, hpc, Option.ite_none_right_eq_some,
            Option.some.injEq] at hstep
          rcases hstep with ⟨hle, rfl⟩
          by_cases hn : (n : Int) = s.numRead
          · rw [if_neg (not_not.2 hn)]
            exact .wrote hpc hn
          · rw [if_pos hn]
            exact .wroteLess hpc (by omega)
      | newline =>
          simp only [childStep, hpc, Option.ite_none_right_eq_some,
            Option.some.injEq] at hstep
          exact hstep.2 ▸ .ended hpc hstep.1
      | notForked | closeWrite | testRead | closeRead | exit | exited status =>
          simp [childStep, hpc] at hstep

/-! ## Steps of the parent -/

theorem LoopDone.with_fds {out : List UInt8} {pc : ParentPc} {fds : Fds}
    (h : LoopDone bs s out) (hfds : s.fds.writeEnd = false → fds.writeEnd = false) :
    LoopDone bs { s with parent := pc, fds := fds } out := by
  refine ⟨h.1, h.2.imp_right ?_⟩
  intro hzero
  exact ⟨hzero.1, hzero.2.1, hfds hzero.2.2⟩

/-- The parent does something else than a `write()`, and does not open the write
end again. -/
theorem ChildInv.with_fds {pc : ParentPc} {fds : Fds} (h : ChildInv bs s)
    (hfds : s.fds.writeEnd = false → fds.writeEnd = false) :
    ChildInv bs { s with parent := pc, fds := fds } := by
  have hloop : ∀ out, LoopDone bs s out → LoopDone bs { s with parent := pc, fds := fds } out :=
    fun _ hdone => hdone.with_fds hfds
  have hclosing : Closing bs s → Closing bs { s with parent := pc, fds := fds } := by
    rintro ⟨out, hdone, hout⟩
    exact ⟨out, hloop out hdone, hout⟩
  unfold ChildInv at h ⊢
  cases hpc : s.child with
  | notForked | closeWrite | read | write => simpa only [hpc] using h
  | newline =>
      simp only [hpc] at h ⊢
      exact ⟨h.1, hloop _ h.2⟩
  | testRead =>
      simp only [hpc] at h ⊢
      exact ⟨h.1, hclosing h.2⟩
  | closeRead | exit =>
      simp only [hpc] at h ⊢
      exact ⟨h.1, hclosing h.2.1, h.2.2⟩
  | exited status =>
      cases status with
      | success =>
          simp only [hpc] at h ⊢
          exact ⟨h.1, hclosing h.2.1, h.2.2⟩
      | failure => simpa only [hpc] using h

/-- What the parent writes next follows what it has written. -/
private theorem take_add_drop (bs : List UInt8) (m n : Nat) :
    bs.take m ++ (bs.drop m).take n = bs.take (m + n) := by
  rw [List.take_add]

theorem LoopDone.copied {out : List UInt8} {n : Nat} (h : LoopDone bs s out)
    (hheld : s.fds.writeEnd = true) :
    LoopDone bs { s with
      pipe := s.pipe ++ (bs.drop s.sent).take n, sent := s.sent + n } out := by
  rcases h with ⟨hpre, hread | ⟨_, _, hclosed⟩⟩
  · exact ⟨hpre.trans (List.take_prefix_take_left (Nat.le_add_right _ _)), Or.inl hread⟩
  · rw [hheld] at hclosed
    cases hclosed

/-- Whatever the child does meanwhile, bytes that the parent writes come after all
others. -/
theorem ChildInv.copied {n : Nat} (h : ChildInv bs s) (hheld : s.fds.writeEnd = true)
    (hforked : s.child ≠ .notForked) :
    ChildInv bs { s with
      pipe := s.pipe ++ (bs.drop s.sent).take n, sent := s.sent + n } := by
  have hclosing : Closing bs s → Closing bs { s with
      pipe := s.pipe ++ (bs.drop s.sent).take n, sent := s.sent + n } := by
    rintro ⟨out, hdone, hout⟩
    exact ⟨out, hdone.copied hheld, hout⟩
  unfold ChildInv at h ⊢
  cases hpc : s.child with
  | notForked => exact absurd hpc hforked
  | closeWrite | read =>
      simp only [hpc] at h ⊢
      exact ⟨h.1, by rw [← List.append_assoc, h.2, take_add_drop]⟩
  | write =>
      simp only [hpc] at h ⊢
      refine ⟨h.1, h.2.1, ?_⟩
      rw [← take_add_drop, ← h.2.2]
      simp only [List.append_assoc]
  | newline =>
      simp only [hpc] at h ⊢
      exact ⟨h.1, h.2.copied hheld⟩
  | testRead =>
      simp only [hpc] at h ⊢
      exact ⟨h.1, hclosing h.2⟩
  | closeRead | exit =>
      simp only [hpc] at h ⊢
      exact ⟨h.1, hclosing h.2.1, h.2.2⟩
  | exited status =>
      cases status with
      | success =>
          simp only [hpc] at h ⊢
          exact ⟨h.1, hclosing h.2.1, h.2.2⟩
      | failure =>
          simp only [hpc] at h ⊢
          rcases h with ⟨hfds, out, hpre, hout⟩
          exact ⟨hfds, out, hpre.trans (List.take_prefix_take_left (Nat.le_add_right _ _)), hout⟩

theorem Inv.parent_step {a : ParentAnswer} (h : Inv bs s) (hstep : ParentStep cap bs s a t) :
    Inv bs t := by
  have hparent := h.parent
  have hchild := h.child
  cases hstep with
  | checked hpc =>
      simp only [ParentInv, hpc] at hparent
      exact ⟨h.sent, hparent, hchild.with_fds id⟩
  | piped hpc =>
      simp only [ParentInv, hpc] at hparent
      simp only [ChildInv, hparent.1] at hchild
      exact ⟨h.sent, ⟨hparent.1, rfl⟩, by simpa only [ChildInv, hparent.1] using hchild⟩
  | forked hpc =>
      simp only [ParentInv, hpc] at hparent
      simp only [ChildInv, hparent.1] at hchild
      refine ⟨h.sent, ⟨by simp, hparent.2⟩, hparent.2, ?_⟩
      rw [hchild.2.1, hchild.2.2.1, hchild.2.2.2]
      rfl
  | closedRead hpc =>
      simp only [ParentInv, hpc] at hparent
      exact ⟨h.sent, ⟨hparent.1, by rw [hparent.2]; rfl⟩, hchild.with_fds id⟩
  | written hpc hsent =>
      simp only [ParentInv, hpc] at hparent
      exact ⟨h.sent, ⟨hparent.1, hparent.2, hsent⟩, hchild.with_fds id⟩
  | closedWrite hpc =>
      simp only [ParentInv, hpc] at hparent
      exact ⟨h.sent, ⟨hparent.1, by rw [hparent.2.1]; rfl, hparent.2.2⟩,
        hchild.with_fds fun _ => rfl⟩
  | waited hpc hexited =>
      simp only [ParentInv, hpc] at hparent
      exact ⟨h.sent, ⟨rfl, hparent.2.2, _, hexited⟩, hchild.with_fds fun _ => rfl⟩
  | failed hpc | killed hpc => exact ⟨h.sent, rfl, hchild.with_fds fun _ => rfl⟩
  | copied hpc hn hsent hcap =>
      simp only [ParentInv, hpc] at hparent
      have hheld : s.fds.writeEnd = true := by rw [hparent.2]
      refine ⟨hsent, ?_, hchild.copied hheld hparent.1⟩
      simpa only [ParentInv, hpc] using hparent

/-! ## Steps of the child -/

/-- The parent does not look at the child before it has ended. -/
theorem ParentInv.of_child (h : ParentInv bs s) (hforked : s.child ≠ .notForked)
    (hrunning : ∀ status, s.child ≠ .exited status) (hsame : t.parent = s.parent ∧ t.fds = s.fds ∧
      t.sent = s.sent) (hto : t.child ≠ .notForked) : ParentInv bs t := by
  unfold ParentInv at h ⊢
  rw [hsame.1, hsame.2.1, hsame.2.2]
  cases hpc : s.parent with
  | checkArgs | pipe | fork =>
      simp only [hpc] at h
      exact absurd h.1 hforked
  | closeRead | write | closeWrite | wait =>
      simp only [hpc] at h ⊢
      exact ⟨hto, h.2⟩
  | exited status =>
      cases status with
      | success =>
          simp only [hpc] at h
          rcases h with ⟨_, _, status, hexited⟩
          exact absurd hexited (hrunning status)
      | failure => simpa only [hpc] using h
  | killed => simpa only [hpc] using h

private theorem prefix_of_append {out rest whole : List UInt8} (h : out ++ rest = whole) :
    out <+: whole := ⟨rest, h⟩

/-- Only a child that runs moves, and it has no effect on the parent. -/
theorem ChildStep.same {a : ChildAnswer} (hstep : ChildStep s a t) :
    s.child ≠ .notForked ∧ (∀ status, s.child ≠ .exited status) ∧
      (t.parent = s.parent ∧ t.fds = s.fds ∧ t.sent = s.sent) ∧ t.child ≠ .notForked := by
  cases hstep with
  | failed hpc =>
      refine ⟨?_, ?_, ⟨rfl, rfl, rfl⟩, by simp [State.childEnd]⟩
      · intro hchild
        simp [hchild] at hpc
      · intro status hchild
        simp [hchild] at hpc
  | closedWrite hpc | readSome hpc | readEnd hpc | readFailed hpc | wrote hpc | wroteLess hpc
  | ended hpc | notEnded hpc | wasRead hpc | wasNotRead hpc | closedRead hpc | exited hpc =>
      simp [hpc, State.childEnd]

theorem Inv.child_step {a : ChildAnswer} (h : Inv bs s) (hstep : ChildStep s a t) : Inv bs t := by
  have hchild := h.child
  rcases hstep.same with ⟨hforked, hrunning, hsame, hto⟩
  refine ⟨hsame.2.2 ▸ h.sent, h.parent.of_child hforked hrunning hsame hto, ?_⟩
  cases hstep with
  | closedWrite hpc =>
      simp only [ChildInv, hpc] at hchild
      exact ⟨by rw [hchild.1]; rfl, hchild.2⟩
  | @readSome n hpc hn hcap hlen =>
      simp only [ChildInv, hpc] at hchild
      refine ⟨hchild.1, Int.natCast_pos.2 hn, ?_⟩
      simp only [Int.toNat_natCast]
      rw [Buffer.take_fill_take _ hcap hlen, List.take_append_drop, hchild.2]
  | readEnd hpc hpipe hheld =>
      simp only [ChildInv, hpc, hpipe, List.append_nil] at hchild
      have hclosed : s.fds.writeEnd = false := (Bool.or_eq_false_iff.1 hheld).1
      exact ⟨hchild.1, hchild.2 ▸ List.prefix_refl _, Or.inr ⟨rfl, hchild.2, hclosed⟩⟩
  | readFailed hpc =>
      simp only [ChildInv, hpc] at hchild
      exact ⟨hchild.1, prefix_of_append hchild.2, Or.inl rfl⟩
  | @wrote n hpc hn =>
      simp only [ChildInv, hpc, ← hn, Int.toNat_natCast] at hchild
      exact ⟨hchild.1, by rw [List.append_assoc, hchild.2.2]⟩
  | @wroteLess n hpc hn =>
      simp only [ChildInv, hpc] at hchild
      refine ⟨rfl, s.stdout ++ s.buffer.bytes.take n, ?_, Or.inl rfl⟩
      have hle : n ≤ s.numRead.toNat := by omega
      have hpre : s.buffer.bytes.take n <+: s.buffer.bytes.take s.numRead.toNat ++ s.pipe :=
        (List.take_prefix_take_left hle).trans (List.prefix_append _ _)
      show s.stdout ++ s.buffer.bytes.take n <+: bs.take s.sent
      rw [← hchild.2.2]
      exact (List.prefix_append_right_inj _).2 hpre
  | @ended n hpc hn =>
      simp only [ChildInv, hpc] at hchild
      refine ⟨hchild.1, s.stdout, hchild.2, ?_⟩
      have hcases : n = 0 ∨ n = 1 := by omega
      rcases hcases with rfl | rfl
      · exact Or.inl (List.append_nil _)
      · exact Or.inr rfl
  | notEnded hpc =>
      simp only [ChildInv, hpc] at hchild
      exact ⟨hchild.1, s.stdout, hchild.2, Or.inl rfl⟩
  | wasRead hpc hread =>
      simp only [ChildInv, hpc] at hchild
      exact ⟨hchild.1, hchild.2, hread⟩
  | wasNotRead hpc hread =>
      simp only [ChildInv, hpc] at hchild
      rcases hchild.2 with ⟨out, hdone, hout⟩
      exact ⟨rfl, out, hdone.1, hout⟩
  | closedRead hpc =>
      simp only [ChildInv, hpc] at hchild
      exact ⟨by rw [hchild.1]; rfl, hchild.2⟩
  | exited hpc =>
      simp only [ChildInv, hpc] at hchild
      exact ⟨rfl, hchild.2⟩
  | failed hpc =>
      simp only [List.mem_cons, List.not_mem_nil, or_false] at hpc
      rcases hpc with hpc | hpc | hpc
      · simp only [ChildInv, hpc] at hchild
        exact ⟨rfl, s.stdout, prefix_of_append hchild.2, Or.inl rfl⟩
      · simp only [ChildInv, hpc] at hchild
        exact ⟨rfl, s.stdout, prefix_of_append hchild.2.2, Or.inl rfl⟩
      · simp only [ChildInv, hpc] at hchild
        rcases hchild.2.1 with ⟨out, hdone, hout⟩
        exact ⟨rfl, out, hdone.1, hout⟩

theorem Inv.next {l : Label} (hargs : argument args = some arg) (h : Inv arg.bytes s)
    (hstep : step cap args s l = some t) : Inv arg.bytes t := by
  cases l with
  | parent a => exact h.parent_step (h.parentStep_cases hargs hstep)
  | child a => exact h.child_step (h.childStep_cases hstep)

/-! ## Progress -/

/-- The parent has ended, and the child too if there is one. -/
def State.Ended (s : State) : Prop :=
  ((∃ status, s.parent = .exited status) ∨ s.parent = .killed) ∧
    (s.child = .notForked ∨ ∃ status, s.child = .exited status)

/-- A call fails, or writes less than it was asked to. -/
def Fails (s : State) : Label → Prop
  | .parent .err | .child .err => True
  | .child (.count n) => s.child = .write ∧ (n : Int) ≠ s.numRead ∨ s.child = .newline ∧ n ≠ 1
  | .parent _ | .child .ok => False

instance : ∀ s l, Decidable (Fails s l)
  | _, .parent .err | _, .child .err => isTrue trivial
  | s, .child (.count n) => inferInstanceAs
      (Decidable (s.child = .write ∧ (n : Int) ≠ s.numRead ∨ s.child = .newline ∧ n ≠ 1))
  | _, .parent .ok | _, .parent (.copied _) | _, .parent .sigpipe | _, .child .ok =>
      isFalse not_false

/-- Some process can go on without a failure. -/
def CanMove (cap : Nat) (args : List CStr) (s : State) : Prop :=
  ∃ l, ¬ Fails s l ∧ Enabled (step cap args) s l

theorem canMove_parent {a : ParentAnswer} (ha : a ≠ .err)
    (h : (parentStep cap args s a).isSome = true) : CanMove cap args s := by
  refine ⟨.parent a, ?_, enabled_iff.2 h⟩
  cases a with
  | err => exact absurd rfl ha
  | ok | copied n | sigpipe => exact not_false

theorem canMove_child (h : (childStep s .ok).isSome = true) : CanMove cap args s :=
  ⟨.child .ok, not_false, enabled_iff.2 h⟩

/-- A child that runs can move, or it waits for the parent. -/
theorem Inv.child_moves (h : Inv bs s) (hforked : s.child ≠ .notForked)
    (hrunning : ∀ status, s.child ≠ .exited status) :
    CanMove cap args s ∨ s.child = .read ∧ s.pipe = [] ∧ s.fds.writeEnd = true := by
  have hchild := h.child
  cases hpc : s.child with
  | notForked => exact absurd hpc hforked
  | exited status => exact absurd hpc (hrunning status)
  | closeWrite | testRead | closeRead | exit =>
      exact Or.inl (canMove_child (by simp [childStep, hpc]))
  | write =>
      simp only [ChildInv, hpc] at hchild
      have hn : ((s.numRead.toNat : Nat) : Int) = s.numRead := by omega
      refine Or.inl ⟨.child (.count s.numRead.toNat), by simp [Fails, hpc, hn], ?_⟩
      rw [enabled_iff]
      simp [step, childStep, hpc, hn]
  | newline =>
      refine Or.inl ⟨.child (.count 1), by simp [Fails, hpc], ?_⟩
      rw [enabled_iff]
      simp [step, childStep, hpc]
  | read =>
      simp only [ChildInv, hpc] at hchild
      cases hpipe : s.pipe with
      | cons b rest =>
          refine Or.inl ⟨.child (.count 1), by simp [Fails, hpc], ?_⟩
          rw [enabled_iff]
          simp [step, childStep, hpc, hpipe, bufferSize]
      | nil =>
          cases hheld : s.fds.writeEnd with
          | true => exact Or.inr ⟨rfl, rfl, rfl⟩
          | false =>
              refine Or.inl ⟨.child (.count 0), by simp [Fails, hpc], ?_⟩
              rw [enabled_iff]
              simp [step, childStep, hpc, hpipe, State.writeHeld, hheld, hchild.1]

/-- **The processes never wait for each other**: a full pipe has a reader, and an
empty one that is read has a writer with something left to do. -/
theorem Inv.progress (hcap : 0 < cap) (hargs : argument args = some arg) (h : Inv arg.bytes s)
    (hended : ¬ s.Ended) : CanMove cap args s := by
  have hparent := h.parent
  -- A child that runs moves, unless the write end is open.
  have hclosed : s.fds.writeEnd = false → s.child ≠ .notForked →
      (∀ status, s.child ≠ .exited status) → CanMove cap args s := by
    intro hfds hforked hrunning
    rcases h.child_moves hforked hrunning with hmove | ⟨_, _, hheld⟩
    · exact hmove
    · rw [hfds] at hheld
      cases hheld
  cases hpc : s.parent with
  | checkArgs => exact canMove_parent (a := .ok) (by simp) (by simp [parentStep, hpc, hargs])
  | pipe | fork | closeRead | closeWrite =>
      exact canMove_parent (a := .ok) (by simp) (by simp [parentStep, hpc])
  | write =>
      simp only [ParentInv, hpc] at hparent
      have hle := h.sent
      by_cases hsent : s.sent = arg.bytes.length
      · exact canMove_parent (a := .ok) (by simp) (by simp [parentStep, hpc, hargs, hsent])
      have hlt : s.sent < arg.bytes.length := by omega
      cases hread : s.readHeld with
      | false =>
          exact canMove_parent (a := .sigpipe) (by simp)
            (by simp [parentStep, hpc, hargs, hlt, hread])
      | true =>
          by_cases hroom : s.pipe.length + 1 ≤ cap
          · exact canMove_parent (a := .copied 1) (by simp)
              (by simp [parentStep, hpc, hargs, hroom, hread, hlt])
          -- The pipe is full, and the child has its read end open.
          have hrunning : ∀ status, s.child ≠ .exited status := by
            intro status hexited
            have hchild := h.child
            cases status with
            | success | failure =>
                simp only [ChildInv, hexited] at hchild
                simp [State.readHeld, hparent.2, hchild.1, PipeSync.Fds.closed] at hread
          rcases h.child_moves hparent.1 hrunning with hmove | ⟨_, hempty, _⟩
          · exact hmove
          · simp only [hempty, List.length_nil] at hroom
            omega
  | wait =>
      simp only [ParentInv, hpc] at hparent
      by_cases hexited : ∃ status, s.child = .exited status
      · rcases hexited with ⟨status, hexited⟩
        exact canMove_parent (a := .ok) (by simp) (by simp [parentStep, hpc, hexited])
      · exact hclosed (by rw [hparent.2.1]; rfl) hparent.1 (not_exists.1 hexited)
  | exited status =>
      have hfds : s.fds = .closed := by
        cases status with
        | success =>
            simp only [ParentInv, hpc] at hparent
            exact hparent.1
        | failure => simpa only [ParentInv, hpc] using hparent
      apply hclosed (by rw [hfds]; rfl)
      · exact fun hforked => hended ⟨Or.inl ⟨status, hpc⟩, Or.inl hforked⟩
      · exact fun st hexited => hended ⟨Or.inl ⟨status, hpc⟩, Or.inr ⟨st, hexited⟩⟩
  | killed =>
      simp only [ParentInv, hpc] at hparent
      apply hclosed (by rw [hparent]; rfl)
      · exact fun hforked => hended ⟨Or.inr hpc, Or.inl hforked⟩
      · exact fun st hexited => hended ⟨Or.inr hpc, Or.inr ⟨st, hexited⟩⟩

/-! ## The number of steps -/

def ParentPc.work : ParentPc → Nat
  | .checkArgs => 7
  | .pipe => 6
  | .fork => 5
  | .closeRead => 4
  | .write => 3
  | .closeWrite => 2
  | .wait => 1
  | .exited _ | .killed => 0

def ChildPc.work : ChildPc → Nat
  | .notForked => 8
  | .closeWrite => 7
  | .write => 6
  | .read => 5
  | .newline => 4
  | .testRead => 3
  | .closeRead => 2
  | .exit => 1
  | .exited _ => 0

/-- Steps that are left: a byte is written to the pipe, read and written again. -/
def State.work (arg : List UInt8) (s : State) : Nat :=
  3 * (arg.length - s.sent) + 2 * s.pipe.length + s.parent.work + s.child.work

theorem parentStep_work {a : ParentAnswer} (h : Inv bs s) (hstep : ParentStep cap bs s a t) :
    t.work bs < s.work bs := by
  have hparent := h.parent
  cases hstep with
  | checked hpc | piped hpc | closedRead hpc | written hpc | closedWrite hpc | waited hpc
  | killed hpc =>
      simp only [State.work, State.parentEnd, hpc, ParentPc.work]
      omega
  | forked hpc =>
      simp only [ParentInv, hpc] at hparent
      simp only [State.work, hpc, hparent.1, ParentPc.work, ChildPc.work]
      omega
  | failed hpc =>
      simp only [List.mem_cons, List.not_mem_nil, or_false] at hpc
      simp only [State.work, State.parentEnd]
      rcases hpc with hpc | hpc | hpc | hpc | hpc | hpc <;> rw [hpc] <;>
        simp only [ParentPc.work] <;> omega
  | copied hpc hn hsent hcap =>
      simp only [State.work, List.length_append, List.length_take, List.length_drop]
      omega

theorem childStep_work {a : ChildAnswer} (hstep : ChildStep s a t) : t.work bs < s.work bs := by
  cases hstep with
  | closedWrite hpc | readFailed hpc | wrote hpc | wroteLess hpc | ended hpc | notEnded hpc
  | wasRead hpc | wasNotRead hpc | closedRead hpc | exited hpc | readEnd hpc =>
      simp only [State.work, State.childEnd, hpc, ChildPc.work]
      omega
  | readSome hpc hn hcap hlen =>
      simp only [State.work, hpc, ChildPc.work, List.length_drop]
      omega
  | failed hpc =>
      simp only [List.mem_cons, List.not_mem_nil, or_false] at hpc
      simp only [State.work, State.childEnd]
      rcases hpc with hpc | hpc | hpc <;> rw [hpc] <;> simp only [ChildPc.work] <;> omega

theorem Inv.work_lt {l : Label} (hargs : argument args = some arg) (h : Inv arg.bytes s)
    (hstep : step cap args s l = some t) : t.work arg.bytes < s.work arg.bytes := by
  cases l with
  | parent a => exact parentStep_work h (h.parentStep_cases hargs hstep)
  | child a => exact childStep_work (h.childStep_cases hstep)

/-! ## Runs without a failure -/

/-- No process has failed, and behind its loop the child has written everything. -/
structure Clean (arg : List UInt8) (s : State) : Prop where
  parent : s.parent ≠ .exited .failure ∧ s.parent ≠ .killed
  failed : s.child ≠ .exited .failure
  looped : s.child = .newline →
    s.numRead = 0 ∧ s.fds.writeEnd = false ∧ s.stdout = arg.take s.sent
  closing : s.child ∈ [.testRead, .closeRead, .exit, .exited .success] →
    s.numRead = 0 ∧ s.fds.writeEnd = false ∧ s.stdout = arg.take s.sent ++ ascii "\n"

theorem start_clean (arg : List UInt8) (buffer : Buffer bufferSize) (numRead : Int) :
    Clean arg (start buffer numRead) :=
  ⟨by simp [start], by simp [start], by simp [start], by simp [start]⟩

/-- As long as the parent writes, the child has not left its loop. -/
theorem Clean.of_write (h : Clean bs s) (hinv : Inv bs s) (hpc : s.parent = .write) :
    s.child ∈ [.closeWrite, .read, .write] := by
  have hparent := hinv.parent
  simp only [ParentInv, hpc] at hparent
  have hheld : s.fds.writeEnd = true := by rw [hparent.2]
  cases hchild : s.child with
  | closeWrite | read | write => simp
  | notForked => exact absurd hchild hparent.1
  | newline =>
      rw [(h.looped hchild).2.1] at hheld
      cases hheld
  | testRead | closeRead | exit =>
      rw [(h.closing (by simp [hchild])).2.1] at hheld
      cases hheld
  | exited status =>
      cases status with
      | success =>
          rw [(h.closing (by simp [hchild])).2.1] at hheld
          cases hheld
      | failure => exact absurd hchild h.failed

/-- The parent has not failed, and does not write to the pipe. -/
theorem Clean.with_fds {pc : ParentPc} {fds : Fds} (h : Clean bs s)
    (hpc : pc ≠ .exited .failure ∧ pc ≠ .killed)
    (hfds : s.fds.writeEnd = false → fds.writeEnd = false) :
    Clean bs { s with parent := pc, fds := fds } where
  parent := hpc
  failed := h.failed
  looped := by
    intro hchild
    have hold := h.looped hchild
    exact ⟨hold.1, hfds hold.2.1, hold.2.2⟩
  closing := by
    intro hchild
    have hold := h.closing hchild
    exact ⟨hold.1, hfds hold.2.1, hold.2.2⟩

theorem Clean.parent_step {a : ParentAnswer} (h : Clean bs s) (hinv : Inv bs s)
    (hfail : ¬ Fails s (.parent a)) (hstep : ParentStep cap bs s a t) : Clean bs t := by
  have hparent := hinv.parent
  cases hstep with
  | checked hpc | written hpc hsent => exact h.with_fds (by simp) id
  | closedRead hpc => exact h.with_fds (by simp) id
  | closedWrite hpc => exact h.with_fds (by simp) fun _ => rfl
  | waited hpc hexited => exact h.with_fds (by simp) fun _ => rfl
  | failed hpc => exact absurd trivial hfail
  | piped hpc =>
      simp only [ParentInv, hpc] at hparent
      exact ⟨by simp, h.failed, by simp [hparent.1], by simp [hparent.1]⟩
  | forked hpc => exact ⟨by simp, by simp, by simp, by simp⟩
  | copied hpc hn hsent hcap =>
      have hloop := h.of_write hinv hpc
      simp only [List.mem_cons, List.not_mem_nil, or_false] at hloop
      refine ⟨h.parent, h.failed, ?_, ?_⟩
      · intro hchild
        change s.child = .newline at hchild
        simp [hchild] at hloop
      · intro hchild
        change s.child ∈ _ at hchild
        rcases hloop with hloop | hloop | hloop <;> simp [hloop] at hchild
  | killed hpc hread =>
      have hloop := h.of_write hinv hpc
      have hchild := hinv.child
      simp only [List.mem_cons, List.not_mem_nil, or_false] at hloop
      simp only [ParentInv, hpc] at hparent
      rcases hloop with hloop | hloop | hloop <;> simp only [ChildInv, hloop] at hchild <;>
        simp [State.readHeld, hchild.1, hparent.2, PipeSync.Fds.both] at hread

theorem Clean.child_step {a : ChildAnswer} (h : Clean bs s) (hinv : Inv bs s)
    (hfail : ¬ Fails s (.child a)) (hstep : ChildStep s a t) : Clean bs t := by
  have hchild := hinv.child
  cases hstep with
  | closedWrite hpc | readSome hpc hn hcap hlen | wrote hpc hn =>
      exact ⟨h.parent, by simp, by simp, by simp⟩
  | readFailed hpc | notEnded hpc | failed hpc => exact absurd trivial hfail
  | wroteLess hpc hn => exact absurd (Or.inl ⟨hpc, by omega⟩) hfail
  | readEnd hpc hpipe hheld =>
      simp only [ChildInv, hpc, hpipe, List.append_nil] at hchild
      refine ⟨h.parent, by simp, ?_, by simp⟩
      intro _
      exact ⟨rfl, (Bool.or_eq_false_iff.1 hheld).1, hchild.2⟩
  | @ended n hpc hn =>
      have hone : n = 1 := by
        by_contra hne
        exact hfail (Or.inr ⟨hpc, hne⟩)
      subst hone
      have hold := h.looped hpc
      refine ⟨h.parent, by simp, by simp, ?_⟩
      intro _
      exact ⟨hold.1, hold.2.1, by rw [hold.2.2]; rfl⟩
  | wasRead hpc hread =>
      exact ⟨h.parent, by simp, by simp, fun _ => h.closing (by simp [hpc])⟩
  | wasNotRead hpc hread =>
      have hold := h.closing (by simp [hpc])
      rw [hold.1] at hread
      cases hread
  | closedRead hpc => exact ⟨h.parent, by simp, by simp, fun _ => h.closing (by simp [hpc])⟩
  | exited hpc =>
      exact ⟨h.parent, by simp [State.childEnd], by simp [State.childEnd],
        fun _ => h.closing (by simp [hpc])⟩

theorem Clean.next {l : Label} (hargs : argument args = some arg)
    (h : Inv arg.bytes s ∧ Clean arg.bytes s) (hfail : ¬ Fails s l)
    (hstep : step cap args s l = some t) : Inv arg.bytes t ∧ Clean arg.bytes t := by
  refine ⟨h.1.next hargs hstep, ?_⟩
  cases l with
  | parent a => exact h.2.parent_step h.1 hfail (h.1.parentStep_cases hargs hstep)
  | child a => exact h.2.child_step h.1 hfail (h.1.childStep_cases hstep)

/-- Both have done their work. -/
theorem Clean.ended (h : Clean bs s) (hinv : Inv bs s) (hended : s.Ended) :
    s.parent = .exited .success ∧ s.child = .exited .success ∧ s.stdout = bs ++ ascii "\n" := by
  have hparent := hinv.parent
  rcases hended.1 with ⟨status, hpc⟩ | hpc
  · cases status with
    | failure => exact absurd hpc h.parent.1
    | success =>
        simp only [ParentInv, hpc] at hparent
        rcases hparent with ⟨_, hsent, status, hexited⟩
        cases status with
        | failure => exact absurd hexited h.failed
        | success =>
            have hclosing := h.closing (by simp [hexited])
            rw [hsent, List.take_length] at hclosing
            exact ⟨hpc, hexited, hclosing.2.2⟩
  · exact absurd hpc h.parent.2

/-! ## Whole runs -/

/-- Whatever fails, only what the parent was to write is written, in its order. -/
theorem ChildInv.stdout (h : ChildInv bs s) :
    ∃ out, out <+: bs.take s.sent ∧ (s.stdout = out ∨ s.stdout = out ++ ascii "\n") := by
  have hclosing : Closing bs s → ∃ out, out <+: bs.take s.sent ∧
      (s.stdout = out ∨ s.stdout = out ++ ascii "\n") := by
    rintro ⟨out, hdone, hout⟩
    exact ⟨out, hdone.1, hout⟩
  unfold ChildInv at h
  cases hpc : s.child with
  | notForked =>
      simp only [hpc] at h
      exact ⟨[], List.nil_prefix, Or.inl h.2.1⟩
  | closeWrite | read =>
      simp only [hpc] at h
      exact ⟨_, prefix_of_append h.2, Or.inl rfl⟩
  | write =>
      simp only [hpc] at h
      exact ⟨_, prefix_of_append h.2.2, Or.inl rfl⟩
  | newline =>
      simp only [hpc] at h
      exact ⟨_, h.2.1, Or.inl rfl⟩
  | testRead =>
      simp only [hpc] at h
      exact hclosing h.2
  | closeRead | exit =>
      simp only [hpc] at h
      exact hclosing h.2.1
  | exited status =>
      cases status with
      | success =>
          simp only [hpc] at h
          exact hclosing h.2.1
      | failure =>
          simp only [hpc] at h
          exact h.2

/-- If both succeed, the argument was written, and after it the newline, unless the
one call failed that is not checked. -/
theorem Inv.succeeded (h : Inv bs s) (hparent : s.parent = .exited .success)
    (hchild : s.child = .exited .success) : s.stdout = bs ∨ s.stdout = bs ++ ascii "\n" := by
  have hp := h.parent
  have hc := h.child
  simp only [ParentInv, hparent] at hp
  simp only [ChildInv, hchild] at hc
  rcases hc with ⟨_, ⟨out, ⟨_, hdone⟩, hout⟩, hread⟩
  rcases hdone with hfailed | ⟨_, hall, _⟩
  · exact absurd hfailed hread
  · rw [hp.2.1, List.take_length] at hall
    rwa [hall] at hout

/-- **The string arrives**, in whatever order the processes go: every run is
finite, none gets stuck, what is written is always a beginning of the string,
perhaps with the newline behind it, a parent that succeeds has waited for its
child, and without a failed call the string and the newline are written. -/
theorem string_arrives (hcap : 0 < cap) (hargs : argument args = some arg)
    {buffer : Buffer bufferSize} {numRead : Int} {ls : List Label}
    (h : exec (step cap args) (start buffer numRead) ls = some t) :
    ls.length ≤ 3 * arg.bytes.length + 15 ∧
    (¬ t.Ended → CanMove cap args t) ∧
    (∃ out, out <+: arg.bytes ∧ (t.stdout = out ∨ t.stdout = out ++ ascii "\n")) ∧
    (t.parent = .exited .success → ∃ status, t.child = .exited status ∧
      (status = .success → t.stdout = arg.bytes ∨ t.stdout = arg.bytes ++ ascii "\n")) ∧
    (t.Ended → Along (step cap args) (fun s l => ¬ Fails s l) (start buffer numRead) ls →
      t.parent = .exited .success ∧ t.child = .exited .success ∧
        t.stdout = arg.bytes ++ ascii "\n") := by
  have hstart := start_inv arg.bytes buffer numRead
  have hinv : Inv arg.bytes t :=
    Reachable.invariant (I := Inv arg.bytes) (fun _ _ _ hs => hs.next hargs) hstart ⟨ls, h⟩
  refine ⟨?_, fun hended => hinv.progress hcap hargs hended, ?_, ?_, ?_⟩
  · have hlen := exec_length_add_le (I := Inv arg.bytes) (fun _ _ _ hs => hs.next hargs)
      (fun _ _ _ hs => hs.work_lt hargs) hstart h
    have hwork : (start buffer numRead).work arg.bytes = 3 * arg.bytes.length + 15 := by
      simp [State.work, start, ParentPc.work, ChildPc.work]
    omega
  · rcases hinv.child.stdout with ⟨out, hpre, hout⟩
    exact ⟨out, hpre.trans (List.take_prefix _ _), hout⟩
  · intro hparent
    have hp := hinv.parent
    simp only [ParentInv, hparent] at hp
    rcases hp.2.2 with ⟨status, hexited⟩
    refine ⟨status, hexited, ?_⟩
    intro hstatus
    exact hinv.succeeded hparent (hstatus ▸ hexited)
  · intro hended halong
    have hclean := invariant_along (I := fun s => Inv arg.bytes s ∧ Clean arg.bytes s)
      (fun _ _ _ hs hfail hstep => Clean.next hargs hs hfail hstep)
      ⟨hstart, start_clean arg.bytes buffer numRead⟩ halong h
    exact hclean.2.ended hclean.1 hended

/-- `simple_pipe Hi` with a pipe for one byte. -/
theorem string_arrives_hi : ∃ ls t, exec (step 1 [⟨ascii "Hi", by decide⟩])
    (start ⟨List.replicate 10 0, rfl⟩ 0) ls = some t ∧ t.Ended ∧ t.stdout = ascii "Hi\n" := by
  let ls : List Label := [.parent .ok, .parent .ok, .parent .ok, .child .ok, .parent .ok,
    .parent (.copied 1), .child (.count 1), .child (.count 1), .parent (.copied 1), .parent .ok,
    .child (.count 1), .parent .ok, .child (.count 1), .child (.count 0), .child (.count 1),
    .child .ok, .child .ok, .child .ok, .parent .ok]
  rcases exists_exec (step 1 [⟨ascii "Hi", by decide⟩])
      (fun t => t.parent = .exited .success ∧ t.child = .exited .success)
      (start ⟨List.replicate 10 0, rfl⟩ 0) ls (by decide) with ⟨t, ht, hparent, hchild⟩
  have hended : t.Ended := ⟨Or.inl ⟨_, hparent⟩, Or.inr ⟨_, hchild⟩⟩
  have hclean := (string_arrives (by decide) rfl ht).2.2.2.2 hended (by decide)
  exact ⟨ls, t, ht, hended, hclean.2.2⟩

end Lpi.Ports.SimplePipe
