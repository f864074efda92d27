import Lpi.Ports.NumericArgs
import Lpi.Verified.CData
import Lpi.Verified.Run

/-!
# A pipe as a barrier (`pipes/pipe_sync.c`)

The parent creates a pipe and a child for each argument.  Nobody ever writes
to the pipe: it serves as a barrier, because the parent's `read()` returns
end-of-file once no process has the write end open.  Every `fork` copies both
ends, so the barrier stands or falls with who holds a copy of the write end.

The descriptor table of each process is part of the state, and a `close` of a
descriptor that is not open fails.  `barrier_waits_for_children` is the
guarantee of the barrier.
-/

namespace Lpi.Ports.PipeSync

open Lpi.Verified.CData
open Lpi.Verified.CString
open Lpi.Verified.Run

/-! ## State -/

/-- Which of `pipefd[PIPE_READ_FD]` and `pipefd[PIPE_WRITE_FD]` a process has
open. -/
structure Fds where
  readEnd : Bool
  writeEnd : Bool
  deriving DecidableEq, Repr

/-- What `pipe` leaves open, and what is open after the end of a process. -/
def Fds.both : Fds := ⟨true, true⟩

def Fds.closed : Fds := ⟨false, false⟩

/-- Where a child is. -/
inductive ChildPc where
  | closeRead
  /-- `sleep(getUint(argv[i]))`. -/
  | sleep
  | printClosing
  | closeWrite
  /-- `_exit(EXIT_SUCCESS)`. -/
  | exit
  | exited (status : Exit)
  deriving DecidableEq, Repr

/-- A child, with the value of `i` it was forked with. -/
structure Child where
  i : Nat
  pid : Nat
  pc : ChildPc
  fds : Fds
  reaped : Bool
  deriving DecidableEq, Repr

/-- Where the parent is. -/
inductive ParentPc where
  | checkArgs
  | printStarted
  | pipe
  | fork (i : Nat)
  | closeWrite
  | read
  /-- "Parent didn't get EOF". -/
  | didntGetEof
  | closeRead
  /-- "Parent ready to go". -/
  | printReady
  | wait (i : Nat)
  | exited (status : Exit)
  deriving DecidableEq, Repr

/-- A line on standard output. -/
inductive Line where
  | parentStarted
  | childClosing (i pid : Nat)
  | parentReady
  deriving DecidableEq, Repr

/-- The parent, its children, the bytes in the pipe and the common standard
output. -/
structure State where
  parent : ParentPc
  fds : Fds
  children : List Child
  pipe : List UInt8
  stdout : List Line
  deriving DecidableEq, Repr

/-- The answer to a system call: `forked` is a `fork` in the parent, `reap` a
`wait` that collects the child with the given place in the list. -/
inductive Answer where
  | ok
  | err
  | forked (pid : Nat)
  | reap (j : Nat)
  deriving DecidableEq, Repr

inductive Label where
  | parent (a : Answer)
  | child (j : Nat) (a : Answer)
  deriving DecidableEq, Repr

/-! ## Steps -/

/-- `-h`, which the program takes for a request for help. -/
def helpOption : List UInt8 := ascii "-h"

/-- `i < argc` of the `for` around `fork`; `args` is `argv[1]` and so on. -/
def forkNext (args : List CStr) (i : Nat) : ParentPc :=
  if i < args.length + 1 then .fork i else .closeWrite

/-- Some process has the write end open. -/
def State.writeHeld (s : State) : Bool :=
  s.fds.writeEnd || s.children.any fun c => c.fds.writeEnd

/-- The result of `read(pipefd[PIPE_READ_FD], &buffer, 1)`, `none` while it
blocks. -/
def State.readResult (s : State) : Option Int :=
  if s.fds.readEnd = false then some (-1)
  else if s.pipe ≠ [] then some 1
  else if s.writeHeld then none
  else some 0

/-- The end of the parent closes its descriptors. -/
def State.exit (s : State) (status : Exit) : State :=
  { s with parent := .exited status, fds := .closed }

/-- `i < argc` of the `for` around `wait`, and the end of `main` after it. -/
def State.waitNext (s : State) (args : List CStr) (i : Nat) : State :=
  if i < args.length + 1 then { s with parent := .wait i } else s.exit .success

/-- The next step of the parent. -/
def parentStep (args : List CStr) (s : State) : Answer → Option State
  | .ok =>
    match s.parent with
    | .checkArgs =>
      match args with
      | [] => some (s.exit .failure)
      | arg :: _ =>
          if arg.bytes = helpOption then some (s.exit .failure)
          else some { s with parent := .printStarted }
    | .printStarted => some
        { s with stdout := s.stdout ++ [.parentStarted], parent := .pipe }
    | .pipe => some { s with fds := .both, parent := forkNext args 1 }
    | .closeWrite =>
        if s.fds.writeEnd then some
          { s with fds := { s.fds with writeEnd := false }, parent := .read }
        else some (s.exit .failure)
    | .read => s.readResult.map fun (n : Int) =>
        { s with parent := if n ≠ 0 then .didntGetEof else .closeRead }
    | .didntGetEof => some (s.exit .failure)
    | .closeRead =>
        if s.fds.readEnd then some
          { s with fds := { s.fds with readEnd := false }, parent := .printReady }
        else some (s.exit .failure)
    | .printReady => some
        (State.waitNext { s with stdout := s.stdout ++ [.parentReady] } args 1)
    | .fork _ | .wait _ | .exited _ => none
  | .err =>
    match s.parent with
    | .pipe | .fork _ | .closeWrite | .closeRead | .wait _ =>
        some (s.exit .failure)
    | .checkArgs | .printStarted | .read | .didntGetEof | .printReady
    | .exited _ => none
  | .forked pid =>
    match s.parent with
    | .fork i => some
        { s with children := s.children ++ [⟨i, pid, .closeRead, s.fds, false⟩]
                 parent := forkNext args (i + 1) }
    | _ => none
  | .reap j =>
    match s.parent with
    | .wait i =>
      match s.children[j]? with
      | some c =>
        match c.pc with
        | .exited _ =>
            if c.reaped then none
            else some (State.waitNext
              { s with children := s.children.set j { c with reaped := true } }
              args (i + 1))
        | _ => none
      | none => none
    | _ => none

/-- The end of a child closes its descriptors. -/
def Child.end (c : Child) (status : Exit) : Child :=
  { c with pc := .exited status, fds := .closed }

/-- The next step of a child, and what it prints. -/
def childStep (args : List CStr) (c : Child) :
    Answer → Option (Child × List Line)
  | .ok =>
    match c.pc with
    | .closeRead =>
        if c.fds.readEnd then some
          ({ c with fds := { c.fds with readEnd := false }, pc := .sleep }, [])
        else some (c.end .failure, [])
    | .sleep =>
      match args[c.i - 1]? with
      | none => none
      | some arg =>
        match NumericArgs.PipeSync.getUint arg with
        | .error _ => some (c.end .failure, [])
        | .ok _ => some ({ c with pc := .printClosing }, [])
    | .printClosing => some
        ({ c with pc := .closeWrite }, [.childClosing c.i c.pid])
    | .closeWrite =>
        if c.fds.writeEnd then some
          ({ c with fds := { c.fds with writeEnd := false }, pc := .exit }, [])
        else some (c.end .failure, [])
    | .exit => some (c.end .success, [])
    | .exited _ => none
  | .err =>
    match c.pc with
    | .closeRead | .closeWrite => some (c.end .failure, [])
    | .sleep | .printClosing | .exit | .exited _ => none
  | .forked _ | .reap _ => none

/-- One step of one of the processes. -/
def step (args : List CStr) (s : State) : Label → Option State
  | .parent a => parentStep args s a
  | .child j a =>
    (s.children[j]?).bind fun c =>
      (childStep args c a).map fun (c, lines) =>
        { s with children := s.children.set j c, stdout := s.stdout ++ lines }

/-- The parent is about to look at its arguments. -/
def start : State where
  parent := .checkArgs
  fds := .closed
  children := []
  pipe := []
  stdout := []

/-! ## Who holds the write end -/

/-- All children exist and none of them has the write end open. -/
structure AllClosed (args : List CStr) (children : List Child) : Prop where
  length : children.length = args.length
  closed : ∀ c ∈ children, c.fds.writeEnd = false

/-- What the place of the parent says about its descriptors and its
children. -/
def ParentInv (args : List CStr) (s : State) : Prop :=
  match s.parent with
  | .checkArgs | .printStarted | .pipe => s.children = []
  | .fork i =>
      s.children.length + 1 = i ∧ i < args.length + 1 ∧ s.fds = .both
  | .closeWrite => s.children.length = args.length ∧ s.fds = .both
  | .read => s.children.length = args.length ∧ s.fds = ⟨true, false⟩
  | .closeRead => AllClosed args s.children ∧ s.fds = ⟨true, false⟩
  | .printReady | .wait _ => AllClosed args s.children
  | .didntGetEof => False
  | .exited _ => True

/-- A terminated child holds nothing; nobody has written to the pipe; after
the line "Parent ready to go" no child holds the write end. -/
structure Inv (args : List CStr) (s : State) : Prop where
  parent : ParentInv args s
  pipe : s.pipe = []
  ended : ∀ c ∈ s.children, ∀ status, c.pc = .exited status →
    c.fds.writeEnd = false
  ready : Line.parentReady ∈ s.stdout → AllClosed args s.children

theorem start_inv (args : List CStr) : Inv args start where
  parent := rfl
  pipe := rfl
  ended := by simp [start]
  ready := by simp [start]

/-- Nobody holds the write end: neither the parent nor a child. -/
theorem State.writeHeld_eq_false {s : State} :
    s.writeHeld = false ↔
      s.fds.writeEnd = false ∧ ∀ c ∈ s.children, c.fds.writeEnd = false := by
  simp [State.writeHeld]

/-! ## Steps of the parent -/

theorem Inv.exit {args : List CStr} {s : State} (h : Inv args s)
    (status : Exit) : Inv args (s.exit status) where
  parent := trivial
  pipe := h.pipe
  ended := h.ended
  ready := h.ready

theorem Inv.waitNext {args : List CStr} {s : State} (h : Inv args s)
    (hall : AllClosed args s.children) (i : Nat) :
    Inv args (s.waitNext args i) := by
  unfold State.waitNext
  by_cases hi : i < args.length + 1
  · rw [if_pos hi]
    exact ⟨hall, h.pipe, h.ended, h.ready⟩
  · rw [if_neg hi]
    exact h.exit .success

/-- The `for` goes on with `i` as long as there are arguments left. -/
theorem parentInv_forkNext {args : List CStr} {s : State} {i : Nat}
    (hlen : s.children.length + 1 = i) (hle : i ≤ args.length + 1)
    (hfds : s.fds = .both) (hpc : s.parent = forkNext args i) :
    ParentInv args s := by
  unfold forkNext at hpc
  by_cases hi : i < args.length + 1
  · rw [if_pos hi] at hpc
    simp only [ParentInv, hpc]
    exact ⟨hlen, hi, hfds⟩
  · rw [if_neg hi] at hpc
    simp only [ParentInv, hpc]
    exact ⟨by omega, hfds⟩

/-- The parent reads end-of-file, and only when no child holds the write
end. -/
theorem Inv.read {args : List CStr} {s : State} {n : Int} (h : Inv args s)
    (hpc : s.parent = .read) (hread : s.readResult = some n) :
    n = 0 ∧ AllClosed args s.children := by
  have hparent := h.parent
  simp only [ParentInv, hpc] at hparent
  obtain ⟨hlen, hfds⟩ := hparent
  cases hheld : s.writeHeld with
  | true => simp [State.readResult, hfds, h.pipe, hheld] at hread
  | false =>
      simp only [State.readResult, hfds, h.pipe, hheld] at hread
      have hn : n = 0 := by simpa using hread.symm
      exact ⟨hn, hlen, (State.writeHeld_eq_false.1 hheld).2⟩

theorem Inv.parent_ok {args : List CStr} {s t : State} (h : Inv args s)
    (hstep : parentStep args s .ok = some t) : Inv args t := by
  have hparent := h.parent
  cases hpc : s.parent with
  | checkArgs =>
      simp only [ParentInv, hpc] at hparent
      cases args with
      | nil =>
          simp only [parentStep, hpc, Option.some.injEq] at hstep
          subst hstep
          exact h.exit .failure
      | cons arg rest =>
          by_cases harg : arg.bytes = helpOption
          · simp only [parentStep, hpc, harg, if_true, Option.some.injEq] at hstep
            subst hstep
            exact h.exit .failure
          · simp only [parentStep, hpc, harg, if_false, Option.some.injEq] at hstep
            subst hstep
            exact ⟨hparent, h.pipe, h.ended, h.ready⟩
  | printStarted =>
      simp only [ParentInv, hpc] at hparent
      simp only [parentStep, hpc, Option.some.injEq] at hstep
      subst hstep
      refine ⟨hparent, h.pipe, h.ended, fun hmem => ?_⟩
      have hmem' : Line.parentReady ∈ s.stdout := by simpa using hmem
      exact h.ready hmem'
  | pipe =>
      simp only [ParentInv, hpc] at hparent
      simp only [parentStep, hpc, Option.some.injEq] at hstep
      subst hstep
      refine ⟨?_, h.pipe, h.ended, h.ready⟩
      exact parentInv_forkNext (i := 1) (by simp [hparent]) (by omega) rfl rfl
  | closeWrite =>
      simp only [ParentInv, hpc] at hparent
      obtain ⟨hlen, hfds⟩ := hparent
      simp only [parentStep, hpc, hfds, Fds.both, if_true,
        Option.some.injEq] at hstep
      subst hstep
      exact ⟨⟨hlen, rfl⟩, h.pipe, h.ended, h.ready⟩
  | read =>
      simp only [parentStep, hpc, Option.map_eq_some_iff] at hstep
      obtain ⟨n, hread, rfl⟩ := hstep
      obtain ⟨rfl, hall⟩ := h.read hpc hread
      simp only [ParentInv, hpc] at hparent
      exact ⟨⟨hall, hparent.2⟩, h.pipe, h.ended, h.ready⟩
  | didntGetEof => simp [ParentInv, hpc] at hparent
  | closeRead =>
      simp only [ParentInv, hpc] at hparent
      obtain ⟨hall, hfds⟩ := hparent
      simp only [parentStep, hpc, hfds, if_true, Option.some.injEq] at hstep
      subst hstep
      exact ⟨hall, h.pipe, h.ended, h.ready⟩
  | printReady =>
      simp only [ParentInv, hpc] at hparent
      simp only [parentStep, hpc, Option.some.injEq] at hstep
      subst hstep
      have hinv : Inv args { s with stdout := s.stdout ++ [.parentReady] } :=
        ⟨h.parent, h.pipe, h.ended, fun _ => hparent⟩
      exact hinv.waitNext hparent 1
  | fork i | wait i | exited status => simp [parentStep, hpc] at hstep

theorem Inv.parent_forked {args : List CStr} {s t : State} {pid : Nat}
    (h : Inv args s) (hstep : parentStep args s (.forked pid) = some t) :
    Inv args t := by
  have hparent := h.parent
  cases hpc : s.parent with
  | fork i =>
      simp only [ParentInv, hpc] at hparent
      obtain ⟨hlen, hi, hfds⟩ := hparent
      simp only [parentStep, hpc, Option.some.injEq] at hstep
      subst hstep
      refine ⟨?_, h.pipe, ?_, ?_⟩
      · exact parentInv_forkNext (i := i + 1) (by simp [hlen]) (by omega) hfds rfl
      · intro c hc status hended
        rcases List.mem_append.1 hc with hold | hnew
        · exact h.ended c hold status hended
        · simp only [List.mem_singleton] at hnew
          simp [hnew] at hended
      · -- The line is not printed before the last child is there.
        intro hmem
        have := (h.ready hmem).length
        omega
  | checkArgs | printStarted | pipe | closeWrite | read | didntGetEof
  | closeRead | printReady | wait i | exited status =>
      simp [parentStep, hpc] at hstep

theorem Inv.parent_reap {args : List CStr} {s t : State} {j : Nat}
    (h : Inv args s) (hstep : parentStep args s (.reap j) = some t) :
    Inv args t := by
  have hparent := h.parent
  cases hpc : s.parent with
  | wait i =>
      simp only [ParentInv, hpc] at hparent
      cases hc : s.children[j]? with
      | none => simp [parentStep, hpc, hc] at hstep
      | some c =>
          have hmem : c ∈ s.children := List.mem_of_getElem? hc
          cases hcpc : c.pc with
          | exited status =>
              simp only [parentStep, hpc, hc, hcpc, Option.ite_none_left_eq_some,
                Option.some.injEq] at hstep
              obtain ⟨_, rfl⟩ := hstep
              have hset : ∀ d ∈ s.children.set j { c with reaped := true },
                  ∃ d' ∈ s.children, d.pc = d'.pc ∧ d.fds = d'.fds := by
                intro d hd
                rcases List.mem_or_eq_of_mem_set hd with hold | hnew
                · exact ⟨d, hold, rfl, rfl⟩
                · exact ⟨c, hmem, by rw [hnew], by rw [hnew]⟩
              have hall : AllClosed args
                  (s.children.set j { c with reaped := true }) := by
                refine ⟨by simp [hparent.length], ?_⟩
                intro d hd
                obtain ⟨d', hd', _, hfds⟩ := hset d hd
                rw [hfds]
                exact hparent.closed d' hd'
              have hinv : Inv args { s with
                  children := s.children.set j { c with reaped := true } } := by
                refine ⟨?_, h.pipe, ?_, fun _ => hall⟩
                · simp only [ParentInv, hpc]
                  exact hall
                · intro d hd status' hended
                  obtain ⟨d', hd', hpcs, hfds⟩ := hset d hd
                  rw [hfds]
                  exact h.ended d' hd' status' (hpcs ▸ hended)
              simpa only [hpc, hcpc] using hinv.waitNext hall (i + 1)
          | closeRead | sleep | printClosing | closeWrite | exit =>
              simp [parentStep, hpc, hc, hcpc] at hstep
  | checkArgs | printStarted | pipe | fork i | closeWrite | read | didntGetEof
  | closeRead | printReady | exited status =>
      simp [parentStep, hpc] at hstep

theorem Inv.parent_step {args : List CStr} {s t : State} {a : Answer}
    (h : Inv args s) (hstep : parentStep args s a = some t) : Inv args t := by
  cases a with
  | ok => exact h.parent_ok hstep
  | forked pid => exact h.parent_forked hstep
  | reap j => exact h.parent_reap hstep
  | err =>
      cases hpc : s.parent with
      | pipe | fork i | closeWrite | closeRead | wait i =>
          simp only [parentStep, hpc, Option.some.injEq] at hstep
          subst hstep
          exact h.exit .failure
      | checkArgs | printStarted | read | didntGetEof | printReady
      | exited status => simp [parentStep, hpc] at hstep

/-! ## Steps of a child -/

/-- A child opens nothing, holds nothing after its end, and does not print
the parent's line. -/
structure ChildMove (c d : Child) (lines : List Line) : Prop where
  opensNothing : c.fds.writeEnd = false → d.fds.writeEnd = false
  ended : ∀ status, d.pc = .exited status → d.fds.writeEnd = false
  quiet : Line.parentReady ∉ lines

theorem ChildMove.end (c : Child) (status : Exit) :
    ChildMove c (c.end status) [] where
  opensNothing := fun _ => rfl
  ended := fun _ _ => rfl
  quiet := by simp

theorem childStep_move {args : List CStr} {c d : Child} {a : Answer}
    {lines : List Line} (hstep : childStep args c a = some (d, lines)) :
    ChildMove c d lines := by
  cases a with
  | ok =>
      cases hpc : c.pc with
      | closeRead =>
          simp only [childStep, hpc] at hstep
          split at hstep
          all_goals
            simp only [Option.some.injEq, Prod.mk.injEq] at hstep
            obtain ⟨rfl, rfl⟩ := hstep
          · exact ⟨fun h => h, by simp, by simp⟩
          · exact ChildMove.end c .failure
      | sleep =>
          simp only [childStep, hpc] at hstep
          split at hstep
          · simp at hstep
          · split at hstep
            all_goals
              simp only [Option.some.injEq, Prod.mk.injEq] at hstep
              obtain ⟨rfl, rfl⟩ := hstep
            · exact ChildMove.end c .failure
            · exact ⟨fun h => h, by simp, by simp⟩
      | printClosing =>
          simp only [childStep, hpc, Option.some.injEq, Prod.mk.injEq] at hstep
          obtain ⟨rfl, rfl⟩ := hstep
          exact ⟨fun h => h, by simp, by simp⟩
      | closeWrite =>
          simp only [childStep, hpc] at hstep
          split at hstep
          all_goals
            simp only [Option.some.injEq, Prod.mk.injEq] at hstep
            obtain ⟨rfl, rfl⟩ := hstep
          · exact ⟨fun _ => rfl, by simp, by simp⟩
          · exact ChildMove.end c .failure
      | exit =>
          simp only [childStep, hpc, Option.some.injEq, Prod.mk.injEq] at hstep
          obtain ⟨rfl, rfl⟩ := hstep
          exact ChildMove.end c .success
      | exited status => simp [childStep, hpc] at hstep
  | err =>
      cases hpc : c.pc with
      | closeRead | closeWrite =>
          simp only [childStep, hpc, Option.some.injEq, Prod.mk.injEq] at hstep
          obtain ⟨rfl, rfl⟩ := hstep
          exact ChildMove.end c .failure
      | sleep | printClosing | exit | exited status =>
          simp [childStep, hpc] at hstep
  | forked pid => simp [childStep] at hstep
  | reap j => simp [childStep] at hstep

theorem AllClosed.child_move {args : List CStr} {children : List Child}
    {j : Nat} {c d : Child} {lines : List Line} (h : AllClosed args children)
    (hc : c ∈ children) (hmove : ChildMove c d lines) :
    AllClosed args (children.set j d) := by
  refine ⟨by simp [h.length], ?_⟩
  intro e he
  rcases List.mem_or_eq_of_mem_set he with hold | hnew
  · exact h.closed e hold
  · rw [hnew]
    exact hmove.opensNothing (h.closed c hc)

theorem Inv.child_move {args : List CStr} {s : State} {j : Nat} {c d : Child}
    {lines : List Line} (h : Inv args s) (hc : c ∈ s.children)
    (hmove : ChildMove c d lines) :
    Inv args { s with children := s.children.set j d
                      stdout := s.stdout ++ lines } := by
  refine ⟨?_, h.pipe, ?_, ?_⟩
  · have hparent := h.parent
    cases hpc : s.parent with
    | checkArgs | printStarted | pipe =>
        simp only [ParentInv, hpc] at hparent
        simp [hparent] at hc
    | fork i | closeWrite | read =>
        simp only [ParentInv, hpc] at hparent
        simpa only [ParentInv, hpc, List.length_set] using hparent
    | closeRead =>
        simp only [ParentInv, hpc] at hparent
        simp only [ParentInv]
        exact ⟨hparent.1.child_move hc hmove, hparent.2⟩
    | printReady | wait i =>
        simp only [ParentInv, hpc] at hparent
        simp only [ParentInv]
        exact hparent.child_move hc hmove
    | didntGetEof => simp [ParentInv, hpc] at hparent
    | exited status => simp only [ParentInv]
  · intro e he status hended
    rcases List.mem_or_eq_of_mem_set he with hold | hnew
    · exact h.ended e hold status hended
    · rw [hnew] at hended ⊢
      exact hmove.ended status hended
  · intro hmem
    have hmem' : Line.parentReady ∈ s.stdout :=
      (List.mem_append.1 hmem).resolve_right hmove.quiet
    exact (h.ready hmem').child_move hc hmove

theorem Inv.next {args : List CStr} {s t : State} {l : Label} (h : Inv args s)
    (hstep : step args s l = some t) : Inv args t := by
  cases l with
  | parent a => exact h.parent_step hstep
  | child j a =>
      simp only [step, Option.bind_eq_some_iff, Option.map_eq_some_iff] at hstep
      obtain ⟨c, hc, ⟨d, lines⟩, hmove, rfl⟩ := hstep
      exact h.child_move (List.mem_of_getElem? hc) (childStep_move hmove)

theorem inv_of_reachable {args : List CStr} {s : State}
    (h : Reachable (step args) start s) : Inv args s :=
  h.invariant (fun _ _ _ hI hstep => hI.next hstep) (start_inv args)

/-! ## Main result -/

/-- Once all children have terminated, the parent's `read()` returns. -/
theorem Inv.read_returns {args : List CStr} {s : State} (h : Inv args s)
    (hpc : s.parent = .read)
    (hexited : ∀ c ∈ s.children, ∃ status, c.pc = .exited status) :
    Enabled (step args) s (.parent .ok) := by
  have hparent := h.parent
  simp only [ParentInv, hpc] at hparent
  have hheld : s.writeHeld = false := by
    rw [State.writeHeld_eq_false]
    refine ⟨by rw [hparent.2], fun c hc => ?_⟩
    obtain ⟨status, hended⟩ := hexited c hc
    exact h.ended c hc status hended
  rw [enabled_iff]
  simp [step, parentStep, hpc, State.readResult, hparent.2, h.pipe, hheld]

/-- **The barrier.**  For every list of arguments and every interleaving of
the parent and the children: where the parent prints "Parent ready to go", and
ever after, there is a child for every argument and none of them has the write
end open; the parent does not report a missing end-of-file; and its `read()`
does not block once all children have terminated. -/
theorem barrier_waits_for_children (args : List CStr) (s : State)
    (h : Reachable (step args) start s) :
    (s.parent = .printReady ∨ Line.parentReady ∈ s.stdout →
      s.children.length = args.length ∧
        ∀ c ∈ s.children, c.fds.writeEnd = false) ∧
    s.parent ≠ .didntGetEof ∧
    (s.parent = .read →
      (∀ c ∈ s.children, ∃ status, c.pc = .exited status) →
      Enabled (step args) s (.parent .ok)) := by
  have hinv := inv_of_reachable h
  have hparent := hinv.parent
  refine ⟨?_, ?_, hinv.read_returns⟩
  · rintro (hpc | hmem)
    · simp only [ParentInv, hpc] at hparent
      exact ⟨hparent.length, hparent.closed⟩
    · exact ⟨(hinv.ready hmem).length, (hinv.ready hmem).closed⟩
  · intro hpc
    simp [ParentInv, hpc] at hparent

/-- Two children, the second of which is forked when the first has already
closed its copies.  The parent gets past the barrier when both are through. -/
theorem barrier_waits_for_children_two :
    ∃ s, Reachable (step [CStr.empty, CStr.empty]) start s ∧
      s.parent = .printReady ∧ s.children.length = 2 ∧
      ∀ c ∈ s.children, c.fds.writeEnd = false := by
  let ls := [Label.parent .ok, .parent .ok, .parent .ok, .parent (.forked 100)] ++
    List.replicate 4 (Label.child 0 .ok) ++
    [Label.parent (.forked 101), .parent .ok] ++
    List.replicate 4 (Label.child 1 .ok) ++ [Label.parent .ok, .parent .ok]
  obtain ⟨s, hs, hpc⟩ := exists_exec (step [CStr.empty, CStr.empty])
    (fun s => s.parent = .printReady) start ls (by decide)
  obtain ⟨hready, _, _⟩ :=
    barrier_waits_for_children [CStr.empty, CStr.empty] s ⟨_, hs⟩
  exact ⟨s, ⟨_, hs⟩, hpc, hready (Or.inl hpc)⟩

end Lpi.Ports.PipeSync
