import Lpi.Verified.CData
import Lpi.Verified.Descriptors
import Lpi.Verified.Simulation

/-!
# Two programs on a pipe (`pipes/pipe_ls_wc.c`)

The parent creates a pipe and two children.  One makes the write end its standard
output and becomes `ls`, the other one makes the read end its standard input and
becomes `wc -l`.  The pipe gets the lowest descriptors that are free, and these
may be among the standard ones; then an end is perhaps where it has to be
already, or is where the other end has to be.

Whatever is open at first, in the end there is one more descriptor in each child
and none in the parent (`Child.Inv`), so that `plumbing` holds in every run.  The
calls may fail in it, but never for want of a descriptor (`Moves`), and some run
gets both children to their programs (`exec_bothRun`).
-/

namespace Lpi.Ports.PipeLsWc

open Lpi.Verified.CData
open Lpi.Verified.Descriptors
open Lpi.Verified.Run
open Lpi.Verified.Simulation

/-! ## The processes -/

/-- What a descriptor is for: an end of the pipe, or what was open before. -/
inductive File (α : Type) where
  | readEnd
  | writeEnd
  | inherited (a : α)

def STDIN_FILENO : Nat := 0
def STDOUT_FILENO : Nat := 1

/-- Where a child is: it closes the end that it does not need, and moves the
other one. -/
inductive ChildPc where
  | close
  | dup2
  | closeEnd
  | execlp
  | running
  deriving DecidableEq, Repr

inductive Child (α : Type) where
  | unborn
  | alive (pc : ChildPc) (fds : Table (File α))
  | exited (status : Exit)

/-- Where the parent is; `wait i` is the call in turn `i` of the loop. -/
inductive ParentPc where
  | pipe
  | forkLs
  | forkWc
  | closeRead
  | closeWrite
  | wait (i : Nat)
  | exited (status : Exit)
  deriving DecidableEq, Repr

/-- The parent with its descriptors and the numbers of the pipe, and the
children. -/
structure State (α : Type) where
  parent : ParentPc
  fds : Table (File α)
  pipefd : Nat × Nat
  ls : Child α
  wc : Child α

inductive Answer where
  | ok
  | err
  deriving DecidableEq, Repr

/-- Who moves, and how the call is answered. -/
inductive Label where
  | parent (a : Answer)
  | ls (a : Answer)
  | wc (a : Answer)
  deriving DecidableEq, Repr

variable {α : Type}

/-! ## Steps -/

/-- The next step of a child that closes the descriptor `unused`, and moves `used`
to `target` if it is not there.  A program that runs may end at any time. -/
def childStep (unused used target : Nat) : Child α → Answer → Option (Child α)
  | .alive .close fds, .ok =>
      (fds.close unused).map (.alive (if used ≠ target then .dup2 else .execlp))
  | .alive .dup2 fds, .ok => (fds.dup2 used target).map (.alive .closeEnd)
  | .alive .closeEnd fds, .ok => (fds.close used).map (.alive .execlp)
  | .alive .execlp fds, .ok => some (.alive .running fds)
  | .alive .running _, .ok => some (.exited .success)
  | .alive _ _, .err => some (.exited .failure)
  | .unborn, _ | .exited _, _ => none

def Child.hasExited : Child α → Bool
  | .exited _ => true
  | .unborn | .alive _ _ => false

/-- The children that `wait` can return, the ones before included. -/
def State.zombies (s : State α) : Nat := s.ls.hasExited.toNat + s.wc.hasExited.toNat

/-- The end of the parent closes its descriptors. -/
def State.exit (s : State α) (status : Exit) : State α :=
  { s with parent := .exited status, fds := Table.empty }

def parentStep (s : State α) : Answer → Option (State α)
  | .ok =>
      match s.parent with
      | .pipe =>
          let read := s.fds.alloc .readEnd
          let write := read.2.alloc .writeEnd
          some { s with parent := .forkLs, fds := write.2, pipefd := (read.1, write.1) }
      | .forkLs => some { s with parent := .forkWc, ls := .alive .close s.fds }
      | .forkWc => some { s with parent := .closeRead, wc := .alive .close s.fds }
      | .closeRead =>
          (s.fds.close s.pipefd.1).map fun fds => { s with parent := .closeWrite, fds := fds }
      | .closeWrite =>
          (s.fds.close s.pipefd.2).map fun fds => { s with parent := .wait 0, fds := fds }
      | .wait i =>
          if i < s.zombies then
            some (if i + 1 < 2 then { s with parent := .wait (i + 1) } else s.exit .success)
          else none
      | .exited _ => none
  | .err =>
      match s.parent with
      | .exited _ => none
      | _ => some (s.exit .failure)

def step (s : State α) : Label → Option (State α)
  | .parent a => parentStep s a
  | .ls a =>
      (childStep s.pipefd.1 s.pipefd.2 STDOUT_FILENO s.ls a).map fun ls => { s with ls := ls }
  | .wc a =>
      (childStep s.pipefd.2 s.pipefd.1 STDIN_FILENO s.wc a).map fun wc => { s with wc := wc }

/-- The program with the descriptors it has inherited. -/
def start (inherited : Table α) : State α :=
  ⟨.pipe, inherited.map .inherited, (0, 0), .unborn, .unborn⟩

/-! ## What the pipe is for -/

def Child.Holds (f : File α) : Child α → Prop
  | .alive _ fds => ∃ fd, fds.get fd = some f
  | .unborn | .exited _ => False

/-- Some process has the file open. -/
def State.Holds (s : State α) (f : File α) : Prop :=
  (∃ fd, s.fds.get fd = some f) ∨ s.ls.Holds f ∨ s.wc.Holds f

/-- The descriptor is no end of the pipe. -/
def NotPipe (fds : Table (File α)) (fd : Nat) : Prop :=
  fds.get fd ≠ some .readEnd ∧ fds.get fd ≠ some .writeEnd

/-- The end of the pipe is at `target`, there is no other one, and the other
descriptors are the inherited ones. -/
structure Connected (inherited : Table α) (target : Nat) (f : File α)
    (fds : Table (File α)) : Prop where
  there : fds.get target = some f
  noOther : ∀ fd, fd ≠ target → NotPipe fds fd
  unchanged : ∀ fd, fd ≠ target → fds.get fd = (inherited.get fd).map .inherited

structure Plumbed (inherited : Table α) (s : State α) : Prop where
  ls : ∀ fds, s.ls = .alive .running fds → Connected inherited STDOUT_FILENO .writeEnd fds
  wc : ∀ fds, s.wc = .alive .running fds → Connected inherited STDIN_FILENO .readEnd fds
  parent : ∀ i, s.parent = .wait i → ∀ fd, NotPipe s.fds fd
  /-- Then a `read` from the pipe returns zero once it is empty. -/
  endOfFile : ∀ i fds status, s.parent = .wait i → s.wc = .alive .running fds →
    s.ls = .exited status → ¬ s.Holds .writeEnd

/-- No call fails for want of a descriptor: a process that has not ended can
always go on, apart from the parent waiting for a child. -/
structure Moves (s : State α) : Prop where
  ls : ∀ pc fds, s.ls = .alive pc fds → Enabled step s (.ls .ok)
  wc : ∀ pc fds, s.wc = .alive pc fds → Enabled step s (.wc .ok)
  parent : (∀ i, s.parent ≠ .wait i) → (∀ status, s.parent ≠ .exited status) →
    Enabled step s (.parent .ok)

/-! ## The descriptors of each process -/

/-- The descriptors of the read end and of the write end. -/
def readFd (fds : Table (File α)) : Nat := (fds.alloc .readEnd).1
def writeFd (fds : Table (File α)) : Nat := ((fds.alloc .readEnd).2.alloc .writeEnd).1

/-- The table with the pipe in it. -/
def withPipe (fds : Table (File α)) : Table (File α) := ((fds.alloc .readEnd).2.alloc .writeEnd).2

variable {fds : Table (File α)}

theorem get_readFd : fds.get (readFd fds) = none := fds.get_lowest

theorem writeFd_ne_readFd : writeFd fds ≠ readFd fds := fds.lowest_alloc_ne .readEnd

theorem get_writeFd : fds.get (writeFd fds) = none := fds.get_lowest_alloc .readEnd

theorem withPipe_eq :
    withPipe fds = (fds.set (readFd fds) (some .readEnd)).set (writeFd fds) (some .writeEnd) := rfl

/-- Without the read end, only the write end is there. -/
theorem close_readFd :
    (withPipe fds).close (readFd fds) = some (fds.set (writeFd fds) (some .writeEnd)) := by
  have hread : (withPipe fds).get (readFd fds) = some .readEnd := by
    rw [withPipe_eq, Table.get_set_of_ne writeFd_ne_readFd.symm, Table.get_set_self]
  rw [Table.close_of_get hread, withPipe_eq, Table.set_comm writeFd_ne_readFd, Table.set_set,
    Table.set_eq_self get_readFd]

theorem close_writeFd :
    (withPipe fds).close (writeFd fds) = some (fds.set (readFd fds) (some .readEnd)) := by
  have hwrite : (withPipe fds).get (writeFd fds) = some .writeEnd := by
    rw [withPipe_eq, Table.get_set_self]
  rw [Table.close_of_get hwrite, withPipe_eq, Table.set_set,
    Table.set_eq_self (by rw [Table.get_set_of_ne writeFd_ne_readFd, get_writeFd])]

/-- What a child has open: at first the whole pipe, then the end `f` at `used`,
and in the end only at `target`. -/
def Child.Inv (fds : Table (File α)) (used target : Nat) (f : File α) : Child α → Prop
  | .alive .close fds' => fds' = withPipe fds
  | .alive .dup2 fds' => used ≠ target ∧ fds' = fds.set used (some f)
  | .alive .closeEnd fds' =>
      used ≠ target ∧ fds' = (fds.set used (some f)).set target (some f)
  | .alive .execlp fds' | .alive .running fds' => fds' = fds.set target (some f)
  | .unborn | .exited _ => True

/-- A child makes its next step, and only `err` stops it. -/
theorem childStep_ok {unused used target : Nat} {f : File α} {pc : ChildPc}
    {fds' : Table (File α)} (hfree : fds.get used = none)
    (hclose : (withPipe fds).close unused = some (fds.set used (some f)))
    (h : Child.Inv fds used target f (.alive pc fds')) :
    ∃ c, childStep unused used target (.alive pc fds') .ok = some c ∧
      c.Inv fds used target f := by
  cases pc with
  | close =>
      obtain rfl : fds' = withPipe fds := h
      refine ⟨_, by rw [childStep, hclose, Option.map_some], ?_⟩
      by_cases hthere : used = target
      · rw [if_neg (not_not_intro hthere)]
        exact congrArg (fun fd => fds.set fd (some f)) hthere
      · rw [if_pos hthere]
        exact ⟨hthere, rfl⟩
  | dup2 =>
      obtain ⟨hthere, rfl⟩ := h
      refine ⟨_, by rw [childStep, Table.dup2_of_get Table.get_set_self hthere,
        Option.map_some], ?_⟩
      exact ⟨hthere, rfl⟩
  | closeEnd =>
      obtain ⟨hthere, rfl⟩ := h
      have hused : ((fds.set used (some f)).set target (some f)).get used = some f := by
        rw [Table.get_set_of_ne hthere, Table.get_set_self]
      refine ⟨_, by rw [childStep, Table.close_of_get hused, Option.map_some], ?_⟩
      show _ = fds.set target (some f)
      rw [Table.set_comm (Ne.symm hthere), Table.set_set, Table.set_eq_self hfree]
  | execlp => exact ⟨_, rfl, h⟩
  | running => exact ⟨_, rfl, trivial⟩

theorem childStep_inv {unused used target : Nat} {f : File α} {c c' : Child α} {a : Answer}
    (hfree : fds.get used = none)
    (hclose : (withPipe fds).close unused = some (fds.set used (some f)))
    (h : c.Inv fds used target f) (hstep : childStep unused used target c a = some c') :
    c'.Inv fds used target f := by
  cases c with
  | unborn | exited status => cases hstep
  | alive pc fds' =>
      cases a with
      | ok =>
          obtain ⟨c'', hc'', hinv⟩ := childStep_ok hfree hclose h
          rw [hc'', Option.some.injEq] at hstep
          exact hstep ▸ hinv
      | err =>
          cases pc <;>
          · obtain rfl := Option.some.inj hstep
            trivial

/-- What the parent has open. -/
def parentFds (fds : Table (File α)) : ParentPc → Table (File α)
  | .pipe | .wait _ => fds
  | .forkLs | .forkWc | .closeRead => withPipe fds
  | .closeWrite => fds.set (writeFd fds) (some .writeEnd)
  | .exited _ => Table.empty

/-- The invariant: the numbers of the pipe are known once it is there, and each
process has open what it should have. -/
structure Inv (fds : Table (File α)) (s : State α) : Prop where
  parent : s.fds = parentFds fds s.parent
  pipefd : (s.parent = .pipe ∨ ∃ status, s.parent = .exited status) ∧ s.ls = .unborn ∧
    s.wc = .unborn ∨ s.pipefd = (readFd fds, writeFd fds)
  ls : s.ls.Inv fds (writeFd fds) STDOUT_FILENO .writeEnd
  wc : s.wc.Inv fds (readFd fds) STDIN_FILENO .readEnd

theorem inv_start (inherited : Table α) :
    Inv (inherited.map .inherited) (start inherited) where
  parent := rfl
  pipefd := .inl ⟨.inl rfl, rfl, rfl⟩
  ls := trivial
  wc := trivial

theorem parentStep_inv {s t : State α} {a : Answer} (h : Inv fds s)
    (hstep : parentStep s a = some t) : Inv fds t := by
  have hexit : ∀ status, Inv fds (s.exit status) := by
    intro status
    refine ⟨rfl, ?_, h.ls, h.wc⟩
    exact h.pipefd.imp_left fun hunborn => ⟨.inr ⟨status, rfl⟩, hunborn.2⟩
  have hknown : s.parent ≠ .pipe → (∀ status, s.parent ≠ .exited status) →
      s.pipefd = (readFd fds, writeFd fds) := by
    intro hpipe hexited
    exact h.pipefd.resolve_left fun hunborn =>
      hunborn.1.elim hpipe fun ⟨status, hstatus⟩ => hexited status hstatus
  have hparent := h.parent
  cases a with
  | ok =>
      cases hpc : s.parent with
      | pipe =>
          rw [hpc] at hparent
          simp only [parentStep, hpc, hparent, parentFds, Option.some.injEq] at hstep
          rw [← hstep]
          exact ⟨rfl, .inr rfl, h.ls, h.wc⟩
      | forkLs =>
          rw [hpc] at hparent
          have hfd := hknown (by simp [hpc]) (by simp [hpc])
          simp only [parentStep, hpc, Option.some.injEq] at hstep
          rw [← hstep]
          exact ⟨hparent, .inr hfd, hparent, h.wc⟩
      | forkWc =>
          rw [hpc] at hparent
          have hfd := hknown (by simp [hpc]) (by simp [hpc])
          simp only [parentStep, hpc, Option.some.injEq] at hstep
          rw [← hstep]
          exact ⟨hparent, .inr hfd, h.ls, hparent⟩
      | closeRead =>
          rw [hpc] at hparent
          have hfd := hknown (by simp [hpc]) (by simp [hpc])
          simp only [parentStep, hpc, hparent, hfd, parentFds, close_readFd, Option.map_some,
            Option.some.injEq] at hstep
          rw [← hstep]
          exact ⟨rfl, .inr rfl, h.ls, h.wc⟩
      | closeWrite =>
          rw [hpc] at hparent
          have hfd := hknown (by simp [hpc]) (by simp [hpc])
          simp only [parentStep, hpc, hparent, hfd, parentFds,
            Table.close_of_get Table.get_set_self, Table.set_set, Table.set_eq_self get_writeFd,
            Option.map_some, Option.some.injEq] at hstep
          rw [← hstep]
          exact ⟨rfl, .inr rfl, h.ls, h.wc⟩
      | wait i =>
          rw [hpc] at hparent
          have hfd := hknown (by simp [hpc]) (by simp [hpc])
          simp only [parentStep, hpc, Option.ite_none_right_eq_some, Option.some.injEq] at hstep
          rw [← hstep.2]
          split
          · exact ⟨hparent, .inr hfd, h.ls, h.wc⟩
          · exact hexit .success
      | exited status => simp [parentStep, hpc] at hstep
  | err =>
      cases hpc : s.parent with
      | exited status => simp [parentStep, hpc] at hstep
      | pipe | forkLs | forkWc | closeRead | closeWrite | wait i =>
          simp only [parentStep, hpc, Option.some.injEq] at hstep
          exact hstep ▸ hexit .failure

theorem step_inv {s t : State α} {l : Label} (h : Inv fds s) (hstep : step s l = some t) :
    Inv fds t := by
  cases l with
  | parent a => exact parentStep_inv h hstep
  | ls a =>
      obtain ⟨c, hc, rfl⟩ := Option.map_eq_some_iff.1 hstep
      rcases h.pipefd with ⟨-, hls, -⟩ | hfd
      · simp [hls, childStep] at hc
      · rw [hfd] at hc
        exact ⟨h.parent, .inr hfd, childStep_inv get_writeFd close_readFd h.ls hc, h.wc⟩
  | wc a =>
      obtain ⟨c, hc, rfl⟩ := Option.map_eq_some_iff.1 hstep
      rcases h.pipefd with ⟨-, -, hwc⟩ | hfd
      · simp [hwc, childStep] at hc
      · rw [hfd] at hc
        exact ⟨h.parent, .inr hfd, h.ls, childStep_inv get_readFd close_writeFd h.wc hc⟩

/-! ## The plumbing -/

theorem connected_set (inherited : Table α) (target : Nat) (f : File α) :
    Connected inherited target f ((inherited.map .inherited).set target (some f)) := by
  have hunchanged : ∀ fd, fd ≠ target →
      ((inherited.map .inherited).set target (some f)).get fd =
        (inherited.get fd).map .inherited := by
    intro fd hfd
    rw [Table.get_set_of_ne hfd, Table.get_map]
  refine ⟨Table.get_set_self, fun fd hfd => ?_, hunchanged⟩
  rw [NotPipe, hunchanged fd hfd]
  cases inherited.get fd with
  | none => simp
  | some a => simp

theorem notPipe_inherited (inherited : Table α) (fd : Nat) :
    NotPipe (inherited.map .inherited) fd := by
  rw [NotPipe, Table.get_map]
  cases inherited.get fd with
  | none => simp
  | some a => simp

theorem Inv.plumbed {inherited : Table α} {s : State α}
    (hinv : Inv (inherited.map .inherited) s) : Plumbed inherited s := by
  have hls : ∀ fds, s.ls = .alive .running fds →
      Connected inherited STDOUT_FILENO .writeEnd fds := by
    intro fds hrunning
    have hfds := hinv.ls
    rw [hrunning] at hfds
    obtain rfl : fds = _ := hfds
    exact connected_set inherited STDOUT_FILENO .writeEnd
  have hwc : ∀ fds, s.wc = .alive .running fds →
      Connected inherited STDIN_FILENO .readEnd fds := by
    intro fds hrunning
    have hfds := hinv.wc
    rw [hrunning] at hfds
    obtain rfl : fds = _ := hfds
    exact connected_set inherited STDIN_FILENO .readEnd
  have hparent : ∀ i, s.parent = .wait i → ∀ fd, NotPipe s.fds fd := by
    intro i hwait fd
    rw [hinv.parent, hwait]
    exact notPipe_inherited inherited fd
  refine ⟨hls, hwc, hparent, ?_⟩
  rintro i fds status hwait hrunning hexited (⟨fd, hfd⟩ | hholds | hholds)
  · exact (hparent i hwait fd).2 hfd
  · rw [hexited] at hholds
    exact hholds
  · rw [hrunning] at hholds
    obtain ⟨fd, hfd⟩ := hholds
    by_cases hstdin : fd = STDIN_FILENO
    · rw [hstdin, (hwc fds hrunning).there] at hfd
      cases hfd
    · exact ((hwc fds hrunning).noOther fd hstdin).2 hfd

theorem Inv.moves {s : State α} (hinv : Inv fds s) : Moves s := by
  refine ⟨fun pc fds hls => ?_, fun pc fds hwc => ?_, fun hwait hexited => ?_⟩
  · have hfd := hinv.pipefd.resolve_left fun hunborn => by simp [hls] at hunborn
    have hfds := hinv.ls
    rw [hls] at hfds
    obtain ⟨c, hc, -⟩ := childStep_ok get_writeFd close_readFd hfds
    exact ⟨_, by rw [step, hfd, hls, hc, Option.map_some]⟩
  · have hfd := hinv.pipefd.resolve_left fun hunborn => by simp [hwc] at hunborn
    have hfds := hinv.wc
    rw [hwc] at hfds
    obtain ⟨c, hc, -⟩ := childStep_ok get_readFd close_writeFd hfds
    exact ⟨_, by rw [step, hfd, hwc, hc, Option.map_some]⟩
  · have hparent := hinv.parent
    cases hpc : s.parent with
    | pipe | forkLs | forkWc => exact ⟨_, by simp only [step, parentStep, hpc]; rfl⟩
    | closeRead =>
        have hfd := hinv.pipefd.resolve_left fun hunborn => by simp [hpc] at hunborn
        rw [hpc] at hparent
        exact ⟨_, by simp only [step, parentStep, hpc, hparent, hfd, parentFds, close_readFd,
          Option.map_some]; rfl⟩
    | closeWrite =>
        have hfd := hinv.pipefd.resolve_left fun hunborn => by simp [hpc] at hunborn
        rw [hpc] at hparent
        exact ⟨_, by simp only [step, parentStep, hpc, hparent, hfd, parentFds,
          Table.close_of_get Table.get_set_self, Option.map_some]; rfl⟩
    | wait i => exact absurd hpc (hwait i)
    | exited status => exact absurd hpc (hexited status)

/-- **In every run the pipe is plumbed**, whatever descriptors are inherited, and
no process is stopped by its descriptors. -/
theorem plumbing (inherited : Table α) {s : State α}
    (h : Reachable step (start inherited) s) : Plumbed inherited s ∧ Moves s := by
  have hinv : Inv (inherited.map .inherited) s :=
    h.invariant (fun s l t => step_inv) (inv_start inherited)
  exact ⟨hinv.plumbed, hinv.moves⟩

/-! ## Both children at work -/

/-- The calls of a child up to its program. -/
def turns (used target : Nat) : List Answer :=
  if used = target then [.ok, .ok] else [.ok, .ok, .ok, .ok]

theorem exec_turns {unused used target : Nat} {f : File α} (hfree : fds.get used = none)
    (hclose : (withPipe fds).close unused = some (fds.set used (some f))) :
    exec (childStep unused used target) (.alive .close (withPipe fds)) (turns used target) =
      some (.alive .running (fds.set target (some f))) := by
  by_cases hthere : used = target
  · simp [turns, exec, childStep, hclose, hthere]
  · have hmoved : ((fds.set used (some f)).set target (some f)).set used none =
        fds.set target (some f) := by
      rw [Table.set_comm (Ne.symm hthere), Table.set_set, Table.set_eq_self hfree]
    have hused : ((fds.set used (some f)).set target (some f)).get used = some f := by
      rw [Table.get_set_of_ne hthere, Table.get_set_self]
    simp [turns, exec, childStep, hclose, hthere, Table.dup2_of_get Table.get_set_self hthere,
      Table.close_of_get hused, hmoved]

/-- The pipe is created, and both children get as far as their programs. -/
def bothRun (fds : Table (File α)) : List Label :=
  [.parent .ok, .parent .ok, .parent .ok] ++ (turns (writeFd fds) STDOUT_FILENO).map .ls ++
    (turns (readFd fds) STDIN_FILENO).map .wc

/-- A child goes on by itself. -/
theorem exec_ls (s : State α) (c : Child α) (answers : List Answer) :
    exec step { s with ls := c } (answers.map Label.ls) =
      (exec (childStep s.pipefd.1 s.pipefd.2 STDOUT_FILENO) c answers).map
        fun ls => { s with ls := ls } :=
  exec_lift (fun ls => { s with ls := ls }) Label.ls (fun _ _ => rfl) c answers

theorem exec_wc (s : State α) (c : Child α) (answers : List Answer) :
    exec step { s with wc := c } (answers.map Label.wc) =
      (exec (childStep s.pipefd.2 s.pipefd.1 STDIN_FILENO) c answers).map
        fun wc => { s with wc := wc } :=
  exec_lift (fun wc => { s with wc := wc }) Label.wc (fun _ _ => rfl) c answers

theorem exec_bothRun (inherited : Table α) :
    ∃ s ls wc, exec step (start inherited) (bothRun (inherited.map .inherited)) = some s ∧
      s.ls = .alive .running ls ∧ s.wc = .alive .running wc := by
  let fds : Table (File α) := inherited.map .inherited
  let forked : State α := ⟨.closeRead, withPipe fds, (readFd fds, writeFd fds),
    .alive .close (withPipe fds), .alive .close (withPipe fds)⟩
  have hls := exec_ls forked (.alive .close (withPipe fds)) (turns (writeFd fds) STDOUT_FILENO)
  rw [exec_turns get_writeFd close_readFd, Option.map_some] at hls
  have hwc := exec_wc { forked with ls := .alive .running (fds.set STDOUT_FILENO (some .writeEnd)) }
    (.alive .close (withPipe fds)) (turns (readFd fds) STDIN_FILENO)
  rw [exec_turns get_readFd close_writeFd, Option.map_some] at hwc
  exact ⟨_, _, _, exec_append (exec_append rfl hls) hwc, rfl, rfl⟩

/-- The pipe is at `r` and `w` if these are the lowest free descriptors. -/
theorem fds_eq {r w : Nat} (hr : fds.get r = none) (hbelow : ∀ fd < r, (fds.get fd).isSome = true)
    (hw : (fds.set r (some .readEnd)).get w = none)
    (hbetween : ∀ fd < w, ((fds.set r (some .readEnd)).get fd).isSome = true) :
    readFd fds = r ∧ writeFd fds = w := by
  have hread : readFd fds = r := Table.lowest_eq hr hbelow
  refine ⟨hread, ?_⟩
  show (fds.set (readFd fds) (some .readEnd)).lowest = w
  rw [hread]
  exact Table.lowest_eq hw hbetween

/-- Only standard error is open. -/
def stderrOnly : Table Unit := Table.empty.set 2 (some ())

/-- The standard descriptors are open. -/
def standard : Table Unit := (stderrOnly.set 0 (some ())).set 1 (some ())

/-- Where only standard error is open the ends of the pipe are 0 and 1, where the
children need them; where 0 and 1 are open, too, each child moves its own. -/
theorem plumbing_stderr_only_and_standard :
    (∃ s ls wc, exec step (start stderrOnly) [.parent .ok, .parent .ok, .parent .ok,
        .ls .ok, .ls .ok, .wc .ok, .wc .ok] = some s ∧
      s.ls = .alive .running ls ∧ s.wc = .alive .running wc ∧
      Connected stderrOnly STDOUT_FILENO .writeEnd ls ∧
      Connected stderrOnly STDIN_FILENO .readEnd wc ∧ Moves s) ∧
    ∃ s ls wc, exec step (start standard) [.parent .ok, .parent .ok, .parent .ok,
        .ls .ok, .ls .ok, .ls .ok, .ls .ok, .wc .ok, .wc .ok, .wc .ok, .wc .ok] = some s ∧
      s.ls = .alive .running ls ∧ s.wc = .alive .running wc ∧
      Connected standard STDOUT_FILENO .writeEnd ls ∧
      Connected standard STDIN_FILENO .readEnd wc ∧ Moves s := by
  constructor
  · obtain ⟨s, ls, wc, hrun, hls, hwc⟩ := exec_bothRun stderrOnly
    have hfds : readFd (stderrOnly.map .inherited) = 0 ∧ writeFd (stderrOnly.map .inherited) = 1 :=
      fds_eq rfl (by decide) rfl (by decide)
    rw [bothRun, hfds.1, hfds.2] at hrun
    have hplumbed := plumbing stderrOnly ⟨_, hrun⟩
    exact ⟨s, ls, wc, hrun, hls, hwc, hplumbed.1.ls ls hls, hplumbed.1.wc wc hwc, hplumbed.2⟩
  · obtain ⟨s, ls, wc, hrun, hls, hwc⟩ := exec_bothRun standard
    have hfds : readFd (standard.map .inherited) = 3 ∧ writeFd (standard.map .inherited) = 4 :=
      fds_eq rfl (by decide) rfl (by decide)
    rw [bothRun, hfds.1, hfds.2] at hrun
    have hplumbed := plumbing standard ⟨_, hrun⟩
    exact ⟨s, ls, wc, hrun, hls, hwc, hplumbed.1.ls ls hls, hplumbed.1.wc wc hwc, hplumbed.2⟩

end Lpi.Ports.PipeLsWc
