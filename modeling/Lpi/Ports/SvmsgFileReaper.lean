import Lpi.Verified.CData
import Lpi.Verified.Run

/-!
# The server's children and `SIGCHLD` (`svipc/svmsg_file_server.c`)

The file server forks a child for every request and collects the children in
a handler for `SIGCHLD`.  The signal is not queued: however many children
terminate, there is one pending bit, and the bit cannot be delivered again
while the handler runs.  That is why the handler loops until `waitpid`
reaps nothing.

This module models the process side of the server, from the `sigaction` call
on: the loop of `main`, the handler with its saved `errno`, and any number of
children, which may terminate at any moment.  What the children do for their
clients is the subject of `Lpi.Ports.SvmsgFile`.
-/

namespace Lpi.Ports.SvmsgFile.Reaper

open Lpi.Verified.CData
open Lpi.Verified.Run

/-! ## State -/

/-- A process id as `fork` returns it to the parent. -/
structure Pid where
  num : Int32
  pos : 0 < num
  deriving DecidableEq

/-- `EINTR` and `ECHILD`. -/
def eintr : Int32 := 4

def echild : Int32 := 10

/-- Where `main` is, from the installation of the handler on. -/
inductive MainPc where
  | sigaction
  | msgrcv
  /-- `errno == EINTR`, after a failed `msgrcv`. -/
  | testErrno
  | fork
  /-- `msgctl(msqid, IPC_RMID, NULL)` after the loop. -/
  | msgctl
  | exited (status : Exit)
  deriving DecidableEq

/-- Where `childCleanupHandler` is. -/
inductive HandlerPc where
  /-- `int savedErrno = errno`. -/
  | save
  /-- The `waitpid` of the `while`. -/
  | waitpid (savedErrno : Int32)
  /-- `errno = savedErrno`. -/
  | restore (savedErrno : Int32)
  deriving DecidableEq

/-- The server process.  `running` are its children that have not terminated
and `zombies` those that have and were not waited for; `pending` is the
pending bit of `SIGCHLD`. -/
structure State where
  main : MainPc
  errno : Int32
  running : List Pid
  zombies : List Pid
  pending : Bool
  handler : Option HandlerPc
  deriving DecidableEq

/-- The answer to a system call of `main`. -/
inductive Answer where
  | ok
  /-- `fork` returning a child to the parent. -/
  | forked (pid : Pid)
  | err (errno : Int32)
  deriving DecidableEq

inductive Label where
  | main (a : Answer)
  /-- The child `pid` terminates. -/
  | terminate (pid : Pid)
  /-- `SIGCHLD` for another reason: a child was stopped or continued, or
  somebody called `kill`. -/
  | raise
  | deliver
  /-- A step of the handler; `reap` is the child `waitpid` picks, if any. -/
  | handler (reap : Option Pid)
  deriving DecidableEq

/-! ## Steps -/

/-- `exit` or `return` from `main`: the children go to another parent. -/
def State.exit (s : State) (status : Exit) : State :=
  { s with main := .exited status, running := [], zombies := [] }

/-- The next step of `main`. -/
def mainStep (s : State) : Answer → Option State
  | .ok =>
    match s.main with
    | .sigaction => some { s with main := .msgrcv }
    | .msgrcv => some { s with main := .fork }
    | .testErrno => some
        { s with main := if s.errno = eintr then .msgrcv else .msgctl }
    | .msgctl => some (s.exit .success)
    | .fork | .exited _ => none
  | .forked pid =>
    match s.main with
    | .fork =>
        if pid ∈ s.running ∨ pid ∈ s.zombies then none
        else some { s with running := pid :: s.running, main := .msgrcv }
    | _ => none
  | .err e =>
    match s.main with
    | .sigaction => some (State.exit { s with errno := e } .failure)
    | .msgrcv => some { s with errno := e, main := .testErrno }
    | .fork => some { s with errno := e, main := .msgctl }
    | .msgctl => some (State.exit { s with errno := e } .failure)
    | .testErrno | .exited _ => none

/-- `waitpid(-1, NULL, WNOHANG)`: its result and the state after it.  A
zombie is reaped if there is one, `reap` saying which. -/
def waitpid (s : State) : Option Pid → Option (Int32 × State)
  | some pid =>
      if pid ∈ s.zombies then
        some (pid.num, { s with zombies := s.zombies.erase pid })
      else none
  | none =>
      if s.zombies ≠ [] then none
      else if s.running ≠ [] then some (0, s)
      else some (-1, { s with errno := echild })

/-- The next step of `childCleanupHandler`. -/
def handlerStep (s : State) (reap : Option Pid) : Option State :=
  match s.handler with
  | none => none
  | some .save => some { s with handler := some (.waitpid s.errno) }
  | some (.waitpid saved) => (waitpid s reap).map fun (result, s) =>
      if result > 0 then { s with handler := some (.waitpid saved) }
      else { s with handler := some (.restore saved) }
  | some (.restore saved) => some { s with errno := saved, handler := none }

/-- The handler is installed and the process is alive. -/
def MainPc.catches : MainPc → Bool
  | .sigaction | .exited _ => false
  | .msgrcv | .testErrno | .fork | .msgctl => true

/-- `SIGCHLD` becomes pending; by default it is ignored. -/
def State.raise (s : State) : State :=
  { s with pending := s.pending || s.main.catches }

/-- One step of the server process, its children or the kernel.  `main` does
not run while the handler does, and the signal is blocked meanwhile. -/
def step (s : State) : Label → Option State
  | .main a => if s.handler = none then mainStep s a else none
  | .terminate pid =>
      if pid ∈ s.running then
        some (State.raise { s with running := s.running.erase pid
                                   zombies := pid :: s.zombies })
      else none
  | .raise => some s.raise
  | .deliver =>
      if s.pending = true ∧ s.handler = none ∧ s.main.catches = true then
        some { s with pending := false, handler := some .save }
      else none
  | .handler reap => handlerStep s reap

/-- Before the installation of the handler the server has no children. -/
def start (errno : Int32) : State where
  main := .sigaction
  errno := errno
  running := []
  zombies := []
  pending := false
  handler := none

/-! ## No zombie is forgotten -/

/-- The handler is running and will call `waitpid` again. -/
def State.willWait (s : State) : Prop :=
  match s.handler with
  | some .save | some (.waitpid _) => True
  | some (.restore _) | none => False

/-- Whoever has to be waited for will be: the signal is still to come, or the
handler has not made its last `waitpid`.  Children exist only while the
handler is installed. -/
structure Inv (s : State) : Prop where
  noticed : s.zombies ≠ [] → s.pending = true ∨ s.willWait
  catches : s.running ≠ [] → s.main.catches = true

theorem start_inv (errno : Int32) : Inv (start errno) where
  noticed := fun h => absurd rfl h
  catches := fun h => absurd rfl h

/-- `main` makes no zombies, and does not touch the signal. -/
theorem Inv.main_step {s t : State} {a : Answer} (h : Inv s)
    (hstep : mainStep s a = some t) : Inv t := by
  cases a with
  | ok =>
      cases hpc : s.main with
      | sigaction | msgrcv =>
          simp only [mainStep, hpc, Option.some.injEq] at hstep
          subst hstep
          exact ⟨h.noticed, fun _ => rfl⟩
      | testErrno =>
          simp only [mainStep, hpc, Option.some.injEq] at hstep
          subst hstep
          refine ⟨h.noticed, fun _ => ?_⟩
          by_cases he : s.errno = eintr <;> simp [he, MainPc.catches]
      | msgctl =>
          simp only [mainStep, hpc, Option.some.injEq] at hstep
          subst hstep
          exact ⟨fun hz => absurd rfl hz, fun hr => absurd rfl hr⟩
      | fork | exited status => simp [mainStep, hpc] at hstep
  | forked pid =>
      cases hpc : s.main with
      | fork =>
          simp only [mainStep, hpc, Option.ite_none_left_eq_some,
            Option.some.injEq] at hstep
          obtain ⟨_, rfl⟩ := hstep
          exact ⟨h.noticed, fun _ => rfl⟩
      | sigaction | msgrcv | testErrno | msgctl | exited status =>
          simp [mainStep, hpc] at hstep
  | err e =>
      cases hpc : s.main with
      | msgrcv | fork =>
          simp only [mainStep, hpc, Option.some.injEq] at hstep
          subst hstep
          exact ⟨h.noticed, fun _ => rfl⟩
      | sigaction | msgctl =>
          simp only [mainStep, hpc, Option.some.injEq] at hstep
          subst hstep
          exact ⟨fun hz => absurd rfl hz, fun hr => absurd rfl hr⟩
      | testErrno | exited status => simp [mainStep, hpc] at hstep

/-- What `waitpid` can do: reap one zombie, or find none. -/
theorem waitpid_cases {s t : State} {reap : Option Pid} {result : Int32}
    (h : waitpid s reap = some (result, t)) :
    (result > 0 ∧ ∃ pid ∈ s.zombies,
      t = { s with zombies := s.zombies.erase pid }) ∨
    (¬ result > 0 ∧ s.zombies = [] ∧ ∃ e, t = { s with errno := e }) := by
  cases reap with
  | some pid =>
      simp only [waitpid, Option.ite_none_right_eq_some, Option.some.injEq,
        Prod.mk.injEq] at h
      obtain ⟨hmem, rfl, rfl⟩ := h
      exact Or.inl ⟨pid.pos, pid, hmem, rfl⟩
  | none =>
      by_cases hz : s.zombies = []
      · by_cases hr : s.running = []
        · simp only [waitpid, hz, hr, ne_eq, not_true_eq_false, if_false,
            Option.some.injEq, Prod.mk.injEq] at h
          obtain ⟨rfl, rfl⟩ := h
          exact Or.inr ⟨by decide, hz, echild, by rw [hz, hr]⟩
        · simp only [waitpid, hz, hr, ne_eq, not_true_eq_false, if_false,
            not_false_eq_true, if_true, Option.some.injEq, Prod.mk.injEq] at h
          obtain ⟨rfl, rfl⟩ := h
          exact Or.inr ⟨by decide, hz, s.errno, rfl⟩
      · simp [waitpid, hz] at h

theorem Inv.handler_step {s t : State} {reap : Option Pid} (h : Inv s)
    (hstep : handlerStep s reap = some t) : Inv t := by
  cases hpc : s.handler with
  | none => simp [handlerStep, hpc] at hstep
  | some pc =>
      cases pc with
      | save =>
          simp only [handlerStep, hpc, Option.some.injEq] at hstep
          subst hstep
          exact ⟨fun _ => Or.inr trivial, h.catches⟩
      | waitpid saved =>
          simp only [handlerStep, hpc, Option.map_eq_some_iff] at hstep
          obtain ⟨⟨result, u⟩, hwait, rfl⟩ := hstep
          rcases waitpid_cases hwait with ⟨hpos, pid, _, rfl⟩ |
            ⟨hneg, hz, e, rfl⟩
          · simp only [hpos, if_true]
            exact ⟨fun _ => Or.inr trivial, h.catches⟩
          · -- The last `waitpid` has found no zombie.
            simp only [hneg, if_false]
            exact ⟨fun hne => absurd hz hne, h.catches⟩
      | restore saved =>
          simp only [handlerStep, hpc, Option.some.injEq] at hstep
          subst hstep
          refine ⟨fun hne => ?_, h.catches⟩
          have hnot : ¬ s.willWait := by simp [State.willWait, hpc]
          exact Or.inl ((h.noticed hne).resolve_right hnot)

theorem Inv.next {s t : State} {l : Label} (h : Inv s)
    (hstep : step s l = some t) : Inv t := by
  cases l with
  | main a =>
      simp only [step, Option.ite_none_right_eq_some] at hstep
      exact h.main_step hstep.2
  | terminate pid =>
      simp only [step, Option.ite_none_right_eq_some, Option.some.injEq] at hstep
      obtain ⟨hmem, rfl⟩ := hstep
      have hcatch := h.catches (List.ne_nil_of_mem hmem)
      refine ⟨fun _ => Or.inl ?_, fun _ => hcatch⟩
      simp [State.raise, hcatch]
  | raise =>
      simp only [step, Option.some.injEq] at hstep
      subst hstep
      refine ⟨fun hne => ?_, h.catches⟩
      rcases h.noticed hne with hp | hw
      · exact Or.inl (by simp [State.raise, hp])
      · exact Or.inr hw
  | deliver =>
      simp only [step, Option.ite_none_right_eq_some, Option.some.injEq] at hstep
      obtain ⟨_, rfl⟩ := hstep
      exact ⟨fun _ => Or.inr trivial, h.catches⟩
  | handler reap => exact h.handler_step hstep

theorem inv_of_reachable {errno : Int32} {s : State}
    (h : Reachable step (start errno) s) : Inv s :=
  h.invariant (fun _ _ _ hI hstep => hI.next hstep) (start_inv errno)

/-! ## `errno` of the interrupted loop -/

/-- The handler interrupted `main` at `pc`, when `errno` was `e`, and will put
`e` back or has done so. -/
structure Interrupted (pc : MainPc) (e : Int32) (s : State) : Prop where
  main : s.main = pc
  errno :
    match s.handler with
    | none | some .save => s.errno = e
    | some (.waitpid saved) | some (.restore saved) => saved = e

/-- Whatever happens while the handler runs, it keeps what it saved. -/
theorem Interrupted.next {pc : MainPc} {e : Int32} {s t : State} {l : Label}
    (h : Interrupted pc e s) (hactive : s.handler ≠ none)
    (hstep : step s l = some t) : Interrupted pc e t := by
  cases l with
  | main a => simp [step, hactive] at hstep
  | deliver => simp [step, hactive] at hstep
  | terminate pid =>
      simp only [step, Option.ite_none_right_eq_some, Option.some.injEq] at hstep
      obtain ⟨_, rfl⟩ := hstep
      exact ⟨h.main, h.errno⟩
  | raise =>
      simp only [step, Option.some.injEq] at hstep
      subst hstep
      exact ⟨h.main, h.errno⟩
  | handler reap =>
      simp only [step] at hstep
      have herrno := h.errno
      cases hpc : s.handler with
      | none => exact absurd hpc hactive
      | some hp =>
          simp only [hpc] at herrno
          cases hp with
          | save =>
              simp only [handlerStep, hpc, Option.some.injEq] at hstep
              subst hstep
              exact ⟨h.main, herrno⟩
          | waitpid saved =>
              simp only [handlerStep, hpc, Option.map_eq_some_iff] at hstep
              obtain ⟨⟨result, u⟩, hwait, rfl⟩ := hstep
              rcases waitpid_cases hwait with ⟨hpos, pid, _, rfl⟩ |
                ⟨hneg, _, e', rfl⟩
              · simp only [hpos, if_true]
                exact ⟨h.main, herrno⟩
              · simp only [hneg, if_false]
                exact ⟨h.main, herrno⟩
          | restore saved =>
              simp only [handlerStep, hpc, Option.some.injEq] at hstep
              subst hstep
              exact ⟨h.main, herrno⟩

theorem interrupted_of_deliver {s t : State} (hstep : step s .deliver = some t) :
    Interrupted s.main s.errno t := by
  simp only [step, Option.ite_none_right_eq_some, Option.some.injEq] at hstep
  obtain ⟨_, rfl⟩ := hstep
  exact ⟨rfl, rfl⟩

/-- From the delivery of the signal to the return of the handler, `main`
stays where it was and finds its `errno` unchanged. -/
theorem handler_keeps_errno {s m t : State} {ls : List Label}
    (hdeliver : step s .deliver = some m)
    (hactive : Along step (fun u _ => u.handler ≠ none) m ls)
    (hrun : exec step m ls = some t) (hreturned : t.handler = none) :
    t.main = s.main ∧ t.errno = s.errno := by
  have h := invariant_along (I := Interrupted s.main s.errno)
    (fun _ _ _ hI hC hstep => hI.next hC hstep)
    (interrupted_of_deliver hdeliver) hactive hrun
  have herrno := h.errno
  simp only [hreturned] at herrno
  exact ⟨h.main, herrno⟩

/-! ## Main result -/

/-- **No zombie is forgotten.**  For every number of children and every
interleaving of forks, terminations, deliveries and steps of the handler: a
zombie means that the signal is pending or that the handler has not made its
last `waitpid`; when neither the handler nor the signal is there, there is no
zombie; and the handler gives `errno` back as it found it. -/
theorem no_zombie_forgotten (errno : Int32) (s : State)
    (h : Reachable step (start errno) s) :
    (s.zombies ≠ [] → s.pending = true ∨ s.willWait) ∧
    (s.handler = none → s.pending = false → s.zombies = []) ∧
    (∀ m ls t, step s .deliver = some m →
      Along step (fun u _ => u.handler ≠ none) m ls →
      exec step m ls = some t → t.handler = none →
      t.main = s.main ∧ t.errno = s.errno) := by
  have hinv := inv_of_reachable h
  refine ⟨hinv.noticed, ?_, fun m ls t => handler_keeps_errno⟩
  intro hnone hclear
  by_contra hz
  rcases hinv.noticed hz with hp | hw
  · simp [hclear] at hp
  · simp [State.willWait, hnone] at hw

/-- Two children terminate with one pending signal, before a failed `msgrcv`
is looked at.  One run of the handler reaps both, and its last `waitpid`,
which fails with `ECHILD`, does not hide the `EINTR`. -/
theorem no_zombie_forgotten_two_children :
    ∃ s t, Reachable step (start 0) s ∧ s.zombies.length = 2 ∧
      (s.pending = true ∨ s.willWait) ∧ Reachable step s t ∧
      t.zombies = [] ∧ t.errno = s.errno ∧ s.errno = eintr := by
  let a : Pid := ⟨100, by decide⟩
  let b : Pid := ⟨101, by decide⟩
  let before : List Label := [.main .ok, .main .ok, .main (.forked a),
    .main .ok, .main (.forked b), .terminate a, .terminate b,
    .main (.err eintr)]
  let during : List Label :=
    [.handler none, .handler (some b), .handler (some a), .handler none,
      .handler none]
  let s : State := ⟨.testErrno, eintr, [], [b, a], true, none⟩
  let m : State := ⟨.testErrno, eintr, [], [b, a], false, some .save⟩
  let t : State := ⟨.testErrno, eintr, [], [], false, none⟩
  have hs : exec step (start 0) before = some s := by decide
  have hdeliver : step s .deliver = some m := by decide
  have hrun : exec step m during = some t := by decide
  obtain ⟨hnoticed, _, hkeeps⟩ := no_zombie_forgotten 0 s ⟨before, hs⟩
  have herrno := (hkeeps m during t hdeliver (by decide) hrun rfl).2
  refine ⟨s, t, ⟨before, hs⟩, rfl, hnoticed (by decide), ?_, rfl, herrno, rfl⟩
  exact ⟨.deliver :: during, exec_cons_eq_some.2 ⟨m, hdeliver, hrun⟩⟩

end Lpi.Ports.SvmsgFile.Reaper
