import Lpi.Ports.NumericArgs
import Lpi.Ports.PipeSync
import Lpi.Verified.CData
import Lpi.Verified.Family
import Lpi.Verified.Run
import Lpi.Verified.SharedLock
import Mathlib.Algebra.Order.BigOperators.Group.Finset

/-!
# Locks on files (`filelock/t_flock.c`)

The program locks a file, shared or exclusively, holds the lock for some seconds and
releases it.  Any number of processes `κ` run it at the same time, each with its own
arguments; two of them are rivals if their names lead to the same file.  Each system
call is one step, the order of the steps is arbitrary, and a process sleeps as long as
it likes.

A process has the lock from `flock()` to the release, or to its end.  So the locks of
rivals go together in every state, and nobody waits for ever: who waits has a rival
with a lock, and that one does not wait for anything.
-/

namespace Lpi.Ports.TFlock

open Lpi.Ports.PipeSync (helpOption)
open Lpi.Verified.CData
open Lpi.Verified.CInt
open Lpi.Verified.CString
open Lpi.Verified.Family
open Lpi.Verified.Run
open Lpi.Verified.SharedLock

/-! ## State -/

/-- Where a process is. -/
inductive Pc where
  | start
  | openFile
  | flock
  /-- The lock is granted, and the seconds are still to be read. -/
  | granted
  | asleep (secs : Nat)
  /-- In `flock(fd, LOCK_UN)`. -/
  | unlock
  | exited (status : Exit)
  deriving DecidableEq, Repr

structure Proc where
  pc : Pc
  stdout : List UInt8
  stderr : List UInt8
  deriving DecidableEq, Repr

/-- The processes and their locks. -/
structure State (κ : Type) where
  proc : κ → Proc
  held : κ → Option Mode

/-- What the processes are started with: the name of the program, the arguments after
it and the process identifier; and which file a name leads to. -/
structure System (κ : Type) where
  program : κ → CStr
  argv : κ → List CStr
  pid : κ → Nat
  file : CStr → Nat
  strerror : Nat → List UInt8

/-- The result of a call. -/
inductive Answer where
  | ok
  | err (errno : Nat)
  deriving DecidableEq, Repr

variable {κ : Type}

/-! ## The arguments -/

/-- `argv[2]`: the lock, and whether it is asked for without waiting. -/
def lockOf : List UInt8 → Option (Mode × Bool)
  | [] => none
  | c :: more =>
    let mode := if c = 115 then some Mode.shared
      else if c = 120 then some Mode.exclusive else none
    match more with
    | [] => mode.map fun m => (m, false)
    | [n] => if n = 110 then mode.map fun m => (m, true) else none
    | _ => none

/-- The file, the lock and the seconds, if the arguments are right. -/
structure Request where
  pathname : CStr
  mode : Mode
  nonblocking : Bool
  secs : Option CStr
  deriving DecidableEq

def request : List CStr → Option Request
  | pathname :: lock :: more =>
      if pathname.bytes = helpOption then none
      else (lockOf lock.bytes).map fun (mode, nonblocking) =>
        ⟨pathname, mode, nonblocking, more.head?⟩
  | _ => none

/-- How long to hold the lock; `sleep()` takes an `unsigned int`. -/
def Request.seconds (r : Request) : Except (List UInt8) Nat :=
  match r.secs with
  | none => .ok 10
  | some str => (NumericArgs.TFlock.getLong str).map fun v => (IntType.uint.wrap v).toNat

/-! ## The texts -/

def printUsage (program : CStr) : List UInt8 :=
  ascii "Usage: " ++ program.bytes ++ ascii " <file> <lock> [<secs>]\n" ++
    ascii "    <lock> - 's' (shared) or 'x' (exclusive)\n" ++
    ascii "             optionally followed by 'n' (nonblocking)\n" ++
    ascii "    <secs> - seconds to hold the lock\n"

def lockName : Mode → List UInt8
  | .shared => ascii "LOCK_SH"
  | .exclusive => ascii "LOCK_EX"

/-- `PID %ld: <verb> %s at %s\n`. -/
def report (pid : Nat) (verb : String) (r : Request) : List UInt8 :=
  ascii "PID " ++ decimal pid ++ ascii ": " ++ ascii verb ++ ascii " " ++ lockName r.mode ++
    ascii " at " ++ r.pathname.bytes ++ ascii "\n"

def alreadyLocked (pid : Nat) : List UInt8 :=
  ascii "PID " ++ decimal pid ++ ascii ": already locked - bye!\n"

/-- `EWOULDBLOCK`. -/
def EWOULDBLOCK : Nat := 11

/-- What is printed for a `flock()` that has failed. -/
def refusal (sys : System κ) (k : κ) (r : Request) (errno : Nat) : List UInt8 :=
  if errno = EWOULDBLOCK then alreadyLocked (sys.pid k)
  else ascii "Failed to flock() " ++ lockName r.mode ++ ascii " at " ++ r.pathname.bytes ++
    ascii " - " ++ sys.strerror errno ++ ascii "\n"

/-! ## Steps -/

/-- The file that process `k` wants. -/
def System.target (sys : System κ) (k : κ) : Option Nat :=
  (request (sys.argv k)).map fun r => sys.file r.pathname

/-- Two processes want the same file. -/
def System.Rival (sys : System κ) (i j : κ) : Prop := i ≠ j ∧ sys.target i = sys.target j

def Proc.say (p : Proc) (text : List UInt8) (pc : Pc) : Proc :=
  { p with stdout := p.stdout ++ text, pc := pc }

def Proc.fail (p : Proc) (text : List UInt8) : Proc :=
  { p with stderr := p.stderr ++ text, pc := .exited .failure }

variable [DecidableEq κ]

instance (sys : System κ) : DecidableRel sys.Rival :=
  fun _ _ => inferInstanceAs (Decidable (_ ∧ _))

/-- Process `k` becomes `p`. -/
def State.set (s : State κ) (k : κ) (p : Proc) : State κ :=
  { s with proc := Function.update s.proc k p }

/-- The lock of `k` is now `lock`. -/
def State.setLock (s : State κ) (k : κ) (lock : Option Mode) : State κ :=
  { s with held := Function.update s.held k lock }

/-- Process `k` ends with a message; its lock goes with its descriptor. -/
def State.fail (s : State κ) (k : κ) (text : List UInt8) : State κ :=
  (s.set k ((s.proc k).fail text)).setLock k none

/-- The next step of process `k`, whose arguments are right. -/
def callStep [Fintype κ] (sys : System κ) (s : State κ) (k : κ) (r : Request) :
    Answer → Option (State κ)
  | .ok =>
    match (s.proc k).pc with
    | .openFile => some (s.set k ((s.proc k).say (report (sys.pid k) "requesting" r) .flock))
    | .flock =>
        if Free sys.Rival s.held k r.mode then
          some ((s.set k ((s.proc k).say (report (sys.pid k) "granted" r) .granted)).setLock k
            (some r.mode))
        else if r.nonblocking then some (s.fail k (refusal sys k r EWOULDBLOCK))
        else none
    | .granted => some
        (match r.seconds with
        | .error text => s.fail k text
        | .ok secs => s.set k ((s.proc k).say [] (.asleep secs)))
    | .asleep _ => some (s.set k ((s.proc k).say (report (sys.pid k) "releasing" r) .unlock))
    | .unlock => some ((s.set k ((s.proc k).say [] (.exited .success))).setLock k none)
    | .start | .exited _ => none
  | .err e =>
    match (s.proc k).pc with
    | .openFile => some (s.fail k (ascii "Failed to open() " ++ r.pathname.bytes ++
        ascii " - " ++ sys.strerror e ++ ascii "\n"))
    | .flock => some (s.fail k (refusal sys k r e))
    | .unlock => some (s.fail k (ascii "Failed to unlock flock() at " ++ r.pathname.bytes ++
        ascii " - " ++ sys.strerror e ++ ascii "\n"))
    | .start | .granted | .asleep _ | .exited _ => none

/-- The next step of process `k`. -/
def step [Fintype κ] (sys : System κ) (s : State κ) : κ × Answer → Option (State κ)
  | (k, a) =>
    match request (sys.argv k), (s.proc k).pc, a with
    | none, .start, .ok => some (s.fail k (printUsage (sys.program k)))
    | some _, .start, .ok => some (s.set k ((s.proc k).say [] .openFile))
    | some r, _, a => callStep sys s k r a
    | none, _, _ => none

/-- The processes are about to look at their arguments. -/
def start : State κ where
  proc := fun _ => ⟨.start, [], []⟩
  held := fun _ => none

/-! ## Where a process is -/

/-- The lines of a process up to `granted` and up to the end. -/
def requested (sys : System κ) (k : κ) (r : Request) : List UInt8 :=
  report (sys.pid k) "requesting" r

def lockedText (sys : System κ) (k : κ) (r : Request) : List UInt8 :=
  requested sys k r ++ report (sys.pid k) "granted" r

def fullText (sys : System κ) (k : κ) (r : Request) : List UInt8 :=
  lockedText sys k r ++ report (sys.pid k) "releasing" r

/-- Why a process fails though no call of it does: it does not want to wait, or cannot
read its seconds. -/
def Refused (sys : System κ) (k : κ) (r : Request) (p : Proc) : Prop :=
  (r.nonblocking = true ∧ p.stdout = requested sys k r ∧ p.stderr = alreadyLocked (sys.pid k)) ∨
    ∃ text, r.seconds = .error text ∧ p.stdout = lockedText sys k r ∧ p.stderr = text

/-- What a process has written and which lock it has, by where it is.  If `orderly`, no
call has failed. -/
def Tracks (orderly : Prop) (sys : System κ) (k : κ) (r : Request) (p : Proc)
    (lock : Option Mode) : Prop :=
  match p.pc with
  | .start | .openFile => lock = none ∧ p.stderr = [] ∧ p.stdout = []
  | .flock => lock = none ∧ p.stderr = [] ∧ p.stdout = requested sys k r
  | .granted => lock = some r.mode ∧ p.stderr = [] ∧ p.stdout = lockedText sys k r
  | .asleep secs => lock = some r.mode ∧ p.stderr = [] ∧ p.stdout = lockedText sys k r ∧
      r.seconds = .ok secs
  | .unlock => lock = some r.mode ∧ p.stderr = [] ∧ p.stdout = fullText sys k r
  | .exited .success => lock = none ∧ p.stderr = [] ∧ p.stdout = fullText sys k r
  | .exited .failure => lock = none ∧ (orderly → Refused sys k r p)

def ProcInv (orderly : Prop) (sys : System κ) (k : κ) (p : Proc) (lock : Option Mode) : Prop :=
  match request (sys.argv k) with
  | none => lock = none ∧ (p = ⟨.start, [], []⟩ ∨
      p = ⟨.exited .failure, [], printUsage (sys.program k)⟩)
  | some r => Tracks orderly sys k r p lock

/-- How many steps are still to be taken. -/
def Pc.work : Pc → Nat
  | .start => 6
  | .openFile => 5
  | .flock => 4
  | .granted => 3
  | .asleep _ => 2
  | .unlock => 1
  | .exited _ => 0

/-- A call that fails. -/
def Answer.Ok (a : Answer) : Prop := a = .ok

instance : DecidablePred Answer.Ok := fun a => inferInstanceAs (Decidable (a = .ok))

/-! ## What a step does -/

variable [Fintype κ] {orderly : Prop} {sys : System κ} {s t : State κ} {k : κ} {a : Answer}
  {r : Request}

/-- Process `k` has one step less to take and is where it ought to be; a lock it has not
had before is free. -/
def Advances (orderly : Prop) (sys : System κ) (s : State κ) (k : κ) (t : State κ) : Prop :=
  ∃ p lock, t = ⟨Function.update s.proc k p, Function.update s.held k lock⟩ ∧
    p.pc.work < (s.proc k).pc.work ∧ ProcInv orderly sys k p lock ∧
    (lock = s.held k ∨ lock = none ∨ ∃ mode, lock = some mode ∧ Free sys.Rival s.held k mode)

omit [Fintype κ] in
theorem advances_set {p : Proc} (hwork : p.pc.work < (s.proc k).pc.work)
    (hinv : ProcInv orderly sys k p (s.held k)) : Advances orderly sys s k (s.set k p) := by
  refine ⟨p, s.held k, ?_, hwork, hinv, Or.inl rfl⟩
  rw [Function.update_eq_self]
  rfl

omit [Fintype κ] in
theorem advances_fail (hr : request (sys.argv k) = some r) (hnow : 0 < (s.proc k).pc.work)
    {text : List UInt8} (hwhy : orderly → Refused sys k r ((s.proc k).fail text)) :
    Advances orderly sys s k (s.fail k text) := by
  refine ⟨(s.proc k).fail text, none, rfl, hnow, ?_, Or.inr (Or.inl rfl)⟩
  simp only [ProcInv, hr]
  exact ⟨rfl, hwhy⟩

theorem advances_call (hr : request (sys.argv k) = some r)
    (hinv : ProcInv orderly sys k (s.proc k) (s.held k)) (hok : orderly → a.Ok)
    (h : callStep sys s k r a = some t) : Advances orderly sys s k t := by
  have hstay : ∀ {p : Proc} {lock : Option Mode}, Tracks orderly sys k r p lock →
      ProcInv orderly sys k p lock := by
    intro p lock htracks
    simpa only [ProcInv, hr] using htracks
  simp only [ProcInv, hr] at hinv
  cases a with
  | err e =>
      have hbad : orderly → ∀ text, Refused sys k r ((s.proc k).fail text) :=
        fun ho => nomatch hok ho
      cases hpc : (s.proc k).pc with
      | openFile | flock | unlock =>
          simp only [callStep, hpc, Option.some.injEq] at h
          exact h ▸ advances_fail hr (by simp [hpc, Pc.work]) fun ho => hbad ho _
      | start | granted | asleep secs | exited status => simp [callStep, hpc] at h
  | ok =>
      cases hpc : (s.proc k).pc with
      | openFile =>
          simp only [Tracks, hpc] at hinv
          simp only [callStep, hpc, Option.some.injEq] at h
          refine h ▸ advances_set (by simp [hpc, Pc.work, Proc.say]) (hstay ?_)
          exact ⟨hinv.1, hinv.2.1, by simp [Proc.say, hinv.2.2, requested]⟩
      | flock =>
          simp only [Tracks, hpc] at hinv
          simp only [callStep, hpc] at h
          by_cases hfree : Free sys.Rival s.held k r.mode
          · rw [if_pos hfree, Option.some.injEq] at h
            subst h
            refine ⟨_, some r.mode, rfl, by simp [hpc, Pc.work, Proc.say], hstay ?_,
              Or.inr (Or.inr ⟨r.mode, rfl, hfree⟩)⟩
            exact ⟨rfl, hinv.2.1, by simp [Proc.say, hinv.2.2, lockedText]⟩
          · rw [if_neg hfree, Option.ite_none_right_eq_some, Option.some.injEq] at h
            refine h.2 ▸ advances_fail hr (by simp [hpc, Pc.work]) fun _ => Or.inl ?_
            exact ⟨h.1, hinv.2.2, by simp [Proc.fail, hinv.2.1, refusal]⟩
      | granted =>
          simp only [Tracks, hpc] at hinv
          simp only [callStep, hpc, Option.some.injEq] at h
          cases hsecs : r.seconds with
          | error text =>
              simp only [hsecs] at h
              refine h ▸ advances_fail hr (by simp [hpc, Pc.work]) fun _ => Or.inr ?_
              exact ⟨text, hsecs, hinv.2.2, by simp [Proc.fail, hinv.2.1]⟩
          | ok secs =>
              simp only [hsecs] at h
              refine h ▸ advances_set (by simp [hpc, Pc.work, Proc.say]) (hstay ?_)
              exact ⟨hinv.1, hinv.2.1, by simp [Proc.say, hinv.2.2], hsecs⟩
      | asleep secs =>
          simp only [Tracks, hpc] at hinv
          simp only [callStep, hpc, Option.some.injEq] at h
          refine h ▸ advances_set (by simp [hpc, Pc.work, Proc.say]) (hstay ?_)
          exact ⟨hinv.1, hinv.2.1, by simp [Proc.say, hinv.2.2.1, fullText]⟩
      | unlock =>
          simp only [Tracks, hpc] at hinv
          simp only [callStep, hpc, Option.some.injEq] at h
          subst h
          refine ⟨_, none, rfl, by simp [hpc, Pc.work, Proc.say], hstay ?_, Or.inr (Or.inl rfl)⟩
          exact ⟨rfl, hinv.2.1, by simp [Proc.say, hinv.2.2]⟩
      | start | exited status => simp [callStep, hpc] at h

theorem advances_step (hinv : ProcInv orderly sys k (s.proc k) (s.held k)) (hok : orderly → a.Ok)
    (h : step sys s (k, a) = some t) : Advances orderly sys s k t := by
  cases hr : request (sys.argv k) with
  | none =>
      simp only [ProcInv, hr] at hinv
      rcases hinv with ⟨hlock, hp | hp⟩
      · cases a with
        | ok =>
            simp only [step, hr, hp, Option.some.injEq] at h
            subst h
            refine ⟨(s.proc k).fail (printUsage (sys.program k)), none, rfl, ?_, ?_,
              Or.inr (Or.inl rfl)⟩
            · simp [hp, Pc.work, Proc.fail]
            · simp [ProcInv, hr, hp, Proc.fail]
        | err e => simp [step, hr, hp] at h
      · cases a <;> simp [step, hr, hp] at h
  | some r =>
      by_cases hpc : (s.proc k).pc = .start
      · cases a with
        | ok =>
            simp only [step, hr, hpc, Option.some.injEq] at h
            simp only [ProcInv, hr, Tracks, hpc] at hinv
            refine h ▸ advances_set (by simp [hpc, Pc.work, Proc.say]) ?_
            simp only [ProcInv, hr, Tracks, Proc.say]
            exact ⟨hinv.1, hinv.2.1, by simp [hinv.2.2]⟩
        | err e => simp [step, hr, hpc, callStep] at h
      · have hcall : step sys s (k, a) = callStep sys s k r a := by
          simp only [step, hr]
          cases hpc' : (s.proc k).pc with
          | start => exact absurd hpc' hpc
          | _ => rfl
        exact advances_call hr hinv hok (hcall ▸ h)

/-! ## Whole runs -/

structure Inv (orderly : Prop) (sys : System κ) (s : State κ) : Prop where
  proc : ∀ k, ProcInv orderly sys k (s.proc k) (s.held k)
  locks : Consistent sys.Rival s.held

omit [DecidableEq κ] [Fintype κ] in
theorem start_inv (orderly : Prop) (sys : System κ) : Inv orderly sys start where
  proc := by
    intro k
    unfold ProcInv
    cases request (sys.argv k) with
    | none => exact ⟨rfl, Or.inl rfl⟩
    | some r => exact ⟨rfl, rfl, rfl⟩
  locks := fun _ _ _ => Or.inl rfl

/-- **One step keeps the locks of rivals together.** -/
theorem inv_step (hs : Inv orderly sys s) (hok : orderly → a.Ok)
    (h : step sys s (k, a) = some t) : Inv orderly sys t := by
  rcases advances_step (hs.proc k) hok h with ⟨p, lock, rfl, -, hp, hlock⟩
  constructor
  · intro j
    by_cases hj : j = k
    · subst hj
      show ProcInv orderly sys j (Function.update s.proc j p j) (Function.update s.held j lock j)
      rw [Function.update_self, Function.update_self]
      exact hp
    · show ProcInv orderly sys j (Function.update s.proc k p j) (Function.update s.held k lock j)
      rw [Function.update_of_ne hj, Function.update_of_ne hj]
      exact hs.proc j
  · show Consistent sys.Rival (Function.update s.held k lock)
    rcases hlock with rfl | rfl | ⟨mode, rfl, hfree⟩
    · rw [Function.update_eq_self]
      exact hs.locks
    · exact hs.locks.release
    · exact hs.locks.acquire (fun i hi => hi.1 rfl)
        (fun i j hij => ⟨hij.1.symm, hij.2.symm⟩) hfree

def State.work (s : State κ) : Nat := ∑ k, (s.proc k).pc.work

theorem step_work (hs : Inv orderly sys s) (hok : orderly → a.Ok)
    (h : step sys s (k, a) = some t) : t.work < s.work := by
  rcases advances_step (hs.proc k) hok h with ⟨p, lock, rfl, hwork, -, -⟩
  have hsum : ∑ j, (Function.update s.proc k p j).pc.work + (s.proc k).pc.work =
      ∑ j, (s.proc j).pc.work + p.pc.work :=
    sum_update_add (fun _ (v : Proc) => v.pc.work) s.proc k p
  unfold State.work
  show ∑ j, (Function.update s.proc k p j).pc.work < _
  omega

def Pc.Ended (pc : Pc) : Prop := ∃ status, pc = .exited status

/-- A process can go on, unless it waits for its lock. -/
theorem enabled_or_waits (hs : Inv orderly sys s) (hk : ¬ (s.proc k).pc.Ended) :
    Enabled (step sys) s (k, .ok) ∨ ∃ r, (s.proc k).pc = .flock ∧ s.held k = none ∧
      ¬ Free sys.Rival s.held k r := by
  have hinv := hs.proc k
  rw [enabled_iff]
  cases hr : request (sys.argv k) with
  | none =>
      simp only [ProcInv, hr] at hinv
      rcases hinv.2 with hp | hp
      · exact Or.inl (by simp [step, hr, hp])
      · exact absurd ⟨.failure, by rw [hp]⟩ hk
  | some r =>
      cases hpc : (s.proc k).pc with
      | exited status => exact absurd ⟨status, hpc⟩ hk
      | start | openFile | granted | asleep secs | unlock =>
          exact Or.inl (by simp [step, hr, hpc, callStep])
      | flock =>
          simp only [ProcInv, hr, Tracks, hpc] at hinv
          by_cases hfree : Free sys.Rival s.held k r.mode
          · exact Or.inl (by simp [step, hr, hpc, callStep, hfree])
          · exact Or.inr ⟨r.mode, rfl, hinv.1, hfree⟩

/-- Who has a lock does not wait. -/
theorem enabled_of_held (hs : Inv orderly sys s) (hk : s.held k ≠ none) :
    Enabled (step sys) s (k, .ok) := by
  have hrunning : ¬ (s.proc k).pc.Ended := by
    rintro ⟨status, hpc⟩
    apply hk
    have hinv := hs.proc k
    cases hr : request (sys.argv k) with
    | none =>
        simp only [ProcInv, hr] at hinv
        exact hinv.1
    | some r => cases status <;> simp only [ProcInv, hr, Tracks, hpc] at hinv <;> exact hinv.1
  rcases enabled_or_waits hs hrunning with henabled | ⟨_, _, hnone, _⟩
  · exact henabled
  · exact absurd hnone hk

theorem stuck_iff (hs : Inv orderly sys s) :
    (∀ l, ¬ Enabled (step sys) s l) ↔ ∀ k, (s.proc k).pc.Ended := by
  constructor
  · intro h k
    by_contra hk
    rcases enabled_or_waits hs hk with henabled | ⟨mode, _, _, hfree⟩
    · exact h _ henabled
    · rcases exists_of_not_free hfree with ⟨j, _, hj⟩
      exact h _ (enabled_of_held hs hj)
  · rintro h ⟨k, a⟩ ⟨t, ht⟩
    rcases h k with ⟨status, hpc⟩
    cases hr : request (sys.argv k) with
    | none => cases a <;> simp [step, hr, hpc] at ht
    | some r => cases a <;> simp [step, hr, hpc, callStep] at ht

/-- The process has been granted its lock and has not released it. -/
def Pc.Holds : Pc → Prop
  | .granted | .asleep _ | .unlock => True
  | .start | .openFile | .flock | .exited _ => False

omit [DecidableEq κ] [Fintype κ] in
theorem held_iff (hs : Inv orderly sys s) (hr : request (sys.argv k) = some r) :
    s.held k = (some r.mode) ↔ (s.proc k).pc.Holds := by
  have hinv := hs.proc k
  simp only [ProcInv, hr] at hinv
  cases hpc : (s.proc k).pc with
  | exited status =>
      cases status <;> simp only [Tracks, hpc] at hinv <;> simp [hinv.1, Pc.Holds]
  | start | openFile | flock | granted | asleep secs | unlock =>
      simp only [Tracks, hpc] at hinv
      simp [hinv.1, Pc.Holds]

/-- How a process ends if no call of it fails. -/
def EndsWell (sys : System κ) (k : κ) (p : Proc) : Prop :=
  match request (sys.argv k) with
  | none => p = ⟨.exited .failure, [], printUsage (sys.program k)⟩
  | some r => p = ⟨.exited .success, fullText sys k r, []⟩ ∨
      p.pc = .exited .failure ∧ Refused sys k r p

/-- **Locks on files.**  The processes take no more than six steps each and never wait
for ever.  The locks of rivals go together: beside an exclusive one there is no other.
A process has its lock exactly from when it is granted until it is released.  If no call
fails, each process with right arguments gets its lock and says so, unless it does not
want to wait or cannot read its seconds. -/
theorem locks_consistent_and_held (sys : System κ) {ls : List (κ × Answer)}
    (h : exec (step sys) start ls = some t) :
    (ls.length ≤ 6 * Fintype.card κ ∧
      ((∀ l, ¬ Enabled (step sys) t l) ↔ ∀ k, (t.proc k).pc.Ended)) ∧
    Consistent sys.Rival t.held ∧
    (∀ k r, request (sys.argv k) = some r →
      (t.held k = some r.mode ↔ (t.proc k).pc.Holds)) ∧
    (Along (step sys) (fun _ l => l.2.Ok) start ls →
      ∀ k, (t.proc k).pc.Ended → EndsWell sys k (t.proc k)) := by
  have hkeep : ∀ s l t, Inv False sys s → step sys s l = some t → Inv False sys t :=
    fun _ _ _ hs hstep => inv_step hs False.elim hstep
  have hinv : Inv False sys t := Reachable.invariant hkeep (start_inv False sys) ⟨ls, h⟩
  refine ⟨⟨?_, stuck_iff hinv⟩, hinv.locks, fun k r hr => held_iff hinv hr, ?_⟩
  · have hlen := exec_length_add_le hkeep
      (fun _ _ _ hs hstep => step_work hs False.elim hstep) (start_inv False sys) h
    have hstart : (start : State κ).work = Fintype.card κ * 6 := by
      show ∑ _k : κ, 6 = Fintype.card κ * 6
      rw [Finset.sum_const, Finset.card_univ, nsmul_eq_mul, Nat.cast_id]
    omega
  · intro hok k hended
    have hwell : Inv True sys t := invariant_along
      (fun _ _ _ hs hC hstep => inv_step hs (fun _ => hC) hstep) (start_inv True sys) hok h
    have hproc := hwell.proc k
    rcases hended with ⟨status, hpc⟩
    unfold EndsWell
    cases hr : request (sys.argv k) with
    | none =>
        simp only [ProcInv, hr] at hproc
        rcases hproc.2 with hp | hp
        · rw [hp] at hpc
          cases hpc
        · exact hp
    | some r =>
        cases status with
        | success =>
            simp only [ProcInv, hr, Tracks, hpc] at hproc
            exact Or.inl (by rw [← hpc, ← hproc.2.2, ← hproc.2.1])
        | failure =>
            simp only [ProcInv, hr, Tracks, hpc] at hproc
            exact Or.inr ⟨hpc, hproc.2 trivial⟩

/-- A process has a shared lock, and another one wants the file exclusively and does not
wait. -/
def two : System Bool where
  program := fun _ => ⟨ascii "t_flock", by decide⟩
  argv := fun
    | false => [⟨ascii "tfile", by decide⟩, ⟨ascii "s", by decide⟩, ⟨ascii "20", by decide⟩]
    | true => [⟨ascii "tfile", by decide⟩, ⟨ascii "xn", by decide⟩]
  pid := fun
    | false => 100
    | true => 101
  file := fun _ => 0
  strerror := fun _ => ascii "error"

def refusedRun : List (Bool × Answer) :=
  [(false, .ok), (false, .ok), (false, .ok), (true, .ok), (true, .ok), (true, .ok),
    (false, .ok), (false, .ok), (false, .ok)]

theorem locks_consistent_and_held_refusal : ∃ t, exec (step two) start refusedRun = some t ∧
    (t.proc false).pc = .exited .success ∧ EndsWell two true (t.proc true) ∧
    (t.proc true).stderr = ascii "PID 101: already locked - bye!\n" := by
  rcases exists_exec (step two) (fun t : State Bool => (t.proc false).pc = .exited .success ∧
    (t.proc true).pc = .exited .failure ∧
    (t.proc true).stderr = ascii "PID 101: already locked - bye!\n") start refusedRun (by decide)
    with ⟨t, ht, hone, hother, htext⟩
  exact ⟨t, ht, hone, (locks_consistent_and_held two ht).2.2.2 (by decide) true ⟨_, hother⟩, htext⟩

end Lpi.Ports.TFlock
