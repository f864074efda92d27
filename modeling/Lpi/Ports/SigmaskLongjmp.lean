import Lpi.Ports.SignalFunctions
import Lpi.Verified.CData
import Lpi.Verified.Simulation

/-!
# Leaving a handler by a jump (`signals/src/sigmask_longjmp.c`)

The handler of `SIGINT` jumps back to `main`, which shows its signal mask and waits
for the next signal.  While the handler runs the signal is blocked, and a handler that
returns unblocks it.  A handler that jumps does so only if the buffer has the mask of
the time of the call, which is what `sigsetjmp()` puts there and `setjmp()` does not.

The program is built in two ways, with `USE_SIGSETJUMP` and without.  The handler asks
for `USE_SIGSETJMP` (line 64), which is never defined, so both programs call `longjmp()`
there; in glibc that is the same function as `siglongjmp()`, and the buffer decides.
Signals 32 and 33 belong to glibc, and a jump leaves them unblocked: the mask that the
program starts with is one without them.

A signal may come at any time, and the steps of `main` and of the handler are small.
With `sigsetjmp()` there can be any number of jumps, with `setjmp()` just one, after
which the signal stays blocked (`jumps_iff`); and what is printed after the jump is not
the same.
-/

namespace Lpi.Ports.SigmaskLongjmp

open Lpi.Ports.SignalFunctions
open Lpi.Verified.CData
open Lpi.Verified.CString
open Lpi.Verified.Run
open Lpi.Verified.Simulation

def SIGINT : Nat := 2

/-! ## State -/

inductive MainPc where
  /-- `sigaction(SIGINT, &action, NULL)`. -/
  | sigaction
  | announce
  | setjmp
  /-- `canJump = 1`. -/
  | setCanJump
  | pause
  /-- `setjmp()` has returned for the second time. -/
  | afterJump
  | exited (status : Exit)
  /-- By `SIGINT`, before the handler is there. -/
  | killed
  deriving DecidableEq, Repr

inductive HandlerPc where
  /-- The message and the mask. -/
  | report
  /-- `if (!canJump)`. -/
  | test
  deriving DecidableEq, Repr

/-- A text that is printed, with the mask that it shows. -/
inductive Event where
  | calling
  | received (mask : SigSet)
  | notYetSet
  | afterJump (mask : SigSet)
  deriving DecidableEq, Repr

/-- `handler` is where the handler stands, with the mask to return to; `env` has the
mask if it is saved.  `jumps` counts the jumps. -/
structure State where
  main : MainPc
  handler : Option (HandlerPc × SigSet)
  mask : SigSet
  pending : Bool
  canJump : Bool
  env : Option SigSet
  printed : List Event
  jumps : Nat
  deriving DecidableEq, Repr

inductive Label where
  /-- Somebody sends `SIGINT`. -/
  | arrive
  /-- The handler starts. -/
  | deliver
  | handler
  | main (succeeds : Bool)
  deriving DecidableEq, Repr

/-- The text of an event; `saves` is whether the program is built with
`USE_SIGSETJUMP`. -/
def Event.text (strsignal : Nat → List UInt8) (saves : Bool) : Event → List UInt8
  | .calling => if saves then ascii "Calling sigsetjmp()\n" else ascii "Calling setjmp()\n"
  | .received mask => ascii "Received signal " ++ decimal SIGINT ++ ascii " (" ++
      strsignal SIGINT ++ ascii "), signal mask is:\n" ++ printSigMask strsignal none mask
  | .notYetSet => ascii "'env' buffer not yet set, doing a simple return\n"
  | .afterJump mask => printSigMask strsignal
      (some (ascii "After jump from handler, signal mask is:\n")) mask

/-! ## Steps -/

def MainPc.Ended : MainPc → Prop
  | .exited _ | .killed => True
  | _ => False

instance : DecidablePred MainPc.Ended
  | .exited _ | .killed => isTrue trivial
  | .sigaction | .announce | .setjmp | .setCanJump | .pause | .afterJump => isFalse id

/-- Without a handler the signal ends the process, unless it is blocked. -/
def arriveStep (s : State) : Option State :=
  if s.main.Ended then none
  else if s.main = .sigaction ∧ sigismember s.mask SIGINT = false then
    some { s with main := .killed }
  else some { s with pending := true }

def deliverStep (s : State) : Option State :=
  if ¬ s.main.Ended ∧ s.main ≠ .sigaction ∧ s.pending = true ∧
      sigismember s.mask SIGINT = false then
    some { s with
      handler := some (.report, s.mask)
      mask := sigaddset s.mask SIGINT
      pending := false }
  else none

/-- A step of the handler: it returns with the old mask, or it jumps. -/
def handlerStep (s : State) : Option State :=
  match s.handler with
  | none => none
  | some (.report, old) => some { s with
      handler := some (.test, old), printed := s.printed ++ [.received s.mask] }
  | some (.test, old) => some
      (if s.canJump then { s with
        handler := none, main := .afterJump, mask := s.env.getD s.mask, jumps := s.jumps + 1 }
      else { s with
        handler := none, mask := old, printed := s.printed ++ [.notYetSet] })

/-- A step of `main`, which has to wait for the handler. -/
def mainStep (saves : Bool) (s : State) (succeeds : Bool) : Option State :=
  if s.handler ≠ none then none
  else match s.main with
    | .sigaction => some { s with main := if succeeds then .announce else .exited .failure }
    | .announce => some { s with main := .setjmp, printed := s.printed ++ [.calling] }
    | .setjmp => some { s with
        main := .setCanJump, env := if saves then some s.mask else none }
    | .setCanJump => some { s with main := .pause, canJump := true }
    | .afterJump => some { s with
        main := .pause, printed := s.printed ++ [.afterJump s.mask] }
    | .pause | .exited _ | .killed => none

def step (saves : Bool) (s : State) : Label → Option State
  | .arrive => arriveStep s
  | .deliver => deliverStep s
  | .handler => handlerStep s
  | .main succeeds => mainStep saves s succeeds

/-- The program is started with some mask. -/
def start (mask : SigSet) : State where
  main := .sigaction
  handler := none
  mask := mask
  pending := false
  canJump := false
  env := none
  printed := []
  jumps := 0

/-! ## The mask -/

/-- The mask while the handler runs. -/
def blocked (mask : SigSet) : SigSet := sigaddset mask SIGINT

/-- The mask after a jump. -/
def maskAfter (saves : Bool) (mask : SigSet) : SigSet :=
  if saves then mask else blocked mask

/-- What a text shows if the program was started with `mask`. -/
def Event.Shows (saves : Bool) (mask : SigSet) : Event → Prop
  | .calling | .notYetSet => True
  | .received m => m = blocked mask
  | .afterJump m => m = maskAfter saves mask

theorem sigismember_blocked (mask : SigSet) : sigismember (blocked mask) SIGINT = true := by
  simp [sigismember, blocked, sigaddset, SIGINT]

/-- The mask as it has to be, with the handler or without. -/
structure Inv (saves : Bool) (mask : SigSet) (s : State) : Prop where
  quiet : s.handler = none → s.mask = if s.jumps = 0 then mask else maskAfter saves mask
  active : ∀ pc old, s.handler = some (pc, old) → old = mask ∧ s.mask = blocked mask ∧
    sigismember mask SIGINT = false ∧ (saves = true ∨ s.jumps = 0)
  once : s.jumps ≤ 1 ∨ saves = true
  unblocked : 0 < s.jumps → sigismember mask SIGINT = false
  env : s.canJump = true ∨ s.main = .setCanJump → s.env = if saves then some mask else none
  early : s.main ∈ [.sigaction, .announce, .setjmp, .setCanJump] → s.jumps = 0
  jumped : s.main = .afterJump → 0 < s.jumps
  shows : ∀ e ∈ s.printed, e.Shows saves mask

theorem start_inv (saves : Bool) (mask : SigSet) : Inv saves mask (start mask) where
  quiet := fun _ => rfl
  active := by simp [start]
  once := Or.inl (Nat.zero_le 1)
  unblocked := fun h => absurd h (Nat.lt_irrefl 0)
  env := by simp [start]
  early := fun _ => rfl
  jumped := by simp [start]
  shows := by simp [start]

variable {saves : Bool} {mask : SigSet} {s t : State}

theorem inv_arrive (hs : Inv saves mask s) (h : arriveStep s = some t) : Inv saves mask t := by
  unfold arriveStep at h
  by_cases hended : s.main.Ended
  · rw [if_pos hended] at h
    cases h
  · rw [if_neg hended] at h
    by_cases hkill : s.main = .sigaction ∧ sigismember s.mask SIGINT = false
    · rw [if_pos hkill, Option.some.injEq] at h
      subst h
      refine ⟨hs.quiet, hs.active, hs.once, hs.unblocked, ?_, by simp, by simp, hs.shows⟩
      rintro (hcan | hmain)
      · exact hs.env (Or.inl hcan)
      · cases hmain
    · rw [if_neg hkill, Option.some.injEq] at h
      subst h
      exact ⟨hs.quiet, hs.active, hs.once, hs.unblocked, hs.env, hs.early, hs.jumped, hs.shows⟩

theorem inv_deliver (hs : Inv saves mask s) (h : deliverStep s = some t) : Inv saves mask t := by
  simp only [deliverStep, Option.ite_none_right_eq_some, Option.some.injEq] at h
  rcases h with ⟨⟨_, _, _, hfree⟩, rfl⟩
  -- the handler is not running, or the signal would be blocked
  have hquiet : s.handler = none := by
    cases hhandler : s.handler with
    | none => rfl
    | some frame =>
        have hactive := hs.active frame.1 frame.2 hhandler
        rw [hactive.2.1, sigismember_blocked] at hfree
        cases hfree
  have hmask := hs.quiet hquiet
  have hstart : s.mask = mask ∧ (saves = true ∨ s.jumps = 0) := by
    by_cases hjumps : s.jumps = 0
    · rw [if_pos hjumps] at hmask
      exact ⟨hmask, Or.inr hjumps⟩
    · rw [if_neg hjumps] at hmask
      cases hsaves : saves with
      | true =>
          rw [maskAfter, hsaves, if_pos rfl] at hmask
          exact ⟨hmask, Or.inl rfl⟩
      | false =>
          rw [maskAfter, hsaves, if_neg Bool.false_ne_true] at hmask
          rw [hmask, sigismember_blocked] at hfree
          cases hfree
  rw [hstart.1] at hfree
  refine ⟨by simp, ?_, hs.once, hs.unblocked, hs.env, hs.early, hs.jumped, hs.shows⟩
  intro pc old hframe
  simp only [Option.some.injEq, Prod.mk.injEq] at hframe
  exact ⟨hframe.2 ▸ hstart.1, by rw [hstart.1]; rfl, hfree, hstart.2⟩

theorem inv_handler (hs : Inv saves mask s) (h : handlerStep s = some t) : Inv saves mask t := by
  unfold handlerStep at h
  cases hhandler : s.handler with
  | none => simp [hhandler] at h
  | some frame =>
      rcases frame with ⟨pc, old⟩
      have hactive := hs.active pc old hhandler
      rcases hactive with ⟨rfl, hmask, hfree, hjumps⟩
      cases pc with
      | report =>
          simp only [hhandler, Option.some.injEq] at h
          subst h
          refine ⟨by simp, ?_, hs.once, hs.unblocked, hs.env, hs.early, hs.jumped, ?_⟩
          · intro pc old' hframe
            simp only [Option.some.injEq, Prod.mk.injEq] at hframe
            exact ⟨hframe.2.symm, hmask, hfree, hjumps⟩
          · intro e he
            rcases List.mem_append.1 he with he | he
            · exact hs.shows e he
            · rw [List.mem_singleton] at he
              rw [he]
              exact hmask
      | test =>
          simp only [hhandler, Option.some.injEq] at h
          subst h
          cases hcan : s.canJump with
          | true =>
              rw [if_pos rfl]
              refine ⟨?_, by simp, ?_, fun _ => hfree, fun _ => hs.env (Or.inl hcan), by simp,
                fun _ => Nat.succ_pos _, hs.shows⟩
              · intro _
                show s.env.getD s.mask = _
                rw [hs.env (Or.inl hcan), hmask, if_neg (Nat.succ_ne_zero _), maskAfter]
                cases saves <;> rfl
              · rcases hjumps with hsaves | hzero
                · exact Or.inr hsaves
                · exact Or.inl (by show s.jumps + 1 ≤ 1; omega)
          | false =>
              rw [if_neg Bool.false_ne_true]
              have henv : false = true ∨ s.main = .setCanJump →
                  s.env = if saves then some old else none := by
                rintro (hfalse | hmain)
                · cases hfalse
                · exact hs.env (Or.inr hmain)
              refine ⟨?_, by simp, hs.once, hs.unblocked, henv, hs.early, hs.jumped, ?_⟩
              · intro _
                show old = if s.jumps = 0 then old else maskAfter saves old
                rcases hjumps with hsaves | hzero
                · rw [maskAfter, if_pos hsaves, ite_self]
                · rw [if_pos hzero]
              · intro e he
                rcases List.mem_append.1 he with he | he
                · exact hs.shows e he
                · rw [List.mem_singleton] at he
                  rw [he]
                  trivial

theorem inv_main {succeeds : Bool} (hs : Inv saves mask s)
    (h : mainStep saves s succeeds = some t) : Inv saves mask t := by
  simp only [mainStep, ne_eq, Option.ite_none_left_eq_some, Classical.not_not] at h
  rcases h with ⟨hquiet, h⟩
  have hmask := hs.quiet hquiet
  cases hmain : s.main with
  | sigaction =>
      simp only [hmain, Option.some.injEq] at h
      subst h
      have hzero := hs.early (by simp [hmain])
      refine ⟨hs.quiet, hs.active, hs.once, hs.unblocked, ?_, fun _ => hzero, ?_, hs.shows⟩
      · rintro (hcan | hmain)
        · exact hs.env (Or.inl hcan)
        · cases succeeds <;> simp at hmain
      · intro hmain
        cases succeeds <;> simp at hmain
  | announce =>
      simp only [hmain, Option.some.injEq] at h
      subst h
      have hzero := hs.early (by simp [hmain])
      refine ⟨hs.quiet, hs.active, hs.once, hs.unblocked, ?_, fun _ => hzero, by simp, ?_⟩
      · rintro (hcan | hmain)
        · exact hs.env (Or.inl hcan)
        · cases hmain
      · intro e he
        rcases List.mem_append.1 he with he | he
        · exact hs.shows e he
        · rw [List.mem_singleton] at he
          rw [he]
          trivial
  | setjmp =>
      simp only [hmain, Option.some.injEq] at h
      subst h
      have hzero := hs.early (by simp [hmain])
      refine ⟨hs.quiet, hs.active, hs.once, hs.unblocked, ?_, fun _ => hzero, by simp, hs.shows⟩
      intro _
      rw [if_pos hzero] at hmask
      show (if saves = true then some s.mask else none) = _
      rw [hmask]
  | setCanJump =>
      simp only [hmain, Option.some.injEq] at h
      subst h
      have henv := hs.env (Or.inr hmain)
      exact ⟨hs.quiet, hs.active, hs.once, hs.unblocked, fun _ => henv, by simp, by simp,
        hs.shows⟩
  | afterJump =>
      simp only [hmain, Option.some.injEq] at h
      subst h
      have hpos := hs.jumped hmain
      rw [if_neg (Nat.ne_of_gt hpos)] at hmask
      refine ⟨hs.quiet, hs.active, hs.once, hs.unblocked, ?_, by simp, by simp, ?_⟩
      · rintro (hcan | hmain)
        · exact hs.env (Or.inl hcan)
        · cases hmain
      · intro e he
        rcases List.mem_append.1 he with he | he
        · exact hs.shows e he
        · rw [List.mem_singleton] at he
          rw [he]
          exact hmask
  | pause | exited status | killed => simp [hmain] at h

theorem inv_step {l : Label} (hs : Inv saves mask s) (h : step saves s l = some t) :
    Inv saves mask t := by
  cases l with
  | arrive => exact inv_arrive hs h
  | deliver => exact inv_deliver hs h
  | handler => exact inv_handler hs h
  | main succeeds => exact inv_main hs h

end Lpi.Ports.SigmaskLongjmp
