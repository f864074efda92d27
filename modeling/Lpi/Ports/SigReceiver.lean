import Lpi.Ports.NumericArgs
import Lpi.Verified.CData
import Lpi.Verified.Run

/-!
# Counting signals (`signals/src/sig_receiver.c`)

One handler for all signals, installed with `signal`, so that while it runs for a
signal only this one is blocked.  The active invocations form a stack, of which
the innermost moves, and `main` moves only when there are none.

`++sigCount[sig]` is a load and a store.  Between both, other invocations may
come and go, but they are for other signals (`Inv.distinct`) and use other
elements of the array.  So no signal is lost: `counts_exact`.
-/

namespace Lpi.Ports.SigReceiver

open Lpi.Verified.CData
open Lpi.Verified.CString
open Lpi.Verified.Run
open Lpi.Ports.NumericArgs (SigReceiver.getUnsignedInt)

/-! ## State -/

def SIGINT : Nat := 2

/-- One more than the largest signal number. -/
def NSIG : Nat := 65

/-- The signals for which `signal` succeeds: it refuses `SIGKILL`, `SIGSTOP` and
the two that the thread library keeps for itself. -/
def catchable (sig : Nat) : Bool :=
  1 ≤ sig && sig < NSIG && sig ≠ 9 && sig ≠ 19 && sig ≠ 32 && sig ≠ 33

/-- Where an invocation of `sigHandler` stands. -/
inductive HandlerPc where
  /-- `switch (sig)`. -/
  | switch
  /-- `gotSigInt = 1`. -/
  | setGotSigInt
  /-- `++sigCount[sig]`, in two steps. -/
  | load
  | store (v : Int64)
  | finish
  deriving DecidableEq, Repr

structure Frame where
  signal : Nat
  pc : HandlerPc
  deriving DecidableEq, Repr

inductive MainPc where
  /-- `signal(i, sigHandler)`. -/
  | install (i : Nat)
  /-- `sigprocmask(SIG_BLOCK, &sigSet, NULL)`, with all signals in the set. -/
  | block
  | sleep
  /-- `sigprocmask(SIG_SETMASK, &sigSet, NULL)`, with none. -/
  | unblock
  /-- `while (!gotSigInt)`. -/
  | spin
  /-- The line for signal `i`. -/
  | report (i : Nat)
  | exited (status : Exit)
  deriving DecidableEq, Repr

/-- `frames` has the active invocations of the handler, the innermost first, and
`printed` the lines with a signal and its number.  `invoked` counts the
invocations of the handler for each signal. -/
structure State where
  main : MainPc
  frames : List Frame
  sigCount : Nat → Int64
  gotSigInt : Bool
  printed : List (Nat × Int64)
  invoked : Nat → Nat

inductive Label where
  /-- The signal comes, and its handler starts. -/
  | deliver (sig : Nat)
  /-- The innermost active invocation moves. -/
  | handler
  | main
  deriving DecidableEq, Repr

/-! ## Steps -/

/-- The handler of the signal is installed, and the signal is not blocked by the
mask of `main`. -/
def MainPc.accepts (sig : Nat) : MainPc → Bool
  | .install i => sig < i
  | .block | .spin | .report _ => true
  | .sleep | .unblock | .exited _ => false

/-- The signal is not blocked for its handler being active. -/
def deliverStep (s : State) (sig : Nat) : Option State :=
  if catchable sig ∧ s.main.accepts sig ∧ ¬ s.frames.any (·.signal = sig) then
    some { s with frames := ⟨sig, .switch⟩ :: s.frames
                  invoked := Function.update s.invoked sig (s.invoked sig + 1) }
  else none

/-- A step of `sigHandler`. -/
def handlerStep (s : State) : Option State :=
  match s.frames with
  | [] => none
  | f :: fs =>
      match f.pc with
      | .switch =>
          let pc := if f.signal = SIGINT then .setGotSigInt else .load
          some { s with frames := { f with pc := pc } :: fs }
      | .setGotSigInt =>
          some { s with frames := { f with pc := .finish } :: fs, gotSigInt := true }
      | .load => some { s with frames := { f with pc := .store (s.sigCount f.signal) } :: fs }
      | .store v =>
          some { s with frames := { f with pc := .finish } :: fs
                        sigCount := Function.update s.sigCount f.signal (v + 1) }
      | .finish => some { s with frames := fs }

/-- Behind the loop that installs the handlers; `sec` is `argv[1]`. -/
def installed (sec : Option CStr) : MainPc :=
  match sec with
  | none => .spin
  | some str =>
      match SigReceiver.getUnsignedInt str with
      | .error _ => .exited .failure
      | .ok _ => .block

/-- A step of `main`, which has to wait for the handlers. -/
def mainStep (sec : Option CStr) (s : State) : Option State :=
  if s.frames ≠ [] then none
  else match s.main with
    | .install i =>
        some { s with main := if i + 1 < NSIG then .install (i + 1) else installed sec }
    | .block => some { s with main := .sleep }
    | .sleep => some { s with main := .unblock }
    | .unblock => some { s with main := .spin }
    | .spin => some { s with main := if s.gotSigInt then .report 1 else .spin }
    | .report i =>
        some { s with
          main := if i + 1 < NSIG then .report (i + 1) else .exited .success
          printed :=
            if s.sigCount i ≠ 0 then s.printed ++ [(i, s.sigCount i)] else s.printed }
    | .exited _ => none

/-- One atomic step, until the process ends. -/
def step (sec : Option CStr) (s : State) : Label → Option State
  | .deliver sig => deliverStep s sig
  | .handler => handlerStep s
  | .main => mainStep sec s

def start : State where
  main := .install 1
  frames := []
  sigCount _ := 0
  gotSigInt := false
  printed := []
  invoked _ := 0

/-! ## The account -/

/-- The invocation has not done its work yet. -/
def Frame.busy (f : Frame) : Bool := f.pc ≠ .finish

/-- The invocations for the signal that have not done their work yet. -/
def outstanding (frames : List Frame) (sig : Nat) : Nat :=
  frames.countP fun f => f.signal = sig && f.busy

/-- Both branches of the handler keep to their signals, and what is loaded is what
is in the array. -/
def Frame.Consistent (sigCount : Nat → Int64) (f : Frame) : Prop :=
  match f.pc with
  | .setGotSigInt => f.signal = SIGINT
  | .load => f.signal ≠ SIGINT
  | .store v => f.signal ≠ SIGINT ∧ v = sigCount f.signal
  | .switch | .finish => True

structure Inv (s : State) : Prop where
  distinct : (s.frames.map Frame.signal).Nodup
  frames : ∀ f ∈ s.frames, f.Consistent s.sigCount
  le : ∀ sig, outstanding s.frames sig ≤ s.invoked sig
  count : ∀ sig, sig ≠ SIGINT →
    s.sigCount sig + Int64.ofNat (outstanding s.frames sig) = Int64.ofNat (s.invoked sig)
  sigint : s.sigCount SIGINT = 0
  got : s.gotSigInt = true ↔ outstanding s.frames SIGINT < s.invoked SIGINT

theorem start_inv : Inv start where
  distinct := List.nodup_nil
  frames := by simp [start]
  le := by simp [start, outstanding]
  count := by simp [start, outstanding]
  sigint := rfl
  got := by simp [start, outstanding]

theorem outstanding_cons (f : Frame) (fs : List Frame) (sig : Nat) :
    outstanding (f :: fs) sig =
      outstanding fs sig + if f.signal = sig ∧ f.busy = true then 1 else 0 := by
  rw [outstanding, List.countP_cons, outstanding]
  simp

/-! ## Steps keep it -/

variable {s t : State}

theorem deliver_inv {sig : Nat} (h : Inv s) (hstep : deliverStep s sig = some t) : Inv t := by
  obtain ⟨⟨-, -, hidle⟩, hsome⟩ := Option.ite_none_right_eq_some.1 hstep
  obtain rfl := Option.some.inj hsome
  have hother : ∀ f ∈ s.frames, f.signal ≠ sig := by simpa using hidle
  have hbusy : ∀ sig', outstanding (⟨sig, .switch⟩ :: s.frames) sig' =
      outstanding s.frames sig' + if sig = sig' then 1 else 0 := by
    intro sig'
    rw [outstanding_cons]
    simp [Frame.busy]
  have hinvoked : ∀ sig', Function.update s.invoked sig (s.invoked sig + 1) sig' =
      s.invoked sig' + if sig = sig' then 1 else 0 := by
    intro sig'
    by_cases hsig : sig = sig'
    · rw [← hsig, Function.update_self, if_pos rfl]
    · rw [Function.update_of_ne (Ne.symm hsig), if_neg hsig, Nat.add_zero]
  refine ⟨?_, ?_, ?_, ?_, h.sigint, ?_⟩
  · rw [List.map_cons, List.nodup_cons]
    exact ⟨by simpa using hother, h.distinct⟩
  · rw [List.forall_mem_cons]
    exact ⟨trivial, h.frames⟩
  · intro sig'
    simp only [hbusy, hinvoked]
    exact Nat.add_le_add_right (h.le sig') _
  · intro sig' hint
    simp only [hbusy, hinvoked]
    rw [Int64.ofNat_add, ← Int64.add_assoc, h.count sig' hint, ← Int64.ofNat_add]
  · simp only [hbusy, hinvoked]
    rw [Nat.add_lt_add_iff_right]
    exact h.got

/-- The innermost invocation goes on, and still has its work to do. -/
private theorem move_inv {f : Frame} {fs : List Frame} {pc : HandlerPc} (h : Inv s)
    (hframes : s.frames = f :: fs) (hbusy : f.busy = true) (hpc : pc ≠ .finish)
    (hconsistent : Frame.Consistent s.sigCount { f with pc := pc }) :
    Inv { s with frames := { f with pc := pc } :: fs } := by
  have hsame : ∀ sig, outstanding ({ f with pc := pc } :: fs) sig = outstanding s.frames sig := by
    intro sig
    rw [hframes, outstanding_cons, outstanding_cons]
    simp [Frame.busy, hpc, show f.pc ≠ .finish by simpa [Frame.busy] using hbusy]
  have hold := h.frames
  have hdistinct := h.distinct
  rw [hframes, List.forall_mem_cons] at hold
  rw [hframes] at hdistinct
  refine ⟨hdistinct, ?_, ?_, ?_, h.sigint, ?_⟩
  · rw [List.forall_mem_cons]
    exact ⟨hconsistent, hold.2⟩
  · simpa only [hsame] using h.le
  · simpa only [hsame] using h.count
  · simpa only [hsame] using h.got

/-- What is outstanding when the innermost invocation has done its work. -/
private theorem outstanding_finish {f : Frame} {fs : List Frame} (hbusy : f.busy = true)
    (sig : Nat) : outstanding (f :: fs) sig =
      outstanding ({ f with pc := .finish } :: fs) sig + if f.signal = sig then 1 else 0 := by
  have hpc : f.pc ≠ .finish := by simpa [Frame.busy] using hbusy
  rw [outstanding_cons, outstanding_cons]
  simp [Frame.busy, hpc]

/-- The invocations below the innermost one are for other signals. -/
theorem Inv.others {f : Frame} {fs : List Frame} (h : Inv s) (hframes : s.frames = f :: fs) :
    ∀ f' ∈ fs, f'.signal ≠ f.signal := by
  have hdistinct := h.distinct
  rw [hframes, List.map_cons, List.nodup_cons] at hdistinct
  intro f' hf' heq
  exact hdistinct.1 (heq ▸ List.mem_map_of_mem hf')

/-- The innermost invocation does its work: it counts its signal, or it sets the
flag. -/
private theorem work_inv {f : Frame} {fs : List Frame} {sigCount : Nat → Int64}
    {gotSigInt : Bool} (h : Inv s) (hframes : s.frames = f :: fs) (hbusy : f.busy = true)
    (hkeep : ∀ sig, sig ≠ f.signal → sigCount sig = s.sigCount sig)
    (hcounts : f.signal ≠ SIGINT → sigCount f.signal = s.sigCount f.signal + 1)
    (hsigint : sigCount SIGINT = 0)
    (hgot : gotSigInt = true ↔ s.gotSigInt = true ∨ f.signal = SIGINT) :
    Inv { s with frames := { f with pc := .finish } :: fs
                 sigCount := sigCount
                 gotSigInt := gotSigInt } := by
  have hother := h.others hframes
  have hold := h.frames
  have hdistinct := h.distinct
  have hle : ∀ sig, outstanding ({ f with pc := .finish } :: fs) sig +
      (if f.signal = sig then 1 else 0) ≤ s.invoked sig := by
    intro sig
    rw [← outstanding_finish hbusy, ← hframes]
    exact h.le sig
  rw [hframes, List.forall_mem_cons] at hold
  rw [hframes] at hdistinct
  refine ⟨hdistinct, ?_, fun sig => le_trans (Nat.le_add_right _ _) (hle sig), ?_, hsigint, ?_⟩
  · rw [List.forall_mem_cons]
    refine ⟨trivial, fun f' hf' => ?_⟩
    have hconsistent := hold.2 f' hf'
    simp only [Frame.Consistent, hkeep _ (hother f' hf')] at hconsistent ⊢
    exact hconsistent
  · intro sig hsig
    have hcount := h.count sig hsig
    rw [hframes, outstanding_finish hbusy] at hcount
    by_cases hsame : f.signal = sig
    · subst hsame
      rw [if_pos rfl, Int64.ofNat_add, ← Int64.add_assoc] at hcount
      simp only [hcounts hsig]
      rw [Int64.add_assoc, Int64.add_comm 1, ← Int64.add_assoc]
      exact hcount
    · simp only [hkeep sig (Ne.symm hsame)]
      rwa [if_neg hsame, Nat.add_zero] at hcount
  · have hcounted := h.got
    rw [hframes, outstanding_finish hbusy] at hcounted
    rw [hgot, hcounted]
    by_cases hint : f.signal = SIGINT
    · have hlt := hle SIGINT
      rw [if_pos hint] at hlt
      exact iff_of_true (.inr hint) hlt
    · rw [if_neg hint, Nat.add_zero, or_iff_left hint]

theorem handler_inv (h : Inv s) (hstep : handlerStep s = some t) : Inv t := by
  cases hframes : s.frames with
  | nil => simp [handlerStep, hframes] at hstep
  | cons f fs =>
      have hconsistent : f.Consistent s.sigCount := h.frames f (by simp [hframes])
      cases hpc : f.pc with
      | switch =>
          have hbusy : f.busy = true := by simp [Frame.busy, hpc]
          simp only [handlerStep, hframes, hpc, Option.some.injEq] at hstep
          rw [← hstep]
          by_cases hint : f.signal = SIGINT
          · rw [if_pos hint]
            exact move_inv h hframes hbusy (by simp) hint
          · rw [if_neg hint]
            exact move_inv h hframes hbusy (by simp) hint
      | load =>
          have hbusy : f.busy = true := by simp [Frame.busy, hpc]
          have hint : f.signal ≠ SIGINT := by simpa [Frame.Consistent, hpc] using hconsistent
          simp only [handlerStep, hframes, hpc, Option.some.injEq] at hstep
          rw [← hstep]
          exact move_inv h hframes hbusy (by simp) ⟨hint, rfl⟩
      | setGotSigInt =>
          have hbusy : f.busy = true := by simp [Frame.busy, hpc]
          have hint : f.signal = SIGINT := by simpa [Frame.Consistent, hpc] using hconsistent
          simp only [handlerStep, hframes, hpc, Option.some.injEq] at hstep
          rw [← hstep]
          exact work_inv h hframes hbusy (fun _ _ => rfl) (fun hne => absurd hint hne) h.sigint
            (iff_of_true rfl (.inr hint))
      | store v =>
          have hbusy : f.busy = true := by simp [Frame.busy, hpc]
          obtain ⟨hint, rfl⟩ : f.signal ≠ SIGINT ∧ v = s.sigCount f.signal := by
            simpa [Frame.Consistent, hpc] using hconsistent
          have hkeep : ∀ sig, sig ≠ f.signal →
              Function.update s.sigCount f.signal (s.sigCount f.signal + 1) sig =
                s.sigCount sig :=
            fun sig hsig => Function.update_of_ne hsig _ _
          simp only [handlerStep, hframes, hpc, Option.some.injEq] at hstep
          rw [← hstep]
          refine work_inv h hframes hbusy hkeep (fun _ => Function.update_self _ _ _) ?_
            (or_iff_left hint).symm
          rw [hkeep SIGINT (Ne.symm hint)]
          exact h.sigint
      | finish =>
          have hdone : ∀ sig, outstanding s.frames sig = outstanding fs sig := by
            intro sig
            rw [hframes, outstanding_cons]
            simp [Frame.busy, hpc]
          have hold := h.frames
          have hdistinct := h.distinct
          rw [hframes, List.forall_mem_cons] at hold
          rw [hframes, List.map_cons, List.nodup_cons] at hdistinct
          simp only [handlerStep, hframes, hpc, Option.some.injEq] at hstep
          rw [← hstep]
          refine ⟨hdistinct.2, hold.2, ?_, ?_, h.sigint, ?_⟩
          · simpa only [hdone] using h.le
          · simpa only [hdone] using h.count
          · simpa only [hdone] using h.got

theorem main_inv {sec : Option CStr} (h : Inv s) (hstep : mainStep sec s = some t) : Inv t := by
  rw [mainStep, Option.ite_none_left_eq_some] at hstep
  cases hpc : s.main with
  | exited status => simp [hpc] at hstep
  | install i | block | sleep | unblock | spin | report i =>
      simp only [hpc, Option.some.injEq] at hstep
      rw [← hstep.2]
      exact ⟨h.distinct, h.frames, h.le, h.count, h.sigint, h.got⟩

theorem step_inv {sec : Option CStr} {l : Label} (h : Inv s) (hstep : step sec s l = some t) :
    Inv t := by
  cases l with
  | deliver sig => exact deliver_inv h hstep
  | handler => exact handler_inv h hstep
  | main => exact main_inv h hstep

/-! ## Whole runs -/

theorem invoked_step {sec : Option CStr} {l : Label} (h : step sec s l = some t) (sig : Nat) :
    t.invoked sig = s.invoked sig + [l].count (.deliver sig) := by
  cases l with
  | deliver sig' =>
      obtain ⟨-, hsome⟩ := Option.ite_none_right_eq_some.1 h
      obtain rfl := Option.some.inj hsome
      by_cases hsig : sig = sig'
      · simp [hsig]
      · simp [hsig, Ne.symm hsig]
  | handler =>
      have hsame : t.invoked = s.invoked := by
        simp only [step, handlerStep] at h
        split at h
        · cases h
        · split at h <;> · obtain rfl := Option.some.inj h; rfl
      simp [hsame]
  | main =>
      have hsame : t.invoked = s.invoked := by
        simp only [step, mainStep, Option.ite_none_left_eq_some] at h
        obtain ⟨-, h⟩ := h
        split at h <;> cases h <;> rfl
      simp [hsame]

/-- The invocations are the deliveries in the run. -/
theorem invoked_eq {sec : Option CStr} {labels : List Label}
    (h : exec (step sec) s labels = some t) (sig : Nat) :
    t.invoked sig = s.invoked sig + labels.count (.deliver sig) := by
  induction labels generalizing s with
  | nil =>
      obtain rfl : s = t := Option.some.inj h
      rfl
  | cons l labels ih =>
      obtain ⟨m, hm, hrest⟩ := exec_cons_eq_some.1 h
      rw [ih hrest, invoked_step hm, Nat.add_assoc, ← List.count_append, List.singleton_append]

/-- **No signal is lost**: when no handler is active, each element of the array is
the number of deliveries of its signal, as a `long`. -/
theorem counts_exact {sec : Option CStr} {labels : List Label}
    (h : exec (step sec) start labels = some s) (hidle : s.frames = []) :
    (∀ sig, sig ≠ SIGINT → s.sigCount sig = Int64.ofNat (labels.count (.deliver sig)) ∧
        (labels.count (.deliver sig) < 2 ^ 63 →
          (s.sigCount sig).toInt = labels.count (.deliver sig))) ∧
      s.sigCount SIGINT = 0 ∧ (s.gotSigInt = true ↔ .deliver SIGINT ∈ labels) := by
  have hinv : Inv s := Reachable.invariant (fun s l t => step_inv) start_inv ⟨labels, h⟩
  have hinvoked : ∀ sig, s.invoked sig = labels.count (.deliver sig) := by
    intro sig
    rw [invoked_eq h]
    exact Nat.zero_add _
  have hnone : ∀ sig, outstanding s.frames sig = 0 := by
    intro sig
    rw [hidle]
    rfl
  have hcount : ∀ sig, sig ≠ SIGINT →
      s.sigCount sig = Int64.ofNat (labels.count (.deliver sig)) := by
    intro sig hsig
    have hsum := hinv.count sig hsig
    rw [hnone, hinvoked] at hsum
    rw [← hsum]
    exact (Int64.add_zero _).symm
  refine ⟨fun sig hsig => ⟨hcount sig hsig, fun hlt => ?_⟩, hinv.sigint, ?_⟩
  · rw [hcount sig hsig, Int64.toInt_ofNat_of_lt hlt]
  · rw [hinv.got, hnone, hinvoked, List.count_pos_iff]

/-- The handlers for the first twelve signals are installed; signal 12 comes while
the handler for signal 10 is between its load and its store. -/
def nestedRun : List Label :=
  List.replicate 12 .main ++ [.deliver 10, .handler, .handler, .deliver 12, .handler, .handler,
    .handler, .handler, .handler, .handler]

theorem counts_exact_nested :
    ∃ s, exec (step none) start nestedRun = some s ∧
      s.sigCount 10 = Int64.ofNat (nestedRun.count (.deliver 10)) ∧
      s.sigCount 12 = Int64.ofNat (nestedRun.count (.deliver 12)) := by
  obtain ⟨s, hrun, hidle⟩ : ∃ s, exec (step none) start nestedRun = some s ∧ s.frames = [] :=
    ⟨_, rfl, rfl⟩
  have hcounts := (counts_exact hrun hidle).1
  exact ⟨s, hrun, (hcounts 10 (by decide)).1, (hcounts 12 (by decide)).1⟩

end Lpi.Ports.SigReceiver
