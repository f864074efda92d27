import Lpi.Ports.ThreadCleanup

/-!
# A cancelled thread gives everything back

The thread has two things to give back, the buffer and the mutex.  What it
has in hand is a function of where it is (`Custody`): each of the two is
on the stack of handlers, with the handler that is running, or given back.

One case is missing from this list.  A `printf` inside a handler that
`pthread_cleanup_pop(1)` has called is a cancellation point at which the
handler is no longer on the stack, and a cancellation there would lose the
mutex or the buffer.  It does not happen because the two modes of `main`
exclude each other (`Phase`): a thread that leaves its loop has seen
`glob = 1`, and then nobody cancels it.
-/

namespace Lpi.Ports.ThreadCleanup

open Lpi.Verified.CData
open Lpi.Verified.Run

/-! ## What the thread has in hand -/

/-- What the thread has to give back and what it has given back. -/
structure Resources where
  stack : List Handler
  locked : Bool
  locks : Nat
  unlocks : Nat
  buffer : Option Nat
  freed : List Nat

def State.resources (s : State) : Resources :=
  ⟨s.stack, s.mutex == some .thread, s.locks, s.unlocks, s.buffer, s.freed⟩

/-- The stack, the mutex, the buffer and the freed memory are as listed, and
the mutex was unlocked as often as locked, but for the lock that is held. -/
structure Resources.Are (r : Resources) (stack : List Handler) (locked : Bool)
    (buffer : Option Nat) (freed : List Nat) : Prop where
  stack : r.stack = stack
  locked : r.locked = locked
  balance : r.locks = r.unlocks + r.locked.toNat
  buffer : r.buffer = buffer
  freed : r.freed = freed

/-- What the thread has in hand at each place. -/
def Custody (r : Resources) : ThreadPc → Prop
  | .notCreated | .malloc | .mallocFailed => r.Are [] false none []
  | .pushMemory p => r.Are [] false (some p) []
  | .printAllocated | .lock | .popMemory =>
      ∃ p, r.Are [.memory p] false (some p) []
  | .pushMutex => ∃ p, r.Are [.memory p] true (some p) []
  | .testGlob | .condWait | .printCompleted | .popMutex =>
      ∃ p, r.Are [.mutex, .memory p] true (some p) []
  | .blocked | .relock | .relockCanceled =>
      ∃ p, r.Are [.mutex, .memory p] false (some p) []
  | .handler .mutex _ next =>
      next ≠ .returnNull ∧ ∃ p, r.Are [.memory p] true (some p) []
  | .handler (.memory p) _ next =>
      next ≠ .popMemory ∧ r.Are [] false (some p) []
  | .unwind =>
      (∃ p, r.Are [.mutex, .memory p] true (some p) []) ∨
      (∃ p, r.Are [.memory p] false (some p) []) ∨
      r.Are [] false r.buffer r.buffer.toList
  | .returnNull | .terminated _ => r.Are [] false r.buffer r.buffer.toList

/-! ## Where `main` is meanwhile -/

/-- `main` has the mutex. -/
def MainPc.holds : MainPc → Bool
  | .setGlob | .unlock => true
  | _ => false

/-- `main` has set `glob`. -/
def MainPc.hasSet (argc : Nat) : MainPc → Bool
  | .unlock | .signal => true
  | .join | .printStatus _ | .done => argc ≠ 1
  | _ => false

/-- `main` is through with the mutex. -/
def MainPc.unlocked : MainPc → Bool
  | .signal | .join | .printStatus _ | .done => true
  | _ => false

/-- The branch of `argc == 1` that `main` is in. -/
def MainPc.Branch (argc : Nat) : MainPc → Prop
  | .printCancel | .cancel => argc = 1
  | .printSignal | .lock | .setGlob | .unlock | .signal => argc ≠ 1
  | .create | .sleep | .testArgc | .join | .printStatus _ | .done => True

/-- What the place of the thread says about the mode and about `glob`. -/
def Phase (argc : Nat) (main : MainPc) (glob : Int32) : ThreadPc → Prop
  | .condWait => glob = 0
  | .blocked => glob = 0 ∨ main = .unlock ∨ main = .signal
  | .printCompleted | .popMutex | .popMemory | .handler _ _ .popMemory
  | .handler _ _ .returnNull | .returnNull | .terminated .null =>
      argc ≠ 1 ∧ main.unlocked = true
  | .relockCanceled | .unwind | .handler _ _ .unwind | .terminated .canceled =>
      argc = 1
  | .notCreated | .malloc | .mallocFailed | .pushMemory _ | .printAllocated
  | .lock | .pushMutex | .testGlob | .relock => True

structure Inv (argc : Nat) (s : State) : Prop where
  custody : Custody s.resources s.thread
  phase : Phase argc s.main s.glob s.thread
  owner : s.mutex = some .main ↔ s.main.holds = true
  branch : s.main.Branch argc
  glob : s.glob = if s.main.hasSet argc = true then 1 else 0
  request : s.cancelRequested = true → argc = 1
  created : s.main = .create → s.thread = .notCreated

theorem start_inv (argc : Nat) : Inv argc start where
  custody := ⟨rfl, rfl, rfl, rfl, rfl⟩
  phase := trivial
  owner := by simp [start, MainPc.holds]
  branch := trivial
  glob := rfl
  request := by simp [start]
  created := fun _ => rfl

/-! ## Steps of the thread -/

/-- The thread has the mutex where its custody says so. -/
theorem Resources.Are.owner {s : State} {stack : List Handler} {locked : Bool}
    {buffer : Option Nat} {freed : List Nat}
    (h : s.resources.Are stack locked buffer freed) :
    s.mutex = some .thread ↔ locked = true := by
  have hlocked := h.locked
  simp only [State.resources] at hlocked
  rw [← hlocked, beq_iff_eq]

/-- What the thread takes when it locks the mutex. -/
theorem Resources.Are.threadLock {s t : State} {pc : ThreadPc}
    {stack : List Handler} {buffer : Option Nat} {freed : List Nat}
    (h : s.resources.Are stack false buffer freed)
    (hlock : s.threadLock pc = some t) :
    s.mutex = none ∧ t.resources.Are stack true buffer freed ∧
      t = { s with mutex := some .thread, locks := s.locks + 1, thread := pc } := by
  simp only [State.threadLock, Option.ite_none_right_eq_some,
    Option.some.injEq] at hlock
  obtain ⟨hfree, rfl⟩ := hlock
  have hcount := h.balance
  rw [h.locked] at hcount
  have hbalance : s.locks = s.unlocks + 0 := hcount
  refine ⟨hfree, ⟨h.stack, rfl, ?_, h.buffer, h.freed⟩, rfl⟩
  show s.locks + 1 = s.unlocks + 1
  omega

/-- What the thread has left when it lets the mutex go. -/
theorem Resources.Are.threadUnlock {s : State} {stack : List Handler}
    {buffer : Option Nat} {freed : List Nat}
    (h : s.resources.Are stack true buffer freed) (pc : ThreadPc) :
    (s.threadUnlock pc).resources.Are stack false buffer freed := by
  have hcount := h.balance
  rw [h.locked] at hcount
  have hbalance : s.locks = s.unlocks + 1 := hcount
  refine ⟨h.stack, rfl, ?_, h.buffer, h.freed⟩
  show s.locks = s.unlocks + 1 + 0
  omega

/-- A step of the thread leaves alone what belongs to `main`. -/
theorem Inv.of_thread {argc : Nat} {s t : State} (h : Inv argc s)
    (hmain : t.main = s.main) (hglob : t.glob = s.glob)
    (hrequest : t.cancelRequested = s.cancelRequested)
    (howner : t.mutex = some .main ↔ s.mutex = some .main)
    (hthread : s.thread ≠ .notCreated)
    (hcustody : Custody t.resources t.thread)
    (hphase : Phase argc s.main s.glob t.thread) : Inv argc t where
  custody := hcustody
  phase := by rw [hmain, hglob]; exact hphase
  owner := by rw [howner, hmain]; exact h.owner
  branch := by rw [hmain]; exact h.branch
  glob := by rw [hglob, hmain]; exact h.glob
  request := by rw [hrequest]; exact h.request
  created := by
    rw [hmain]
    intro hcreate
    exact absurd (h.created hcreate) hthread

/-- While the thread has the mutex, a `glob` that is set is one that `main`
has finished setting. -/
theorem Inv.glob_seen {argc : Nat} {s : State} (h : Inv argc s)
    (hmutex : s.mutex = some .thread) (hglob : s.glob ≠ 0) :
    argc ≠ 1 ∧ s.main.unlocked = true := by
  have hset : s.main.hasSet argc = true := by
    by_contra hnot
    rw [h.glob, if_neg hnot] at hglob
    exact hglob rfl
  have hholds : s.main.holds ≠ true := by
    rw [ne_eq, ← h.owner, hmutex]
    simp
  have hbranch := h.branch
  cases hpc : s.main with
  | signal =>
      simp only [MainPc.Branch, hpc] at hbranch
      exact ⟨hbranch, rfl⟩
  | join | printStatus status | done =>
      simp only [MainPc.hasSet, hpc, decide_eq_true_eq] at hset
      exact ⟨hset, rfl⟩
  | unlock => simp [hpc, MainPc.holds] at hholds
  | create | sleep | testArgc | printCancel | cancel | printSignal | lock
  | setGlob => simp [hpc, MainPc.hasSet] at hset

/-- A handler has ended: the thread goes on where it was called from. -/
theorem Phase.next {argc : Nat} {main : MainPc} {glob : Int32} {k : Handler}
    {pc : HandlerPc} {next : Next}
    (h : Phase argc main glob (.handler k pc next)) :
    Phase argc main glob next.pc := by
  cases next <;> exact h

theorem Inv.handler_step {argc : Nat} {s t : State} {k : Handler}
    {pc : HandlerPc} {next : Next} (h : Inv argc s)
    (hpc : s.thread = .handler k pc next) (hstep : threadStep s = some t) :
    Inv argc t := by
  have hcustody := h.custody
  have hphase := h.phase
  have hthread : s.thread ≠ .notCreated := by simp [hpc]
  rw [hpc] at hcustody hphase
  cases pc with
  | print =>
      simp only [threadStep, hpc, Option.some.injEq] at hstep
      subst hstep
      refine h.of_thread rfl rfl rfl Iff.rfl hthread ?_ ?_
      · cases k <;> exact hcustody
      · cases next <;> exact hphase
  | release =>
      cases k with
      | memory p =>
          simp only [threadStep, hpc, Option.some.injEq] at hstep
          subst hstep
          obtain ⟨hnext, hare⟩ := hcustody
          have hdone : Resources.Are
              { s.resources with freed := p :: s.freed } [] false s.buffer
                s.buffer.toList := by
            refine ⟨hare.stack, hare.locked, hare.balance, rfl, ?_⟩
            have hbuffer : s.buffer = some p := hare.buffer
            have hfreed : s.freed = [] := hare.freed
            simp [hbuffer, hfreed]
          refine h.of_thread rfl rfl rfl Iff.rfl hthread ?_ hphase.next
          cases next with
          | popMemory => exact absurd rfl hnext
          | returnNull => exact hdone
          | unwind => exact Or.inr (Or.inr hdone)
      | mutex =>
          simp only [threadStep, hpc, Option.some.injEq] at hstep
          subst hstep
          obtain ⟨hnext, p, hare⟩ := hcustody
          have hmutex : s.mutex = some .thread := hare.owner.2 rfl
          refine h.of_thread rfl rfl rfl ?_ hthread ?_ hphase.next
          · simp [State.threadUnlock, hmutex]
          · have hdone := hare.threadUnlock next.pc
            cases next with
            | popMemory => exact ⟨p, hdone⟩
            | returnNull => exact absurd rfl hnext
            | unwind => exact Or.inr (Or.inl ⟨p, hdone⟩)

theorem Inv.lock_step {argc : Nat} {s t : State} {pc : ThreadPc}
    {stack : List Handler} {buffer : Option Nat} {freed : List Nat}
    (h : Inv argc s) (hthread : s.thread ≠ .notCreated)
    (hare : s.resources.Are stack false buffer freed)
    (hstep : s.threadLock pc = some t)
    (hcustody : ∀ r : Resources, r.Are stack true buffer freed → Custody r pc)
    (hphase : Phase argc s.main s.glob pc) : Inv argc t := by
  obtain ⟨hfree, hare', rfl⟩ := hare.threadLock hstep
  refine h.of_thread rfl rfl rfl ?_ hthread (hcustody _ hare') hphase
  simp [hfree]

/-- A handler leaves the stack and runs. -/
theorem Inv.call_step {argc : Nat} {s t : State} {k : Handler} {next : Next}
    {stack : List Handler} {locked : Bool} {buffer : Option Nat}
    {freed : List Nat} (h : Inv argc s) (hthread : s.thread ≠ .notCreated)
    (hare : s.resources.Are (k :: stack) locked buffer freed)
    (hstep : s.popAndCall next = some t)
    (hcustody : ∀ r : Resources, r.Are stack locked buffer freed →
      Custody r (.handler k .print next))
    (hphase : Phase argc s.main s.glob (.handler k .print next)) :
    Inv argc t := by
  have hstack : s.stack = k :: stack := hare.stack
  simp only [State.popAndCall, hstack, Option.some.injEq] at hstep
  subst hstep
  refine h.of_thread rfl rfl rfl Iff.rfl hthread (hcustody _ ?_) hphase
  exact ⟨rfl, hare.locked, hare.balance, hare.buffer, hare.freed⟩

/-- Cancellation has taken effect: the next handler, or the end. -/
theorem Inv.unwind_step {argc : Nat} {s t : State} (h : Inv argc s)
    (hpc : s.thread = .unwind) (hstep : threadStep s = some t) :
    Inv argc t := by
  have hcustody := h.custody
  have hphase := h.phase
  have hthread : s.thread ≠ .notCreated := by simp [hpc]
  rw [hpc] at hcustody hphase
  rcases hcustody with ⟨p, hare⟩ | ⟨p, hare⟩ | hare
  · have hstack : s.stack = [.mutex, .memory p] := hare.stack
    simp only [threadStep, hpc, hstack, reduceCtorEq, if_false] at hstep
    exact h.call_step hthread hare hstep (fun _ hr => ⟨by simp, p, hr⟩) hphase
  · have hstack : s.stack = [.memory p] := hare.stack
    simp only [threadStep, hpc, hstack, reduceCtorEq, if_false] at hstep
    exact h.call_step hthread hare hstep (fun _ hr => ⟨by simp, hr⟩) hphase
  · have hstack : s.stack = [] := hare.stack
    simp only [threadStep, hpc, hstack, if_true, Option.some.injEq] at hstep
    subst hstep
    refine h.of_thread rfl rfl rfl Iff.rfl hthread ?_ hphase
    exact ⟨rfl, hare.locked, hare.balance, rfl, hare.freed⟩

/-- The thread goes to wait with `glob` clear, or leaves its loop for good. -/
theorem Inv.test_glob {argc : Nat} {s : State} (h : Inv argc s)
    (hpc : s.thread = .testGlob) :
    Inv argc
      { s with thread := if s.glob = 0 then .condWait else .printCompleted } := by
  have hcustody := h.custody
  rw [hpc] at hcustody
  obtain ⟨p, hare⟩ := hcustody
  by_cases hglob : s.glob = 0
  · refine h.of_thread rfl rfl rfl Iff.rfl (by simp [hpc]) ?_ ?_
    · simp only [hglob, if_true]
      exact ⟨p, hare⟩
    · simp only [hglob, if_true, Phase]
  · have hseen := h.glob_seen (hare.owner.2 rfl) hglob
    refine h.of_thread rfl rfl rfl Iff.rfl (by simp [hpc]) ?_ ?_
    · simp only [hglob, if_false]
      exact ⟨p, hare⟩
    · simp only [hglob, if_false]
      exact hseen

theorem Inv.thread_step {argc : Nat} {s t : State} (h : Inv argc s)
    (hstep : threadStep s = some t) : Inv argc t := by
  have hcustody := h.custody
  have hphase := h.phase
  cases hpc : s.thread with
  | notCreated | malloc | blocked | terminated status =>
      simp [threadStep, hpc] at hstep
  | mallocFailed =>
      rw [hpc] at hcustody hphase
      simp only [threadStep, hpc, Option.some.injEq] at hstep
      subst hstep
      exact h.of_thread rfl rfl rfl Iff.rfl (by simp [hpc]) hcustody hphase
  | pushMemory p =>
      rw [hpc] at hcustody
      simp only [threadStep, hpc, Option.some.injEq] at hstep
      subst hstep
      refine h.of_thread rfl rfl rfl Iff.rfl (by simp [hpc]) ⟨p, ?_⟩ trivial
      have hstack : s.stack = [] := hcustody.stack
      exact ⟨by simp [State.resources, hstack], hcustody.locked,
        hcustody.balance, hcustody.buffer, hcustody.freed⟩
  | printAllocated =>
      rw [hpc] at hcustody
      simp only [threadStep, hpc, Option.some.injEq] at hstep
      subst hstep
      exact h.of_thread rfl rfl rfl Iff.rfl (by simp [hpc]) hcustody trivial
  | lock =>
      rw [hpc] at hcustody
      obtain ⟨p, hare⟩ := hcustody
      simp only [threadStep, hpc] at hstep
      exact h.lock_step (by simp [hpc]) hare hstep (fun _ hr => ⟨p, hr⟩) trivial
  | pushMutex =>
      rw [hpc] at hcustody
      obtain ⟨p, hare⟩ := hcustody
      simp only [threadStep, hpc, Option.some.injEq] at hstep
      subst hstep
      refine h.of_thread rfl rfl rfl Iff.rfl (by simp [hpc]) ⟨p, ?_⟩ trivial
      have hstack : s.stack = [.memory p] := hare.stack
      exact ⟨by simp [State.resources, hstack], hare.locked, hare.balance,
        hare.buffer, hare.freed⟩
  | testGlob =>
      simp only [threadStep, hpc, Option.some.injEq] at hstep
      subst hstep
      exact h.test_glob hpc
  | condWait =>
      rw [hpc] at hcustody hphase
      obtain ⟨p, hare⟩ := hcustody
      simp only [threadStep, hpc, Option.some.injEq] at hstep
      subst hstep
      have hmutex : s.mutex = some .thread := hare.owner.2 rfl
      refine h.of_thread rfl rfl rfl ?_ (by simp [hpc])
        ⟨p, hare.threadUnlock .blocked⟩ (Or.inl hphase)
      simp [State.threadUnlock, hmutex]
  | relock =>
      rw [hpc] at hcustody
      obtain ⟨p, hare⟩ := hcustody
      simp only [threadStep, hpc] at hstep
      exact h.lock_step (by simp [hpc]) hare hstep (fun _ hr => ⟨p, hr⟩) trivial
  | relockCanceled =>
      rw [hpc] at hcustody hphase
      obtain ⟨p, hare⟩ := hcustody
      simp only [threadStep, hpc] at hstep
      exact h.lock_step (by simp [hpc]) hare hstep
        (fun _ hr => Or.inl ⟨p, hr⟩) hphase
  | printCompleted =>
      rw [hpc] at hcustody hphase
      simp only [threadStep, hpc, Option.some.injEq] at hstep
      subst hstep
      exact h.of_thread rfl rfl rfl Iff.rfl (by simp [hpc]) hcustody hphase
  | popMutex =>
      rw [hpc] at hcustody hphase
      obtain ⟨p, hare⟩ := hcustody
      simp only [threadStep, hpc] at hstep
      exact h.call_step (by simp [hpc]) hare hstep
        (fun _ hr => ⟨by simp, p, hr⟩) hphase
  | popMemory =>
      rw [hpc] at hcustody hphase
      obtain ⟨p, hare⟩ := hcustody
      simp only [threadStep, hpc] at hstep
      exact h.call_step (by simp [hpc]) hare hstep
        (fun _ hr => ⟨by simp, hr⟩) hphase
  | handler k pc next => exact h.handler_step hpc hstep
  | returnNull =>
      rw [hpc] at hcustody hphase
      simp only [threadStep, hpc, Option.some.injEq] at hstep
      subst hstep
      exact h.of_thread rfl rfl rfl Iff.rfl (by simp [hpc]) hcustody hphase
  | unwind => exact h.unwind_step hpc hstep

theorem Inv.malloc_step {argc : Nat} {s t : State} {p : Option Nat}
    (h : Inv argc s) (hstep : mallocStep s p = some t) : Inv argc t := by
  have hcustody := h.custody
  cases p with
  | none =>
      simp only [mallocStep, Option.ite_none_right_eq_some,
        Option.some.injEq] at hstep
      obtain ⟨hpc, rfl⟩ := hstep
      rw [hpc] at hcustody
      exact h.of_thread rfl rfl rfl Iff.rfl (by simp [hpc]) hcustody trivial
  | some p =>
      simp only [mallocStep, Option.ite_none_right_eq_some,
        Option.some.injEq] at hstep
      obtain ⟨hpc, rfl⟩ := hstep
      rw [hpc] at hcustody
      refine h.of_thread rfl rfl rfl Iff.rfl (by simp [hpc]) ?_ trivial
      exact ⟨hcustody.stack, hcustody.locked, hcustody.balance, rfl,
        hcustody.freed⟩

/-- Cancellation finds the thread with all its handlers on the stack: where
they are not, nobody has requested it. -/
theorem Inv.cancel_step {argc : Nat} {s : State} {pc : ThreadPc}
    (h : Inv argc s) (hrequest : s.cancelRequested = true)
    (hcancel : s.thread.canceled = some pc) :
    Inv argc { s with thread := pc } := by
  have hmode := h.request hrequest
  have hcustody := h.custody
  have hphase := h.phase
  cases hpc : s.thread with
  | mallocFailed =>
      rw [hpc] at hcustody
      simp only [ThreadPc.canceled, hpc, Option.some.injEq] at hcancel
      subst hcancel
      refine h.of_thread rfl rfl rfl Iff.rfl (by simp [hpc])
        (Or.inr (Or.inr ?_)) hmode
      have hbuffer : s.buffer = none := hcustody.buffer
      have hfreed : s.freed = s.buffer.toList := by
        rw [hbuffer]
        exact hcustody.freed
      exact ⟨hcustody.stack, hcustody.locked, hcustody.balance, rfl, hfreed⟩
  | printAllocated =>
      rw [hpc] at hcustody
      simp only [ThreadPc.canceled, hpc, Option.some.injEq] at hcancel
      subst hcancel
      exact h.of_thread rfl rfl rfl Iff.rfl (by simp [hpc])
        (Or.inr (Or.inl hcustody)) hmode
  | condWait =>
      rw [hpc] at hcustody
      simp only [ThreadPc.canceled, hpc, Option.some.injEq] at hcancel
      subst hcancel
      exact h.of_thread rfl rfl rfl Iff.rfl (by simp [hpc])
        (Or.inl hcustody) hmode
  | blocked | relock =>
      rw [hpc] at hcustody
      simp only [ThreadPc.canceled, hpc, Option.some.injEq] at hcancel
      subst hcancel
      exact h.of_thread rfl rfl rfl Iff.rfl (by simp [hpc]) hcustody hmode
  | printCompleted =>
      rw [hpc] at hphase
      exact absurd hmode hphase.1
  | handler k hpc' next =>
      -- The handler was called by `pthread_cleanup_pop(1)`, or the thread is
      -- being cancelled already.
      rw [hpc] at hphase
      cases next with
      | popMemory | returnNull => exact absurd hmode hphase.1
      | unwind => cases hpc' <;> simp [ThreadPc.canceled, hpc] at hcancel
  | notCreated | malloc | pushMemory p | lock | pushMutex | testGlob
  | relockCanceled | popMutex | popMemory | returnNull | unwind
  | terminated status => simp [ThreadPc.canceled, hpc] at hcancel

/-! ## Steps of `main` -/

/-- A step of `main` that does not touch the mutex, `glob` or the thread. -/
theorem Inv.main_moves {argc : Nat} {s : State} {pc : MainPc} (h : Inv argc s)
    (hphase : Phase argc pc s.glob s.thread)
    (hholds : pc.holds = s.main.holds) (hbranch : pc.Branch argc)
    (hset : pc.hasSet argc = s.main.hasSet argc) (hcreate : pc ≠ .create) :
    Inv argc { s with main := pc } where
  custody := h.custody
  phase := hphase
  owner := by rw [hholds]; exact h.owner
  branch := hbranch
  glob := by rw [hset]; exact h.glob
  request := h.request
  created := fun hpc => absurd hpc hcreate

/-- Before it is through with the mutex `main` may move freely, as far as the
thread is concerned. -/
theorem Phase.of_not_unlocked {argc : Nat} {main main' : MainPc} {glob : Int32}
    {pc : ThreadPc} (h : Phase argc main glob pc)
    (hnot : main.unlocked = false) (hunlock : main ≠ .unlock) :
    Phase argc main' glob pc := by
  have hsignal : main ≠ .signal := by
    rintro rfl
    simp [MainPc.unlocked] at hnot
  cases pc with
  | blocked => exact h.imp_right (by simp [hunlock, hsignal])
  | printCompleted | popMutex | popMemory | returnNull =>
      exact absurd h.2 (by simp [hnot])
  | handler k hp next =>
      cases next with
      | popMemory | returnNull => exact absurd h.2 (by simp [hnot])
      | unwind => exact h
  | terminated status =>
      cases status with
      | null => exact absurd h.2 (by simp [hnot])
      | canceled => exact h
  | notCreated | malloc | mallocFailed | pushMemory p | printAllocated | lock
  | pushMutex | testGlob | condWait | relock | relockCanceled | unwind =>
      exact h

/-- Once `main` is through with the mutex it stays so. -/
theorem Phase.of_unlocked {argc : Nat} {main main' : MainPc} {glob : Int32}
    {pc : ThreadPc} (h : Phase argc main glob pc)
    (hunlocked : main'.unlocked = true)
    (hblocked : pc = .blocked → glob = 0 ∨ main' = .unlock ∨ main' = .signal) :
    Phase argc main' glob pc := by
  cases pc with
  | blocked => exact hblocked rfl
  | printCompleted | popMutex | popMemory | returnNull =>
      exact ⟨h.1, hunlocked⟩
  | handler k hp next =>
      cases next with
      | popMemory | returnNull => exact ⟨h.1, hunlocked⟩
      | unwind => exact h
  | terminated status =>
      cases status with
      | null => exact ⟨h.1, hunlocked⟩
      | canceled => exact h
  | notCreated | malloc | mallocFailed | pushMemory p | printAllocated | lock
  | pushMutex | testGlob | condWait | relock | relockCanceled | unwind =>
      exact h

/-- Waking the thread up takes nothing from it. -/
theorem Custody.signaled {r : Resources} {pc : ThreadPc} (h : Custody r pc) :
    Custody r pc.signaled := by
  cases pc <;> exact h

theorem ThreadPc.signaled_ne_blocked (pc : ThreadPc) :
    pc.signaled ≠ .blocked := by
  cases pc <;> simp [ThreadPc.signaled]

theorem Phase.signaled {argc : Nat} {main : MainPc} {glob : Int32}
    {pc : ThreadPc} (h : Phase argc main glob pc) :
    Phase argc main glob pc.signaled := by
  cases pc with
  | blocked => exact trivial
  | notCreated | malloc | mallocFailed | pushMemory p | printAllocated | lock
  | pushMutex | testGlob | condWait | relock | relockCanceled | printCompleted
  | popMutex | popMemory | handler k hp next | returnNull | unwind
  | terminated status => exact h

/-- `main` sets `glob` while the thread is not about to wait. -/
theorem Phase.set_glob {argc : Nat} {glob : Int32} {pc : ThreadPc}
    (h : Phase argc .setGlob glob pc) (hpc : pc ≠ .condWait) :
    Phase argc .unlock 1 pc := by
  cases pc with
  | condWait => exact absurd rfl hpc
  | blocked => exact Or.inr (Or.inl rfl)
  | printCompleted | popMutex | popMemory | returnNull => exact absurd h.2 (by decide)
  | handler k hp next =>
      cases next with
      | popMemory | returnNull => exact absurd h.2 (by decide)
      | unwind => exact h
  | terminated status =>
      cases status with
      | null => exact absurd h.2 (by decide)
      | canceled => exact h
  | notCreated | malloc | mallocFailed | pushMemory p | printAllocated | lock
  | pushMutex | testGlob | relock | relockCanceled | unwind => exact h

/-- The mutex changes hands between `main` and nobody. -/
theorem State.resources_mutex {s : State} {m : Option Owner} {pc : MainPc}
    (hs : s.mutex ≠ some .thread) (hm : m ≠ some .thread) :
    { s with mutex := m, main := pc }.resources = s.resources := by
  simp [State.resources, hs, hm]

/-- `main` moves on before it is through with the mutex. -/
theorem Inv.early_phase {argc : Nat} {s : State} {pc : MainPc} (h : Inv argc s)
    (hpc : s.main = pc) (hnot : pc.unlocked = false) (hunlock : pc ≠ .unlock)
    (next : MainPc) : Phase argc next s.glob s.thread :=
  h.phase.of_not_unlocked (by rw [hpc]; exact hnot) (by rw [hpc]; exact hunlock)

theorem Inv.main_create {argc : Nat} {s : State} (h : Inv argc s)
    (hpc : s.main = .create) :
    Inv argc { s with thread := .malloc, main := .sleep } := by
  have hcustody := h.custody
  have howner := h.owner
  have hglob := h.glob
  rw [h.created hpc] at hcustody
  rw [hpc] at howner hglob
  exact
    { custody := hcustody
      phase := trivial
      owner := howner
      branch := trivial
      glob := hglob
      request := h.request
      created := by simp }

/-- Only a `main` that was started without arguments requests a
cancellation. -/
theorem Inv.main_cancel {argc : Nat} {s : State} (h : Inv argc s)
    (hpc : s.main = .cancel) :
    Inv argc { s with cancelRequested := true, main := .join } := by
  have hphase := h.early_phase hpc rfl (by simp) .join
  have hbranch := h.branch
  have howner := h.owner
  have hglob := h.glob
  rw [hpc] at hbranch howner hglob
  have hmode : argc = 1 := hbranch
  exact
    { custody := h.custody
      phase := hphase
      owner := howner
      branch := trivial
      glob := by simpa [MainPc.hasSet, hmode] using hglob
      request := fun _ => hmode
      created := by simp }

theorem Inv.main_lock {argc : Nat} {s : State} (h : Inv argc s)
    (hpc : s.main = .lock) (hfree : s.mutex = none) :
    Inv argc { s with mutex := some .main, main := .setGlob } := by
  have hphase := h.early_phase hpc rfl (by simp) .setGlob
  have hbranch := h.branch
  have hglob := h.glob
  have hcustody := h.custody
  rw [hpc] at hbranch hglob
  rw [← State.resources_mutex (m := some .main) (by simp [hfree]) (by simp)]
    at hcustody
  exact
    { custody := hcustody
      phase := hphase
      owner := by simp [MainPc.holds]
      branch := hbranch
      glob := hglob
      request := h.request
      created := by simp }

/-- While `main` has the mutex, the thread is not about to wait. -/
theorem Inv.main_set_glob {argc : Nat} {s : State} (h : Inv argc s)
    (hpc : s.main = .setGlob) : Inv argc { s with glob := 1, main := .unlock } := by
  have hphase := h.phase
  have hbranch := h.branch
  have howner := h.owner
  rw [hpc] at hphase hbranch howner
  have hmutex : s.mutex = some .main := howner.2 rfl
  have hthread : s.thread ≠ .condWait := by
    intro hwait
    have hcustody := h.custody
    rw [hwait] at hcustody
    obtain ⟨p, hare⟩ := hcustody
    have hheld := hare.owner.2 rfl
    simp [hmutex] at hheld
  exact
    { custody := h.custody
      phase := hphase.set_glob hthread
      owner := howner
      branch := hbranch
      glob := rfl
      request := h.request
      created := by simp }

theorem Inv.main_unlock {argc : Nat} {s : State} (h : Inv argc s)
    (hpc : s.main = .unlock) :
    Inv argc { s with mutex := none, main := .signal } := by
  have hphase := h.phase
  have hbranch := h.branch
  have howner := h.owner
  have hglob := h.glob
  have hcustody := h.custody
  rw [hpc] at hphase hbranch howner hglob
  rw [← State.resources_mutex (m := none) (by simp [howner.2 rfl]) (by simp)]
    at hcustody
  exact
    { custody := hcustody
      phase := hphase.of_unlocked rfl (fun _ => Or.inr (Or.inr rfl))
      owner := by simp [MainPc.holds]
      branch := hbranch
      glob := hglob
      request := h.request
      created := by simp }

theorem Inv.main_signal {argc : Nat} {s : State} (h : Inv argc s)
    (hpc : s.main = .signal) :
    Inv argc { s with thread := s.thread.signaled, main := .join } := by
  have hphase := h.phase
  have hbranch := h.branch
  have howner := h.owner
  have hglob := h.glob
  rw [hpc] at hphase hbranch howner hglob
  have hmode : argc ≠ 1 := hbranch
  exact
    { custody := h.custody.signaled
      phase := hphase.signaled.of_unlocked rfl
        (fun hblocked => absurd hblocked (ThreadPc.signaled_ne_blocked _))
      owner := howner
      branch := trivial
      glob := by simpa [MainPc.hasSet, hmode] using hglob
      request := h.request
      created := by simp }

/-- The end of the process. -/
theorem Inv.main_ends {argc : Nat} {s : State} {status : Status}
    (h : Inv argc s) (hpc : s.main = .printStatus status) :
    Inv argc
      { s with reported := some status, main := .done, exited := some .success } := by
  have hphase := h.phase
  have howner := h.owner
  have hglob := h.glob
  rw [hpc] at hphase howner hglob
  refine
    { custody := h.custody
      phase := hphase.of_unlocked rfl ?_
      owner := howner
      branch := trivial
      glob := hglob
      request := h.request
      created := by simp }
  intro hblocked
  rw [hblocked] at hphase
  simpa [Phase] using hphase

theorem Inv.main_step {argc : Nat} {s t : State} (h : Inv argc s)
    (hstep : mainStep argc s = some t) : Inv argc t := by
  cases hpc : s.main with
  | create =>
      simp only [mainStep, hpc, Option.some.injEq] at hstep
      subst hstep
      exact h.main_create hpc
  | sleep =>
      simp only [mainStep, hpc, Option.some.injEq] at hstep
      subst hstep
      exact h.main_moves (h.early_phase hpc rfl (by simp) _)
        (by rw [hpc]; rfl) trivial (by rw [hpc]; rfl) (by simp)
  | testArgc =>
      simp only [mainStep, hpc, Option.some.injEq] at hstep
      subst hstep
      refine h.main_moves (h.early_phase hpc rfl (by simp) _) ?_ ?_ ?_ ?_
      all_goals
        by_cases hargc : argc = 1 <;>
          simp [hpc, hargc, MainPc.holds, MainPc.Branch, MainPc.hasSet]
  | printCancel | printSignal =>
      have hbranch := h.branch
      rw [hpc] at hbranch
      simp only [mainStep, hpc, Option.some.injEq] at hstep
      subst hstep
      exact h.main_moves (h.early_phase hpc rfl (by simp) _)
        (by rw [hpc]; rfl) hbranch (by rw [hpc]; rfl) (by simp)
  | cancel =>
      simp only [mainStep, hpc, Option.some.injEq] at hstep
      subst hstep
      exact h.main_cancel hpc
  | lock =>
      simp only [mainStep, hpc, Option.ite_none_right_eq_some,
        Option.some.injEq] at hstep
      obtain ⟨hfree, rfl⟩ := hstep
      exact h.main_lock hpc hfree
  | setGlob =>
      simp only [mainStep, hpc, Option.some.injEq] at hstep
      subst hstep
      exact h.main_set_glob hpc
  | unlock =>
      simp only [mainStep, hpc, Option.some.injEq] at hstep
      subst hstep
      exact h.main_unlock hpc
  | signal =>
      simp only [mainStep, hpc, Option.some.injEq] at hstep
      subst hstep
      exact h.main_signal hpc
  | join =>
      simp only [mainStep, hpc] at hstep
      split at hstep
      · rename_i status hthread
        simp only [Option.some.injEq] at hstep
        subst hstep
        exact h.main_moves (h.phase.of_unlocked rfl (by simp [hthread]))
          (by rw [hpc]; rfl) trivial (by rw [hpc]; rfl) (by simp)
      · simp at hstep
  | printStatus status =>
      simp only [mainStep, hpc, Option.some.injEq] at hstep
      subst hstep
      exact h.main_ends hpc
  | done => simp [mainStep, hpc] at hstep

/-! ## Whole runs -/

theorem Inv.next {argc : Nat} {s t : State} {l : Label} (h : Inv argc s)
    (hstep : step argc s l = some t) : Inv argc t := by
  simp only [step, Option.ite_none_left_eq_some] at hstep
  obtain ⟨_, hstep⟩ := hstep
  cases l with
  | main => exact h.main_step hstep
  | thread => exact h.thread_step hstep
  | malloc p => exact h.malloc_step hstep
  | cancel =>
      simp only [Option.ite_none_right_eq_some, Option.map_eq_some_iff] at hstep
      obtain ⟨hrequest, pc, hpc, rfl⟩ := hstep
      exact h.cancel_step hrequest hpc
  | wakeup =>
      simp only [Option.ite_none_right_eq_some, Option.some.injEq] at hstep
      obtain ⟨hpc, rfl⟩ := hstep
      have hcustody := h.custody
      rw [hpc] at hcustody
      exact h.of_thread rfl rfl rfl Iff.rfl (by simp [hpc]) hcustody trivial

theorem inv_of_reachable {argc : Nat} {s : State}
    (h : Reachable (step argc) start s) : Inv argc s :=
  h.invariant (fun _ _ _ hI hstep => hI.next hstep) (start_inv argc)

/-! ## Main result -/

/-- Whatever ended the thread, `main` is not inside its critical section. -/
theorem Inv.not_holds {argc : Nat} {s : State} {status : Status}
    (h : Inv argc s) (hpc : s.thread = .terminated status) :
    s.main.holds = false := by
  have hphase := h.phase
  have hbranch := h.branch
  rw [hpc] at hphase
  cases hmain : s.main with
  | setGlob | unlock =>
      rw [hmain] at hphase hbranch
      cases status with
      | null => exact absurd hphase.2 (by decide)
      | canceled => exact absurd hphase hbranch
  | create | sleep | testArgc | printCancel | cancel | printSignal | lock
  | signal | join | printStatus status' | done => rfl

/-- `main` has executed its `pthread_cond_signal`. -/
def MainPc.hasSignaled (argc : Nat) : MainPc → Bool
  | .join | .printStatus _ | .done => argc ≠ 1
  | _ => false

/-- **Cleanup on every path.**  In either mode, for every interleaving and
wherever the cancellation takes effect: a thread that has terminated has left
the mutex unlocked, has unlocked it as often as locked it, and has freed what
it allocated, exactly once; and after `main` has signalled the condition
variable, the thread is not blocked on it with `glob` set. -/
theorem everything_given_back (argc : Nat) (s : State)
    (h : Reachable (step argc) start s) :
    (∀ status, s.thread = .terminated status →
      s.mutex = none ∧ s.unlocks = s.locks ∧ s.freed = s.buffer.toList) ∧
    (s.main.hasSignaled argc = true →
      ¬ (s.thread = .blocked ∧ s.glob = 1)) := by
  have hinv := inv_of_reachable h
  constructor
  · intro status hpc
    have hcustody := hinv.custody
    rw [hpc] at hcustody
    have hthread : s.mutex ≠ some .thread := by simp [hcustody.owner]
    have hmain : s.mutex ≠ some .main := by
      rw [ne_eq, hinv.owner, hinv.not_holds hpc]
      simp
    have hbalance := hcustody.balance
    rw [hcustody.locked] at hbalance
    refine ⟨?_, hbalance.symm, hcustody.freed⟩
    cases hm : s.mutex with
    | none => rfl
    | some o => cases o <;> simp_all
  · rintro hsignaled ⟨hpc, hglob⟩
    have hphase := hinv.phase
    rw [hpc] at hphase
    rcases hphase with hzero | hmain | hmain
    · rw [hglob] at hzero
      exact absurd hzero (by decide)
    · simp [hmain, MainPc.hasSignaled] at hsignaled
    · simp [hmain, MainPc.hasSignaled] at hsignaled

/-- The thread is cancelled while it waits: both handlers run, the one for the
mutex first. -/
theorem everything_given_back_canceled :
    ∃ s, Reachable (step 1) start s ∧ s.thread = .terminated .canceled ∧
      s.buffer = some 4096 ∧ s.freed = [4096] ∧ s.mutex = none ∧
      s.unlocks = s.locks ∧ s.locks = 2 := by
  let ls := [Label.main, .malloc (some 4096)] ++ List.replicate 6 Label.thread ++
    List.replicate 4 Label.main ++ [Label.cancel] ++ List.replicate 8 Label.thread
  obtain ⟨s, hs, hpc, hbuffer, hlocks⟩ := exists_exec (step 1)
    (fun s => s.thread = .terminated .canceled ∧ s.buffer = some 4096 ∧
      s.locks = 2) start ls (by decide)
  obtain ⟨hmutex, hbalance, hfreed⟩ :=
    (everything_given_back 1 s ⟨_, hs⟩).1 .canceled hpc
  rw [hbuffer] at hfreed
  exact ⟨s, ⟨_, hs⟩, hpc, hbuffer, hfreed, hmutex, hbalance, hlocks⟩

end Lpi.Ports.ThreadCleanup
