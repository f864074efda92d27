import Lpi.Ports.ThreadMultijoin
import Lpi.Verified.Run
import Lpi.Verified.Tally

/-!
# The invariant of `thread_multijoin`

For every thread, its position in `func`, its entry of `threads[]` and what
`main` is doing about it fit together (`EntryOk`).  The two counters are
counts of entries, up to the one that `main` is just reaping and the one that
a thread has set but not yet announced.  And while `main` waits although a
thread has been announced, some thread is still on its way to the signal.
-/

namespace Lpi.Ports.ThreadMultijoin

open Lpi.Verified.Run
open Lpi.Verified.Tally

variable {N : Nat}

/-! ## Positions -/

/-- The thread has the mutex. -/
def WorkerPc.Holds : WorkerPc → Prop
  | .terminate | .increment | .unlock => True
  | _ => False

/-- The thread will not use the mutex again. -/
def WorkerPc.Past : WorkerPc → Prop
  | .signal | .freeIndex | .returned => True
  | _ => False

/-- `main` has the mutex. -/
@[simp] def MainPc.Holds : MainPc N → Prop
  | .testWait | .wait | .sweep _ | .join _ | .setJoined _ | .decLive _
  | .decUnjoined _ | .unlock => True
  | _ => False

/-- `main` has entered its joining loop. -/
def MainPc.Joining : MainPc N → Prop
  | .init _ | .create _ => False
  | _ => True

/-- `main` has not come to create thread `i`. -/
def MainPc.Uncreated (i : Fin N) : MainPc N → Prop
  | .init j => j ≤ i
  | .create j => j ≤ i
  | _ => False

/-- The thread `main` has called `pthread_join` for and not yet marked. -/
def MainPc.target : MainPc N → Option (Fin N)
  | .join i | .setJoined i => some i
  | _ => none

/-- The entry is marked and `numUnjoinedThreads` not yet decremented. -/
@[simp] def MainPc.owesUnjoined : MainPc N → Int
  | .decLive _ | .decUnjoined _ => 1
  | _ => 0

/-- The entry is marked and `numLiveThreads` not yet decremented. -/
@[simp] def MainPc.owesLive : MainPc N → Int
  | .decLive _ => 1
  | _ => 0

/-- `main` has found threads to join and not yet looked for them. -/
@[simp] def MainPc.Looking : MainPc N → Prop
  | .lock | .testWait | .wait | .waiting | .relock => True
  | _ => False

/-- `main` has left its joining loop. -/
@[simp] def MainPc.Done : MainPc N → Prop
  | .free | .finished => True
  | _ => False

/-- What a thread's position says about its entry. -/
def StateOk : WorkerPc → ThreadState → Prop
  | .notCreated, _ => True
  | .sleep, st | .print, st | .lock, st | .terminate, st => st = .tsAlive
  | .increment, st | .unlock, st | .signal, st | .freeIndex, st =>
      st = .tsTerminated
  | .returned, st => st ≠ .tsAlive

/-! ## The invariant -/

/-- Thread `i`, its entry, and the calls of `pthread_join` for it. -/
structure EntryOk (main : MainPc N) (i : Fin N) (pc : WorkerPc)
    (st : ThreadState) (calls : Nat) : Prop where
  created : pc = .notCreated ↔ main.Uncreated i
  fresh : main = .create i → st = .tsAlive
  state : StateOk pc st
  unjoined : ¬ main.Joining → pc ≠ .notCreated → st ≠ .tsJoined
  target : main.target = some i → pc.Past ∧ st = .tsTerminated
  returned : main = .setJoined i → pc = .returned
  calls_eq : calls =
    if (pc ≠ .notCreated ∧ st = .tsJoined) ∨ main.target = some i then 1 else 0

/-- The thread has set its entry and counted itself. -/
def Announced (pc : WorkerPc) (st : ThreadState) : Prop :=
  pc ≠ .notCreated ∧ pc ≠ .increment ∧ st = .tsTerminated

instance (pc : WorkerPc) (st : ThreadState) : Decidable (Announced pc st) :=
  inferInstanceAs (Decidable (_ ∧ _ ∧ _))

def State.announced (s : State N) : Int :=
  tally fun i => Announced (s.worker i) (s.threads i)

/-- The number of entries that are not in state `TS_JOINED`. -/
def State.notJoined (s : State N) : Int := tally fun i => s.threads i ≠ .tsJoined

structure Inv (s : State N) : Prop where
  mainLocks : s.mutex = some .main ↔ s.main.Holds
  workerLocks : ∀ i, s.mutex = some (.worker i) ↔ (s.worker i).Holds
  entry : ∀ i, EntryOk s.main i (s.worker i) (s.threads i) (s.joinCalls i)
  unjoined : s.numUnjoinedThreads = s.announced + s.main.owesUnjoined
  live : s.main.Joining → s.numLiveThreads = s.notJoined + s.main.owesLive
  empty : s.main = .wait → s.numUnjoinedThreads = 0
  pending : s.main = .waiting → 0 < s.numUnjoinedThreads →
    ∃ i, s.worker i = .unlock ∨ s.worker i = .signal
  looking : s.main.Looking → 0 < s.numLiveThreads
  done : s.main.Done → s.numLiveThreads ≤ 0

theorem start_inv (garbage : Fin N → ThreadState) : Inv (start garbage) where
  mainLocks := by simp [start, MainPc.Holds]
  workerLocks := by simp [start, WorkerPc.Holds]
  entry := by
    intro i
    exact
      { created := by simp [start, MainPc.Uncreated]
        fresh := nofun
        state := trivial
        unjoined := fun _ hcreated => absurd rfl hcreated
        target := nofun
        returned := nofun
        calls_eq := by simp [start, MainPc.target] }
  unjoined := by
    have hnone : (start garbage).announced = 0 :=
      tally_eq_zero fun i hi => hi.1 rfl
    rw [hnone]
    rfl
  live := fun h => h.elim
  empty := nofun
  pending := nofun
  looking := fun h => h.elim
  done := fun h => h.elim

/-! ## Steps of `main` -/

/-- `main` is in its loop and not at work on a particular thread. -/
structure MainPc.Neutral (m : MainPc N) : Prop where
  joining : m.Joining
  target : m.target = none

theorem MainPc.Joining.created {m : MainPc N} (h : m.Joining) (i : Fin N) :
    ¬ m.Uncreated i := by
  cases m <;> first | exact h.elim | exact id

theorem EntryOk.neutral {m m' : MainPc N} {i : Fin N} {pc : WorkerPc}
    {st : ThreadState} {calls : Nat} (h : EntryOk m i pc st calls)
    (hm : m.Neutral) (hm' : m'.Neutral) : EntryOk m' i pc st calls where
  created := by
    rw [h.created]
    exact iff_of_false (hm.joining.created i) (hm'.joining.created i)
  fresh := by
    rintro rfl
    exact hm'.joining.elim
  state := h.state
  unjoined := fun hjoining => absurd hm'.joining hjoining
  target := by
    rw [hm'.target]
    exact nofun
  returned := by
    rintro rfl
    exact absurd hm'.target (by simp [MainPc.target])
  calls_eq := by
    have hcalls := h.calls_eq
    rw [hm.target] at hcalls
    rw [hm'.target]
    exact hcalls

/-- `main` moves on and changes nothing else. -/
theorem Inv.moves {s : State N} (h : Inv s) {m : MainPc N}
    (hneutral : s.main.Neutral) (hneutral' : m.Neutral)
    (hholds : m.Holds ↔ s.main.Holds)
    (hunjoined : m.owesUnjoined = s.main.owesUnjoined)
    (hlive : m.owesLive = s.main.owesLive)
    (hempty : m = .wait → s.numUnjoinedThreads = 0) (hwaiting : m ≠ .waiting)
    (hlooking : m.Looking → 0 < s.numLiveThreads)
    (hdone : m.Done → s.numLiveThreads ≤ 0) : Inv { s with main := m } where
  mainLocks := h.mainLocks.trans hholds.symm
  workerLocks := h.workerLocks
  entry := fun i => (h.entry i).neutral hneutral hneutral'
  unjoined := by
    show s.numUnjoinedThreads = s.announced + m.owesUnjoined
    rw [hunjoined]
    exact h.unjoined
  live := by
    intro _
    show s.numLiveThreads = s.notJoined + m.owesLive
    rw [hlive]
    exact h.live hneutral.joining
  empty := hempty
  pending := fun hm => absurd hm hwaiting
  looking := hlooking
  done := hdone

/-- `pthread_mutex_lock`, also the one in `pthread_cond_wait`. -/
theorem Inv.main_locks {s : State N} (h : Inv s)
    (hmain : s.main = .lock ∨ s.main = .relock) (hfree : s.mutex = none) :
    Inv { s with main := .testWait, mutex := some .main } := by
  have hnone : ∀ i, ¬ (s.worker i).Holds := by
    intro i hi
    rw [← h.workerLocks i, hfree] at hi
    cases hi
  have hneutral : s.main.Neutral := by
    rcases hmain with hmain | hmain <;> rw [hmain] <;> exact ⟨trivial, rfl⟩
  have hlooking : s.main.Looking := by
    rcases hmain with hmain | hmain <;> rw [hmain] <;> trivial
  have hunjoined := h.unjoined
  have hlive := h.live hneutral.joining
  refine
    { mainLocks := iff_of_true rfl trivial
      workerLocks := ?_
      entry := fun i => (h.entry i).neutral hneutral ⟨trivial, rfl⟩
      unjoined := ?_
      live := ?_
      empty := nofun
      pending := nofun
      looking := fun _ => h.looking hlooking
      done := fun hdone => hdone.elim }
  · intro i
    exact iff_of_false nofun (hnone i)
  · rcases hmain with hmain | hmain <;> rw [hmain] at hunjoined <;>
      exact hunjoined
  · intro _
    rcases hmain with hmain | hmain <;> rw [hmain] at hlive <;> exact hlive

/-- `pthread_mutex_unlock`, also the one in `pthread_cond_wait`. -/
theorem Inv.main_unlocks {s : State N} (h : Inv s) {m : MainPc N}
    (hmain : s.main = .wait ∧ m = .waiting ∨ s.main = .unlock ∧ m = .test) :
    Inv { s with main := m, mutex := none } := by
  have hheld : s.mutex = some .main := by
    rw [h.mainLocks]
    rcases hmain with ⟨hmain, _⟩ | ⟨hmain, _⟩ <;> rw [hmain] <;> trivial
  have hnone : ∀ i, ¬ (s.worker i).Holds := by
    intro i hi
    rw [← h.workerLocks i, hheld] at hi
    cases hi
  have hneutral : s.main.Neutral := by
    rcases hmain with ⟨hmain, _⟩ | ⟨hmain, _⟩ <;> rw [hmain] <;>
      exact ⟨trivial, rfl⟩
  have hneutral' : m.Neutral := by
    rcases hmain with ⟨_, rfl⟩ | ⟨_, rfl⟩ <;> exact ⟨trivial, rfl⟩
  have hunjoined := h.unjoined
  have hlive := h.live hneutral.joining
  refine
    { mainLocks := ?_
      workerLocks := fun i => iff_of_false nofun (hnone i)
      entry := fun i => (h.entry i).neutral hneutral hneutral'
      unjoined := ?_
      live := ?_
      empty := ?_
      pending := ?_
      looking := ?_
      done := ?_ }
  · apply iff_of_false nofun
    rcases hmain with ⟨_, rfl⟩ | ⟨_, rfl⟩ <;> exact id
  · rcases hmain with ⟨hmain, rfl⟩ | ⟨hmain, rfl⟩ <;> rw [hmain] at hunjoined <;>
      exact hunjoined
  · intro _
    rcases hmain with ⟨hmain, rfl⟩ | ⟨hmain, rfl⟩ <;> rw [hmain] at hlive <;>
      exact hlive
  · rcases hmain with ⟨_, rfl⟩ | ⟨_, rfl⟩ <;> exact nofun
  · -- `main` goes to sleep only on an empty counter.
    rcases hmain with ⟨hmain, rfl⟩ | ⟨_, rfl⟩
    · intro _ hpos
      rw [h.empty hmain] at hpos
      exact absurd hpos (by decide)
    · exact nofun
  · rcases hmain with ⟨hmain, rfl⟩ | ⟨_, rfl⟩
    · exact fun _ => h.looking (by rw [hmain]; trivial)
    · exact fun hlooking => hlooking.elim
  · rcases hmain with ⟨_, rfl⟩ | ⟨_, rfl⟩ <;> exact fun hdone => hdone.elim

/-- `threads[i].state = TS_ALIVE`, for a thread that does not exist yet. -/
theorem Inv.init_entry {s : State N} (h : Inv s) {i : Fin N}
    (hmain : s.main = .init i) :
    Inv { s.setThread i .tsAlive with main := .create i } := by
  have hentry := h.entry
  rw [hmain] at hentry
  have hfree : s.mutex ≠ some .main := by
    rw [Ne, h.mainLocks, hmain]
    exact id
  have habsent : s.worker i = .notCreated :=
    (hentry i).created.2 (Nat.le_refl i)
  refine
    { mainLocks := iff_of_false hfree id
      workerLocks := h.workerLocks
      entry := ?_
      unjoined := ?_
      live := fun hjoining => hjoining.elim
      empty := nofun
      pending := nofun
      looking := fun hlooking => hlooking.elim
      done := fun hdone => hdone.elim }
  · intro j
    have hj := hentry j
    by_cases hji : j = i
    · subst hji
      simp only [State.setThread, Function.update_self]
      refine
        { created := hj.created
          fresh := fun _ => rfl
          state := ?_
          unjoined := fun _ hcreated => absurd habsent hcreated
          target := nofun
          returned := nofun
          calls_eq := ?_ }
      · rw [habsent]
        trivial
      · have hcalls := hj.calls_eq
        simpa [habsent, MainPc.target] using hcalls
    · simp only [State.setThread, Function.update_of_ne hji]
      refine
        { created := hj.created
          fresh := ?_
          state := hj.state
          unjoined := hj.unjoined
          target := nofun
          returned := nofun
          calls_eq := hj.calls_eq }
      intro hcreate
      exact absurd (MainPc.create.inj hcreate).symm hji
  · have hsame : (s.setThread i .tsAlive).announced = s.announced := by
      apply tally_congr
      intro j
      by_cases hji : j = i
      · subst hji
        simp [State.setThread, Announced, habsent]
      · simp [State.setThread, Function.update_of_ne hji]
    have hunjoined := h.unjoined
    rw [hmain] at hunjoined
    show s.numUnjoinedThreads = (s.setThread i .tsAlive).announced + 0
    rw [hsame]
    exact hunjoined

/-- All threads are created and none is joined. -/
theorem Inv.enter_loop {s : State N} (h : Inv s) {i : Nat}
    (hmain : s.main = .init i) (hi : ¬ i < N) :
    Inv { s with main := .test, numLiveThreads := N } := by
  have hentry := h.entry
  have hunjoined := h.unjoined
  have hmainLocks := h.mainLocks
  rw [hmain] at hentry hunjoined hmainLocks
  have hcreated : ∀ j, s.worker j ≠ .notCreated := by
    intro j hj
    have hle : i ≤ j := (hentry j).created.1 hj
    have hlt := j.isLt
    omega
  refine
    { mainLocks := hmainLocks
      workerLocks := h.workerLocks
      entry := ?_
      unjoined := hunjoined
      live := ?_
      empty := nofun
      pending := nofun
      looking := fun hlooking => hlooking.elim
      done := fun hdone => hdone.elim }
  · intro j
    have hj := hentry j
    exact
      { created := iff_of_false (hcreated j) id
        fresh := nofun
        state := hj.state
        unjoined := fun hjoining => absurd trivial hjoining
        target := nofun
        returned := nofun
        calls_eq := hj.calls_eq }
  · intro _
    have hall : s.notJoined = N := by
      have hcard := tally_eq_card (P := fun j => s.threads j ≠ .tsJoined)
        fun j => (hentry j).unjoined id (hcreated j)
      rw [Fintype.card_fin] at hcard
      exact hcard
    show (N : Int) = s.notJoined + 0
    rw [hall, Int.add_zero]

/-- `pthread_create`. -/
theorem Inv.create {s : State N} (h : Inv s) {i : Fin N}
    (hmain : s.main = .create i) :
    Inv { s.setWorker i .sleep with main := .init (i + 1) } := by
  have hentry := h.entry
  have hunjoined := h.unjoined
  have hmainLocks := h.mainLocks
  rw [hmain] at hentry hunjoined hmainLocks
  have habsent : s.worker i = .notCreated :=
    (hentry i).created.2 (Nat.le_refl i)
  have halive : s.threads i = .tsAlive := (hentry i).fresh rfl
  refine
    { mainLocks := hmainLocks
      workerLocks := ?_
      entry := ?_
      unjoined := ?_
      live := fun hjoining => hjoining.elim
      empty := nofun
      pending := nofun
      looking := fun hlooking => hlooking.elim
      done := fun hdone => hdone.elim }
  · intro j
    by_cases hji : j = i
    · subst hji
      have hworker := h.workerLocks j
      rw [habsent] at hworker
      simp only [State.setWorker, Function.update_self]
      exact hworker
    · simp only [State.setWorker, Function.update_of_ne hji]
      exact h.workerLocks j
  · intro j
    have hj := hentry j
    by_cases hji : j = i
    · subst hji
      simp only [State.setWorker, Function.update_self]
      refine
        { created := ?_
          fresh := nofun
          state := halive
          unjoined := ?_
          target := nofun
          returned := nofun
          calls_eq := ?_ }
      · simp [MainPc.Uncreated]
      · rw [halive]
        exact nofun
      · have hcalls := hj.calls_eq
        simpa [habsent, halive, MainPc.target] using hcalls
    · simp only [State.setWorker, Function.update_of_ne hji]
      refine
        { created := ?_
          fresh := nofun
          state := hj.state
          unjoined := hj.unjoined
          target := nofun
          returned := nofun
          calls_eq := hj.calls_eq }
      rw [hj.created]
      show i ≤ j ↔ (i : Nat) + 1 ≤ j
      have hne : (i : Nat) ≠ j := fun heq => hji (Fin.ext heq.symm)
      rw [Fin.le_def]
      omega
  · have hsame : (s.setWorker i .sleep).announced = s.announced := by
      apply tally_congr
      intro j
      by_cases hji : j = i
      · subst hji
        simp [State.setWorker, Announced, halive]
      · simp [State.setWorker, Function.update_of_ne hji]
    show s.numUnjoinedThreads = (s.setWorker i .sleep).announced + 0
    rw [hsame]
    exact hunjoined

/-- Under `main`'s lock no thread is between its entry and the counter, so a
terminated entry is the entry of a thread that is past the mutex. -/
theorem Inv.past_of_terminated {s : State N} (h : Inv s)
    (hholds : s.main.Holds) {i : Fin N} (hcreated : s.worker i ≠ .notCreated)
    (hterminated : s.threads i = .tsTerminated) : (s.worker i).Past := by
  have hnone : ¬ (s.worker i).Holds := by
    rw [← h.workerLocks i, h.mainLocks.2 hholds]
    exact nofun
  have hstate := (h.entry i).state
  rw [hterminated] at hstate
  cases hpc : s.worker i <;> rw [hpc] at hnone hstate hcreated
  case notCreated => exact absurd rfl hcreated
  case sleep | print | lock => cases hstate
  case terminate | increment | unlock => exact absurd trivial hnone
  case signal | freeIndex | returned => trivial

/-- `pthread_join` is called, for the first time. -/
theorem Inv.call_join {s : State N} (h : Inv s) {i : Fin N}
    (hmain : s.main = .sweep i) (hterminated : s.threads i = .tsTerminated) :
    Inv { s with main := .join i
                 joinCalls := Function.update s.joinCalls i (s.joinCalls i + 1) } := by
  have hentry := h.entry
  have hunjoined := h.unjoined
  have hlive := h.live
  have hmainLocks := h.mainLocks
  have hcreated : ∀ j, s.worker j ≠ .notCreated := by
    intro j hj
    have hun := (h.entry j).created.1 hj
    rw [hmain] at hun
    exact hun
  have hpast : (s.worker i).Past :=
    h.past_of_terminated (by rw [hmain]; trivial) (hcreated i) hterminated
  rw [hmain] at hentry hunjoined hlive hmainLocks
  refine
    { mainLocks := hmainLocks
      workerLocks := h.workerLocks
      entry := ?_
      unjoined := hunjoined
      live := hlive
      empty := nofun
      pending := nofun
      looking := fun hlooking => hlooking.elim
      done := fun hdone => hdone.elim }
  intro j
  have hj := hentry j
  by_cases hji : j = i
  · subst hji
    simp only [Function.update_self]
    refine
      { created := hj.created
        fresh := nofun
        state := hj.state
        unjoined := hj.unjoined
        target := fun _ => ⟨hpast, hterminated⟩
        returned := nofun
        calls_eq := ?_ }
    have hcalls := hj.calls_eq
    simpa [hterminated, MainPc.target] using hcalls
  · simp only [Function.update_of_ne hji]
    have hother : (MainPc.join i).target ≠ some j := by
      intro htarget
      exact hji (Option.some.inj htarget).symm
    refine
      { created := hj.created
        fresh := nofun
        state := hj.state
        unjoined := hj.unjoined
        target := fun htarget => absurd htarget hother
        returned := nofun
        calls_eq := ?_ }
    have hcalls := hj.calls_eq
    simpa [MainPc.target, Ne.symm hji] using hcalls

/-- `pthread_join` returns. -/
theorem Inv.join_returns {s : State N} (h : Inv s) {i : Fin N}
    (hmain : s.main = .join i) (hreturned : s.worker i = .returned) :
    Inv { s with main := .setJoined i } := by
  have hentry := h.entry
  have hunjoined := h.unjoined
  have hlive := h.live
  have hmainLocks := h.mainLocks
  rw [hmain] at hentry hunjoined hlive hmainLocks
  refine
    { mainLocks := hmainLocks
      workerLocks := h.workerLocks
      entry := ?_
      unjoined := hunjoined
      live := hlive
      empty := nofun
      pending := nofun
      looking := fun hlooking => hlooking.elim
      done := fun hdone => hdone.elim }
  intro j
  have hj := hentry j
  refine
    { created := hj.created
      fresh := nofun
      state := hj.state
      unjoined := hj.unjoined
      target := hj.target
      returned := ?_
      calls_eq := hj.calls_eq }
  intro hset
  rw [← MainPc.setJoined.inj hset]
  exact hreturned

/-- `threads[i].state = TS_JOINED`: one announced entry less. -/
theorem Inv.set_joined {s : State N} (h : Inv s) {i : Fin N}
    (hmain : s.main = .setJoined i) :
    Inv { s.setThread i .tsJoined with main := .decLive i } := by
  have hentry := h.entry
  have hunjoined := h.unjoined
  have hlive := h.live
  have hmainLocks := h.mainLocks
  rw [hmain] at hentry hunjoined hlive hmainLocks
  have hterminated : s.threads i = .tsTerminated := ((hentry i).target rfl).2
  have hreturned : s.worker i = .returned := (hentry i).returned rfl
  refine
    { mainLocks := hmainLocks
      workerLocks := h.workerLocks
      entry := ?_
      unjoined := ?_
      live := ?_
      empty := nofun
      pending := nofun
      looking := fun hlooking => hlooking.elim
      done := fun hdone => hdone.elim }
  · intro j
    have hj := hentry j
    by_cases hji : j = i
    · subst hji
      simp only [State.setThread, Function.update_self]
      refine
        { created := hj.created
          fresh := nofun
          state := ?_
          unjoined := fun hjoining => absurd trivial hjoining
          target := nofun
          returned := nofun
          calls_eq := ?_ }
      · rw [hreturned]
        exact nofun
      · have hcalls := hj.calls_eq
        simpa [hreturned, MainPc.target] using hcalls
    · simp only [State.setThread, Function.update_of_ne hji]
      have hother : (MainPc.setJoined i).target ≠ some j := by
        intro htarget
        exact hji (Option.some.inj htarget).symm
      refine
        { created := hj.created
          fresh := nofun
          state := hj.state
          unjoined := hj.unjoined
          target := nofun
          returned := nofun
          calls_eq := ?_ }
      have hcalls := hj.calls_eq
      simpa [MainPc.target, Ne.symm hji] using hcalls
  · have hless : s.announced = (s.setThread i .tsJoined).announced + 1 := by
      apply tally_enter i
      · simp [State.setThread, Announced]
      · simp [Announced, hreturned, hterminated]
      · intro j hji
        simp [State.setThread, Function.update_of_ne hji]
    show s.numUnjoinedThreads = (s.setThread i .tsJoined).announced + 1
    rw [← hless]
    exact hunjoined.trans (Int.add_zero _)
  · intro _
    have hless : s.notJoined = (s.setThread i .tsJoined).notJoined + 1 := by
      apply tally_enter i
      · simp [State.setThread]
      · simp [hterminated]
      · intro j hji
        simp [State.setThread, Function.update_of_ne hji]
    show s.numLiveThreads = (s.setThread i .tsJoined).notJoined + 1
    rw [← hless]
    exact (hlive trivial).trans (Int.add_zero _)

/-- `--numLiveThreads`: the thread joined last is no longer counted as live. -/
theorem Inv.dec_live {s : State N} (h : Inv s) {i : Fin N}
    (hmain : s.main = .decLive i) :
    Inv { s with numLiveThreads := s.numLiveThreads - 1
                 main := .decUnjoined i } := by
  have hneutral : s.main.Neutral := by rw [hmain]; exact ⟨trivial, rfl⟩
  have hunjoined := h.unjoined
  have hlive := h.live hneutral.joining
  have hmainLocks := h.mainLocks
  rw [hmain] at hunjoined hlive hmainLocks
  refine
    { mainLocks := hmainLocks
      workerLocks := h.workerLocks
      entry := fun j => (h.entry j).neutral hneutral ⟨trivial, rfl⟩
      unjoined := hunjoined
      live := ?_
      empty := nofun
      pending := nofun
      looking := fun hlooking => hlooking.elim
      done := fun hdone => hdone.elim }
  intro _
  show s.numLiveThreads - 1 = s.notJoined + 0
  rw [hlive]
  exact Int.add_sub_cancel _ _

/-- `--numUnjoinedThreads`: nor as waiting to be joined. -/
theorem Inv.dec_unjoined {s : State N} (h : Inv s) {i : Fin N}
    (hmain : s.main = .decUnjoined i) :
    Inv { s with numUnjoinedThreads := s.numUnjoinedThreads - 1
                 main := .sweep (i + 1) } := by
  have hneutral : s.main.Neutral := by rw [hmain]; exact ⟨trivial, rfl⟩
  have hunjoined := h.unjoined
  have hlive := h.live
  have hmainLocks := h.mainLocks
  rw [hmain] at hunjoined hlive hmainLocks
  refine
    { mainLocks := hmainLocks
      workerLocks := h.workerLocks
      entry := fun j => (h.entry j).neutral hneutral ⟨trivial, rfl⟩
      unjoined := ?_
      live := hlive
      empty := nofun
      pending := nofun
      looking := fun hlooking => hlooking.elim
      done := fun hdone => hdone.elim }
  show s.numUnjoinedThreads - 1 = s.announced + 0
  rw [hunjoined]
  exact Int.add_sub_cancel _ _

theorem Inv.main_step {s t : State N} (h : Inv s)
    (hstep : mainStep s = some t) : Inv t := by
  cases hmain : s.main with
  | init i =>
      by_cases hi : i < N
      · simp only [mainStep, hmain, dif_pos hi, Option.some.injEq] at hstep
        exact hstep ▸ h.init_entry hmain
      · simp only [mainStep, hmain, dif_neg hi, Option.some.injEq] at hstep
        exact hstep ▸ h.enter_loop hmain hi
  | create i =>
      simp only [mainStep, hmain, Option.some.injEq] at hstep
      exact hstep ▸ h.create hmain
  | test =>
      simp only [mainStep, hmain, Option.some.injEq] at hstep
      subst hstep
      have hneutral : s.main.Neutral := by rw [hmain]; exact ⟨trivial, rfl⟩
      by_cases hlive : s.numLiveThreads > 0
      · simp only [if_pos hlive]
        apply h.moves (m := .lock) hneutral ⟨trivial, rfl⟩
        all_goals simp [hmain, hlive]
      · simp only [if_neg hlive]
        apply h.moves (m := .free) hneutral ⟨trivial, rfl⟩
        all_goals simp [hmain]
        omega
  | lock | relock =>
      simp only [mainStep, hmain, Option.ite_none_right_eq_some,
        Option.some.injEq] at hstep
      obtain ⟨hfree, rfl⟩ := hstep
      exact h.main_locks (by simp [hmain]) hfree
  | testWait =>
      simp only [mainStep, hmain, Option.some.injEq] at hstep
      subst hstep
      have hneutral : s.main.Neutral := by rw [hmain]; exact ⟨trivial, rfl⟩
      have hlive := h.looking (by rw [hmain]; trivial)
      by_cases hunjoined : s.numUnjoinedThreads = 0
      · simp only [if_pos hunjoined]
        apply h.moves (m := .wait) hneutral ⟨trivial, rfl⟩
        all_goals simp [hmain, hunjoined, hlive]
      · simp only [if_neg hunjoined]
        apply h.moves (m := (.sweep 0)) hneutral ⟨trivial, rfl⟩
        all_goals simp [hmain]
  | wait =>
      simp only [mainStep, hmain, Option.some.injEq] at hstep
      exact hstep ▸ h.main_unlocks (Or.inl ⟨hmain, rfl⟩)
  | waiting | finished => simp [mainStep, hmain] at hstep
  | sweep i =>
      have hneutral : s.main.Neutral := by rw [hmain]; exact ⟨trivial, rfl⟩
      by_cases hi : i < N
      · by_cases hterminated : s.threads ⟨i, hi⟩ = .tsTerminated
        · simp only [mainStep, hmain, dif_pos hi, if_pos hterminated,
            Option.some.injEq] at hstep
          exact hstep ▸ h.call_join hmain hterminated
        · simp only [mainStep, hmain, dif_pos hi, if_neg hterminated,
            Option.some.injEq] at hstep
          subst hstep
          apply h.moves (m := (.sweep (i + 1))) hneutral ⟨trivial, rfl⟩
          all_goals simp [hmain]
      · simp only [mainStep, hmain, dif_neg hi, Option.some.injEq] at hstep
        subst hstep
        apply h.moves (m := .unlock) hneutral ⟨trivial, rfl⟩
        all_goals simp [hmain]
  | join i =>
      simp only [mainStep, hmain, Option.ite_none_right_eq_some,
        Option.some.injEq] at hstep
      exact hstep.2 ▸ h.join_returns hmain hstep.1
  | setJoined i =>
      simp only [mainStep, hmain, Option.some.injEq] at hstep
      exact hstep ▸ h.set_joined hmain
  | decLive i =>
      simp only [mainStep, hmain, Option.some.injEq] at hstep
      exact hstep ▸ h.dec_live hmain
  | decUnjoined i =>
      simp only [mainStep, hmain, Option.some.injEq] at hstep
      exact hstep ▸ h.dec_unjoined hmain
  | unlock =>
      simp only [mainStep, hmain, Option.some.injEq] at hstep
      exact hstep ▸ h.main_unlocks (Or.inr ⟨hmain, rfl⟩)
  | free =>
      simp only [mainStep, hmain, Option.some.injEq] at hstep
      subst hstep
      have hneutral : s.main.Neutral := by rw [hmain]; exact ⟨trivial, rfl⟩
      have hdone := h.done (by rw [hmain]; trivial)
      apply h.moves (m := .finished) hneutral ⟨trivial, rfl⟩
      all_goals simp [hmain, hdone]

/-! ## Steps of a thread -/

/-- A thread moves on and leaves its entry alone. -/
theorem EntryOk.advance {m : MainPc N} {i : Fin N} {pc pc' : WorkerPc}
    {st : ThreadState} {calls : Nat} (h : EntryOk m i pc st calls)
    (hcreated : pc ≠ .notCreated) (hcreated' : pc' ≠ .notCreated)
    (hstate : StateOk pc' st) (hpast : pc.Past → pc'.Past)
    (hreturned : pc ≠ .returned) : EntryOk m i pc' st calls where
  created := iff_of_false hcreated' (fun hun => hcreated (h.created.2 hun))
  fresh := h.fresh
  state := hstate
  unjoined := fun hjoining _ => h.unjoined hjoining hcreated
  target := fun htarget => ⟨hpast (h.target htarget).1, (h.target htarget).2⟩
  returned := fun hset => absurd (h.returned hset) hreturned
  calls_eq := by
    have hcalls := h.calls_eq
    simpa [hcreated, hcreated'] using hcalls

theorem Inv.entry_update {s : State N} (h : Inv s) {i : Fin N} {pc : WorkerPc}
    (hi : EntryOk s.main i pc (s.threads i) (s.joinCalls i)) (j : Fin N) :
    EntryOk s.main j ((s.setWorker i pc).worker j) (s.threads j)
      (s.joinCalls j) := by
  by_cases hji : j = i
  · subst hji
    simp only [State.setWorker, Function.update_self]
    exact hi
  · simp only [State.setWorker, Function.update_of_ne hji]
    exact h.entry j

theorem Inv.locks_update {s : State N} (h : Inv s) {i : Fin N} {pc : WorkerPc}
    (hi : pc.Holds ↔ (s.worker i).Holds) (j : Fin N) :
    s.mutex = some (.worker j) ↔ ((s.setWorker i pc).worker j).Holds := by
  by_cases hji : j = i
  · subst hji
    simp only [State.setWorker, Function.update_self]
    exact (h.workerLocks j).trans hi.symm
  · simp only [State.setWorker, Function.update_of_ne hji]
    exact h.workerLocks j

/-- Whoever was on the way to the signal still is, if it was not the thread
that moved. -/
theorem Inv.pending_update {s : State N} (h : Inv s) {i : Fin N}
    {pc : WorkerPc} (hpc : s.worker i ≠ .unlock ∧ s.worker i ≠ .signal)
    (hwaiting : s.main = .waiting) (hpos : 0 < s.numUnjoinedThreads) :
    ∃ j, (s.setWorker i pc).worker j = .unlock ∨
      (s.setWorker i pc).worker j = .signal := by
  obtain ⟨j, hj⟩ := h.pending hwaiting hpos
  refine ⟨j, ?_⟩
  have hji : j ≠ i := by
    rintro rfl
    rcases hj with hj | hj
    · exact hpc.1 hj
    · exact hpc.2 hj
  simp only [State.setWorker, Function.update_of_ne hji]
  exact hj

theorem announced_setWorker {s : State N} {i : Fin N} {pc : WorkerPc}
    (h : Announced pc (s.threads i) ↔ Announced (s.worker i) (s.threads i)) :
    (s.setWorker i pc).announced = s.announced := by
  apply tally_congr
  intro j
  by_cases hji : j = i
  · subst hji
    simp only [State.setWorker, Function.update_self]
    exact h
  · simp only [State.setWorker, Function.update_of_ne hji]

/-- A thread moves on without the mutex, before its signal or after it. -/
theorem Inv.worker_moves {s : State N} (h : Inv s) {i : Fin N} {pc : WorkerPc}
    (hentry : EntryOk s.main i pc (s.threads i) (s.joinCalls i))
    (hholds : pc.Holds ↔ (s.worker i).Holds)
    (hannounced : Announced pc (s.threads i) ↔
      Announced (s.worker i) (s.threads i))
    (hpending : s.main = .waiting →
      s.worker i ≠ .unlock ∧ s.worker i ≠ .signal) :
    Inv (s.setWorker i pc) where
  mainLocks := h.mainLocks
  workerLocks := h.locks_update hholds
  entry := h.entry_update hentry
  unjoined := by
    rw [announced_setWorker hannounced]
    exact h.unjoined
  live := h.live
  empty := h.empty
  pending := fun hwaiting => h.pending_update (hpending hwaiting) hwaiting
  looking := h.looking
  done := h.done

/-- `pthread_mutex_lock`. -/
theorem Inv.worker_locks {s : State N} (h : Inv s) {i : Fin N}
    (hpc : s.worker i = .lock) (hfree : s.mutex = none) :
    Inv { s.setWorker i .terminate with mutex := some (.worker i) } := by
  have hnone : ∀ j, ¬ (s.worker j).Holds := by
    intro j hj
    rw [← h.workerLocks j, hfree] at hj
    cases hj
  have hmain : ¬ s.main.Holds := by
    rw [← h.mainLocks, hfree]
    exact nofun
  have hi := h.entry i
  rw [hpc] at hi
  have halive : s.threads i = .tsAlive := hi.state
  refine
    { mainLocks := iff_of_false nofun hmain
      workerLocks := ?_
      entry := h.entry_update (hi.advance nofun nofun halive False.elim nofun)
      unjoined := ?_
      live := h.live
      empty := h.empty
      pending := h.pending_update (by simp [hpc])
      looking := h.looking
      done := h.done }
  · intro j
    by_cases hji : j = i
    · subst hji
      simp only [State.setWorker, Function.update_self]
      trivial
    · simp only [State.setWorker, Function.update_of_ne hji]
      refine iff_of_false ?_ (hnone j)
      intro hmutex
      exact hji (Owner.worker.inj (Option.some.inj hmutex)).symm
  · have hsame : (s.setWorker i .terminate).announced = s.announced := by
      apply announced_setWorker
      simp [Announced, halive]
    show s.numUnjoinedThreads = (s.setWorker i .terminate).announced + _
    rw [hsame]
    exact h.unjoined

/-- `threads[*index].state = TS_TERMINATED`. -/
theorem Inv.terminate {s : State N} (h : Inv s) {i : Fin N}
    (hpc : s.worker i = .terminate) :
    Inv ((s.setThread i .tsTerminated).setWorker i .increment) := by
  have hi := h.entry i
  rw [hpc] at hi
  have halive : s.threads i = .tsAlive := hi.state
  have htarget : s.main.target ≠ some i := by
    intro htarget
    exact (hi.target htarget).1
  have hcreated : ¬ s.main.Uncreated i := by
    rw [← hi.created]
    exact nofun
  refine
    { mainLocks := h.mainLocks
      workerLocks := h.locks_update (by rw [hpc]; exact Iff.rfl)
      entry := ?_
      unjoined := ?_
      live := ?_
      empty := h.empty
      pending := h.pending_update (by simp [hpc])
      looking := h.looking
      done := h.done }
  · intro j
    by_cases hji : j = i
    · subst hji
      simp only [State.setThread, State.setWorker, Function.update_self]
      refine
        { created := iff_of_false nofun hcreated
          fresh := ?_
          state := rfl
          unjoined := nofun
          target := fun hj => absurd hj htarget
          returned := ?_
          calls_eq := ?_ }
      · intro hcreate
        refine absurd ?_ hcreated
        rw [hcreate]
        exact Nat.le_refl j
      · intro hset
        refine absurd ?_ htarget
        rw [hset]
        rfl
      · have hcalls := hi.calls_eq
        simpa [halive, htarget] using hcalls
    · simp only [State.setThread, State.setWorker, Function.update_of_ne hji]
      exact h.entry j
  · have hsame : ((s.setThread i .tsTerminated).setWorker i .increment).announced =
        s.announced := by
      apply tally_congr
      intro j
      by_cases hji : j = i
      · subst hji
        simp [State.setThread, State.setWorker, Announced, halive]
      · simp [State.setThread, State.setWorker, Function.update_of_ne hji]
    rw [hsame]
    exact h.unjoined
  · intro hjoining
    have hsame : ((s.setThread i .tsTerminated).setWorker i .increment).notJoined =
        s.notJoined := by
      apply tally_congr
      intro j
      by_cases hji : j = i
      · subst hji
        simp [State.setThread, State.setWorker, halive]
      · simp [State.setThread, State.setWorker, Function.update_of_ne hji]
    rw [hsame]
    exact h.live hjoining

/-- `++numUnjoinedThreads`: the thread is announced. -/
theorem Inv.increment {s : State N} (h : Inv s) {i : Fin N}
    (hpc : s.worker i = .increment) :
    Inv { s.setWorker i .unlock with
      numUnjoinedThreads := s.numUnjoinedThreads + 1 } := by
  have hmain : ¬ s.main.Holds := by
    rw [← h.mainLocks, (h.workerLocks i).2 (by rw [hpc]; trivial)]
    exact nofun
  have hi := h.entry i
  rw [hpc] at hi
  have hterminated : s.threads i = .tsTerminated := hi.state
  refine
    { mainLocks := h.mainLocks
      workerLocks := h.locks_update (by rw [hpc]; exact Iff.rfl)
      entry := h.entry_update
        (hi.advance nofun nofun hterminated False.elim nofun)
      unjoined := ?_
      live := h.live
      empty := ?_
      pending := fun _ _ => ⟨i, by simp [State.setWorker]⟩
      looking := h.looking
      done := h.done }
  · have hmore : (s.setWorker i .unlock).announced = s.announced + 1 := by
      apply tally_enter i
      · simp [Announced, hpc]
      · simp [State.setWorker, Announced, hterminated]
      · intro j hji
        simp [State.setWorker, Function.update_of_ne hji]
    show s.numUnjoinedThreads + 1 =
      (s.setWorker i .unlock).announced + s.main.owesUnjoined
    rw [hmore, h.unjoined]
    omega
  · intro hwait
    refine absurd ?_ hmain
    rw [show s.main = .wait from hwait]
    trivial

/-- `pthread_mutex_unlock`. -/
theorem Inv.worker_unlocks {s : State N} (h : Inv s) {i : Fin N}
    (hpc : s.worker i = .unlock) :
    Inv { s.setWorker i .signal with mutex := none } := by
  have hheld : s.mutex = some (.worker i) := by
    rw [h.workerLocks i, hpc]
    trivial
  have hmain : ¬ s.main.Holds := by
    rw [← h.mainLocks, hheld]
    exact nofun
  have hi := h.entry i
  rw [hpc] at hi
  refine
    { mainLocks := iff_of_false nofun hmain
      workerLocks := ?_
      entry := h.entry_update (hi.advance nofun nofun hi.state False.elim nofun)
      unjoined := ?_
      live := h.live
      empty := h.empty
      pending := fun _ _ => ⟨i, by simp [State.setWorker]⟩
      looking := h.looking
      done := h.done }
  · intro j
    apply iff_of_false nofun
    by_cases hji : j = i
    · subst hji
      simp only [State.setWorker, Function.update_self]
      exact id
    · simp only [State.setWorker, Function.update_of_ne hji]
      rw [← h.workerLocks j, hheld]
      intro hmutex
      exact hji (Owner.worker.inj (Option.some.inj hmutex)).symm
  · have hsame : (s.setWorker i .signal).announced = s.announced := by
      apply announced_setWorker
      simp [Announced, hpc]
    show s.numUnjoinedThreads = (s.setWorker i .signal).announced + _
    rw [hsame]
    exact h.unjoined

/-- `main` is woken. -/
theorem Inv.wakes {s : State N} (h : Inv s) (hmain : s.main = .waiting) :
    Inv { s with main := .relock } := by
  have hneutral : s.main.Neutral := by rw [hmain]; exact ⟨trivial, rfl⟩
  have hlive := h.looking (by rw [hmain]; trivial)
  apply h.moves (m := .relock) hneutral ⟨trivial, rfl⟩
  all_goals simp [hmain, hlive]

/-- `pthread_cond_signal`: afterwards `main` does not wait. -/
theorem Inv.signals {s : State N} (h : Inv s) {i : Fin N}
    (hpc : s.worker i = .signal) :
    Inv { s.setWorker i .freeIndex with
      main := if s.main = .waiting then .relock else s.main } := by
  -- First the wake-up, then the thread moves on with nobody waiting.
  have hmoves : ∀ {u : State N}, Inv u → u.main ≠ .waiting →
      u.worker i = .signal → Inv (u.setWorker i .freeIndex) := by
    intro u hu hwaiting hupc
    have hi := hu.entry i
    rw [hupc] at hi
    apply hu.worker_moves
    · exact hi.advance nofun nofun hi.state id nofun
    · rw [hupc]
      exact Iff.rfl
    · simp [hupc, Announced]
    · exact fun hw => absurd hw hwaiting
  by_cases hmain : s.main = .waiting
  · simp only [if_pos hmain]
    exact hmoves (h.wakes hmain) nofun hpc
  · simp only [if_neg hmain]
    exact hmoves h hmain hpc

theorem Inv.worker_step {s t : State N} (h : Inv s) {i : Fin N}
    (hstep : workerStep s i = some t) : Inv t := by
  have hi := h.entry i
  cases hpc : s.worker i with
  | notCreated | returned => simp [workerStep, hpc] at hstep
  | sleep | print =>
      simp only [workerStep, hpc, Option.some.injEq] at hstep
      subst hstep
      rw [hpc] at hi
      apply h.worker_moves
      · exact hi.advance nofun nofun hi.state False.elim nofun
      · rw [hpc]
        exact Iff.rfl
      · simp [hpc, Announced]
      · simp [hpc]
  | lock =>
      simp only [workerStep, hpc, Option.ite_none_right_eq_some,
        Option.some.injEq] at hstep
      exact hstep.2 ▸ h.worker_locks hpc hstep.1
  | terminate =>
      simp only [workerStep, hpc, Option.some.injEq] at hstep
      exact hstep ▸ h.terminate hpc
  | increment =>
      simp only [workerStep, hpc, Option.some.injEq] at hstep
      exact hstep ▸ h.increment hpc
  | unlock =>
      simp only [workerStep, hpc, Option.some.injEq] at hstep
      exact hstep ▸ h.worker_unlocks hpc
  | signal =>
      simp only [workerStep, hpc, Option.some.injEq] at hstep
      exact hstep ▸ h.signals hpc
  | freeIndex =>
      simp only [workerStep, hpc, Option.some.injEq] at hstep
      subst hstep
      rw [hpc] at hi
      have hterminated : s.threads i = .tsTerminated := hi.state
      apply h.worker_moves
      · refine hi.advance nofun nofun ?_ id nofun
        rw [hterminated]
        exact nofun
      · rw [hpc]
        exact Iff.rfl
      · simp [hpc, Announced]
      · simp [hpc]

/-! ## Whole runs -/

theorem Inv.next {s t : State N} {l : Label N} (h : Inv s)
    (hstep : step s l = some t) : Inv t := by
  cases l with
  | main => exact h.main_step hstep
  | worker i => exact h.worker_step hstep
  | spurious =>
      simp only [step, Option.ite_none_right_eq_some,
        Option.some.injEq] at hstep
      exact hstep.2 ▸ h.wakes hstep.1

theorem inv_of_reachable {garbage : Fin N → ThreadState} {s : State N}
    (h : Reachable step (start garbage) s) : Inv s :=
  h.invariant (fun _ _ _ hI hstep => hI.next hstep) (start_inv garbage)

end Lpi.Ports.ThreadMultijoin
