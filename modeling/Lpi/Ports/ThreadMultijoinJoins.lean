import Lpi.Ports.ThreadMultijoinInv

/-!
# Joining is exact and never stuck

The two guarantees of `thread_multijoin`, read off its invariant: the
counters and the calls of `pthread_join` are what they should be
(`joining_exact`), and some thread can always go on until `main` has finished
(`never_stuck`).
-/

namespace Lpi.Ports.ThreadMultijoin

open Lpi.Verified.Run
open Lpi.Verified.Tally

variable {N : Nat}

/-! ## Counters and joins -/

/-- The number of created threads whose entry is in state
`TS_TERMINATED`. -/
def State.terminated (s : State N) : Int :=
  tally fun i => s.worker i ≠ .notCreated ∧ s.threads i = .tsTerminated

/-- Without the mutex nobody is half-way through the counters. -/
theorem Inv.counters {s : State N} (h : Inv s) (hfree : s.mutex = none) :
    s.numUnjoinedThreads = s.terminated ∧
      (s.main.Joining → s.numLiveThreads = s.notJoined) := by
  have hworkers : ∀ i, s.worker i ≠ .increment := by
    intro i hi
    have hheld : s.mutex = some (.worker i) := by
      rw [h.workerLocks i, hi]
      trivial
    rw [hfree] at hheld
    cases hheld
  have hmain : ¬ s.main.Holds := by
    rw [← h.mainLocks, hfree]
    exact nofun
  have howes : s.main.owesUnjoined = 0 ∧ s.main.owesLive = 0 := by
    cases hpc : s.main <;> simp [hpc] at hmain ⊢
  have hannounced : s.announced = s.terminated := by
    apply tally_congr
    intro i
    simp [Announced, hworkers i]
  constructor
  · rw [h.unjoined, howes.1, hannounced, Int.add_zero]
  · intro hjoining
    rw [h.live hjoining, howes.2, Int.add_zero]

/-- What a step may do to the entry of a thread once `main` has initialised
it. -/
def StateMoves (st st' : ThreadState) : Prop :=
  st' = st ∨ (st = .tsAlive ∧ st' = .tsTerminated) ∨
    (st = .tsTerminated ∧ st' = .tsJoined)

theorem Inv.state_moves {s t : State N} (h : Inv s) {l : Label N} {i : Fin N}
    (hinit : s.worker i ≠ .notCreated ∨ s.main = .create i)
    (hstep : step s l = some t) : StateMoves (s.threads i) (t.threads i) := by
  cases l with
  | spurious =>
      simp only [step, Option.ite_none_right_eq_some,
        Option.some.injEq] at hstep
      obtain ⟨_, rfl⟩ := hstep
      exact Or.inl rfl
  | worker j =>
      have hj := (h.entry j).state
      cases hpc : s.worker j with
      | terminate =>
          simp only [step, workerStep, hpc, Option.some.injEq] at hstep
          subst hstep
          rw [hpc] at hj
          by_cases hij : i = j
          · subst hij
            exact Or.inr (Or.inl ⟨hj, by simp [State.setWorker, State.setThread]⟩)
          · exact Or.inl
              (by simp [State.setWorker, State.setThread, Function.update_of_ne hij])
      | lock =>
          simp only [step, workerStep, hpc, Option.ite_none_right_eq_some,
            Option.some.injEq] at hstep
          obtain ⟨_, rfl⟩ := hstep
          exact Or.inl rfl
      | notCreated | returned => simp [step, workerStep, hpc] at hstep
      | sleep | print | increment | unlock | signal | freeIndex =>
          simp only [step, workerStep, hpc, Option.some.injEq] at hstep
          subst hstep
          exact Or.inl rfl
  | main =>
      cases hpc : s.main with
      | init j =>
          by_cases hj : j < N
          · simp only [step, mainStep, hpc, dif_pos hj, Option.some.injEq] at hstep
            subst hstep
            have hij : i ≠ ⟨j, hj⟩ := by
              rintro rfl
              rcases hinit with hinit | hinit
              · apply hinit
                rw [(h.entry _).created, hpc]
                exact Nat.le_refl j
              · rw [hpc] at hinit
                cases hinit
            exact Or.inl (by simp [State.setThread, Function.update_of_ne hij])
          · simp only [step, mainStep, hpc, dif_neg hj, Option.some.injEq] at hstep
            subst hstep
            exact Or.inl rfl
      | setJoined j =>
          have htarget := (h.entry j).target (by rw [hpc]; rfl)
          simp only [step, mainStep, hpc, Option.some.injEq] at hstep
          subst hstep
          by_cases hij : i = j
          · subst hij
            exact Or.inr (Or.inr ⟨htarget.2, by simp [State.setThread]⟩)
          · exact Or.inl (by simp [State.setThread, Function.update_of_ne hij])
      | sweep j =>
          simp only [step, mainStep, hpc] at hstep
          refine Or.inl ?_
          split at hstep
          · split at hstep <;> cases hstep <;> rfl
          · cases hstep
            rfl
      | lock | relock | join j =>
          simp only [step, mainStep, hpc, Option.ite_none_right_eq_some,
            Option.some.injEq] at hstep
          obtain ⟨_, rfl⟩ := hstep
          exact Or.inl rfl
      | waiting | finished => simp [step, mainStep, hpc] at hstep
      | create j | test | testWait | wait | decLive j | decUnjoined j | unlock
      | free =>
          simp only [step, mainStep, hpc, Option.some.injEq] at hstep
          subst hstep
          exact Or.inl rfl

theorem Inv.calls_le_one {s : State N} (h : Inv s) (i : Fin N) :
    s.joinCalls i ≤ 1 := by
  rw [(h.entry i).calls_eq]
  split <;> decide

/-- The thread `main` joins is past the mutex. -/
theorem Inv.past_of_join {s : State N} (h : Inv s) {i : Fin N}
    (hjoin : s.main = .join i) : (s.worker i).Past :=
  ((h.entry i).target (by rw [hjoin]; rfl)).1

/-- When the joining loop is left, every thread has been joined. -/
theorem Inv.all_joined {s : State N} (h : Inv s) (hdone : s.main.Done)
    (i : Fin N) : s.joinCalls i = 1 ∧ s.threads i = .tsJoined ∧
      s.worker i = .returned := by
  have hjoining : s.main.Joining := by
    cases hpc : s.main <;> rw [hpc] at hdone <;> trivial
  have howes : s.main.owesLive = 0 := by
    cases hpc : s.main <;> rw [hpc] at hdone <;> first | rfl | exact hdone.elim
  have hjoined : s.threads i = .tsJoined := by
    by_contra hne
    have hpos : 0 < s.notJoined := tally_pos i hne
    have hlive := h.live hjoining
    have hle := h.done hdone
    omega
  have hentry := h.entry i
  have hreturned : s.worker i = .returned := by
    have hstate := hentry.state
    have hcreated : s.worker i ≠ .notCreated := by
      intro habsent
      exact hjoining.created i (hentry.created.1 habsent)
    rw [hjoined] at hstate
    cases hpc : s.worker i <;> rw [hpc] at hstate hcreated
    case notCreated => exact absurd rfl hcreated
    all_goals cases hstate
  refine ⟨?_, hjoined, hreturned⟩
  rw [hentry.calls_eq, if_pos (Or.inl ⟨by rw [hreturned]; exact nofun, hjoined⟩)]

/-- **Joining is exact.**  In every reachable state, for any number of
threads: the counters are right whenever the mutex is free; no step moves an
entry of `threads[]` other than from `TS_ALIVE` to `TS_TERMINATED` or from
there to `TS_JOINED`; `pthread_join` has been called at most once for a
thread, and only for one that is past its last use of the mutex; and when
`main` is at `free(threads)` or beyond, every thread has been joined and has
returned, so that none of them can move any more. -/
theorem joining_exact (garbage : Fin N → ThreadState) (s : State N)
    (hreach : Reachable step (start garbage) s) :
    (s.mutex = none → s.numUnjoinedThreads = s.terminated ∧
      (s.main.Joining → s.numLiveThreads = s.notJoined)) ∧
    (∀ l t i, step s l = some t →
      s.worker i ≠ .notCreated ∨ s.main = .create i →
      StateMoves (s.threads i) (t.threads i)) ∧
    (∀ i, s.joinCalls i ≤ 1) ∧
    (∀ i, s.main = .join i → (s.worker i).Past) ∧
    (s.main = .free ∨ s.main = .finished → ∀ i, s.joinCalls i = 1 ∧
      s.threads i = .tsJoined ∧ step s (.worker i) = none) := by
  have h := inv_of_reachable hreach
  refine ⟨h.counters, ?_, h.calls_le_one, ?_, ?_⟩
  · intro l t i hstep hinit
    exact h.state_moves hinit hstep
  · exact fun _ hjoin => h.past_of_join hjoin
  · intro hmain i
    have hdone : s.main.Done := by
      rcases hmain with hmain | hmain <;> rw [hmain] <;> trivial
    obtain ⟨hcalls, hjoined, hreturned⟩ := h.all_joined hdone i
    refine ⟨hcalls, hjoined, ?_⟩
    simp [step, workerStep, hreturned]

/-- Two threads, each joined when it has terminated; `main` waits twice. -/
def oneByOne : List (Label 2) :=
  List.replicate 9 .main ++ List.replicate 8 (.worker 0) ++
    List.replicate 14 .main ++ List.replicate 8 (.worker 1) ++
    List.replicate 12 .main

theorem joining_exact_two_threads :
    ∃ s, exec step (start fun _ => .tsJoined) oneByOne = some s ∧
      s.main = .finished ∧ ∀ i, s.joinCalls i = 1 := by
  obtain ⟨s, hs, hmain⟩ := exists_exec step (fun s => s.main = .finished)
    (start fun _ => .tsJoined) oneByOne (by decide)
  have hexact := joining_exact (fun _ => .tsJoined) s ⟨oneByOne, hs⟩
  exact ⟨s, hs, hmain, fun i => (hexact.2.2.2.2 (Or.inr hmain) i).1⟩

/-! ## Progress -/

theorem worker_enabled {s : State N} {i : Fin N}
    (hcreated : s.worker i ≠ .notCreated) (hreturned : s.worker i ≠ .returned)
    (hlock : s.worker i = .lock → s.mutex = none) :
    Enabled step s (.worker i) := by
  cases hpc : s.worker i with
  | notCreated => exact absurd hpc hcreated
  | returned => exact absurd hpc hreturned
  | lock => simp [enabled_iff, step, workerStep, hpc, hlock hpc]
  | sleep | print | terminate | increment | unlock | signal | freeIndex =>
      simp [enabled_iff, step, workerStep, hpc]

/-- Whoever has the mutex, other than `main`, can go on. -/
theorem Inv.owner_enabled {s : State N} (h : Inv s) (hmain : ¬ s.main.Holds)
    (hheld : s.mutex ≠ none) : ∃ i, Enabled step s (.worker i) := by
  cases hmutex : s.mutex with
  | none => exact absurd hmutex hheld
  | some owner =>
      cases owner with
      | main => exact absurd (h.mainLocks.1 hmutex) hmain
      | worker i =>
          have hholds := (h.workerLocks i).1 hmutex
          refine ⟨i, worker_enabled ?_ ?_ ?_⟩
          · intro hpc
            rw [hpc] at hholds
            exact hholds
          · intro hpc
            rw [hpc] at hholds
            exact hholds
          · intro hpc
            rw [hpc] at hholds
            exact hholds.elim

/-- While `main` waits, some thread can go on: the owner of the mutex, or one
that is on its way to the signal, or one that has not terminated. -/
theorem Inv.waiting_enabled {s : State N} (h : Inv s)
    (hmain : s.main = .waiting) : ∃ i, Enabled step s (.worker i) := by
  have hholds : ¬ s.main.Holds := by
    rw [hmain]
    exact id
  by_cases hfree : s.mutex = none
  · by_cases hpos : 0 < s.numUnjoinedThreads
    · obtain ⟨i, hi⟩ := h.pending hmain hpos
      refine ⟨i, worker_enabled ?_ ?_ fun _ => hfree⟩
      · rcases hi with hi | hi <;> rw [hi] <;> exact nofun
      · rcases hi with hi | hi <;> rw [hi] <;> exact nofun
    · -- Nobody is announced, and somebody is not joined: it is still alive.
      obtain ⟨hunjoined, hlive⟩ := h.counters hfree
      have hjoining : s.main.Joining := by
        rw [hmain]
        trivial
      have hlooking := h.looking (by rw [hmain]; trivial)
      rw [hlive hjoining] at hlooking
      obtain ⟨i, hi⟩ := exists_of_tally_pos hlooking
      have hcreated : s.worker i ≠ .notCreated := by
        intro habsent
        exact hjoining.created i ((h.entry i).created.1 habsent)
      have hstate := (h.entry i).state
      refine ⟨i, worker_enabled hcreated ?_ fun _ => hfree⟩
      intro hreturned
      rw [hreturned] at hstate
      have hterminated : s.threads i = .tsTerminated := by
        cases hst : s.threads i with
        | tsAlive => exact absurd hst hstate
        | tsTerminated => rfl
        | tsJoined => exact absurd hst hi
      have hcount : 0 < s.terminated := tally_pos i ⟨hcreated, hterminated⟩
      omega
  · exact h.owner_enabled hholds hfree

/-- The only calls `main` can be blocked in are the two that take the mutex,
the wait and the join. -/
theorem main_blocked {s : State N} (hfinished : s.main ≠ .finished)
    (hblocked : ¬ Enabled step s .main) :
    (¬ s.main.Holds ∧ s.mutex ≠ none) ∨ s.main = .waiting ∨
      ∃ i, s.main = .join i ∧ s.worker i ≠ .returned := by
  cases hmain : s.main with
  | finished => exact absurd hmain hfinished
  | lock | relock =>
      refine Or.inl ⟨id, ?_⟩
      intro hfree
      exact hblocked (by simp [enabled_iff, step, mainStep, hmain, hfree])
  | waiting => exact Or.inr (Or.inl rfl)
  | join i =>
      refine Or.inr (Or.inr ⟨i, rfl, ?_⟩)
      intro hreturned
      exact hblocked (by simp [enabled_iff, step, mainStep, hmain, hreturned])
  | init i =>
      refine absurd ?_ hblocked
      by_cases hi : i < N
      · simp [enabled_iff, step, mainStep, hmain, hi]
      · simp [enabled_iff, step, mainStep, hmain, hi]
  | sweep i =>
      refine absurd ?_ hblocked
      by_cases hi : i < N
      · by_cases hst : s.threads ⟨i, hi⟩ = .tsTerminated
        · simp [enabled_iff, step, mainStep, hmain, hi, hst]
        · simp [enabled_iff, step, mainStep, hmain, hi, hst]
      · simp [enabled_iff, step, mainStep, hmain, hi]
  | create i | test | testWait | wait | setJoined i | decLive i
  | decUnjoined i | unlock | free =>
      exact absurd (by simp [enabled_iff, step, mainStep, hmain]) hblocked

theorem Inv.worker_enabled_of_blocked {s : State N} (h : Inv s)
    (hfinished : s.main ≠ .finished) (hblocked : ¬ Enabled step s .main) :
    ∃ i, Enabled step s (.worker i) := by
  rcases main_blocked hfinished hblocked with
    ⟨hholds, hheld⟩ | hwaiting | ⟨i, hjoin, hreturned⟩
  · exact h.owner_enabled hholds hheld
  · exact h.waiting_enabled hwaiting
  · have hpast := h.past_of_join hjoin
    refine ⟨i, worker_enabled ?_ hreturned ?_⟩
    · intro hpc
      rw [hpc] at hpast
      exact hpast
    · intro hpc
      rw [hpc] at hpast
      exact hpast.elim

/-- **No lost wake-up, no deadlock.**  In every reachable state in which
`main` has not finished, some step is enabled that is not a spurious wake-up;
`main` never waits with threads to join unless one of them is still between
its increment and its signal; and `pthread_join`, called with the mutex held,
waits only for a thread that does not need it. -/
theorem never_stuck (garbage : Fin N → ThreadState) (s : State N)
    (hreach : Reachable step (start garbage) s) :
    (s.main ≠ .finished → ∃ l, l ≠ .spurious ∧ Enabled step s l) ∧
    (s.main = .waiting → 0 < s.numUnjoinedThreads →
      ∃ i, s.worker i = .unlock ∨ s.worker i = .signal) ∧
    (∀ i, s.main = .join i → s.mutex = some .main ∧ (s.worker i).Past) := by
  have h := inv_of_reachable hreach
  refine ⟨?_, h.pending, ?_⟩
  · intro hfinished
    by_cases henabled : Enabled step s .main
    · exact ⟨.main, nofun, henabled⟩
    · obtain ⟨i, hi⟩ := h.worker_enabled_of_blocked hfinished henabled
      exact ⟨.worker i, nofun, hi⟩
  · intro i hjoin
    exact ⟨h.mainLocks.2 (by rw [hjoin]; trivial), h.past_of_join hjoin⟩

/-- `main` waits, thread 0 has counted itself and thread 1 sleeps. -/
theorem never_stuck_before_signal :
    ∃ s, exec step (start fun _ => .tsAlive)
        (List.replicate 9 .main ++ List.replicate 5 (.worker 0)) = some s ∧
      s.main = .waiting ∧ s.numUnjoinedThreads = 1 ∧
      ∃ i : Fin 2, s.worker i = .unlock ∨ s.worker i = .signal := by
  obtain ⟨s, hs, hmain, hunjoined⟩ := exists_exec (step (N := 2))
    (fun s => s.main = .waiting ∧ s.numUnjoinedThreads = 1)
    (start fun _ => .tsAlive)
    (List.replicate 9 .main ++ List.replicate 5 (.worker 0)) (by decide)
  have hprogress := never_stuck (fun _ => .tsAlive) s ⟨_, hs⟩
  exact ⟨s, hs, hmain, hunjoined,
    hprogress.2.1 hmain (by rw [hunjoined]; decide)⟩

end Lpi.Ports.ThreadMultijoin
