import Lpi.Ports.ThreadIncrMutex
import Lpi.Verified.RacyCounter

/-!
# Two threads increment without a mutex (`threads/thread_incr.c`)

The program of `threads/thread_incr_mutex.c` without its mutex: `int loc = glob` and
`glob = ++loc` are two steps, and a store may overwrite what the other thread has
stored in between.

An iteration of the source is a load and a store of a racy counter, and its other
steps change nothing there (`simulates_counter`).  The other way round each load
and store of the counter can be had from the program (`counter_simulates`).  So
`main` prints the values such a counter can end with, and no others.
-/

namespace Lpi.Ports.ThreadIncr

open Lpi.Verified
open Lpi.Verified.CData
open Lpi.Verified.Run
open Lpi.Verified.Simulation
open Lpi.Ports.ThreadIncrMutex (numThreads Answer)

/-! ## State -/

/-- Where a thread is in `f`. -/
inductive ThreadPc where
  | notCreated
  /-- `int numLoops = *((int *) arg)`. -/
  | loadArg
  /-- `i < numLoops`. -/
  | test
  /-- `int loc = glob`. -/
  | load
  /-- `glob = ++loc`. -/
  | store
  /-- `++i`. -/
  | increment
  | returned
  deriving DecidableEq, Repr

/-- A thread with its local variables. -/
structure Thread where
  pc : ThreadPc
  numLoops : Int32
  i : Int32
  loc : Int32
  deriving DecidableEq, Repr

/-- Where `main` is. -/
inductive MainPc where
  | create (i : Fin numThreads)
  | join (i : Fin numThreads)
  | print
  | done
  deriving DecidableEq, Repr

/-- The process.  `numLoops` is the variable of `main` the threads get a
pointer to; `printed` is the value of the final `printf`. -/
structure State where
  main : MainPc
  thread : Fin numThreads → Thread
  glob : Int32
  numLoops : Int32
  printed : Option Int32
  exited : Option Exit

inductive Label where
  | main (a : Answer)
  | thread (k : Fin numThreads)
  deriving DecidableEq, Repr

/-! ## Steps -/

/-- The loop of `pthread_join`, from `i` on. -/
def joinNext (i : Nat) : MainPc :=
  if h : i < numThreads then .join ⟨i, h⟩ else .print

/-- The loop of `pthread_create`, from `i` on. -/
def createNext (i : Nat) : MainPc :=
  if h : i < numThreads then .create ⟨i, h⟩ else joinNext 0

def State.setThread (s : State) (k : Fin numThreads) (th : Thread) : State :=
  { s with thread := Function.update s.thread k th }

/-- The next step of `main`. -/
def mainStep (s : State) : Answer → Option State
  | .ok =>
    match s.main with
    | .create i => some
        { s.setThread i { s.thread i with pc := .loadArg } with
          main := createNext (i + 1) }
    | .join i =>
        if (s.thread i).pc = .returned then some
          { s with main := joinNext (i + 1) }
        else none
    | .print => some
        { s with printed := some s.glob, main := .done, exited := some .success }
    | .done => none
  | .err =>
    match s.main with
    | .create _ | .join _ => some { s with exited := some .failure }
    | .print | .done => none

/-- The next step of thread `k`. -/
def threadStep (s : State) (k : Fin numThreads) : Option State :=
  let th := s.thread k
  match th.pc with
  | .loadArg => some (s.setThread k { th with numLoops := s.numLoops, i := 0, pc := .test })
  | .test => some (s.setThread k
      { th with pc := if th.i < th.numLoops then .load else .returned })
  | .load => some (s.setThread k { th with loc := s.glob, pc := .store })
  | .store => some
      { s.setThread k { th with loc := th.loc + 1, pc := .increment } with
        glob := th.loc + 1 }
  | .increment => some (s.setThread k { th with i := th.i + 1, pc := .test })
  | .notCreated | .returned => none

/-- One step of the process, as long as it has not ended. -/
def step (s : State) (l : Label) : Option State :=
  if s.exited ≠ none then none
  else match l with
    | .main a => mainStep s a
    | .thread k => threadStep s k

/-- `main` has its `numLoops` and is about to create the threads. -/
def start (numLoops : Int32) : State where
  main := createNext 0
  thread := fun _ => ⟨.notCreated, 0, 0, 0⟩
  glob := 0
  numLoops := numLoops
  printed := none
  exited := none

/-! ## The counter of a state -/

/-- The iterations of the loop, of which there are none for a negative
`numLoops`. -/
def loops (numLoops : Int32) : Nat := numLoops.toInt.toNat

/-- `i < numLoops` after `d` iterations. -/
theorem ofNat_lt_iff {N : Int32} {d : Nat} (hd : d ≤ loops N) :
    Int32.ofNat d < N ↔ d < loops N := by
  have hhigh := N.toInt_lt
  have hlow := N.le_toInt
  unfold loops at hd ⊢
  rw [Int32.lt_iff_toInt_lt, Int32.toInt_ofNat_of_lt (by omega)]
  omega

/-- A thread that has done `done` iterations, and has loaded `loaded` in the one it
is in. -/
def Thread.Counts (N : Int32) (th : Thread) (done : Nat) (loaded : Option Nat) : Prop :=
  match th.pc with
  | .notCreated | .loadArg => done = 0 ∧ loaded = none
  | .test =>
      th.numLoops = N ∧ th.i = Int32.ofNat done ∧ done ≤ loops N ∧ loaded = none
  | .load =>
      th.numLoops = N ∧ th.i = Int32.ofNat done ∧ done < loops N ∧ loaded = none
  | .store =>
      th.numLoops = N ∧ th.i = Int32.ofNat done ∧ done < loops N ∧
        loaded.map Int32.ofNat = some th.loc
  | .increment =>
      th.numLoops = N ∧ th.i + 1 = Int32.ofNat done ∧ done ≤ loops N ∧ loaded = none
  | .returned => done = loops N ∧ loaded = none

/-- Which threads exist and which have returned, as far as `main` has come. -/
def MainInv (s : State) : Prop :=
  match s.main with
  | .create i => ∀ k, (s.thread k).pc = .notCreated ↔ i ≤ k
  | .join i => ∀ k, k < i → (s.thread k).pc = .returned
  | .print => ∀ k, (s.thread k).pc = .returned
  | .done => s.exited = some .success

/-- The counter a state of the process stands for. -/
structure Counts (N : Int32) (s : State) (a : RacyCounter.State (Fin numThreads)) : Prop where
  glob : s.glob = Int32.ofNat a.value
  numLoops : s.numLoops = N
  thread : ∀ k, (s.thread k).Counts N (a.done k) (a.loaded k)
  main : MainInv s
  running : s.exited = none → s.printed = none
  printed : ∀ v, s.printed = some v → v = s.glob ∧ a.Final (loops N)

variable {N : Int32} {s t : State} {a : RacyCounter.State (Fin numThreads)} {k : Fin numThreads}

theorem start_counts (N : Int32) : Counts N (start N) RacyCounter.start where
  glob := rfl
  numLoops := rfl
  thread := fun _ => ⟨rfl, rfl⟩
  main := by simp [MainInv, start, createNext, numThreads]
  running := fun _ => rfl
  printed := by simp [start]

/-! ## The steps of a thread -/

/-- A thread has moved on its own. -/
theorem MainInv.of_thread {th : Thread} (h : MainInv s)
    (hthread : t.thread = Function.update s.thread k th) (hmain : t.main = s.main)
    (hexited : t.exited = s.exited)
    (hfrom : (s.thread k).pc ≠ .notCreated ∧ (s.thread k).pc ≠ .returned)
    (hto : th.pc ≠ .notCreated) : MainInv t := by
  unfold MainInv at h ⊢
  rw [hmain, hthread, hexited]
  cases hpc : s.main with
  | create i =>
      simp only [hpc] at h ⊢
      intro j
      by_cases hj : j = k
      · subst hj
        have hlt := mt (h j).2 hfrom.1
        simp [hto, hlt]
      · simpa [hj] using h j
  | join i =>
      simp only [hpc] at h ⊢
      intro j hji
      by_cases hj : j = k
      · exact absurd (h k (hj ▸ hji)) hfrom.2
      · simpa [hj] using h j hji
  | print =>
      simp only [hpc] at h
      exact absurd (h k) hfrom.2
  | done =>
      simp only [hpc] at h ⊢
      exact h

/-- What a step of thread `k` must leave true; the counter may have moved by a
load or a store of that thread. -/
theorem Counts.of_thread {b : RacyCounter.State (Fin numThreads)} {th : Thread}
    (h : Counts N s a) (hrunning : s.exited = none)
    (hfrom : (s.thread k).pc ≠ .notCreated ∧ (s.thread k).pc ≠ .returned)
    (hthread : t.thread = Function.update s.thread k th)
    (hsame : t.main = s.main ∧ t.numLoops = s.numLoops ∧ t.printed = s.printed ∧
      t.exited = s.exited)
    (hto : th.pc ≠ .notCreated) (hcounts : th.Counts N (b.done k) (b.loaded k))
    (hothers : ∀ j, j ≠ k → b.done j = a.done j ∧ b.loaded j = a.loaded j)
    (hglob : t.glob = Int32.ofNat b.value) : Counts N t b where
  glob := hglob
  numLoops := by rw [hsame.2.1]; exact h.numLoops
  thread := by
    intro j
    rw [hthread]
    by_cases hj : j = k
    · subst hj
      simpa using hcounts
    · rw [Function.update_of_ne hj, (hothers j hj).1, (hothers j hj).2]
      exact h.thread j
  main := h.main.of_thread hthread hsame.1 hsame.2.2.2 hfrom hto
  running := by
    intro _
    rw [hsame.2.2.1]
    exact h.running hrunning
  printed := by
    intro v hv
    rw [hsame.2.2.1, h.running hrunning] at hv
    simp at hv

/-- A step the counter does not see. -/
theorem Counts.quiet_step {th : Thread} (h : Counts N s a) (hrunning : s.exited = none)
    (hfrom : (s.thread k).pc ≠ .notCreated ∧ (s.thread k).pc ≠ .returned)
    (hto : th.pc ≠ .notCreated) (hcounts : th.Counts N (a.done k) (a.loaded k)) :
    Counts N (s.setThread k th) a :=
  h.of_thread hrunning hfrom rfl ⟨rfl, rfl, rfl, rfl⟩ hto hcounts (fun _ _ => ⟨rfl, rfl⟩) h.glob

theorem Counts.load_step (h : Counts N s a) (hrunning : s.exited = none)
    (hpc : (s.thread k).pc = .load) :
    RacyCounter.step (loops N) a (.load k) =
        some { a with loaded := Function.update a.loaded k (some a.value) } ∧
      Counts N (s.setThread k { s.thread k with loc := s.glob, pc := .store })
        { a with loaded := Function.update a.loaded k (some a.value) } := by
  have hth := h.thread k
  simp only [Thread.Counts, hpc] at hth
  rcases hth with ⟨hloops, hi, hlt, hloaded⟩
  refine ⟨by rw [RacyCounter.step, if_pos ⟨hloaded, hlt⟩], ?_⟩
  refine h.of_thread hrunning (by simp [hpc]) rfl ⟨rfl, rfl, rfl, rfl⟩ (by simp) ?_ ?_ h.glob
  · exact ⟨hloops, hi, hlt, by simp [h.glob]⟩
  · intro j hj
    simp [hj]

theorem Counts.store_step {v : Nat} (h : Counts N s a) (hrunning : s.exited = none)
    (hpc : (s.thread k).pc = .store) (hv : a.loaded k = some v) :
    RacyCounter.step (loops N) a (.store k) = some
        ⟨v + 1, Function.update a.done k (a.done k + 1), Function.update a.loaded k none⟩ ∧
      Counts N
        { s.setThread k { s.thread k with loc := (s.thread k).loc + 1, pc := .increment } with
          glob := (s.thread k).loc + 1 }
        ⟨v + 1, Function.update a.done k (a.done k + 1), Function.update a.loaded k none⟩ := by
  have hth := h.thread k
  simp only [Thread.Counts, hpc] at hth
  rcases hth with ⟨hloops, hi, hlt, hloaded⟩
  have hloc : Int32.ofNat v = (s.thread k).loc := by
    rw [hv] at hloaded
    exact Option.some.inj hloaded
  refine ⟨by rw [RacyCounter.step, hv, Option.map_some], ?_⟩
  refine h.of_thread hrunning (by simp [hpc]) rfl ⟨rfl, rfl, rfl, rfl⟩ (by simp) ?_ ?_ ?_
  · refine ⟨hloops, ?_, ?_, by simp⟩
    · simp only [Function.update_self, hi, Int32.ofNat_add]
      rfl
    · simp only [Function.update_self]
      omega
  · intro j hj
    simp [hj]
  · simp only [← hloc, Int32.ofNat_add]
    rfl

/-- The test is true as long as there are iterations left. -/
theorem Counts.test_step (h : Counts N s a) (hrunning : s.exited = none)
    (hpc : (s.thread k).pc = .test) :
    Counts N (s.setThread k { s.thread k with
      pc := if a.done k < loops N then .load else .returned }) a ∧
    ((s.thread k).i < (s.thread k).numLoops ↔ a.done k < loops N) := by
  have hth := h.thread k
  simp only [Thread.Counts, hpc] at hth
  rcases hth with ⟨hloops, hi, hle, hloaded⟩
  refine ⟨?_, by rw [hi, hloops]; exact ofNat_lt_iff hle⟩
  by_cases hlt : a.done k < loops N
  · rw [if_pos hlt]
    exact h.quiet_step hrunning (by simp [hpc]) (by simp) ⟨hloops, hi, hlt, hloaded⟩
  · rw [if_neg hlt]
    exact h.quiet_step hrunning (by simp [hpc]) (by simp) ⟨by omega, hloaded⟩

theorem Counts.increment_step (h : Counts N s a) (hrunning : s.exited = none)
    (hpc : (s.thread k).pc = .increment) :
    Counts N (s.setThread k { s.thread k with i := (s.thread k).i + 1, pc := .test }) a := by
  have hth := h.thread k
  simp only [Thread.Counts, hpc] at hth
  exact h.quiet_step hrunning (by simp [hpc]) (by simp) hth

/-- One of the steps of a thread is a load of the counter, one is a store, the
others are nothing to it. -/
theorem Counts.thread_step (h : Counts N s a) (hrunning : s.exited = none)
    (hstep : threadStep s k = some t) :
    ∃ b, Reachable (RacyCounter.step (loops N)) a b ∧ Counts N t b := by
  have hth := h.thread k
  cases hpc : (s.thread k).pc with
  | notCreated | returned => simp [threadStep, hpc] at hstep
  | loadArg =>
      simp only [threadStep, hpc, Option.some.injEq] at hstep
      subst hstep
      simp only [Thread.Counts, hpc] at hth
      refine ⟨a, reachable_refl a, h.quiet_step hrunning (by simp [hpc]) (by simp) ?_⟩
      exact ⟨h.numLoops, by rw [hth.1]; rfl, hth.1 ▸ Nat.zero_le _, hth.2⟩
  | test =>
      rcases h.test_step hrunning hpc with ⟨hcounts, htest⟩
      simp only [threadStep, hpc, htest, Option.some.injEq] at hstep
      subst hstep
      exact ⟨a, reachable_refl a, hcounts⟩
  | load =>
      simp only [threadStep, hpc, Option.some.injEq] at hstep
      subst hstep
      rcases h.load_step hrunning hpc with ⟨hload, hcounts⟩
      exact ⟨_, reachable_step hload, hcounts⟩
  | store =>
      simp only [threadStep, hpc, Option.some.injEq] at hstep
      subst hstep
      simp only [Thread.Counts, hpc] at hth
      rcases Option.map_eq_some_iff.1 hth.2.2.2 with ⟨v, hv, _⟩
      rcases h.store_step hrunning hpc hv with ⟨hstore, hcounts⟩
      exact ⟨_, reachable_step hstore, hcounts⟩
  | increment =>
      simp only [threadStep, hpc, Option.some.injEq] at hstep
      subst hstep
      exact ⟨a, reachable_refl a, h.increment_step hrunning hpc⟩

/-! ## The steps of `main` -/

theorem mainInv_joinNext {i : Nat} (hmain : s.main = joinNext i)
    (hreturned : ∀ k : Fin numThreads, k.val < i → (s.thread k).pc = .returned) :
    MainInv s := by
  unfold joinNext at hmain
  by_cases hi : i < numThreads
  · rw [dif_pos hi] at hmain
    simp only [MainInv, hmain]
    exact fun k hk => hreturned k hk
  · rw [dif_neg hi] at hmain
    simp only [MainInv, hmain]
    exact fun k => hreturned k (by omega)

theorem mainInv_createNext {i : Nat} (hmain : s.main = createNext i)
    (hcreated : ∀ k : Fin numThreads, (s.thread k).pc = .notCreated ↔ i ≤ k.val) :
    MainInv s := by
  unfold createNext at hmain
  by_cases hi : i < numThreads
  · rw [dif_pos hi] at hmain
    simp only [MainInv, hmain]
    exact fun k => hcreated k
  · rw [dif_neg hi] at hmain
    exact mainInv_joinNext hmain (by omega)

/-- With all threads returned the counter is at its end. -/
theorem Counts.final (h : Counts N s a) (hall : ∀ k, (s.thread k).pc = .returned) :
    a.Final (loops N) := by
  intro k
  have hth := h.thread k
  simp only [Thread.Counts, hall k] at hth
  exact hth

theorem Counts.main_step {ans : Answer} (h : Counts N s a)
    (hstep : mainStep s ans = some t) : Counts N t a := by
  have hmain := h.main
  cases ans with
  | ok =>
      cases hpc : s.main with
      | create i =>
          simp only [mainStep, hpc, Option.some.injEq] at hstep
          subst hstep
          simp only [MainInv, hpc] at hmain
          have hfrom : (s.thread i).pc = .notCreated := (hmain i).2 (le_refl i)
          have hth := h.thread i
          simp only [Thread.Counts, hfrom] at hth
          refine ⟨h.glob, h.numLoops, ?_, ?_, h.running, h.printed⟩
          · intro j
            by_cases hj : j = i
            · subst hj
              simpa [State.setThread, Thread.Counts] using hth
            · simpa [State.setThread, hj] using h.thread j
          · refine mainInv_createNext (i := i + 1) rfl ?_
            intro j
            by_cases hj : j = i
            · subst hj
              simp [State.setThread]
            · simp only [State.setThread, ne_eq, hj, not_false_eq_true, Function.update_of_ne]
              rw [hmain j, Fin.le_def]
              have hne : j.val ≠ i.val := fun heq => hj (Fin.ext heq)
              omega
      | join i =>
          simp only [mainStep, hpc, Option.ite_none_right_eq_some, Option.some.injEq] at hstep
          rcases hstep with ⟨hreturned, rfl⟩
          simp only [MainInv, hpc] at hmain
          refine ⟨h.glob, h.numLoops, h.thread, ?_, h.running, h.printed⟩
          refine mainInv_joinNext (i := i + 1) rfl ?_
          intro j hj
          by_cases hji : j = i
          · rw [hji]
            exact hreturned
          · have hne : j.val ≠ i.val := fun heq => hji (Fin.ext heq)
            exact hmain j (by rw [Fin.lt_def]; omega)
      | print =>
          simp only [mainStep, hpc, Option.some.injEq] at hstep
          subst hstep
          simp only [MainInv, hpc] at hmain
          refine ⟨h.glob, h.numLoops, h.thread, rfl, by simp, ?_⟩
          intro v hv
          exact ⟨(Option.some.inj hv).symm, h.final hmain⟩
      | done => simp [mainStep, hpc] at hstep
  | err =>
      cases hpc : s.main with
      | create i | join i =>
          simp only [mainStep, hpc, Option.some.injEq] at hstep
          subst hstep
          refine ⟨h.glob, h.numLoops, h.thread, ?_, by simp, h.printed⟩
          simpa only [MainInv, hpc] using hmain
      | print | done => simp [mainStep, hpc] at hstep

/-- **Every step of the process is one of the counter, or none.** -/
theorem simulates_counter (N : Int32) :
    Simulates step (RacyCounter.step (loops N)) (Counts N) := by
  intro s a l t h hstep
  simp only [step, Option.ite_none_left_eq_some, ne_eq, not_not] at hstep
  rcases hstep with ⟨hrunning, hstep⟩
  cases l with
  | main ans => exact ⟨a, reachable_refl a, h.main_step hstep⟩
  | thread k => exact h.thread_step hrunning hstep

/-! ## The program for a schedule of the counter -/

/-- Both threads run, and each is where a step of the counter can come next. -/
structure Ready (N : Int32) (a : RacyCounter.State (Fin numThreads)) (s : State) : Prop where
  counts : Counts N s a
  running : s.exited = none
  main : s.main = joinNext 0
  thread : ∀ k, (s.thread k).pc = .test ∨ (s.thread k).pc = .store

theorem step_test (hrunning : s.exited = none) (hpc : (s.thread k).pc = .test) :
    step s (.thread k) = some (s.setThread k { s.thread k with
      pc := if (s.thread k).i < (s.thread k).numLoops then .load else .returned }) := by
  simp [step, hrunning, threadStep, hpc]

theorem step_load (hrunning : s.exited = none) (hpc : (s.thread k).pc = .load) :
    step s (.thread k) =
      some (s.setThread k { s.thread k with loc := s.glob, pc := .store }) := by
  simp [step, hrunning, threadStep, hpc]

theorem step_store (hrunning : s.exited = none) (hpc : (s.thread k).pc = .store) :
    step s (.thread k) = some
      { s.setThread k { s.thread k with loc := (s.thread k).loc + 1, pc := .increment } with
        glob := (s.thread k).loc + 1 } := by
  simp [step, hrunning, threadStep, hpc]

theorem step_increment (hrunning : s.exited = none) (hpc : (s.thread k).pc = .increment) :
    step s (.thread k) =
      some (s.setThread k { s.thread k with i := (s.thread k).i + 1, pc := .test }) := by
  simp [step, hrunning, threadStep, hpc]

theorem Ready.test_iff (h : Ready N a s) (k : Fin numThreads) :
    (s.thread k).pc = .test ↔ a.loaded k = none := by
  have hth := h.counts.thread k
  rcases h.thread k with hpc | hpc
  · simp only [Thread.Counts, hpc] at hth
    simp [hpc, hth.2.2.2]
  · simp only [Thread.Counts, hpc] at hth
    rcases Option.map_eq_some_iff.1 hth.2.2.2 with ⟨v, hv, _⟩
    simp [hpc, hv]

private theorem Ready.of_update {b : RacyCounter.State (Fin numThreads)} {th : Thread}
    (h : Ready N a s) (hcounts : Counts N t b)
    (hthread : t.thread = Function.update s.thread k th)
    (hsame : t.exited = s.exited ∧ t.main = s.main) (hpc : th.pc = .test ∨ th.pc = .store) :
    Ready N b t where
  counts := hcounts
  running := by rw [hsame.1]; exact h.running
  main := by rw [hsame.2]; exact h.main
  thread := by
    intro j
    rw [hthread]
    by_cases hj : j = k
    · subst hj
      simpa using hpc
    · simpa [hj] using h.thread j

/-- **Every step of the counter can be had from the process**: a load after the
test before it, a store with the increment after it. -/
theorem counter_simulates (N : Int32) :
    Simulates (RacyCounter.step (loops N)) step fun a s => Ready N a s := by
  intro a s l b h hstep
  cases l with
  | load k =>
      simp only [RacyCounter.step, Option.ite_none_right_eq_some, Option.some.injEq] at hstep
      rcases hstep with ⟨⟨hloaded, hlt⟩, rfl⟩
      have hpc := (h.test_iff k).2 hloaded
      rcases h.counts.test_step h.running hpc with ⟨htested, htest⟩
      have hfirst := step_test h.running hpc
      rw [if_pos (htest.2 hlt)] at hfirst
      rw [if_pos hlt] at htested
      have hload : ((s.setThread k { s.thread k with pc := .load }).thread k).pc = .load := by
        simp [State.setThread]
      refine ⟨_, reachable_trans (reachable_step hfirst)
        (reachable_step (step_load h.running hload)), ?_⟩
      have hloadedNow := (htested.load_step h.running hload).2
      refine h.of_update (k := k) hloadedNow (Function.update_idem ..) ⟨rfl, rfl⟩ (Or.inr ?_)
      rfl
  | store k =>
      simp only [RacyCounter.step, Option.map_eq_some_iff] at hstep
      rcases hstep with ⟨v, hv, rfl⟩
      have hpc : (s.thread k).pc = .store := by
        have htest := h.test_iff k
        rw [hv] at htest
        simpa [htest] using h.thread k
      have hstored := (h.counts.store_step h.running hpc hv).2
      have hincrement : ({ s.setThread k { s.thread k with
          loc := (s.thread k).loc + 1, pc := .increment } with
          glob := (s.thread k).loc + 1 }.thread k).pc = .increment := by
        simp [State.setThread]
      refine ⟨_, reachable_trans (reachable_step (step_store h.running hpc))
        (reachable_step (step_increment h.running hincrement)), ?_⟩
      have hcounts := hstored.increment_step h.running hincrement
      refine h.of_update (k := k) hcounts (Function.update_idem ..) ⟨rfl, rfl⟩ (Or.inl ?_)
      rfl

instance : NeZero numThreads := ⟨by decide⟩

theorem eq_zero_or_one (k : Fin numThreads) : k = 0 ∨ k = 1 := by
  revert k
  decide

theorem one_ne_zero : (1 : Fin numThreads) ≠ 0 := by decide

theorem exists_ready (N : Int32) :
    ∃ s, Reachable step (start N) s ∧ Ready N RacyCounter.start s := by
  refine ⟨_, ⟨[.main .ok, .main .ok, .thread 0, .thread 1], rfl⟩, ?_⟩
  refine ⟨⟨rfl, rfl, ?_, ?_, fun _ => rfl, ?_⟩, rfl, rfl, ?_⟩
  · intro k
    rcases eq_zero_or_one k with rfl | rfl <;> exact ⟨rfl, rfl, Nat.zero_le _, rfl⟩
  · exact mainInv_joinNext (i := 0) rfl (by simp)
  · exact fun v hv => absurd hv.symm (Option.some_ne_none v)
  · intro k
    rcases eq_zero_or_one k with rfl | rfl <;> exact Or.inl rfl

theorem step_join {i : Fin numThreads} (hrunning : s.exited = none) (hmain : s.main = .join i)
    (hreturned : (s.thread i).pc = .returned) :
    step s (.main .ok) = some { s with main := joinNext (i + 1) } := by
  simp [step, hrunning, mainStep, hmain, hreturned]

theorem exists_printed (hrunning : s.exited = none) (hmain : s.main = joinNext 0)
    (hall : ∀ k, (s.thread k).pc = .returned) :
    ∃ t, Reachable step s t ∧ t.printed = some s.glob := by
  have hfirst := step_join (i := 0) hrunning hmain (hall 0)
  have hsecond := step_join (s := { s with main := joinNext 1 }) (i := 1) hrunning rfl (hall 1)
  have hprint : step { s with main := joinNext 2 } (.main .ok) = some
      { s with printed := some s.glob, main := .done, exited := some .success } := by
    simp [step, hrunning, mainStep, joinNext, numThreads]
  exact ⟨_, reachable_trans (reachable_step hfirst) (reachable_trans (reachable_step hsecond)
    (reachable_step hprint)), rfl⟩

/-- When the counter is at its end the threads return, and `main` prints it. -/
theorem Ready.exists_printed (h : Ready N a s) (hfinal : a.Final (loops N)) :
    ∃ t, Reachable step s t ∧ t.printed = some (Int32.ofNat a.value) := by
  have hpc : ∀ k, (s.thread k).pc = .test := fun k => (h.test_iff k).2 (hfinal k).2
  have htest : ∀ k, ¬ (s.thread k).i < (s.thread k).numLoops := by
    intro k
    rw [(h.counts.test_step h.running (hpc k)).2, (hfinal k).1]
    exact lt_irrefl _
  have hfirst := step_test h.running (hpc 0)
  rw [if_neg (htest 0)] at hfirst
  generalize hm : s.setThread 0 { s.thread 0 with pc := .returned } = m at hfirst
  have hzero : (m.thread 0).pc = .returned := by
    simp [← hm, State.setThread]
  have hone : m.thread 1 = s.thread 1 := by
    rw [← hm]
    exact Function.update_of_ne one_ne_zero { s.thread 0 with pc := .returned } _
  have hrunning : m.exited = none := hm ▸ h.running
  have hsecond := step_test (k := 1) hrunning (hone ▸ hpc 1)
  rw [if_neg (hone ▸ htest 1)] at hsecond
  have hall : ∀ k, ((m.setThread 1 { m.thread 1 with pc := .returned }).thread k).pc =
      .returned := by
    intro k
    rcases eq_zero_or_one k with rfl | rfl
    · simpa [State.setThread, one_ne_zero.symm] using hzero
    · simp [State.setThread]
  have hmain : m.main = joinNext 0 := hm ▸ h.main
  rcases ThreadIncr.exists_printed (s := m.setThread 1 _) hrunning hmain hall with ⟨t, ht, hprinted⟩
  refine ⟨t, reachable_trans (reachable_step hfirst) (reachable_trans (reachable_step hsecond)
    ht), ?_⟩
  have hglob : m.glob = s.glob := hm ▸ rfl
  rw [hprinted, ← h.counts.glob, ← hglob, State.setThread]

/-! ## What is printed -/

/-- **`main` prints every value from 2 (or the number of iterations of one thread,
where that is less) up to the number of all iterations, and no other.** -/
theorem printed_iff (N : Int32) (hN : 2 * N.toInt ≤ 2147483647) (v : Int32) :
    (∃ s, Reachable step (start N) s ∧ s.printed = some v) ↔
      min (loops N : Int) 2 ≤ v.toInt ∧ v.toInt ≤ 2 * loops N := by
  have hsmall : 2 * loops N < 2 ^ 31 := by
    unfold loops
    omega
  constructor
  · rintro ⟨s, hs, hv⟩
    rcases (simulates_counter N).reachable (start_counts N) hs with ⟨a, ha, hcounts⟩
    rcases hcounts.printed v hv with ⟨rfl, hfinal⟩
    have : Nonempty (Fin numThreads) := ⟨0⟩
    rcases RacyCounter.final_bounds ha hfinal with ⟨hlow, hhigh⟩
    rw [Fintype.card_fin] at hhigh
    change a.value ≤ 2 * loops N at hhigh
    have hvalue : s.glob.toInt = a.value := by
      rw [hcounts.glob, Int32.toInt_ofNat_of_lt (lt_of_le_of_lt hhigh hsmall)]
    omega
  · rintro ⟨hlow, hhigh⟩
    have hlow' : min (loops N) 2 ≤ v.toInt.toNat := by omega
    have hhigh' : v.toInt.toNat ≤ 2 * loops N := by omega
    rcases RacyCounter.exists_final (i := (0 : Fin numThreads)) (j := 1) (by decide) hlow'
      hhigh' with ⟨a, ha, hpair⟩
    have hfinal : a.Final (loops N) := by
      intro k
      rcases eq_zero_or_one k with rfl | rfl
      · exact ⟨hpair.doneLeft, hpair.loadedLeft⟩
      · exact ⟨hpair.doneRight, hpair.loadedRight⟩
    rcases exists_ready N with ⟨s, hs, hready⟩
    rcases (counter_simulates N).reachable hready ha with ⟨t, ht, hlast⟩
    rcases hlast.exists_printed hfinal with ⟨u, hu, hprinted⟩
    refine ⟨u, reachable_trans hs (reachable_trans ht hu), ?_⟩
    have hv : ((v.toInt.toNat : Nat) : Int) = v.toInt := by omega
    rw [hprinted, hpair.value, ← Int32.ofInt_eq_ofNat, hv, Int32.ofInt_toInt]

/-- By default 20000000 increments are made, and all but two may be lost. -/
theorem printed_two : ∃ s, Reachable step (start 10000000) s ∧ s.printed = some 2 :=
  (printed_iff 10000000 (by decide) 2).2 (by decide)

end Lpi.Ports.ThreadIncr
