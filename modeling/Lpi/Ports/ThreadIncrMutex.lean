import Lpi.Verified.CData
import Lpi.Verified.Run
import Lpi.Verified.Tally

/-!
# Two threads increment under a mutex (`threads/thread_incr_mutex.c`)

Each thread executes its loop `numLoops` times; in each iteration it loads
`glob` and stores it incremented, as two steps, between
`pthread_mutex_lock` and `pthread_mutex_unlock`.  `main` creates the threads,
joins them and prints `glob`.

An iteration counts in `glob` from its store on.  `stored` is what a thread
has contributed, so `glob` is the sum of `stored` over the threads in every
state; where the mutex is free that is the number of completed iterations.
-/

namespace Lpi.Ports.ThreadIncrMutex

open Lpi.Verified.CData
open Lpi.Verified.Run
open Lpi.Verified.Tally

/-! ## State -/

/-- `NUM_THREADS`. -/
def numThreads : Nat := 2

/-- Where a thread is in `f`. -/
inductive ThreadPc where
  | notCreated
  /-- `int numLoops = *((int *) arg)`. -/
  | loadArg
  /-- `i < numLoops`. -/
  | test
  | lock
  /-- `int loc = glob`. -/
  | load
  /-- `glob = ++loc`. -/
  | store
  | unlock
  /-- `++i`. -/
  | increment
  | returned
  deriving DecidableEq, Repr

/-- A thread with its local variables.  `unlocks` is the number of its
iterations whose `pthread_mutex_unlock` has been executed. -/
structure Thread where
  pc : ThreadPc
  numLoops : Int32
  i : Int32
  loc : Int32
  unlocks : Nat
  deriving DecidableEq, Repr

/-- Where `main` is. -/
inductive MainPc where
  | create (i : Fin numThreads)
  | join (i : Fin numThreads)
  | print
  | done
  deriving DecidableEq, Repr

/-- The process.  `numLoops` is the variable of `main` the threads get a
pointer to; `printed` is the value of the final `printf`. -/
structure State where
  main : MainPc
  thread : Fin numThreads → Thread
  mutex : Option (Fin numThreads)
  glob : Int32
  numLoops : Int32
  printed : Option Int32
  exited : Option Exit

/-- The result of a function on threads or mutexes. -/
inductive Answer where
  | ok
  | err
  deriving DecidableEq, Repr

inductive Label where
  | main (a : Answer)
  | thread (k : Fin numThreads) (a : Answer)
  deriving DecidableEq, Repr

/-! ## Steps -/

/-- The loop of `pthread_join`, from `i` on. -/
def joinNext (i : Nat) : MainPc :=
  if h : i < numThreads then .join ⟨i, h⟩ else .print

/-- The loop of `pthread_create`, from `i` on. -/
def createNext (i : Nat) : MainPc :=
  if h : i < numThreads then .create ⟨i, h⟩ else joinNext 0

def State.setThread (s : State) (k : Fin numThreads) (th : Thread) : State :=
  { s with thread := Function.update s.thread k th }

/-- `exit`, or `return` from `main`. -/
def State.exit (s : State) (status : Exit) : State :=
  { s with exited := some status }

/-- The next step of `main`. -/
def mainStep (s : State) : Answer → Option State
  | .ok =>
    match s.main with
    | .create i => some
        { s.setThread i { s.thread i with pc := .loadArg } with
          main := createNext (i + 1) }
    | .join i =>
        if (s.thread i).pc = .returned then some
          { s with main := joinNext (i + 1) }
        else none
    | .print => some
        (State.exit { s with printed := some s.glob, main := .done } .success)
    | .done => none
  | .err =>
    match s.main with
    | .create _ | .join _ => some (s.exit .failure)
    | .print | .done => none

/-- The next step of thread `k`. -/
def threadStep (s : State) (k : Fin numThreads) : Answer → Option State
  | .ok =>
    let th := s.thread k
    match th.pc with
    | .loadArg => some
        (s.setThread k { th with numLoops := s.numLoops, i := 0, pc := .test })
    | .test => some (s.setThread k
        { th with pc := if th.i < th.numLoops then .lock else .returned })
    | .lock =>
        if s.mutex = none then some
          { s.setThread k { th with pc := .load } with mutex := some k }
        else none
    | .load => some (s.setThread k { th with loc := s.glob, pc := .store })
    | .store => some
        { s.setThread k { th with loc := th.loc + 1, pc := .unlock } with
          glob := th.loc + 1 }
    | .unlock => some
        { s.setThread k { th with unlocks := th.unlocks + 1, pc := .increment } with
          mutex := none }
    | .increment => some (s.setThread k { th with i := th.i + 1, pc := .test })
    | .notCreated | .returned => none
  | .err =>
    match (s.thread k).pc with
    | .lock | .unlock => some (s.exit .failure)
    | _ => none

/-- One step of the process, as long as it has not ended. -/
def step (s : State) (l : Label) : Option State :=
  if s.exited ≠ none then none
  else match l with
    | .main a => mainStep s a
    | .thread k a => threadStep s k a

/-- `main` has its `numLoops` and is about to create the threads. -/
def start (numLoops : Int32) : State where
  main := createNext 0
  thread := fun _ => ⟨.notCreated, 0, 0, 0, 0⟩
  mutex := none
  glob := 0
  numLoops := numLoops
  printed := none
  exited := none

/-! ## Sums over the threads -/

/-- The sum of `f` over all threads. -/
def State.sum (s : State) (f : Thread → Nat) : Nat :=
  ((List.finRange numThreads).map fun k => f (s.thread k)).sum

/-- The number of iterations whose unlock has been executed, over all
threads. -/
def State.iterations (s : State) : Nat := s.sum Thread.unlocks

/-- Iterations of a thread whose store has been executed. -/
def Thread.stored (th : Thread) : Nat :=
  th.unlocks + (th.pc = .unlock : Bool).toNat

theorem State.sum_setThread (s : State) (f : Thread → Nat) (k : Fin numThreads)
    (th : Thread) :
    (s.setThread k th).sum f + f (s.thread k) = s.sum f + f th := by
  have hsum := sum_map_add (List.nodup_finRange numThreads)
    (List.mem_finRange k) (f := fun j => f (s.thread j))
    (g := fun j => f ((s.setThread k th).thread j)) (by
      intro j hj
      simp [State.setThread, hj])
  simpa [State.sum, State.setThread] using hsum

theorem State.sum_congr {s t : State} {f : Thread → Nat}
    (h : ∀ k, f (t.thread k) = f (s.thread k)) : t.sum f = s.sum f := by
  unfold State.sum
  rw [List.map_congr_left fun k _ => h k]

/-- A sum of equal terms. -/
theorem State.sum_eq_mul {s : State} {f : Thread → Nat} {n : Nat}
    (h : ∀ k, f (s.thread k) = n) : s.sum f = numThreads * n := by
  unfold State.sum
  rw [List.map_congr_left fun k _ => h k]
  simp

/-! ## The invariant -/

/-- The thread is between `pthread_mutex_lock` and `pthread_mutex_unlock`. -/
def ThreadPc.inside : ThreadPc → Bool
  | .load | .store | .unlock => true
  | .notCreated | .loadArg | .test | .lock | .increment | .returned => false

/-- The loop variable counts the iterations, `n` of which there are. -/
def Thread.Inv (n : Nat) (th : Thread) : Prop :=
  match th.pc with
  | .notCreated | .loadArg => th.unlocks = 0
  | .test =>
      th.numLoops = Int32.ofNat n ∧ th.i = Int32.ofNat th.unlocks ∧
        th.unlocks ≤ n
  | .lock | .load | .store | .unlock =>
      th.numLoops = Int32.ofNat n ∧ th.i = Int32.ofNat th.unlocks ∧
        th.unlocks < n
  | .increment =>
      th.numLoops = Int32.ofNat n ∧ th.i + 1 = Int32.ofNat th.unlocks ∧
        th.unlocks ≤ n
  | .returned => th.unlocks = n

/-- Which threads exist and which have returned, as far as `main` has
come. -/
def MainInv (s : State) : Prop :=
  match s.main with
  | .create i => ∀ k, (s.thread k).pc = .notCreated ↔ i ≤ k
  | .join i => ∀ k, (s.thread k).pc ≠ .notCreated ∧
      (k < i → (s.thread k).pc = .returned)
  | .print => ∀ k, (s.thread k).pc = .returned
  | .done => s.exited = some .success

/-- The mutex is held by the thread that is inside; `glob` is what the threads
have stored; and a thread that has loaded `glob` has its present value. -/
structure Inv (n : Nat) (s : State) : Prop where
  thread : ∀ k, (s.thread k).Inv n
  owner : ∀ k, (s.thread k).pc.inside = true ↔ s.mutex = some k
  glob : s.glob = Int32.ofNat (s.sum Thread.stored)
  loaded : ∀ k, (s.thread k).pc = .store → (s.thread k).loc = s.glob
  numLoops : s.numLoops = Int32.ofNat n
  main : MainInv s
  printed : ∀ v, s.printed = some v → v = Int32.ofNat (numThreads * n)
  ended : s.exited = some .success → s.printed ≠ none

/-- The loop of `pthread_join` is entered when all threads exist. -/
theorem mainInv_joinNext {s : State} {i : Nat} (hmain : s.main = joinNext i)
    (hcreated : ∀ k, (s.thread k).pc ≠ .notCreated)
    (hreturned : ∀ k : Fin numThreads, k.val < i → (s.thread k).pc = .returned) :
    MainInv s := by
  unfold joinNext at hmain
  by_cases hi : i < numThreads
  · rw [dif_pos hi] at hmain
    simp only [MainInv, hmain]
    intro k
    exact ⟨hcreated k, fun hlt => hreturned k hlt⟩
  · rw [dif_neg hi] at hmain
    simp only [MainInv, hmain]
    intro k
    exact hreturned k (by omega)

theorem mainInv_createNext {s : State} {i : Nat} (hmain : s.main = createNext i)
    (hcreated : ∀ k : Fin numThreads, (s.thread k).pc = .notCreated ↔ i ≤ k.val) :
    MainInv s := by
  unfold createNext at hmain
  by_cases hi : i < numThreads
  · rw [dif_pos hi] at hmain
    simp only [MainInv, hmain]
    intro k
    exact hcreated k
  · rw [dif_neg hi] at hmain
    refine mainInv_joinNext hmain (fun k hk => ?_) (fun k hk => by omega)
    have := (hcreated k).1 hk
    omega

theorem start_inv {n : Nat} {numLoops : Int32}
    (hn : numLoops = Int32.ofNat n) : Inv n (start numLoops) where
  thread := fun _ => rfl
  owner := by simp [start, ThreadPc.inside]
  glob := by
    rw [State.sum_eq_mul (n := 0) (fun _ => rfl)]
    rfl
  loaded := by simp [start]
  numLoops := hn
  main := mainInv_createNext (i := 0) rfl (by simp [start])
  printed := by simp [start]
  ended := by simp [start]

/-! ## Steps of a thread -/

/-- A thread has moved: what it must leave true. -/
theorem Inv.of_thread {n : Nat} {s t : State} {k : Fin numThreads} {th : Thread}
    (h : Inv n s) (hthread : t.thread = Function.update s.thread k th)
    (hmain : t.main = s.main) (hnumLoops : t.numLoops = s.numLoops)
    (hprinted : t.printed = s.printed) (hexited : t.exited = s.exited)
    (hfrom : (s.thread k).pc ≠ .notCreated ∧ (s.thread k).pc ≠ .returned)
    (hto : th.pc ≠ .notCreated) (hinv : th.Inv n)
    (howner : ∀ j, (t.thread j).pc.inside = true ↔ t.mutex = some j)
    (hglob : t.glob = Int32.ofNat (t.sum Thread.stored))
    (hloaded : ∀ j, (t.thread j).pc = .store → (t.thread j).loc = t.glob) :
    Inv n t where
  thread := by
    intro j
    rw [hthread]
    by_cases hj : j = k
    · subst hj
      simpa using hinv
    · simpa [hj] using h.thread j
  owner := howner
  glob := hglob
  loaded := hloaded
  numLoops := by rw [hnumLoops]; exact h.numLoops
  main := by
    have hm := h.main
    unfold MainInv at hm ⊢
    rw [hmain, hthread, hexited]
    cases hpc : s.main with
    | create i =>
        simp only [hpc] at hm ⊢
        intro j
        by_cases hj : j = k
        · subst hj
          have hlt := mt (hm j).2 hfrom.1
          simp [hto, hlt]
        · simpa [hj] using hm j
    | join i =>
        simp only [hpc] at hm ⊢
        intro j
        by_cases hj : j = k
        · subst hj
          have hge : ¬ j < i := fun hlt => hfrom.2 ((hm j).2 hlt)
          simp [hto, hge]
        · simpa [hj] using hm j
    | print =>
        simp only [hpc] at hm
        exact absurd (hm k) hfrom.2
    | done =>
        simp only [hpc] at hm ⊢
        exact hm
  printed := by rw [hprinted]; exact h.printed
  ended := by rw [hexited, hprinted]; exact h.ended

/-- A step that stores nothing, but may lock or unlock the mutex. -/
theorem Inv.mutex_move {n : Nat} {s : State} {k : Fin numThreads} {th : Thread}
    {mutex : Option (Fin numThreads)} (h : Inv n s)
    (hfrom : (s.thread k).pc ≠ .notCreated ∧ (s.thread k).pc ≠ .returned)
    (hto : th.pc ≠ .notCreated) (hinv : th.Inv n)
    (howner : ∀ j, ((s.setThread k th).thread j).pc.inside = true ↔ mutex = some j)
    (hstored : th.stored = (s.thread k).stored)
    (hloaded : th.pc = .store → th.loc = s.glob) :
    Inv n { s.setThread k th with mutex := mutex } := by
  refine h.of_thread rfl rfl rfl rfl rfl hfrom hto hinv howner ?_ ?_
  · have hsum := s.sum_setThread Thread.stored k th
    have hsame : (s.setThread k th).sum Thread.stored = s.sum Thread.stored := by
      omega
    show s.glob = Int32.ofNat ((s.setThread k th).sum Thread.stored)
    rw [hsame]
    exact h.glob
  · intro j hpc
    by_cases hj : j = k
    · subst hj
      simp only [State.setThread, Function.update_self] at hpc ⊢
      exact hloaded hpc
    · simp only [State.setThread, ne_eq, hj, not_false_eq_true,
        Function.update_of_ne] at hpc ⊢
      exact h.loaded j hpc

/-- A step outside the critical section, or one inside it that stores
nothing. -/
theorem Inv.quiet_move {n : Nat} {s : State} {k : Fin numThreads} {th : Thread}
    (h : Inv n s)
    (hfrom : (s.thread k).pc ≠ .notCreated ∧ (s.thread k).pc ≠ .returned)
    (hto : th.pc ≠ .notCreated) (hinv : th.Inv n)
    (hinside : th.pc.inside = (s.thread k).pc.inside)
    (hstored : th.stored = (s.thread k).stored)
    (hloaded : th.pc = .store → th.loc = s.glob) :
    Inv n (s.setThread k th) := by
  refine h.mutex_move hfrom hto hinv ?_ hstored hloaded
  intro j
  by_cases hj : j = k
  · subst hj
    simpa [State.setThread, hinside] using h.owner j
  · simpa [State.setThread, hj] using h.owner j

/-- Only one thread is inside. -/
theorem Inv.exclusive {n : Nat} {s : State} (h : Inv n s)
    {j k : Fin numThreads} (hj : (s.thread j).pc.inside = true)
    (hk : (s.thread k).pc.inside = true) : j = k := by
  have hmutex := (h.owner j).1 hj
  rw [(h.owner k).1 hk, Option.some.injEq] at hmutex
  exact hmutex.symm

theorem Inv.lock_step {n : Nat} {s : State} {k : Fin numThreads} (h : Inv n s)
    (hpc : (s.thread k).pc = .lock) (hfree : s.mutex = none) :
    Inv n { s.setThread k { s.thread k with pc := .load } with
      mutex := some k } := by
  have hth := h.thread k
  simp only [Thread.Inv, hpc] at hth
  refine h.mutex_move (by simp [hpc]) (by simp) hth ?_ (by simp [Thread.stored, hpc])
    (by simp)
  intro j
  by_cases hj : j = k
  · subst hj
    simp [State.setThread, ThreadPc.inside]
  · have hout := h.owner j
    have hkj : k ≠ j := Ne.symm hj
    simp only [hfree] at hout
    simpa [State.setThread, hj, hkj] using hout

/-- The store: the thread has the present value of `glob`, and no other thread
has loaded it. -/
theorem Inv.store_step {n : Nat} {s : State} {k : Fin numThreads} (h : Inv n s)
    (hpc : (s.thread k).pc = .store) :
    Inv n { s.setThread k
        { s.thread k with loc := (s.thread k).loc + 1, pc := .unlock } with
      glob := (s.thread k).loc + 1 } := by
  have hth := h.thread k
  simp only [Thread.Inv, hpc] at hth
  refine h.of_thread (k := k) rfl rfl rfl rfl rfl (by simp [hpc]) (by simp) hth
    ?_ ?_ ?_
  · intro j
    by_cases hj : j = k
    · subst hj
      simpa [State.setThread, ThreadPc.inside, hpc] using h.owner j
    · simpa [State.setThread, hj] using h.owner j
  · have hsum := s.sum_setThread Thread.stored k
      { s.thread k with loc := (s.thread k).loc + 1, pc := .unlock }
    have hnew : Thread.stored
        { s.thread k with loc := (s.thread k).loc + 1, pc := .unlock } =
        (s.thread k).stored + 1 := by simp [Thread.stored, hpc]
    have hgrown : State.sum { s.setThread k
        { s.thread k with loc := (s.thread k).loc + 1, pc := .unlock } with
          glob := (s.thread k).loc + 1 } Thread.stored =
        s.sum Thread.stored + 1 := by
      rw [hnew] at hsum
      unfold State.sum at hsum ⊢
      simp only [State.setThread] at hsum ⊢
      omega
    rw [hgrown, h.loaded k hpc, h.glob, Int32.ofNat_add]
    rfl
  · intro j hstore
    by_cases hj : j = k
    · subst hj
      simp [State.setThread] at hstore
    · simp only [State.setThread, ne_eq, hj, not_false_eq_true,
        Function.update_of_ne] at hstore
      exact absurd (h.exclusive (j := j) (k := k)
        (by rw [hstore]; rfl) (by rw [hpc]; rfl)) hj

theorem Inv.unlock_step {n : Nat} {s : State} {k : Fin numThreads} (h : Inv n s)
    (hpc : (s.thread k).pc = .unlock) :
    Inv n { s.setThread k
        { s.thread k with unlocks := (s.thread k).unlocks + 1
                          pc := .increment } with
      mutex := none } := by
  have hth := h.thread k
  simp only [Thread.Inv, hpc] at hth
  have hmutex : s.mutex = some k := (h.owner k).1 (by rw [hpc]; rfl)
  refine h.mutex_move (by simp [hpc]) (by simp) ?_ ?_ (by simp [Thread.stored, hpc])
    (by simp)
  · refine ⟨hth.1, ?_, hth.2.2⟩
    simp only
    rw [hth.2.1, Int32.ofNat_add]
    rfl
  · intro j
    by_cases hj : j = k
    · subst hj
      simp [State.setThread, ThreadPc.inside]
    · have hout := h.owner j
      have hkj : k ≠ j := Ne.symm hj
      rw [hmutex, Option.some.injEq] at hout
      simp [State.setThread, hj, hout, hkj]

theorem ofNat_lt_ofNat {a b : Nat} (ha : a < 2 ^ 31) (hb : b < 2 ^ 31) :
    Int32.ofNat a < Int32.ofNat b ↔ a < b := by
  rw [Int32.lt_iff_toInt_lt, Int32.toInt_ofNat_of_lt ha,
    Int32.toInt_ofNat_of_lt hb]
  omega

/-- `i < numLoops` is true as long as there are iterations left. -/
theorem Inv.test_step {n : Nat} {s : State} {k : Fin numThreads} (h : Inv n s)
    (hn : n < 2 ^ 31) (hpc : (s.thread k).pc = .test) :
    Inv n (s.setThread k { s.thread k with pc :=
      if (s.thread k).i < (s.thread k).numLoops then .lock else .returned }) := by
  have hth := h.thread k
  simp only [Thread.Inv, hpc] at hth
  obtain ⟨hloops, hi, hle⟩ := hth
  have htest : (s.thread k).i < (s.thread k).numLoops ↔
      (s.thread k).unlocks < n := by
    rw [hloops, hi]
    exact ofNat_lt_ofNat (by omega) hn
  by_cases hlt : (s.thread k).unlocks < n
  · rw [if_pos (htest.2 hlt)]
    exact h.quiet_move (by simp [hpc]) (by simp) ⟨hloops, hi, hlt⟩
      (by simp [hpc, ThreadPc.inside]) (by simp [Thread.stored, hpc]) (by simp)
  · rw [if_neg (mt htest.1 hlt)]
    have hall : (s.thread k).unlocks = n := by omega
    exact h.quiet_move (by simp [hpc]) (by simp) hall
      (by simp [hpc, ThreadPc.inside]) (by simp [Thread.stored, hpc]) (by simp)

theorem Inv.exit_failure {n : Nat} {s : State} (h : Inv n s)
    (hrunning : s.exited = none) : Inv n (s.exit .failure) where
  thread := h.thread
  owner := h.owner
  glob := h.glob
  loaded := h.loaded
  numLoops := h.numLoops
  main := by
    have hmain := h.main
    cases hpc : s.main with
    | done => simp [MainInv, hpc, hrunning] at hmain
    | create i | join i | print =>
        simp only [MainInv, hpc, State.exit] at hmain ⊢
        exact hmain
  printed := h.printed
  ended := by simp [State.exit]

theorem Inv.thread_step {n : Nat} {s t : State} {k : Fin numThreads}
    {a : Answer} (h : Inv n s) (hn : n < 2 ^ 31) (hrunning : s.exited = none)
    (hstep : threadStep s k a = some t) : Inv n t := by
  have hth := h.thread k
  cases a with
  | ok =>
      cases hpc : (s.thread k).pc with
      | notCreated | returned => simp [threadStep, hpc] at hstep
      | loadArg =>
          simp only [threadStep, hpc, Option.some.injEq] at hstep
          subst hstep
          simp only [Thread.Inv, hpc] at hth
          refine h.quiet_move (by simp [hpc]) (by simp) ?_
            (by simp [hpc, ThreadPc.inside]) (by simp [Thread.stored, hpc])
            (by simp)
          refine ⟨h.numLoops, ?_, ?_⟩ <;> simp [hth]
      | test =>
          simp only [threadStep, hpc, Option.some.injEq] at hstep
          subst hstep
          exact h.test_step hn hpc
      | lock =>
          simp only [threadStep, hpc, Option.ite_none_right_eq_some,
            Option.some.injEq] at hstep
          obtain ⟨hfree, rfl⟩ := hstep
          exact h.lock_step hpc hfree
      | load =>
          simp only [threadStep, hpc, Option.some.injEq] at hstep
          subst hstep
          simp only [Thread.Inv, hpc] at hth
          exact h.quiet_move (by simp [hpc]) (by simp) hth
            (by simp [hpc, ThreadPc.inside]) (by simp [Thread.stored, hpc])
            (fun _ => rfl)
      | store =>
          simp only [threadStep, hpc, Option.some.injEq] at hstep
          subst hstep
          exact h.store_step hpc
      | unlock =>
          simp only [threadStep, hpc, Option.some.injEq] at hstep
          subst hstep
          exact h.unlock_step hpc
      | increment =>
          simp only [threadStep, hpc, Option.some.injEq] at hstep
          subst hstep
          simp only [Thread.Inv, hpc] at hth
          exact h.quiet_move (by simp [hpc]) (by simp) hth
            (by simp [hpc, ThreadPc.inside]) (by simp [Thread.stored, hpc])
            (by simp)
  | err =>
      cases hpc : (s.thread k).pc with
      | lock | unlock =>
          simp only [threadStep, hpc, Option.some.injEq] at hstep
          subst hstep
          exact h.exit_failure hrunning
      | notCreated | loadArg | test | load | store | increment | returned =>
          simp [threadStep, hpc] at hstep

/-! ## Steps of `main` -/

/-- With all threads returned, `glob` is the product `main` prints. -/
theorem Inv.glob_of_returned {n : Nat} {s : State} (h : Inv n s)
    (hall : ∀ k, (s.thread k).pc = .returned) :
    s.glob = Int32.ofNat (numThreads * n) := by
  rw [h.glob]
  congr 1
  apply State.sum_eq_mul
  intro k
  have hth := h.thread k
  simp only [Thread.Inv, hall k] at hth
  simp [Thread.stored, hall k, hth]

theorem Inv.create_step {n : Nat} {s : State} {i : Fin numThreads} (h : Inv n s)
    (hpc : s.main = .create i) :
    Inv n { s.setThread i { s.thread i with pc := .loadArg } with
      main := createNext (i + 1) } := by
  have hmain := h.main
  simp only [MainInv, hpc] at hmain
  have hfrom : (s.thread i).pc = .notCreated := (hmain i).2 (le_refl i)
  have hsum := s.sum_setThread Thread.stored i { s.thread i with pc := .loadArg }
  have hstored : Thread.stored { s.thread i with pc := .loadArg } =
      (s.thread i).stored := by simp [Thread.stored, hfrom]
  refine
    { thread := ?_, owner := ?_, glob := ?_, loaded := ?_
      numLoops := h.numLoops, main := ?_, printed := h.printed
      ended := h.ended }
  · intro j
    by_cases hj : j = i
    · subst hj
      have hth := h.thread j
      simp only [Thread.Inv, hfrom] at hth
      simpa [State.setThread, Thread.Inv] using hth
    · simpa [State.setThread, hj] using h.thread j
  · intro j
    by_cases hj : j = i
    · subst hj
      simpa [State.setThread, ThreadPc.inside, hfrom] using h.owner j
    · simpa [State.setThread, hj] using h.owner j
  · rw [hstored] at hsum
    have hsame : State.sum { s.setThread i { s.thread i with pc := .loadArg } with
        main := createNext (i + 1) } Thread.stored = s.sum Thread.stored :=
      Nat.add_right_cancel hsum
    rw [hsame]
    exact h.glob
  · intro j hstore
    by_cases hj : j = i
    · subst hj
      simp [State.setThread] at hstore
    · simp only [State.setThread, ne_eq, hj, not_false_eq_true,
        Function.update_of_ne] at hstore ⊢
      exact h.loaded j hstore
  · refine mainInv_createNext (i := i + 1) rfl ?_
    intro j
    by_cases hj : j = i
    · subst hj
      simp [State.setThread]
    · have hold := hmain j
      simp only [State.setThread, ne_eq, hj, not_false_eq_true,
        Function.update_of_ne]
      rw [hold]
      have hne : j.val ≠ i.val := fun heq => hj (Fin.ext heq)
      have hle : i ≤ j ↔ i.val ≤ j.val := Iff.rfl
      omega

theorem Inv.main_step {n : Nat} {s t : State} {a : Answer} (h : Inv n s)
    (hrunning : s.exited = none) (hstep : mainStep s a = some t) :
    Inv n t := by
  have hmain := h.main
  cases a with
  | ok =>
      cases hpc : s.main with
      | create i =>
          simp only [mainStep, hpc, Option.some.injEq] at hstep
          subst hstep
          exact h.create_step hpc
      | join i =>
          simp only [mainStep, hpc, Option.ite_none_right_eq_some,
            Option.some.injEq] at hstep
          obtain ⟨hreturned, rfl⟩ := hstep
          simp only [MainInv, hpc] at hmain
          refine
            { thread := h.thread, owner := h.owner, glob := h.glob
              loaded := h.loaded, numLoops := h.numLoops, main := ?_
              printed := h.printed, ended := h.ended }
          refine mainInv_joinNext (i := i + 1) rfl (fun k => (hmain k).1) ?_
          intro k hk
          by_cases hki : k = i
          · rw [hki]
            exact hreturned
          · have hne : k.val ≠ i.val := fun heq => hki (Fin.ext heq)
            exact (hmain k).2 (by rw [Fin.lt_def]; omega)
      | print =>
          simp only [mainStep, hpc, Option.some.injEq] at hstep
          subst hstep
          simp only [MainInv, hpc] at hmain
          exact
            { thread := h.thread, owner := h.owner, glob := h.glob
              loaded := h.loaded, numLoops := h.numLoops, main := rfl
              printed := by
                intro v hv
                rw [← h.glob_of_returned hmain]
                exact (Option.some.inj hv).symm
              ended := by simp [State.exit] }
      | done => simp [mainStep, hpc] at hstep
  | err =>
      cases hpc : s.main with
      | create i | join i =>
          simp only [mainStep, hpc, Option.some.injEq] at hstep
          subst hstep
          exact h.exit_failure hrunning
      | print | done => simp [mainStep, hpc] at hstep

/-! ## Whole runs -/

theorem Inv.next {n : Nat} {s t : State} {l : Label} (h : Inv n s)
    (hn : n < 2 ^ 31) (hstep : step s l = some t) : Inv n t := by
  simp only [step, Option.ite_none_left_eq_some, ne_eq, not_not] at hstep
  obtain ⟨hrunning, hstep⟩ := hstep
  cases l with
  | main a => exact h.main_step hrunning hstep
  | thread k a => exact h.thread_step hn hrunning hstep

end Lpi.Ports.ThreadIncrMutex
