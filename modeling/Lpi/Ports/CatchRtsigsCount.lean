import Lpi.Ports.CatchRtsigs
import Lpi.Verified.Run

/-!
# What the signal counter counts

An invocation that is interrupted between its load and its store throws away
what the interrupting ones have counted.  The value that will be in the end
is decided by the oldest such invocation (`State.effective`); every other one
on top of it counts for nothing.

`numSigsCaught_exact` is the condition for the counter to be right: no signal
that counts is delivered in that window, and the counter does not wrap.
-/

namespace Lpi.Ports.CatchRtsigs

open Lpi.Verified.Run

/-! ## The account -/

/-- The value an invocation is going to increment and store. -/
def Frame.loaded (f : Frame) : Option UInt64 :=
  match f.pc with
  | .store v => some v
  | _ => none

/-- What the oldest invocation between load and store has loaded. -/
def oldestLoad : List Frame → Option UInt64
  | [] => none
  | f :: fs => (oldestLoad fs).or f.loaded

/-- The counter as it will be when nobody stores on top of an older load. -/
def State.effective (s : State) : UInt64 :=
  (oldestLoad s.frames).getD s.numSigsCaught

/-- The invocation is going to count its signal. -/
def Frame.owes (f : Frame) : Bool :=
  match f.pc with
  | .test | .print | .sleep | .load | .store _ => !terminates f.signal
  | .setDone | .finish => false

/-- The invocation has counted its signal and not returned. -/
def Frame.counted (f : Frame) : Bool :=
  f.pc = .finish && !terminates f.signal

/-- Everything counted so far. -/
def State.counted (s : State) : Nat :=
  s.completed + s.frames.countP Frame.counted

/-- Some invocation is going to count on top of an older load. -/
def nested : List Frame → Bool
  | [] => false
  | f :: fs => (f.owes && (oldestLoad fs).isSome) || nested fs

/-- A signal was lost, or is going to be. -/
def Lost (s : State) : Prop :=
  s.effective.toNat < s.counted ∨ nested s.frames = true

/-- Both branches of the first test keep to their signals. -/
def Frame.WellFormed (f : Frame) : Prop :=
  match f.pc with
  | .setDone => terminates f.signal = true
  | .print | .sleep | .load | .store _ => terminates f.signal = false
  | .test | .finish => True

structure Inv (s : State) : Prop where
  frames : ∀ f ∈ s.frames, f.WellFormed
  le : s.effective.toNat ≤ s.counted

theorem start_inv (blockTime : Bool) : Inv (start blockTime) where
  frames := by simp [start]
  le := by decide +revert

/-- A signal that counts is delivered while some invocation is between its
load and its store, or an increment wraps. -/
def miscounts (s : State) : Label → Bool
  | .deliver sig => !terminates sig && s.frames.any (·.loaded.isSome)
  | .handler => s.frames.head?.any (·.pc = .store (-1))
  | _ => false

theorem isSome_oldestLoad (fs : List Frame) :
    (oldestLoad fs).isSome = fs.any (·.loaded.isSome) := by
  induction fs with
  | nil => rfl
  | cons f fs ih =>
      rw [oldestLoad, Option.isSome_or, List.any_cons, ih, Bool.or_comm]

theorem isSome_of_nested {fs : List Frame} (h : nested fs = true) :
    (oldestLoad fs).isSome = true := by
  induction fs with
  | nil => cases h
  | cons f fs ih =>
      rw [oldestLoad, Option.isSome_or]
      simp only [nested, Bool.or_eq_true, Bool.and_eq_true] at h
      rcases h with ⟨_, hload⟩ | hrest
      · rw [hload, Bool.true_or]
      · rw [ih hrest, Bool.true_or]

/-! ## Steps -/

/-- A step that leaves the account alone. -/
theorem lost_congr {s t : State} (heffective : t.effective = s.effective)
    (hcounted : t.counted = s.counted)
    (hnested : nested t.frames = nested s.frames) : Lost t ↔ Lost s := by
  unfold Lost
  rw [heffective, hcounted, hnested]

/-- The innermost invocation moves without loading, storing or returning. -/
theorem Inv.moves {s : State} (h : Inv s) {f f' : Frame} {fs : List Frame}
    {done : Bool} (hs : s.frames = f :: fs) (hwf : f'.WellFormed)
    (hloaded : f'.loaded = f.loaded) (howes : f'.owes = f.owes)
    (hcounted : f'.counted = f.counted) :
    Inv { s with frames := f' :: fs, isDone := done } ∧
    (Lost { s with frames := f' :: fs, isDone := done } ↔ Lost s) := by
  have heffective : State.effective
      { s with frames := f' :: fs, isDone := done } = s.effective := by
    unfold State.effective
    rw [hs, oldestLoad, oldestLoad, hloaded]
  have hcount : State.counted
      { s with frames := f' :: fs, isDone := done } = s.counted := by
    unfold State.counted
    rw [hs, List.countP_cons, List.countP_cons, hcounted]
  refine ⟨⟨?_, ?_⟩, lost_congr heffective hcount ?_⟩
  · intro g hg
    rw [List.mem_cons] at hg
    rcases hg with rfl | hg
    · exact hwf
    · exact h.frames g (by rw [hs]; exact List.mem_cons_of_mem _ hg)
  · rw [heffective, hcount]
    exact h.le
  · rw [hs, nested, nested, howes]

/-- The load.  The invocation that loads while nobody is between load and
store becomes the one that decides. -/
theorem Inv.load {s : State} (h : Inv s) {f : Frame} {fs : List Frame}
    (hs : s.frames = f :: fs) (hpc : f.pc = .load) :
    Inv { s with frames := { f with pc := .store s.numSigsCaught } :: fs } ∧
    (Lost { s with frames := { f with pc := .store s.numSigsCaught } :: fs } ↔
      Lost s) := by
  have hwf : f.WellFormed := h.frames f (by rw [hs]; exact List.mem_cons_self)
  have heffective : State.effective
      { s with frames := { f with pc := .store s.numSigsCaught } :: fs } =
      s.effective := by
    unfold State.effective
    rw [hs, oldestLoad, oldestLoad]
    simp only [Frame.loaded, hpc, Option.or_none]
    cases oldestLoad fs with
    | none => rfl
    | some v => rfl
  have hcount : State.counted
      { s with frames := { f with pc := .store s.numSigsCaught } :: fs } =
      s.counted := by
    unfold State.counted
    rw [hs, List.countP_cons, List.countP_cons]
    simp [Frame.counted, hpc]
  refine ⟨⟨?_, ?_⟩, lost_congr heffective hcount ?_⟩
  · intro g hg
    rw [List.mem_cons] at hg
    rcases hg with rfl | hg
    · simpa [Frame.WellFormed, hpc] using hwf
    · exact h.frames g (by rw [hs]; exact List.mem_cons_of_mem _ hg)
  · rw [heffective, hcount]
    exact h.le
  · rw [hs, nested, nested]
    simp [Frame.owes, hpc]

theorem toNat_succ {v : UInt64} (hv : v ≠ -1) : (v + 1).toNat = v.toNat + 1 := by
  have hlt : v.toNat < 2 ^ 64 := v.toNat_lt
  have hne : v.toNat ≠ 2 ^ 64 - 1 := by
    intro heq
    apply hv
    rw [← UInt64.toNat_inj, heq]
    rfl
  rw [UInt64.toNat_add, UInt64.toNat_one]
  omega

theorem toNat_succ_le (v : UInt64) : (v + 1).toNat ≤ v.toNat + 1 := by
  rw [UInt64.toNat_add, UInt64.toNat_one]
  omega

/-- The store.  On top of an older load it counts for nothing. -/
theorem Inv.store {s : State} (h : Inv s) {f : Frame} {fs : List Frame}
    {v : UInt64} (hs : s.frames = f :: fs) (hpc : f.pc = .store v) :
    Inv { s with frames := { f with pc := .finish } :: fs
                 numSigsCaught := v + 1 } ∧
    (Lost { s with frames := { f with pc := .finish } :: fs
                   numSigsCaught := v + 1 } ↔ Lost s ∨ v = -1) := by
  have hwf : f.WellFormed := h.frames f (by rw [hs]; exact List.mem_cons_self)
  have hsignal : terminates f.signal = false := by
    simpa [Frame.WellFormed, hpc] using hwf
  have hcount : State.counted
      { s with frames := { f with pc := .finish } :: fs
               numSigsCaught := v + 1 } = s.counted + 1 := by
    unfold State.counted
    rw [hs, List.countP_cons, List.countP_cons]
    simp [Frame.counted, hpc, hsignal]
    omega
  have hframes : ∀ g ∈ { f with pc := .finish } :: fs, g.WellFormed := by
    intro g hg
    rw [List.mem_cons] at hg
    rcases hg with rfl | hg
    · trivial
    · exact h.frames g (by rw [hs]; exact List.mem_cons_of_mem _ hg)
  have hle := h.le
  cases hold : oldestLoad fs with
  | some w =>
      have hbefore : s.effective = w := by
        unfold State.effective
        rw [hs, oldestLoad, hold]
        rfl
      have hafter : State.effective
          { s with frames := { f with pc := .finish } :: fs
                   numSigsCaught := v + 1 } = w := by
        unfold State.effective
        rw [oldestLoad, hold]
        rfl
      have hnested : nested s.frames = true := by
        rw [hs, nested, hold]
        simp [Frame.owes, hpc, hsignal]
      rw [hbefore] at hle
      refine ⟨⟨hframes, ?_⟩, iff_of_true (Or.inl ?_) (Or.inl (Or.inr hnested))⟩
      · rw [hafter, hcount]
        omega
      · rw [hafter, hcount]
        omega
  | none =>
      have hbefore : s.effective = v := by
        unfold State.effective
        rw [hs, oldestLoad, hold, Frame.loaded, hpc]
        rfl
      have hafter : State.effective
          { s with frames := { f with pc := .finish } :: fs
                   numSigsCaught := v + 1 } = v + 1 := by
        unfold State.effective
        rw [oldestLoad, hold]
        rfl
      have hfs : nested fs = false := by
        by_contra hnested
        have hsome := isSome_of_nested (Bool.not_eq_false _ ▸ hnested)
        rw [hold] at hsome
        cases hsome
      rw [hbefore] at hle
      have hsucc := toNat_succ_le v
      refine ⟨⟨hframes, ?_⟩, ?_⟩
      · rw [hafter, hcount]
        omega
      · unfold Lost
        rw [hafter, hcount, hbefore, hs, nested, nested, hold, hfs]
        simp only [Option.isSome_none, Bool.and_false, Bool.or_false,
          Bool.false_eq_true, or_false]
        by_cases hv : v = -1
        · subst hv
          exact iff_of_true (Nat.succ_pos _) (Or.inr rfl)
        · rw [toNat_succ hv]
          simp [hv]

/-- The return. -/
theorem Inv.finish {s t : State} (h : Inv s) {f : Frame} {fs : List Frame}
    (hs : s.frames = f :: fs) (hpc : f.pc = .finish) (ht : t.frames = fs)
    (hcaught : t.numSigsCaught = s.numSigsCaught)
    (hcompleted : t.completed = s.completed + (!terminates f.signal).toNat) :
    Inv t ∧ (Lost t ↔ Lost s) := by
  have heffective : t.effective = s.effective := by
    unfold State.effective
    rw [hs, ht, hcaught, oldestLoad]
    simp [Frame.loaded, hpc]
  have hcount : t.counted = s.counted := by
    unfold State.counted
    rw [hs, ht, hcompleted, List.countP_cons]
    cases hsignal : terminates f.signal <;>
      simp [Frame.counted, hpc, hsignal]
    omega
  refine ⟨⟨?_, ?_⟩, lost_congr heffective hcount ?_⟩
  · intro g hg
    rw [ht] at hg
    exact h.frames g (by rw [hs]; exact List.mem_cons_of_mem _ hg)
  · rw [heffective, hcount]
    exact h.le
  · rw [hs, ht, nested]
    simp [Frame.owes, hpc]

theorem Inv.handler_step {s t : State} (h : Inv s)
    (hstep : handlerStep s = some t) :
    Inv t ∧ (Lost t ↔ Lost s ∨ miscounts s .handler = true) := by
  cases hs : s.frames with
  | nil => simp [handlerStep, hs] at hstep
  | cons f fs =>
      have hwf : f.WellFormed :=
        h.frames f (by rw [hs]; exact List.mem_cons_self)
      have hmiscounts : miscounts s .handler = true ↔ f.pc = .store (-1) := by
        simp [miscounts, hs]
      rw [hmiscounts]
      -- Only the store can wrap.
      have hquiet : Inv t ∧ (Lost t ↔ Lost s) → f.pc ≠ .store (-1) →
          Inv t ∧ (Lost t ↔ Lost s ∨ f.pc = .store (-1)) := by
        rintro ⟨hinv, hlost⟩ hpc
        simp [hinv, hlost, hpc]
      cases hpc : f.pc with
      | test =>
          rw [← hpc]
          simp only [handlerStep, hs, hpc] at hstep
          split at hstep
          · rename_i hsignal
            cases hstep
            apply hquiet _ (by rw [hpc]; exact nofun)
            apply h.moves hs
            · exact hsignal
            · simp [Frame.loaded, hpc]
            · simp [Frame.owes, hpc, hsignal]
            · simp [Frame.counted, hpc]
          · rename_i hsignal
            cases hstep
            apply hquiet _ (by rw [hpc]; exact nofun)
            apply h.moves hs
            · exact Bool.eq_false_iff.2 hsignal
            · simp [Frame.loaded, hpc]
            · simp [Frame.owes, hpc]
            · simp [Frame.counted, hpc]
      | setDone =>
          rw [← hpc]
          simp only [Frame.WellFormed, hpc] at hwf
          simp only [handlerStep, hs, hpc, Option.some.injEq] at hstep
          subst hstep
          apply hquiet _ (by rw [hpc]; exact nofun)
          apply h.moves hs
          · trivial
          · simp [Frame.loaded, hpc]
          · simp [Frame.owes, hpc]
          · simp [Frame.counted, hpc, hwf]
      | print | sleep =>
          rw [← hpc]
          simp only [Frame.WellFormed, hpc] at hwf
          simp only [handlerStep, hs, hpc, Option.some.injEq] at hstep
          subst hstep
          apply hquiet _ (by rw [hpc]; exact nofun)
          apply h.moves hs
          · exact hwf
          · simp [Frame.loaded, hpc]
          · simp [Frame.owes, hpc]
          · simp [Frame.counted, hpc]
      | load =>
          rw [← hpc]
          simp only [handlerStep, hs, hpc, Option.some.injEq] at hstep
          subst hstep
          exact hquiet (h.load hs hpc) (by rw [hpc]; exact nofun)
      | store v =>
          simp only [handlerStep, hs, hpc, Option.some.injEq] at hstep
          subst hstep
          rw [HandlerPc.store.injEq]
          exact h.store hs hpc
      | finish =>
          rw [← hpc]
          simp only [handlerStep, hs, hpc, Option.some.injEq] at hstep
          subst hstep
          exact hquiet (h.finish hs hpc rfl rfl rfl) (by rw [hpc]; exact nofun)

theorem Inv.deliver_step {s t : State} (h : Inv s) {sig : Nat}
    (hstep : deliverStep s sig = some t) :
    Inv t ∧ (Lost t ↔ Lost s ∨ miscounts s (.deliver sig) = true) := by
  simp only [deliverStep, Option.ite_none_right_eq_some,
    Option.some.injEq] at hstep
  obtain ⟨_, rfl⟩ := hstep
  have heffective : State.effective
      { s with pending := s.pending.erase sig
               frames := ⟨sig, .test⟩ :: s.frames } = s.effective := by
    unfold State.effective
    rw [oldestLoad]
    simp [Frame.loaded]
  have hcount : State.counted
      { s with pending := s.pending.erase sig
               frames := ⟨sig, .test⟩ :: s.frames } = s.counted := by
    unfold State.counted
    rw [List.countP_cons]
    simp [Frame.counted]
  refine ⟨⟨?_, ?_⟩, ?_⟩
  · intro f hf
    rw [List.mem_cons] at hf
    rcases hf with rfl | hf
    · trivial
    · exact h.frames f hf
  · rw [heffective, hcount]
    exact h.le
  · unfold Lost
    rw [heffective, hcount, nested, isSome_oldestLoad]
    simp only [Frame.owes, miscounts, Bool.or_eq_true]
    rw [or_comm (b := nested s.frames = true), or_assoc]

theorem Inv.next {s t : State} {l : Label} (h : Inv s)
    (hstep : step s l = some t) :
    Inv t ∧ (Lost t ↔ Lost s ∨ miscounts s l = true) := by
  simp only [step, Option.ite_none_left_eq_some] at hstep
  obtain ⟨_, hstep⟩ := hstep
  -- Neither a new signal nor `main` touches the account.
  have hframe : t.frames = s.frames → t.numSigsCaught = s.numSigsCaught →
      t.completed = s.completed → miscounts s l = false →
      Inv t ∧ (Lost t ↔ Lost s ∨ miscounts s l = true) := by
    intro hframes hcaught hcompleted hl
    have heffective : t.effective = s.effective := by
      unfold State.effective
      rw [hframes, hcaught]
    have hcount : t.counted = s.counted := by
      unfold State.counted
      rw [hframes, hcompleted]
    refine ⟨⟨hframes ▸ h.frames, ?_⟩, ?_⟩
    · rw [heffective, hcount]
      exact h.le
    · rw [hl, lost_congr heffective hcount (by rw [hframes])]
      simp
  cases l with
  | kill sig =>
      simp only [killStep, Option.ite_none_right_eq_some] at hstep
      obtain ⟨_, hstep⟩ := hstep
      split at hstep <;> cases hstep
      · exact hframe rfl rfl rfl rfl
      · exact hframe rfl rfl rfl rfl
  | deliver sig => exact h.deliver_step hstep
  | handler => exact h.handler_step hstep
  | main =>
      simp only [mainStep, Option.ite_none_left_eq_some] at hstep
      obtain ⟨_, hstep⟩ := hstep
      cases hmain : s.main <;>
        simp only [hmain, Option.some.injEq, reduceCtorEq] at hstep
      all_goals
        subst hstep
        exact hframe rfl rfl rfl rfl

/-! ## Whole runs -/

/-- **When no signal is lost.**  In every run that ends with no handler
active, `numSigsCaught` is the number of completed invocations for signals
other than `SIGINT` and `SIGTERM` if and only if no such signal was delivered
while some invocation was between its load and its store of the counter, and
no increment wrapped. -/
theorem numSigsCaught_exact (blockTime : Bool) (ls : List Label) (s : State)
    (hrun : exec step (start blockTime) ls = some s) (hidle : s.frames = []) :
    s.numSigsCaught.toNat = s.completed ↔
      Along step (fun s l => ¬ miscounts s l = true) (start blockTime) ls := by
  have hinv : Inv s := Reachable.invariant
    (fun _ _ _ h hstep => (Inv.next h hstep).1) (start_inv blockTime) ⟨ls, hrun⟩
  have hlatch := latch_along (L := Lost)
    (E := fun s l => miscounts s l = true)
    (fun _ _ _ h hstep => (Inv.next h hstep).1)
    (fun _ _ _ h hstep => (Inv.next h hstep).2) (start_inv blockTime) hrun
  have hstart : ¬ Lost (start blockTime) := by
    rintro (hlt | hnested)
    · exact absurd hlt (by simp [State.effective, State.counted, start, oldestLoad])
    · cases hnested
  have heffective : s.effective = s.numSigsCaught := by
    unfold State.effective
    rw [hidle]
    rfl
  have hcount : s.counted = s.completed := by
    unfold State.counted
    rw [hidle]
    rfl
  have hle := hinv.le
  rw [heffective, hcount] at hle
  have hlost : ¬ Lost s ↔ s.numSigsCaught.toNat = s.completed := by
    unfold Lost
    rw [heffective, hcount, hidle, nested]
    simp only [Bool.false_eq_true, or_false]
    omega
  rw [← hlost, hlatch]
  exact ⟨fun hboth => hboth.2, fun halong => ⟨hstart, halong⟩⟩

/-- All steps of an invocation that counts its signal. -/
def invocation : List Label := List.replicate 6 .handler

/-- `SIGUSR1` interrupted by `SIGINT` between load and store, which does not
matter, then `SIGUSR2` interrupted by `SIGUSR1` before its load. -/
def twoCounted : List Label :=
  [.main, .main, .kill 10, .deliver 10, .handler, .handler, .handler, .handler,
    .kill 2, .deliver 2, .handler, .handler, .handler, .handler, .handler,
    .kill 12, .deliver 12, .handler, .kill 10, .deliver 10] ++ invocation ++
    [.handler, .handler, .handler, .handler, .handler]

theorem numSigsCaught_exact_two_signals :
    ∃ s, exec step (start false) twoCounted = some s ∧ s.frames = [] ∧
      s.completed = 3 ∧ s.numSigsCaught.toNat = s.completed := by
  obtain ⟨s, hs, hframes, hcompleted⟩ := exists_exec step
    (fun s => s.frames = [] ∧ s.completed = 3) (start false) twoCounted
    (by decide)
  exact ⟨s, hs, hframes, hcompleted,
    (numSigsCaught_exact false twoCounted s hs hframes).2 (by decide)⟩

/-- `SIGUSR2` arrives when the handler of `SIGUSR1` has loaded the counter:
two invocations, one signal counted. -/
theorem interrupted_update_lost :
    ∃ s, exec step (start false)
        ([.main, .main, .kill 10, .deliver 10, .handler, .handler, .handler,
          .handler, .kill 12, .deliver 12] ++ invocation ++
          [.handler, .handler]) = some s ∧
      s.frames = [] ∧ s.completed = 2 ∧ s.numSigsCaught = 1 :=
  exists_exec step _ _ _ (by decide)

end Lpi.Ports.CatchRtsigs
