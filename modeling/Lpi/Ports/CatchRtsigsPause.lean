import Lpi.Ports.CatchRtsigsCount

/-!
# A request to end that comes between test and `pause()`

`main` tests `isDone` and then calls `pause()`.  A handler that sets the flag
after the test and returns before the call is not noticed: `pause()` waits
for the next signal, which may never come.

`awake_when_done` says that nothing else can go wrong: if no `SIGINT` or
`SIGTERM` is delivered between the two, `main` is never left in `pause()`
with the flag set.
-/

namespace Lpi.Ports.CatchRtsigs

open Lpi.Verified.Run

/-- `main` waits in `pause()` although `isDone` is set, and nothing is on its
way to wake it. -/
def Overslept (s : State) : Prop :=
  s.isDone = true ∧ s.main = .paused ∧ s.frames = [] ∧ s.pending = []

instance (s : State) : Decidable (Overslept s) :=
  inferInstanceAs (Decidable (_ ∧ _ ∧ _ ∧ _))

/-- A signal that ends the program is delivered between the test of `isDone`
and the call of `pause()`. -/
def endsInWindow (s : State) : Label → Bool
  | .deliver sig => terminates sig && s.main = .pause
  | _ => false

structure Alert (s : State) : Prop where
  inv : Inv s
  window : s.main = .pause →
    s.isDone = false ∧ ∀ f ∈ s.frames, terminates f.signal = false
  asleep : s.main = .paused → s.frames = [] → s.isDone = false

theorem start_alert (blockTime : Bool) : Alert (start blockTime) where
  inv := start_inv blockTime
  window := fun _ => ⟨rfl, by simp [start]⟩
  asleep := fun _ _ => rfl

/-- The innermost invocation moves and leaves `isDone` as it is. -/
theorem Alert.frame_moves {s t : State} (h : Alert s) {f f' : Frame}
    {fs : List Frame} (hinv : Inv t) (hs : s.frames = f :: fs)
    (ht : t.frames = f' :: fs) (hsignal : f'.signal = f.signal)
    (hmain : t.main = s.main) (hdone : t.isDone = s.isDone) : Alert t := by
  refine ⟨hinv, ?_, ?_⟩
  · intro hpause
    rw [hmain] at hpause
    obtain ⟨hnot, hframes⟩ := h.window hpause
    refine ⟨hdone.trans hnot, ?_⟩
    intro g hg
    rw [ht, List.mem_cons] at hg
    rcases hg with rfl | hg
    · rw [hsignal]
      exact hframes f (by rw [hs]; exact List.mem_cons_self)
    · exact hframes g (by rw [hs]; exact List.mem_cons_of_mem _ hg)
  · intro _ hnil
    rw [ht] at hnil
    cases hnil

theorem Alert.handler_step {s t : State} (h : Alert s)
    (hstep : handlerStep s = some t) : Alert t := by
  have hinv := (h.inv.handler_step hstep).1
  cases hs : s.frames with
  | nil => simp [handlerStep, hs] at hstep
  | cons f fs =>
      have hhead : f ∈ s.frames := by rw [hs]; exact List.mem_cons_self
      cases hpc : f.pc with
      | test =>
          simp only [handlerStep, hs, hpc] at hstep
          split at hstep <;> cases hstep
          · exact h.frame_moves hinv hs rfl rfl rfl rfl
          · exact h.frame_moves hinv hs rfl rfl rfl rfl
      | print | sleep | load | store v =>
          simp only [handlerStep, hs, hpc, Option.some.injEq] at hstep
          subst hstep
          exact h.frame_moves hinv hs rfl rfl rfl rfl
      | setDone =>
          have hends : terminates f.signal = true := by
            have hwf := h.inv.frames f hhead
            simpa only [Frame.WellFormed, hpc] using hwf
          simp only [handlerStep, hs, hpc, Option.some.injEq] at hstep
          subst hstep
          refine ⟨hinv, ?_, ?_⟩
          · -- In the window there is no such invocation.
            intro hpause
            have hnone := (h.window hpause).2 f hhead
            rw [hends] at hnone
            cases hnone
          · exact fun _ hnil => absurd hnil (List.cons_ne_nil _ _)
      | finish =>
          simp only [handlerStep, hs, hpc, Option.some.injEq] at hstep
          subst hstep
          refine ⟨hinv, ?_, ?_⟩
          · intro hpause
            have hwas : s.main = .pause := by
              simp only at hpause
              split at hpause
              · cases hpause
              · exact hpause
            obtain ⟨hnot, hframes⟩ := h.window hwas
            refine ⟨hnot, ?_⟩
            intro g hg
            exact hframes g (by rw [hs]; exact List.mem_cons_of_mem _ hg)
          · intro hpaused hnil
            simp only at hpaused hnil
            split at hpaused
            · cases hpaused
            · rename_i hnot
              exact absurd ⟨hnil, hpaused⟩ hnot

theorem Alert.main_step {s t : State} (h : Alert s) (hinv : Inv t)
    (hstep : mainStep s = some t) : Alert t := by
  simp only [mainStep, Option.ite_none_left_eq_some, not_not] at hstep
  obtain ⟨hnil, hstep⟩ := hstep
  cases hmain : s.main with
  | blocked | unblock | report =>
      simp only [hmain, Option.some.injEq] at hstep
      subst hstep
      exact ⟨hinv, by simp, by simp⟩
  | test =>
      simp only [hmain, Option.some.injEq] at hstep
      subst hstep
      refine ⟨hinv, ?_, ?_⟩
      · intro hpause
        simp only at hpause
        split at hpause
        · cases hpause
        · rename_i hdone
          refine ⟨Bool.eq_false_iff.2 hdone, ?_⟩
          intro f hf
          rw [show s.frames = [] from hnil] at hf
          cases hf
      · intro hpaused
        simp only at hpaused
        split at hpaused <;> cases hpaused
  | pause =>
      simp only [hmain, Option.some.injEq] at hstep
      subst hstep
      exact ⟨hinv, by simp, fun _ _ => (h.window hmain).1⟩
  | paused | exited => simp [hmain] at hstep

theorem Alert.next {s t : State} {l : Label} (h : Alert s)
    (hl : ¬ endsInWindow s l = true) (hstep : step s l = some t) :
    Alert t := by
  have hinv := (h.inv.next hstep).1
  simp only [step, Option.ite_none_left_eq_some] at hstep
  obtain ⟨_, hstep⟩ := hstep
  cases l with
  | kill sig =>
      simp only [killStep, Option.ite_none_right_eq_some] at hstep
      obtain ⟨_, hstep⟩ := hstep
      split at hstep <;> cases hstep
      · exact h
      · exact ⟨hinv, h.window, h.asleep⟩
  | deliver sig =>
      simp only [deliverStep, Option.ite_none_right_eq_some,
        Option.some.injEq] at hstep
      obtain ⟨_, rfl⟩ := hstep
      refine ⟨hinv, ?_, by simp⟩
      intro hpause
      obtain ⟨hnot, hframes⟩ := h.window hpause
      refine ⟨hnot, ?_⟩
      intro f hf
      rw [List.mem_cons] at hf
      rcases hf with rfl | hf
      · rw [Bool.eq_false_iff]
        intro hends
        exact hl (by simp [endsInWindow, hends, show s.main = .pause from hpause])
      · exact hframes f hf
  | handler => exact h.handler_step hstep
  | main => exact h.main_step hinv hstep

/-- **When a request to end is not lost.**  In no state of a run in which no
`SIGINT` or `SIGTERM` is delivered between the test of `isDone` and the call
of `pause()` does `main` wait in `pause()` with the flag set, no handler
active and no signal pending. -/
theorem awake_when_done (blockTime : Bool) (ls : List Label) (s : State)
    (hwindow : Along step (fun s l => ¬ endsInWindow s l = true)
      (start blockTime) ls)
    (hrun : exec step (start blockTime) ls = some s) : ¬ Overslept s := by
  have halert : Alert s := invariant_along
    (fun _ _ _ h hl hstep => Alert.next h hl hstep)
    (start_alert blockTime) hwindow hrun
  rintro ⟨hdone, hpaused, hframes, _⟩
  rw [halert.asleep hpaused hframes] at hdone
  cases hdone

/-- `SIGTERM` while `main` is in `pause()`, inside the handler of
`SIGUSR1`. -/
def terminatedAsleep : List Label :=
  [.main, .main, .kill 10, .deliver 10, .handler, .kill 15, .deliver 15,
    .handler, .handler, .handler, .handler, .handler, .handler, .handler,
    .handler, .main]

theorem awake_when_done_in_pause :
    ∃ s, exec step (start false) terminatedAsleep = some s ∧
      s.isDone = true ∧ s.main = .report ∧ ¬ Overslept s := by
  obtain ⟨s, hs, hdone, hmain⟩ := exists_exec step
    (fun s => s.isDone = true ∧ s.main = .report) (start false)
    terminatedAsleep (by decide)
  exact ⟨s, hs, hdone, hmain,
    awake_when_done false terminatedAsleep s (by decide) hs⟩

/-- `SIGINT` just after the test: `main` goes to sleep with the flag set. -/
theorem request_to_end_lost :
    ∃ s, exec step (start false)
        [.main, .kill 2, .deliver 2, .handler, .handler, .handler, .main] =
        some s ∧ Overslept s :=
  exists_exec step _ _ _ (by decide)

end Lpi.Ports.CatchRtsigs
