import Lpi.Ports.ThreadIncrMutex
import Mathlib.Algebra.Order.BigOperators.Group.List

/-!
# No update is lost

The invariant of `Lpi.Ports.ThreadIncrMutex`, read off for every run: mutual
exclusion, the value of `glob` wherever the mutex is free, and the value that
`main` prints.  That `main` does print it follows from two more facts: until
the process has ended some thread can move, and `State.work` is lowered by
every step.
-/

namespace Lpi.Ports.ThreadIncrMutex

open Lpi.Verified.CData
open Lpi.Verified.Run
open Lpi.Verified.Tally

/-! ## Some thread can move -/

theorem Inv.inside_moves {s : State} {k : Fin numThreads}
    (hrunning : s.exited = none) (hinside : (s.thread k).pc.inside = true) :
    Enabled step s (.thread k .ok) := by
  rw [enabled_iff]
  cases hpc : (s.thread k).pc with
  | load | store | unlock => simp [step, hrunning, threadStep, hpc]
  | notCreated | loadArg | test | lock | increment | returned =>
      simp [hpc, ThreadPc.inside] at hinside

theorem Inv.progress {n : Nat} {s : State} (h : Inv n s)
    (hrunning : s.exited = none) : ∃ l, Enabled step s l := by
  have hmain := h.main
  cases hpc : s.main with
  | create i =>
      refine ⟨.main .ok, ?_⟩
      rw [enabled_iff]
      simp [step, hrunning, mainStep, hpc]
  | print =>
      refine ⟨.main .ok, ?_⟩
      rw [enabled_iff]
      simp [step, hrunning, mainStep, hpc]
  | done => simp [MainInv, hpc, hrunning] at hmain
  | join i =>
      simp only [MainInv, hpc] at hmain
      cases hti : (s.thread i).pc with
      | notCreated => exact absurd hti (hmain i).1
      | returned =>
          refine ⟨.main .ok, ?_⟩
          rw [enabled_iff]
          simp [step, hrunning, mainStep, hpc, hti]
      | loadArg | test | load | store | unlock | increment =>
          refine ⟨.thread i .ok, ?_⟩
          rw [enabled_iff]
          simp [step, hrunning, threadStep, hti]
      | lock =>
          -- The thread waits for the mutex, or for the one that is inside.
          cases hmutex : s.mutex with
          | none =>
              refine ⟨.thread i .ok, ?_⟩
              rw [enabled_iff]
              simp [step, hrunning, threadStep, hti, hmutex]
          | some k =>
              exact ⟨.thread k .ok,
                Inv.inside_moves hrunning ((h.owner k).2 hmutex)⟩

/-! ## The number of steps -/

/-- Steps a thread has left: an iteration takes six. -/
def Thread.work (n : Nat) (th : Thread) : Nat :=
  match th.pc with
  | .notCreated | .loadArg => 6 * n + 2
  | .test => 6 * (n - th.unlocks) + 1
  | .lock => 6 * (n - th.unlocks)
  | .load => 6 * (n - th.unlocks) - 1
  | .store => 6 * (n - th.unlocks) - 2
  | .unlock => 6 * (n - th.unlocks) - 3
  | .increment => 6 * (n - th.unlocks) + 2
  | .returned => 0

/-- Steps `main` has left. -/
def MainPc.work : MainPc → Nat
  | .create i => numThreads - i + numThreads + 1
  | .join i => numThreads - i + 1
  | .print => 1
  | .done => 0

/-- Steps left in the process; the one more is for an early exit. -/
def State.work (n : Nat) (s : State) : Nat :=
  if s.exited = none then s.main.work + s.sum (Thread.work n) + 1 else 0

theorem joinNext_work (i : Nat) : (joinNext i).work ≤ numThreads - i + 1 := by
  unfold joinNext
  by_cases hi : i < numThreads
  · rw [dif_pos hi]
    exact le_refl _
  · rw [dif_neg hi]
    simp [MainPc.work]

theorem createNext_work (i : Nat) :
    (createNext i).work ≤ numThreads - i + numThreads + 1 := by
  unfold createNext
  by_cases hi : i < numThreads
  · rw [dif_pos hi]
    exact le_refl _
  · rw [dif_neg hi]
    have := joinNext_work 0
    omega

theorem work_exit (n : Nat) (s : State) (status : Exit) :
    (s.exit status).work n = 0 := by
  simp [State.work, State.exit]

/-- A thread that comes closer to its end brings the process closer to its
end. -/
theorem work_setThread_lt {n : Nat} {s t : State} {k : Fin numThreads}
    {th : Thread} (hrunning : s.exited = none)
    (ht : t.thread = (s.setThread k th).thread) (hmain : t.main = s.main)
    (hexited : t.exited = s.exited) (hlt : th.work n < (s.thread k).work n) :
    t.work n < s.work n := by
  have hsum := s.sum_setThread (Thread.work n) k th
  have hsame : t.sum (Thread.work n) = (s.setThread k th).sum (Thread.work n) :=
    State.sum_congr fun j => by rw [ht]
  simp only [State.work, hexited, hrunning, hmain, hsame, if_true]
  omega

theorem work_main_lt {n : Nat} {s t : State} (hrunning : s.exited = none)
    (hthread : t.sum (Thread.work n) = s.sum (Thread.work n))
    (hexited : t.exited = s.exited) (hlt : t.main.work < s.main.work) :
    t.work n < s.work n := by
  simp only [State.work, hexited, hrunning, hthread, if_true]
  omega

theorem Inv.thread_work_lt {n : Nat} {s t : State} {k : Fin numThreads}
    {a : Answer} (h : Inv n s) (hn : n < 2 ^ 31) (hrunning : s.exited = none)
    (hstep : threadStep s k a = some t) : t.work n < s.work n := by
  have hth := h.thread k
  cases a with
  | ok =>
      cases hpc : (s.thread k).pc with
      | notCreated | returned => simp [threadStep, hpc] at hstep
      | loadArg =>
          simp only [Thread.Inv, hpc] at hth
          simp only [threadStep, hpc, Option.some.injEq] at hstep
          subst hstep
          refine work_setThread_lt hrunning rfl rfl rfl ?_
          simp [Thread.work, hpc, hth]
      | test =>
          simp only [Thread.Inv, hpc] at hth
          obtain ⟨hloops, hi, hle⟩ := hth
          have htest : (s.thread k).i < (s.thread k).numLoops ↔
              (s.thread k).unlocks < n := by
            rw [hloops, hi]
            exact ofNat_lt_ofNat (by omega) hn
          simp only [threadStep, hpc, htest, Option.some.injEq] at hstep
          subst hstep
          refine work_setThread_lt hrunning rfl rfl rfl ?_
          by_cases hlt : (s.thread k).unlocks < n
          · simp [Thread.work, hpc, hlt]
          · simp [Thread.work, hpc, hlt]
      | lock =>
          simp only [Thread.Inv, hpc] at hth
          simp only [threadStep, hpc, Option.ite_none_right_eq_some,
            Option.some.injEq] at hstep
          obtain ⟨_, rfl⟩ := hstep
          refine work_setThread_lt hrunning rfl rfl rfl ?_
          simp only [Thread.work, hpc]
          omega
      | load | store | unlock =>
          simp only [Thread.Inv, hpc] at hth
          simp only [threadStep, hpc, Option.some.injEq] at hstep
          subst hstep
          refine work_setThread_lt hrunning rfl rfl rfl ?_
          simp only [Thread.work, hpc]
          omega
      | increment =>
          simp only [threadStep, hpc, Option.some.injEq] at hstep
          subst hstep
          refine work_setThread_lt hrunning rfl rfl rfl ?_
          simp only [Thread.work, hpc]
          omega
  | err =>
      cases hpc : (s.thread k).pc with
      | lock | unlock =>
          simp only [threadStep, hpc, Option.some.injEq] at hstep
          subst hstep
          rw [work_exit]
          simp [State.work, hrunning]
      | notCreated | loadArg | test | load | store | increment | returned =>
          simp [threadStep, hpc] at hstep

theorem Inv.main_work_lt {n : Nat} {s t : State} {a : Answer} (h : Inv n s)
    (hrunning : s.exited = none) (hstep : mainStep s a = some t) :
    t.work n < s.work n := by
  have hmain := h.main
  cases a with
  | ok =>
      cases hpc : s.main with
      | create i =>
          simp only [MainInv, hpc] at hmain
          have hfrom : (s.thread i).pc = .notCreated := (hmain i).2 (le_refl i)
          simp only [mainStep, hpc, Option.some.injEq] at hstep
          subst hstep
          have hsum := s.sum_setThread (Thread.work n) i
            { s.thread i with pc := .loadArg }
          have hsame : Thread.work n { s.thread i with pc := .loadArg } =
              (s.thread i).work n := by simp [Thread.work, hfrom]
          rw [hsame] at hsum
          refine work_main_lt hrunning (Nat.add_right_cancel hsum) rfl ?_
          have hnext := createNext_work (i + 1)
          have hlt := i.isLt
          have hold : s.main.work = numThreads - i + numThreads + 1 := by
            rw [hpc]
            rfl
          rw [hold]
          exact Nat.lt_of_le_of_lt hnext (by omega)
      | join i =>
          simp only [mainStep, hpc, Option.ite_none_right_eq_some,
            Option.some.injEq] at hstep
          obtain ⟨_, rfl⟩ := hstep
          refine work_main_lt hrunning rfl rfl ?_
          have hnext := joinNext_work (i + 1)
          have hlt := i.isLt
          have hold : s.main.work = numThreads - i + 1 := by
            rw [hpc]
            rfl
          rw [hold]
          exact Nat.lt_of_le_of_lt hnext (by omega)
      | print =>
          simp only [mainStep, hpc, Option.some.injEq] at hstep
          subst hstep
          rw [work_exit]
          simp [State.work, hrunning]
      | done => simp [mainStep, hpc] at hstep
  | err =>
      cases hpc : s.main with
      | create i | join i =>
          simp only [mainStep, hpc, Option.some.injEq] at hstep
          subst hstep
          rw [work_exit]
          simp [State.work, hrunning]
      | print | done => simp [mainStep, hpc] at hstep

theorem Inv.work_lt {n : Nat} {s t : State} {l : Label} (h : Inv n s)
    (hn : n < 2 ^ 31) (hstep : step s l = some t) : t.work n < s.work n := by
  simp only [step, Option.ite_none_left_eq_some, ne_eq, not_not] at hstep
  obtain ⟨hrunning, hstep⟩ := hstep
  cases l with
  | main a => exact h.main_work_lt hrunning hstep
  | thread k a => exact h.thread_work_lt hn hrunning hstep

theorem work_start (n : Nat) (numLoops : Int32) :
    (start numLoops).work n = numThreads * (6 * n + 4) + 2 := by
  have hsum : (start numLoops).sum (Thread.work n) =
      numThreads * (6 * n + 2) := State.sum_eq_mul fun _ => rfl
  have hmain : (start numLoops).main.work = numThreads + numThreads + 1 := rfl
  have hexited : (start numLoops).exited = none := rfl
  simp only [State.work, hexited, if_true, hsum, hmain]
  ring

/-! ## Main result -/

/-- A thread has no more than its iterations behind it. -/
theorem Thread.Inv.unlocks_le {n : Nat} {th : Thread} (h : th.Inv n) :
    th.unlocks ≤ n := by
  cases hpc : th.pc <;> simp only [Thread.Inv, hpc] at h <;> omega

theorem Inv.iterations_le {n : Nat} {s : State} (h : Inv n s) :
    s.iterations ≤ numThreads * n := by
  have hle : ∀ u ∈ (List.finRange numThreads).map
      (fun k => (s.thread k).unlocks), u ≤ n := by
    intro u hu
    obtain ⟨k, _, rfl⟩ := List.mem_map.1 hu
    exact (h.thread k).unlocks_le
  have hsum := List.sum_le_card_nsmul _ n hle
  simpa [State.iterations, State.sum] using hsum

/-- With nobody inside, every store has been followed by its unlock. -/
theorem Inv.glob_of_free {n : Nat} {s : State} (h : Inv n s)
    (hfree : s.mutex = none) : s.glob = Int32.ofNat s.iterations := by
  rw [h.glob]
  congr 1
  unfold State.iterations State.sum
  congr 1
  apply List.map_congr_left
  intro k _
  have hout : (s.thread k).pc ≠ .unlock := by
    intro hpc
    have := (h.owner k).1 (by rw [hpc]; rfl)
    simp [hfree] at this
  simp [Thread.stored, hout]

/-- **No lost update.**  For every number of loops whose total an `int` can
hold and every interleaving: at most one thread is between its lock and its
unlock; where the mutex is free, `glob` is the number of iterations that have
been unlocked; what `main` prints is `NUM_THREADS * numLoops`, and it prints
it, for the process can move until it has ended, which happens within a
bounded number of steps, and a successful end comes after the `printf`. -/
theorem no_update_lost (numLoops : Int32) (hnonneg : 0 ≤ numLoops.toInt)
    (hmax : numThreads * numLoops.toInt ≤ 2 ^ 31 - 1) (ls : List Label)
    (s : State) (hrun : exec step (start numLoops) ls = some s) :
    (∀ j k, (s.thread j).pc.inside = true → (s.thread k).pc.inside = true →
      j = k) ∧
    (s.mutex = none → s.glob.toInt = s.iterations) ∧
    (∀ v, s.printed = some v → v.toInt = numThreads * numLoops.toInt) ∧
    (s.exited = some .success → s.printed ≠ none) ∧
    (s.exited = none → ∃ l, Enabled step s l) ∧
    ls.length ≤ numThreads * (6 * numLoops.toInt.toNat + 4) + 2 := by
  obtain ⟨n, hn⟩ : ∃ n : Nat, numLoops.toInt = n :=
    ⟨numLoops.toInt.toNat, (Int.toNat_of_nonneg hnonneg).symm⟩
  have htotal : numThreads * n < 2 ^ 31 := by
    rw [hn] at hmax
    omega
  have hlt : n < 2 ^ 31 := by
    simp only [numThreads] at htotal
    omega
  have hloops : numLoops = Int32.ofNat n := by
    rw [← Int32.toInt_inj, hn, Int32.toInt_ofNat_of_lt hlt]
  have hkeep : ∀ s l t, Inv n s → step s l = some t → Inv n t :=
    fun _ _ _ hI hstep => hI.next hlt hstep
  have hinv : Inv n s := Reachable.invariant hkeep (start_inv hloops) ⟨ls, hrun⟩
  refine ⟨fun j k => hinv.exclusive, ?_, ?_, hinv.ended, hinv.progress, ?_⟩
  · intro hfree
    rw [hinv.glob_of_free hfree]
    have hle := hinv.iterations_le
    exact Int32.toInt_ofNat_of_lt (by omega)
  · intro v hv
    rw [hinv.printed v hv, Int32.toInt_ofNat_of_lt htotal, hn]
    simp
  · have hle := exec_length_add_le (μ := State.work n) hkeep
      (fun _ _ _ hI hstep => hI.work_lt hlt hstep) (start_inv hloops) hrun
    rw [work_start] at hle
    rw [hn, Int.toNat_natCast]
    omega

/-- One iteration each, the second thread being about to lock the mutex when
the first one has loaded `glob`. -/
theorem no_update_lost_one_loop :
    ∃ s, Reachable step (start 1) s ∧ s.exited = some .success ∧
      s.printed = some 2 ∧ (2 : Int32).toInt = numThreads * (1 : Int32).toInt := by
  let first : Fin numThreads := ⟨0, by decide⟩
  let second : Fin numThreads := ⟨1, by decide⟩
  let ls := [Label.main .ok, .main .ok] ++
    List.replicate 4 (Label.thread first .ok) ++
    List.replicate 2 (Label.thread second .ok) ++
    List.replicate 4 (Label.thread first .ok) ++
    List.replicate 6 (Label.thread second .ok) ++ List.replicate 3 (Label.main .ok)
  obtain ⟨s, hs, hexited, hprinted⟩ := exists_exec step
    (fun s => s.exited = some .success ∧ s.printed = some 2) (start 1) ls
    (by decide)
  obtain ⟨_, _, htotal, _⟩ :=
    no_update_lost 1 (by decide) (by decide) ls s hs
  exact ⟨s, ⟨ls, hs⟩, hexited, hprinted, htotal 2 hprinted⟩

end Lpi.Ports.ThreadIncrMutex
