import Lpi.Verified.Family
import Lpi.Verified.Simulation
import Mathlib.Algebra.Group.Action.Defs
import Mathlib.Algebra.Order.BigOperators.Group.Finset
import Mathlib.Data.Fintype.Basic

/-!
# Counting without a lock

Each of some threads increments a counter `n` times, and an increment is a load
and a store with the steps of others between them.  Increments get lost then, but
not all of them: with at least two for each thread, the last store of all is not
the first one of its thread, and what it stores was loaded after that
(`State.Low`).

So the counter ends between 2 and the number of increments (`final_bounds`), and
for two threads each value between can be had (`exists_final`).
-/

namespace Lpi.Verified.RacyCounter

open Lpi.Verified.Family
open Lpi.Verified.Run
open Lpi.Verified.Simulation

variable {κ : Type}

/-- The counter; for each thread how many increments it has done, and what it has
loaded for the next one. -/
@[ext] structure State (κ : Type) where
  value : Nat
  done : κ → Nat
  loaded : κ → Option Nat

inductive Label (κ : Type) where
  | load (k : κ)
  | store (k : κ)

def step [DecidableEq κ] (n : Nat) (s : State κ) : Label κ → Option (State κ)
  | .load k =>
      if s.loaded k = none ∧ s.done k < n then
        some { s with loaded := Function.update s.loaded k (some s.value) }
      else none
  | .store k =>
      (s.loaded k).map fun v =>
        { value := v + 1
          done := Function.update s.done k (s.done k + 1)
          loaded := Function.update s.loaded k none }

def start : State κ := ⟨0, fun _ => 0, fun _ => none⟩

/-- All threads are through. -/
def State.Final (n : Nat) (s : State κ) : Prop := ∀ k, s.done k = n ∧ s.loaded k = none

/-! ## Bounds -/

/-- No more has been stored than increments have been done. -/
structure State.High [Fintype κ] (s : State κ) : Prop where
  value : s.value ≤ ∑ k, s.done k
  loaded : ∀ k v, s.loaded k = some v → v ≤ ∑ k, s.done k

/-- A thread that has stored something does not load less than 1 afterwards, and
the counter is below 2 only while its last store was the first of a thread. -/
structure State.Low (s : State κ) : Prop where
  value : ∀ k, 0 < s.done k → 1 ≤ s.value
  loaded : ∀ k v, s.loaded k = some v → 0 < s.done k → 1 ≤ v
  first : (∀ k, s.done k = 0) ∨ (∃ k, s.done k = 1) ∨ 2 ≤ s.value

theorem start_high [Fintype κ] : (start : State κ).High :=
  ⟨Nat.zero_le _, by simp [start]⟩

theorem start_low : (start : State κ).Low :=
  ⟨by simp [start], by simp [start], Or.inl fun _ => rfl⟩

variable [DecidableEq κ] {n : Nat} {s t : State κ} {l : Label κ}

private theorem sum_update_succ [Fintype κ] (f : κ → Nat) (k : κ) :
    ∑ j, Function.update f k (f k + 1) j = ∑ j, f j + 1 := by
  have hsum := sum_update_add (fun _ (n : Nat) => n) f k (f k + 1)
  omega

theorem high_step [Fintype κ] (hs : s.High) (h : step n s l = some t) : t.High := by
  cases l with
  | load k =>
      simp only [step, Option.ite_none_right_eq_some, Option.some.injEq] at h
      rcases h with ⟨_, rfl⟩
      refine ⟨hs.value, ?_⟩
      intro j v hv
      by_cases hj : j = k
      · subst hj
        simp only [Function.update_self, Option.some.injEq] at hv
        exact hv ▸ hs.value
      · simp only [Function.update_of_ne hj] at hv
        exact hs.loaded j v hv
  | store k =>
      simp only [step, Option.map_eq_some_iff] at h
      rcases h with ⟨v, hv, rfl⟩
      have hle := hs.loaded k v hv
      refine ⟨?_, ?_⟩
      · show v + 1 ≤ ∑ j, Function.update s.done k (s.done k + 1) j
        rw [sum_update_succ]
        omega
      · intro j w hw
        show w ≤ ∑ j, Function.update s.done k (s.done k + 1) j
        rw [sum_update_succ]
        by_cases hj : j = k
        · subst hj
          simp at hw
        · simp only [Function.update_of_ne hj] at hw
          have := hs.loaded j w hw
          omega

theorem low_step (hs : s.Low) (h : step n s l = some t) : t.Low := by
  cases l with
  | load k =>
      simp only [step, Option.ite_none_right_eq_some, Option.some.injEq] at h
      rcases h with ⟨_, rfl⟩
      refine ⟨hs.value, ?_, hs.first⟩
      intro j v hv hdone
      by_cases hj : j = k
      · subst hj
        simp only [Function.update_self, Option.some.injEq] at hv
        exact hv ▸ hs.value j hdone
      · simp only [Function.update_of_ne hj] at hv
        exact hs.loaded j v hv hdone
  | store k =>
      simp only [step, Option.map_eq_some_iff] at h
      rcases h with ⟨v, hv, rfl⟩
      refine ⟨?_, ?_, ?_⟩
      · intro j _
        show 1 ≤ v + 1
        omega
      · intro j w hw hdone
        by_cases hj : j = k
        · subst hj
          simp at hw
        · simp only [Function.update_of_ne hj] at hw hdone
          exact hs.loaded j w hw hdone
      · apply Or.inr
        by_cases hzero : s.done k = 0
        · exact Or.inl ⟨k, by simp [hzero]⟩
        · have hone := hs.loaded k v hv (by omega)
          exact Or.inr (by show 2 ≤ v + 1; omega)

/-- **The last value of the counter**, for any number of threads. -/
theorem final_bounds [Fintype κ] [Nonempty κ] (h : Reachable (step n) start s) (hs : s.Final n) :
    min n 2 ≤ s.value ∧ s.value ≤ Fintype.card κ * n := by
  have hhigh := Reachable.invariant (I := State.High) (fun _ _ _ => high_step) start_high h
  have hlow := Reachable.invariant (I := State.Low) (fun _ _ _ => low_step) start_low h
  have hsum : ∑ k, s.done k = Fintype.card κ * n := by
    rw [Finset.sum_congr rfl fun k _ => (hs k).1, Finset.sum_const, Finset.card_univ, smul_eq_mul]
  rcases ‹Nonempty κ› with ⟨k⟩
  refine ⟨?_, hsum ▸ hhigh.value⟩
  have hone := hlow.value k
  rw [(hs k).1] at hone
  rcases hlow.first with hzero | ⟨j, hj⟩ | htwo
  · have := hzero k
    rw [(hs k).1] at this
    omega
  · rw [(hs j).1] at hj
    omega
  · omega

/-! ## Schedules of two threads -/

/-- Where the counter and two of the threads are. -/
structure State.Pair (s : State κ) (i j : κ) (v a b : Nat) (x y : Option Nat) : Prop where
  value : s.value = v
  doneLeft : s.done i = a
  doneRight : s.done j = b
  loadedLeft : s.loaded i = x
  loadedRight : s.loaded j = y

variable {i j : κ} {v a b w : Nat} {x y : Option Nat}

omit [DecidableEq κ] in
theorem State.Pair.swap (h : s.Pair i j v a b x y) : s.Pair j i v b a y x :=
  ⟨h.value, h.doneRight, h.doneLeft, h.loadedRight, h.loadedLeft⟩

theorem exists_load (hij : i ≠ j) (h : s.Pair i j v a b none y) (ha : a < n) :
    ∃ t, Reachable (step n) s t ∧ t.Pair i j v a b (some v) y := by
  have hstep : step n s (.load i) =
      some { s with loaded := Function.update s.loaded i (some s.value) } := by
    rw [step, if_pos ⟨h.loadedLeft, h.doneLeft ▸ ha⟩]
  refine ⟨_, reachable_step hstep, h.value, h.doneLeft, h.doneRight, ?_, ?_⟩
  · simp [h.value]
  · simp [hij.symm, h.loadedRight]

theorem exists_store (hij : i ≠ j) (h : s.Pair i j v a b (some w) y) :
    ∃ t, Reachable (step n) s t ∧ t.Pair i j (w + 1) (a + 1) b none y := by
  have hstep : step n s (.store i) = some (State.mk (w + 1)
      (Function.update s.done i (s.done i + 1)) (Function.update s.loaded i none)) := by
    rw [step, h.loadedLeft, Option.map_some]
  refine ⟨_, reachable_step hstep, rfl, ?_, ?_, ?_, ?_⟩
  · simp [h.doneLeft]
  · simp [hij.symm, h.doneRight]
  · simp
  · simp [hij.symm, h.loadedRight]

/-- One thread goes on alone, whatever the other one has loaded. -/
theorem exists_solo (hij : i ≠ j) (m : Nat) (h : s.Pair i j v a b none y) (ha : a + m ≤ n) :
    ∃ t, Reachable (step n) s t ∧ t.Pair i j (v + m) (a + m) b none y := by
  induction m generalizing s v a with
  | zero => exact ⟨s, reachable_refl s, h⟩
  | succ m ih =>
      have hlt : a < n := by omega
      rcases exists_load hij h hlt with ⟨t, ht, hload⟩
      rcases exists_store (n := n) hij hload with ⟨t', ht', hstore⟩
      rcases ih hstore (by omega) with ⟨u, hu, hrest⟩
      refine ⟨u, reachable_trans ht (reachable_trans ht' hu), ?_⟩
      have hv : v + 1 + m = v + (m + 1) := by omega
      have ha : a + 1 + m = a + (m + 1) := by omega
      exact hv ▸ ha ▸ hrest

/-- Both go on side by side, and each time one of the two increments is lost. -/
theorem exists_paired (hij : i ≠ j) (m : Nat) (h : s.Pair i j v a b none none) (ha : a + m ≤ n)
    (hb : b + m ≤ n) :
    ∃ t, Reachable (step n) s t ∧ t.Pair i j (v + m) (a + m) (b + m) none none := by
  induction m generalizing s v a b with
  | zero => exact ⟨s, reachable_refl s, h⟩
  | succ m ih =>
      have hleft : a < n := by omega
      have hright : b < n := by omega
      rcases exists_load hij h hleft with ⟨t₁, h₁, p₁⟩
      rcases exists_load hij.symm p₁.swap hright with ⟨t₂, h₂, p₂⟩
      rcases exists_store hij p₂.swap with ⟨t₃, h₃, p₃⟩
      rcases exists_store hij.symm p₃.swap with ⟨t₄, h₄, p₄⟩
      rcases ih p₄.swap (by omega) (by omega) with ⟨u, hu, hrest⟩
      refine ⟨u, reachable_trans h₁ (reachable_trans h₂ (reachable_trans h₃
        (reachable_trans h₄ hu))), ?_⟩
      have hv : v + 1 + m = v + (m + 1) := by omega
      have ha : a + 1 + m = a + (m + 1) := by omega
      have hb : b + 1 + m = b + (m + 1) := by omega
      exact hv ▸ ha ▸ hb ▸ hrest

omit [DecidableEq κ] in
theorem start_pair (i j : κ) : (start : State κ).Pair i j 0 0 0 none none :=
  ⟨rfl, rfl, rfl, rfl, rfl⟩

/-- Some of the increments are made side by side, the others one after the other. -/
private theorem exists_final_high (hij : i ≠ j) {k : Nat} (hk : k ≤ n) :
    ∃ t, Reachable (step n) start t ∧ t.Pair i j (n + k) n n none none := by
  rcases exists_paired (n := n) hij (n - k) (start_pair i j) (by omega) (by omega) with
    ⟨t₁, h₁, p₁⟩
  rcases exists_solo (n := n) hij k p₁ (by omega) with ⟨t₂, h₂, p₂⟩
  rcases exists_solo (n := n) hij.symm k p₂.swap (by omega) with ⟨t₃, h₃, p₃⟩
  refine ⟨t₃, reachable_trans h₁ (reachable_trans h₂ h₃), ?_⟩
  have hv : 0 + (n - k) + k + k = n + k := by omega
  have hn : 0 + (n - k) + k = n := by omega
  rw [hv, hn] at p₃
  exact p₃.swap

/-- A thread that has loaded 0 at first stores 1 after all but one of the other's
increments, and the other one loads early what it stores last. -/
private theorem exists_final_low (hij : i ≠ j) (hv : 2 ≤ v) (hn : v ≤ n) :
    ∃ t, Reachable (step n) start t ∧ t.Pair i j v n n none none := by
  rcases exists_load (n := n) hij (start_pair i j) (by omega) with ⟨t₁, h₁, p₁⟩
  rcases exists_solo (n := n) hij.symm (n - 1) p₁.swap (by omega) with ⟨t₂, h₂, p₂⟩
  rcases exists_store (n := n) hij p₂.swap with ⟨t₃, h₃, p₃⟩
  rcases exists_solo (n := n) hij (v - 2) p₃ (by omega) with ⟨t₄, h₄, p₄⟩
  rcases exists_load (n := n) hij.symm p₄.swap (by omega) with ⟨t₅, h₅, p₅⟩
  rcases exists_solo (n := n) hij (n - (v - 1)) p₅.swap (by omega) with ⟨t₆, h₆, p₆⟩
  rcases exists_store (n := n) hij.symm p₆.swap with ⟨t₇, h₇, p₇⟩
  refine ⟨t₇, reachable_trans h₁ (reachable_trans h₂ (reachable_trans h₃ (reachable_trans h₄
    (reachable_trans h₅ (reachable_trans h₆ h₇))))), ?_⟩
  have hvalue : 0 + 1 + (v - 2) + 1 = v := by omega
  have hright : 0 + (n - 1) + 1 = n := by omega
  have hleft : 0 + 1 + (v - 2) + (n - (v - 1)) = n := by omega
  rw [hvalue, hright, hleft] at p₇
  exact p₇.swap

/-- **Each value within the bounds** is the last one of some schedule of two
threads. -/
theorem exists_final (hij : i ≠ j) (hlow : min n 2 ≤ v) (hhigh : v ≤ 2 * n) :
    ∃ t, Reachable (step n) start t ∧ t.Pair i j v n n none none := by
  by_cases hv : n ≤ v
  · rcases Nat.exists_eq_add_of_le hv with ⟨k, rfl⟩
    exact exists_final_high hij (by omega)
  · exact exists_final_low hij (by omega) (by omega)

end Lpi.Verified.RacyCounter
