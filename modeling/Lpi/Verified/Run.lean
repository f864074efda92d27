import Mathlib.Order.Basic

/-!
# Runs of an executable step function

A concurrent program of this package is an executable function
`step : σ → ι → Option σ`: a state, the label of the next atomic step (which
process moves and what the environment answers), and the state after it, or
`none` where that step is not enabled.  An interleaving is then nothing more
than a list of labels, so a schedule can be evaluated as well as quantified
over.

This module supplies the runs of such a function and the rules the ports
use:

* `Reachable.invariant` — what one step preserves, a whole run preserves;
* `invariant_along` — the same for runs whose steps all meet a condition;
* `latch_along` — a state flag that is set exactly by some event is clear at
  the end of a run exactly when no step of the run was that event;
* `occurs_of_latch` — the same read the other way: where the flag is set, the
  event occurred in the run;
* `latch_iff_occurs` — both ways in one;
* `throughout_of_invariant` — what an invariant implies holds in every state of a
  run;
* `exec_length_add_le` — a measure that every step lowers bounds the length
  of every run;
* `exists_exec_done` — and where there is always a next step until the work is
  done, some run gets it done;
* `throughout_iff_along` — where an event leads straight into a bad state and
  nothing else does, a run avoids the bad states exactly when none of its
  steps is that event.
-/

namespace Lpi.Verified.Run

variable {σ ι : Type*} (step : σ → ι → Option σ)

/-- Execute a schedule, one label after the other. -/
def exec : σ → List ι → Option σ
  | s, [] => some s
  | s, l :: ls => (step s l).bind fun t => exec t ls

/-- Every step taken by the schedule from `s` meets `C`, which may look at
the state before the step and at its label. -/
def Along (C : σ → ι → Prop) : σ → List ι → Prop
  | _, [] => True
  | s, l :: ls => C s l ∧ ∀ t, step s l = some t → Along C t ls

/-- Every state the schedule passes through from `s` satisfies `P`, the first
and the last included. -/
def Throughout (P : σ → Prop) : σ → List ι → Prop
  | s, [] => P s
  | s, l :: ls => P s ∧ ∀ t, step s l = some t → Throughout P t ls

/-- Some step taken by the schedule from `s` is the event `E`. -/
def Occurs (E : σ → ι → Prop) : σ → List ι → Prop
  | _, [] => False
  | s, l :: ls => E s l ∨ ∃ t, step s l = some t ∧ Occurs E t ls

/-- Some schedule leads from `s` to `t`. -/
def Reachable (s t : σ) : Prop := ∃ ls, exec step s ls = some t

/-- The label `l` can be executed in `s`. -/
def Enabled (s : σ) (l : ι) : Prop := ∃ t, step s l = some t

variable {step}

@[simp] theorem exec_nil (s : σ) : exec step s [] = some s := rfl

theorem exec_cons_eq_some {s t : σ} {l : ι} {ls : List ι} :
    exec step s (l :: ls) = some t ↔
      ∃ m, step s l = some m ∧ exec step m ls = some t := by
  simp only [exec, Option.bind_eq_some_iff]

theorem enabled_iff {s : σ} {l : ι} :
    Enabled step s l ↔ (step s l).isSome = true :=
  Option.isSome_iff_exists.symm

/-- Evaluate a schedule and a decidable property of the state it leads to. -/
theorem exists_exec (step : σ → ι → Option σ) (P : σ → Prop) [DecidablePred P]
    (s : σ) (ls : List ι)
    (h : (exec step s ls).any (fun t => decide (P t)) = true) :
    ∃ t, exec step s ls = some t ∧ P t := by
  rw [Option.any_eq_true_iff_get] at h
  obtain ⟨hsome, hP⟩ := h
  exact ⟨_, (Option.some_get hsome).symm, of_decide_eq_true hP⟩

/-- A predicate kept by every step that meets `C` holds at the end of every
run all of whose steps meet `C`. -/
theorem invariant_along {C : σ → ι → Prop} {I : σ → Prop}
    (hstep : ∀ s l t, I s → C s l → step s l = some t → I t)
    {s t : σ} {ls : List ι} (hs : I s) (hC : Along step C s ls)
    (h : exec step s ls = some t) : I t := by
  induction ls generalizing s with
  | nil =>
      simp only [exec_nil, Option.some.injEq] at h
      exact h ▸ hs
  | cons l ls ih =>
      obtain ⟨m, hm, hrest⟩ := exec_cons_eq_some.1 h
      exact ih (hstep s l m hs hC.1 hm) (hC.2 m hm) hrest

theorem along_of_forall {C : σ → ι → Prop} {ls : List ι}
    (hC : ∀ l ∈ ls, ∀ s, C s l) (s : σ) : Along step C s ls := by
  induction ls generalizing s with
  | nil => trivial
  | cons l ls ih =>
      exact ⟨hC l (by simp) s, fun t _ => ih (fun k hk => hC k (by simp [hk])) t⟩

theorem Along.mono {C D : σ → ι → Prop} {s : σ} {ls : List ι}
    (h : Along step C s ls) (hCD : ∀ s l, C s l → D s l) :
    Along step D s ls := by
  induction ls generalizing s with
  | nil => trivial
  | cons l ls ih =>
      exact ⟨hCD s l h.1, fun t ht => ih (h.2 t ht)⟩

/-- Whether a concrete schedule meets a decidable condition can be
evaluated. -/
instance decidableAlong (C : σ → ι → Prop) [∀ s l, Decidable (C s l)] :
    ∀ (s : σ) (ls : List ι), Decidable (Along step C s ls)
  | _, [] => isTrue trivial
  | s, l :: ls =>
    match h : step s l with
    | none => decidable_of_iff (C s l)
        ⟨fun hC => ⟨hC, fun _ ht => nomatch h.symm.trans ht⟩, And.left⟩
    | some m =>
      have := decidableAlong C m ls
      decidable_of_iff (C s l ∧ Along step C m ls)
        ⟨fun hC => ⟨hC.1, fun _ ht => Option.some.inj (h.symm.trans ht) ▸ hC.2⟩,
          fun hC => ⟨hC.1, hC.2 m h⟩⟩

/-- Whether a decidable event occurs in a concrete schedule can be
evaluated. -/
instance decidableOccurs (E : σ → ι → Prop) [∀ s l, Decidable (E s l)] :
    ∀ (s : σ) (ls : List ι), Decidable (Occurs step E s ls)
  | _, [] => isFalse not_false
  | s, l :: ls =>
    match h : step s l with
    | none => decidable_of_iff (E s l)
        ⟨Or.inl, fun hE => hE.resolve_right
          (fun ⟨_, ht, _⟩ => nomatch h.symm.trans ht)⟩
    | some m =>
      have := decidableOccurs E m ls
      decidable_of_iff (E s l ∨ Occurs step E m ls)
        ⟨fun hE => hE.imp_right fun hlater => ⟨m, h, hlater⟩,
          fun hE => hE.imp_right fun ⟨_, ht, hlater⟩ =>
            Option.some.inj (h.symm.trans ht) ▸ hlater⟩

/-- What one step preserves, a whole run preserves. -/
theorem Reachable.invariant {I : σ → Prop}
    (hstep : ∀ s l t, I s → step s l = some t → I t)
    {s t : σ} (hs : I s) (h : Reachable step s t) : I t := by
  obtain ⟨ls, hls⟩ := h
  exact invariant_along (C := fun _ _ => True)
    (fun s l t hI _ => hstep s l t hI) hs
    (along_of_forall (fun _ _ _ => trivial) s) hls

/-- Let `L` be a flag of the state that a step sets exactly when it is the
event `E`, and never clears.  From a state with the flag clear, a run ends
with the flag clear exactly when none of its steps was `E`. -/
theorem latch_along {I L : σ → Prop} {E : σ → ι → Prop}
    (hinv : ∀ s l t, I s → step s l = some t → I t)
    (hlatch : ∀ s l t, I s → step s l = some t → (L t ↔ L s ∨ E s l))
    {s t : σ} {ls : List ι} (hs : I s) (h : exec step s ls = some t) :
    ¬ L t ↔ ¬ L s ∧ Along step (fun s l => ¬ E s l) s ls := by
  induction ls generalizing s with
  | nil =>
      simp only [exec_nil, Option.some.injEq] at h
      simp [h, Along]
  | cons l ls ih =>
      obtain ⟨m, hm, hrest⟩ := exec_cons_eq_some.1 h
      have hflag := hlatch s l m hs hm
      rw [ih (hinv s l m hs hm) hrest, hflag, not_or, and_assoc]
      refine and_congr_right fun _ => and_congr_right fun _ => ?_
      constructor
      · intro hrun u hu
        rw [hm, Option.some.injEq] at hu
        exact hu ▸ hrun
      · intro hrun
        exact hrun m hm

/-- Let `L` be a flag of the state that only the event `E` sets and no step
clears.  A run from a state with the flag clear to one with the flag set
contains the event. -/
theorem occurs_of_latch {I L : σ → Prop} {E : σ → ι → Prop}
    (hinv : ∀ s l t, I s → step s l = some t → I t)
    (hlatch : ∀ s l t, I s → step s l = some t → L t → L s ∨ E s l)
    {s t : σ} {ls : List ι} (hs : I s) (hclear : ¬ L s)
    (h : exec step s ls = some t) (hset : L t) : Occurs step E s ls := by
  induction ls generalizing s with
  | nil =>
      simp only [exec_nil, Option.some.injEq] at h
      exact absurd (h ▸ hset) hclear
  | cons l ls ih =>
      obtain ⟨m, hm, hrest⟩ := exec_cons_eq_some.1 h
      by_cases hL : L m
      · exact Or.inl ((hlatch s l m hs hm hL).resolve_left hclear)
      · exact Or.inr ⟨m, hm, ih (hinv s l m hs hm) hL hrest⟩

/-- Conversely, an event that sets the flag leaves it set. -/
theorem latch_of_occurs {L : σ → Prop} {E : σ → ι → Prop}
    (hkeep : ∀ s l t, step s l = some t → L s → L t)
    (hevent : ∀ s l t, step s l = some t → E s l → L t)
    {s t : σ} {ls : List ι} (h : exec step s ls = some t)
    (hocc : Occurs step E s ls) : L t := by
  induction ls generalizing s with
  | nil => exact hocc.elim
  | cons l ls ih =>
      obtain ⟨m, hm, hrest⟩ := exec_cons_eq_some.1 h
      rcases hocc with hE | ⟨u, hu, hlater⟩
      · have hm' := hevent s l m hm hE
        exact invariant_along (C := fun _ _ => True)
          (fun a b c ha _ hstep => hkeep a b c hstep ha) hm'
          (along_of_forall (fun _ _ _ => trivial) m) hrest
      · rw [hm, Option.some.injEq] at hu
        subst hu
        exact ih hrest hlater

theorem occurs_iff_not_along {E : σ → ι → Prop} {s : σ} {ls : List ι} :
    Occurs step E s ls ↔ ¬ Along step (fun s l => ¬ E s l) s ls := by
  induction ls generalizing s with
  | nil => exact iff_of_false id (fun h => h trivial)
  | cons l ls ih =>
      constructor
      · rintro (hE | ⟨t, ht, hlater⟩) ⟨hnot, hrest⟩
        · exact hnot hE
        · exact ih.1 hlater (hrest t ht)
      · intro hnot
        by_cases hE : E s l
        · exact Or.inl hE
        · apply Or.inr
          apply Classical.byContradiction
          intro hnone
          exact hnot ⟨hE, fun t ht => Classical.byContradiction fun hrest =>
            hnone ⟨t, ht, ih.2 hrest⟩⟩

theorem Occurs.mono {D E : σ → ι → Prop} {s : σ} {ls : List ι} (h : Occurs step D s ls)
    (hDE : ∀ s l, D s l → E s l) : Occurs step E s ls := by
  rw [occurs_iff_not_along] at h ⊢
  intro hE
  exact h (hE.mono fun s l hnot hD => hnot (hDE s l hD))

/-- The step of a run that is the event, with what comes before and behind it. -/
theorem Occurs.split {E : σ → ι → Prop} {s t : σ} {ls : List ι} (hocc : Occurs step E s ls)
    (h : exec step s ls = some t) :
    ∃ before l after u u', ls = before ++ l :: after ∧ exec step s before = some u ∧ E u l ∧
      step u l = some u' ∧ exec step u' after = some t := by
  induction ls generalizing s with
  | nil => exact hocc.elim
  | cons l ls ih =>
      obtain ⟨m, hm, hrest⟩ := exec_cons_eq_some.1 h
      rcases hocc with hE | ⟨u, hu, hlater⟩
      · exact ⟨[], l, ls, s, m, rfl, exec_nil s, hE, hm, hrest⟩
      · rw [hm, Option.some.injEq] at hu
        subst hu
        obtain ⟨before, l', after, v, v', rfl, hbefore, hE, hv, hafter⟩ := ih hlater hrest
        exact ⟨l :: before, l', after, v, v', rfl, exec_cons_eq_some.2 ⟨m, hm, hbefore⟩, hE, hv,
          hafter⟩

/-- The flag of `latch_along` is set exactly if the event occurs. -/
theorem latch_iff_occurs {I L : σ → Prop} {E : σ → ι → Prop}
    (hinv : ∀ s l t, I s → step s l = some t → I t)
    (hlatch : ∀ s l t, I s → step s l = some t → (L t ↔ L s ∨ E s l))
    {s t : σ} {ls : List ι} (hs : I s) (hclear : ¬ L s) (h : exec step s ls = some t) :
    L t ↔ Occurs step E s ls := by
  have halong := latch_along hinv hlatch hs h
  rw [and_iff_right hclear] at halong
  rw [occurs_iff_not_along, ← halong, Classical.not_not]

/-- A natural number that every step lowers bounds the length of every
run. -/
theorem exec_length_add_le {I : σ → Prop} {μ : σ → Nat}
    (hinv : ∀ s l t, I s → step s l = some t → I t)
    (hlt : ∀ s l t, I s → step s l = some t → μ t < μ s)
    {s t : σ} {ls : List ι} (hs : I s) (h : exec step s ls = some t) :
    ls.length + μ t ≤ μ s := by
  induction ls generalizing s with
  | nil =>
      simp only [exec_nil, Option.some.injEq] at h
      simp [h]
  | cons l ls ih =>
      obtain ⟨m, hm, hrest⟩ := exec_cons_eq_some.1 h
      have hle := ih (hinv s l m hs hm) hrest
      have hdrop := hlt s l m hs hm
      simp only [List.length_cons]
      omega

/-- Where some label is enabled in every state that is not done, and every
step lowers a natural number, some schedule leads to a state that is done. -/
theorem exists_exec_done {I D : σ → Prop} {μ : σ → Nat}
    (hinv : ∀ s l t, I s → step s l = some t → I t)
    (hlt : ∀ s l t, I s → step s l = some t → μ t < μ s)
    (hmove : ∀ s, I s → ¬ D s → ∃ l, Enabled step s l)
    {s : σ} (hs : I s) : ∃ ls t, exec step s ls = some t ∧ D t := by
  induction hn : μ s using Nat.strongRecOn generalizing s with
  | _ n ih =>
      by_cases hD : D s
      · exact ⟨[], s, exec_nil s, hD⟩
      · obtain ⟨l, m, hm⟩ := hmove s hs hD
        have hdrop := hlt s l m hs hm
        rw [hn] at hdrop
        obtain ⟨ls, t, hls, ht⟩ := ih (μ m) hdrop (hinv s l m hs hm) rfl
        exact ⟨l :: ls, t, exec_cons_eq_some.2 ⟨m, hm, hls⟩, ht⟩

theorem Throughout.head {P : σ → Prop} {s : σ} {ls : List ι}
    (h : Throughout step P s ls) : P s := by
  cases ls with
  | nil => exact h
  | cons l ls => exact h.1

/-- What an invariant implies holds throughout. -/
theorem throughout_of_invariant {I P : σ → Prop}
    (hinv : ∀ s l t, I s → step s l = some t → I t) (hP : ∀ s, I s → P s)
    {s : σ} (hs : I s) (ls : List ι) : Throughout step P s ls := by
  induction ls generalizing s with
  | nil => exact hP s hs
  | cons l ls ih => exact ⟨hP s hs, fun t ht => ih (hinv s l t hs ht)⟩

/-- Steps other than the event `E` keep an invariant that rules the bad
states out, and `E` leads into a bad state.  Then the runs that meet no bad
state are those without the event. -/
theorem throughout_iff_along {I B : σ → Prop} {E : σ → ι → Prop}
    (hkeep : ∀ s l t, I s → ¬ E s l → step s l = some t → I t)
    (hgood : ∀ s, I s → ¬ B s)
    (hbad : ∀ s l t, I s → E s l → step s l = some t → B t)
    {s t : σ} {ls : List ι} (hs : I s) (h : exec step s ls = some t) :
    Throughout step (fun s => ¬ B s) s ls ↔
      Along step (fun s l => ¬ E s l) s ls := by
  induction ls generalizing s with
  | nil => exact iff_of_true (hgood s hs) trivial
  | cons l ls ih =>
      obtain ⟨m, hm, hrest⟩ := exec_cons_eq_some.1 h
      have hnext : ∀ u, step s l = some u → u = m := by
        intro u hu
        rw [hm, Option.some.injEq] at hu
        exact hu.symm
      constructor
      · rintro ⟨_, htail⟩
        have hE : ¬ E s l := fun hE =>
          (htail m hm).head (hbad s l m hs hE hm)
        refine ⟨hE, ?_⟩
        intro u hu
        rw [hnext u hu]
        exact (ih (hkeep s l m hs hE hm) hrest).1 (htail m hm)
      · rintro ⟨hE, htail⟩
        refine ⟨hgood s hs, ?_⟩
        intro u hu
        rw [hnext u hu]
        exact (ih (hkeep s l m hs hE hm) hrest).2 (htail m hm)

end Lpi.Verified.Run
