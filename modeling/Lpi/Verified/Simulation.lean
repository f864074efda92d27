import Lpi.Verified.Run

/-!
# Simulation

A system simulates another one if each step of the latter is matched by steps of
the former, none or several of them.  Then it reaches a related state for each
one the other system reaches (`Simulates.reachable`).
-/

namespace Lpi.Verified.Simulation

open Lpi.Verified.Run

variable {σ ι τ κ : Type*} {step : σ → ι → Option σ} {astep : τ → κ → Option τ}

/-! ## Runs one after the other -/

theorem exec_append {s t u : σ} {ls ls' : List ι} (h : exec step s ls = some t)
    (h' : exec step t ls' = some u) : exec step s (ls ++ ls') = some u := by
  induction ls generalizing s with
  | nil =>
      rw [exec_nil, Option.some.injEq] at h
      rw [h]
      exact h'
  | cons l ls ih =>
      rcases exec_cons_eq_some.1 h with ⟨m, hm, hrest⟩
      exact exec_cons_eq_some.2 ⟨m, hm, ih hrest⟩

theorem reachable_refl (s : σ) : Reachable step s s := ⟨[], exec_nil s⟩

theorem reachable_step {s t : σ} {l : ι} (h : step s l = some t) : Reachable step s t :=
  ⟨[l], exec_cons_eq_some.2 ⟨t, h, exec_nil t⟩⟩

theorem reachable_trans {s t u : σ} (h : Reachable step s t) (h' : Reachable step t u) :
    Reachable step s u := by
  rcases h with ⟨ls, hls⟩
  rcases h' with ⟨ls', hls'⟩
  exact ⟨ls ++ ls', exec_append hls hls'⟩

/-- A part of the state that moves by itself runs as it does alone. -/
theorem exec_lift {part : τ → κ → Option τ} (lift : τ → σ) (label : κ → ι)
    (h : ∀ a l, step (lift a) (label l) = (part a l).map lift) (a : τ) (ls : List κ) :
    exec step (lift a) (ls.map label) = (exec part a ls).map lift := by
  induction ls generalizing a with
  | nil => rfl
  | cons l ls ih =>
      show (step (lift a) (label l)).bind (fun s => exec step s (ls.map label)) =
        ((part a l).bind fun b => exec part b ls).map lift
      rw [h]
      cases part a l with
      | none => rfl
      | some b => exact ih b

/-! ## Simulations -/

/-- Related states stay related, whatever step is taken. -/
def Simulates (step : σ → ι → Option σ) (astep : τ → κ → Option τ) (R : σ → τ → Prop) : Prop :=
  ∀ s a l s', R s a → step s l = some s' → ∃ a', Reachable astep a a' ∧ R s' a'

/-- **What one system reaches, the other one reaches too.** -/
theorem Simulates.reachable {R : σ → τ → Prop} (hsim : Simulates step astep R) {s t : σ} {a : τ}
    (hR : R s a) (h : Reachable step s t) : ∃ b, Reachable astep a b ∧ R t b := by
  rcases h with ⟨ls, hls⟩
  induction ls generalizing s a with
  | nil =>
      rw [exec_nil, Option.some.injEq] at hls
      exact ⟨a, reachable_refl a, hls ▸ hR⟩
  | cons l ls ih =>
      rcases exec_cons_eq_some.1 hls with ⟨m, hm, hrest⟩
      rcases hsim s a l m hR hm with ⟨a', ha', hR'⟩
      rcases ih hR' hrest with ⟨b, hb, hRb⟩
      exact ⟨b, reachable_trans ha' hb, hRb⟩

end Lpi.Verified.Simulation
