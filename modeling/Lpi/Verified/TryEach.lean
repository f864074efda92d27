/-!
# Loops that try one thing after the other

A loop goes through a linked list until a turn of it has found what the loop is
for.  It leaves the pointer at the element of that turn, or at the end of the
list.  Turns that find nothing keep the invariant of the loop, and are all that
happens before the first element for which the turn does find it
(`tryEach_append`).
-/

namespace Lpi.Verified.TryEach

variable {α σ : Type}

/-- How a turn ends: at the next element, with `break`, or with the end of the
program. -/
inductive Turn (σ : Type) where
  | next (s : σ)
  | found (s : σ)
  | exit (s : σ)

/-- The loop; its pointer is what is left of the list, and a turn gets what
follows its element. -/
def tryEach (turn : α → List α → σ → Turn σ) : List α → σ → Except σ (List α × σ)
  | [], s => .ok ([], s)
  | a :: rest, s =>
      match turn a rest s with
      | .next s => tryEach turn rest s
      | .found s => .ok (a :: rest, s)
      | .exit s => .error s

/-- **Turns that find nothing** leave the others as they are, but for what the
invariant says of the state. -/
theorem tryEach_append {turn : α → List α → σ → Turn σ} {Inv : σ → Prop} {pre : List α}
    (hnext : ∀ a ∈ pre, ∀ rest s, Inv s → ∃ s', turn a rest s = .next s' ∧ Inv s')
    (as : List α) {s : σ} (hs : Inv s) :
    ∃ s', Inv s' ∧ tryEach turn (pre ++ as) s = tryEach turn as s' := by
  induction pre generalizing s with
  | nil => exact ⟨s, hs, rfl⟩
  | cons a pre ih =>
      have hturn := hnext a (by simp) (pre ++ as) s hs
      rcases hturn with ⟨s₁, hturn, hs₁⟩
      have hrest := ih (fun b hb => hnext b (by simp [hb])) hs₁
      rcases hrest with ⟨s', hs', hrest⟩
      refine ⟨s', hs', ?_⟩
      rw [List.cons_append, tryEach, hturn]
      exact hrest

/-- If none finds anything, the pointer is at the end. -/
theorem tryEach_of_next {turn : α → List α → σ → Turn σ} {Inv : σ → Prop} {as : List α}
    (hnext : ∀ a ∈ as, ∀ rest s, Inv s → ∃ s', turn a rest s = .next s' ∧ Inv s')
    {s : σ} (hs : Inv s) : ∃ s', Inv s' ∧ tryEach turn as s = .ok ([], s') := by
  have happend := tryEach_append hnext [] hs
  rwa [List.append_nil] at happend

/-- The pointer is at the first element that finds it. -/
theorem tryEach_of_found {turn : α → List α → σ → Turn σ} {Inv : σ → Prop}
    {Post : List α → σ → Prop} {pre post : List α} {a : α}
    (hnext : ∀ b ∈ pre, ∀ rest s, Inv s → ∃ s', turn b rest s = .next s' ∧ Inv s')
    (hfound : ∀ s, Inv s → ∃ s', turn a post s = .found s' ∧ Post (a :: post) s')
    {s : σ} (hs : Inv s) :
    ∃ s', Post (a :: post) s' ∧ tryEach turn (pre ++ a :: post) s = .ok (a :: post, s') := by
  have happend := tryEach_append hnext (a :: post) hs
  rcases happend with ⟨s₁, hs₁, happend⟩
  have hturn := hfound s₁ hs₁
  rcases hturn with ⟨s', hturn, hs'⟩
  refine ⟨s', hs', ?_⟩
  rw [happend, tryEach, hturn]

end Lpi.Verified.TryEach
