import Mathlib.Algebra.BigOperators.Group.Finset.Basic
import Mathlib.Data.Fintype.Basic

/-!
# A family of processes

The processes of a system are a function from their names to their states, and a
step moves one of them.  A sum over all of them changes then by what the one that
has moved adds to it (`sum_update_add`); the values are those of any commutative
monoid, so it can be a number of steps to go as well as a bag of messages.
-/

namespace Lpi.Verified.Family

variable {κ α M : Type*} [Fintype κ] [DecidableEq κ] [AddCommMonoid M]

/-- A sum over the processes after one of them has moved. -/
theorem sum_update_add (f : κ → α → M) (s : κ → α) (k : κ) (x : α) :
    ∑ j, f j (Function.update s k x j) + f k (s k) = ∑ j, f j (s j) + f k x := by
  have hrest : ∑ j ∈ Finset.univ.erase k, f j (Function.update s k x j) =
      ∑ j ∈ Finset.univ.erase k, f j (s j) := by
    apply Finset.sum_congr rfl
    intro j hj
    rw [Function.update_of_ne (Finset.ne_of_mem_erase hj)]
  rw [← Finset.add_sum_erase _ _ (Finset.mem_univ k),
    ← Finset.add_sum_erase _ (fun j => f j (s j)) (Finset.mem_univ k), hrest,
    Function.update_self, add_comm (f k x), add_comm (f k (s k)), add_assoc, add_assoc,
    add_comm (f k x)]

end Lpi.Verified.Family
