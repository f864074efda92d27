import Mathlib.Order.Basic

/-!
# Binary semaphores (`svshm/binary_sems.c`)

The value of one semaphore of a System V set, and the operation `semop`
performs on it.  A semaphore never goes below zero: an operation that would
take it there blocks, which the port states as `none`.
-/

namespace Lpi.Ports.BinarySems

/-- `semop` with `sem_op = op` on a semaphore of value `val`; `none` while
the caller has to wait. -/
def semop (val : Nat) (op : Int) : Option Nat :=
  if val + op < 0 then none else some (val + op).toNat

/-- `arg.val` of `initSemAvailable`. -/
def initSemAvailable : Nat := 1

/-- `arg.val` of `initSemInUse`. -/
def initSemInUse : Nat := 0

/-- The `semop` of `reserveSem`. -/
def reserve (val : Nat) : Option Nat := semop val (-1)

/-- The `semop` of `releaseSem`. -/
def release (val : Nat) : Option Nat := semop val 1

@[simp] theorem reserve_zero : reserve 0 = none := rfl

@[simp] theorem reserve_succ (n : Nat) : reserve (n + 1) = some n := by
  simp only [reserve, semop]
  rw [if_neg (by omega)]
  congr 1
  omega

theorem reserve_eq_some {v n : Nat} : reserve v = some n ↔ v = n + 1 := by
  cases v with
  | zero => simp
  | succ m => simp

@[simp] theorem release_eq (n : Nat) : release n = some (n + 1) := by
  simp only [release, semop]
  rw [if_neg (by omega)]
  congr 1

end Lpi.Ports.BinarySems
