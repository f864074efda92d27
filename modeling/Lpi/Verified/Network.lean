import Mathlib.Algebra.Order.Group.Multiset

/-!
# Datagrams in flight

A network that may reorder, lose and repeat datagrams holds them in no
particular order, so what matters of them is a multiset.  `bearing f net` is
what the datagrams of a list mean to somebody, where `f` tells what one of
them means, if anything.
-/

namespace Lpi.Verified.Network

variable {α β : Type*}

def bearing (f : α → Option β) (net : List α) : Multiset β :=
  net.filterMap f

theorem bearing_cons (f : α → Option β) (d : α) (net : List α) :
    bearing f (d :: net) = (f d).toList + bearing f net := by
  unfold bearing
  rw [Multiset.coe_add]
  congr 1
  cases h : f d with
  | none => rw [List.filterMap_cons_none h, Option.toList_none, List.nil_append]
  | some b => rw [List.filterMap_cons_some h, Option.toList_some,
      List.singleton_append]

theorem bearing_append (f : α → Option β) (net : List α) (d : α) :
    bearing f (net ++ [d]) = bearing f net + (f d).toList := by
  unfold bearing
  rw [List.filterMap_append, ← Multiset.coe_add]
  congr 2

/-- Taking datagram `n` off the network. -/
theorem bearing_eraseIdx (f : α → Option β) {net : List α} {n : Nat} {d : α}
    (h : net[n]? = some d) :
    bearing f net = (f d).toList + bearing f (net.eraseIdx n) := by
  induction net generalizing n with
  | nil => cases h
  | cons e net ih =>
      cases n with
      | zero =>
          obtain rfl : e = d := Option.some.inj h
          rw [bearing_cons, List.eraseIdx_cons_zero]
      | succ n =>
          have hrest := ih (n := n) h
          rw [bearing_cons, List.eraseIdx_cons_succ, bearing_cons, hrest,
            add_left_comm]

theorem bearing_eraseIdx_le (f : α → Option β) (net : List α) (n : Nat) :
    bearing f (net.eraseIdx n) ≤ bearing f net :=
  ((List.eraseIdx_sublist net n).filterMap f).subperm

end Lpi.Verified.Network
