import Mathlib.Order.Basic

/-!
# Forests as lists with depths

A forest is listed node by node, each before what is below it, with its depth.  The
depths tell where the nodes below one end: at the first one that is not deeper.  So
the forest can be read off the list (`preorder_injective`).
-/

namespace Lpi.Verified.Preorder

/-- A list of trees: the label of the first one, what is below it, and the other
trees. -/
inductive Forest (α : Type*) where
  | nil
  | cons (label : α) (below : Forest α) (others : Forest α)
  deriving DecidableEq, Repr

namespace Forest

variable {α β : Type*}

def map (f : α → β) : Forest α → Forest β
  | nil => nil
  | cons a below others => cons (f a) (below.map f) (others.map f)

/-- The labels with their depths, which start from `depth`. -/
def preorder (depth : Nat) : Forest α → List (Nat × α)
  | nil => []
  | cons a below others => (depth, a) :: (below.preorder (depth + 1) ++ others.preorder depth)

/-- All labels satisfy `P`. -/
def All (P : α → Prop) : Forest α → Prop
  | nil => True
  | cons a below others => P a ∧ below.All P ∧ others.All P

theorem map_preorder (f : α → β) (depth : Nat) (t : Forest α) :
    (t.map f).preorder depth = (t.preorder depth).map fun (d, a) => (d, f a) := by
  induction t generalizing depth with
  | nil => rfl
  | cons a below others ihBelow ihOthers =>
      simp only [map, preorder, ihBelow, ihOthers, List.map_cons, List.map_append]

theorem All.of_mem_preorder {P : α → Prop} {t : Forest α} (h : t.All P) {depth : Nat}
    {node : Nat × α} (hmem : node ∈ t.preorder depth) : P node.2 := by
  induction t generalizing depth with
  | nil => cases hmem
  | cons a below others ihBelow ihOthers =>
      rcases List.mem_cons.1 hmem with rfl | hmem
      · exact h.1
      · rcases List.mem_append.1 hmem with hmem | hmem
        · exact ihBelow h.2.1 hmem
        · exact ihOthers h.2.2 hmem

/-- The list is empty or goes on at a depth below `depth`. -/
def Above (depth : Nat) (nodes : List (Nat × α)) : Prop := ∀ node ∈ nodes.head?, node.1 < depth

theorem above_preorder_append {depth : Nat} {t : Forest α} {nodes : List (Nat × α)}
    (h : Above depth nodes) : Above (depth + 1) (t.preorder depth ++ nodes) := by
  cases t with
  | nil =>
      intro node hnode
      exact Nat.lt_succ_of_lt (h node hnode)
  | cons a below others =>
      intro node hnode
      rw [preorder, List.cons_append, List.head?_cons, Option.mem_some_iff] at hnode
      rw [← hnode]
      exact Nat.lt_succ_self depth

/-- A forest ends where the list goes on at a lower depth. -/
theorem preorder_append_inj {depth : Nat} {t t' : Forest α} {nodes nodes' : List (Nat × α)}
    (hnodes : Above depth nodes) (hnodes' : Above depth nodes')
    (h : t.preorder depth ++ nodes = t'.preorder depth ++ nodes') :
    t = t' ∧ nodes = nodes' := by
  induction t generalizing depth t' nodes nodes' with
  | nil =>
      cases t' with
      | nil => exact ⟨rfl, h⟩
      | cons a' below' others' =>
          rw [preorder, preorder, List.nil_append, List.cons_append] at h
          have hlt := hnodes (depth, a') (by rw [h]; rfl)
          exact absurd hlt (Nat.lt_irrefl depth)
  | cons a below others ihBelow ihOthers =>
      cases t' with
      | nil =>
          rw [preorder, preorder, List.nil_append, List.cons_append] at h
          have hlt := hnodes' (depth, a) (by rw [← h]; rfl)
          exact absurd hlt (Nat.lt_irrefl depth)
      | cons a' below' others' =>
          rw [preorder, preorder, List.cons_append, List.cons_append, List.cons.injEq,
            Prod.mk.injEq, List.append_assoc, List.append_assoc] at h
          have hbelow := ihBelow (above_preorder_append hnodes) (above_preorder_append hnodes') h.2
          have hothers := ihOthers hnodes hnodes' hbelow.2
          rw [h.1.2, hbelow.1, hothers.1]
          exact ⟨rfl, hothers.2⟩

/-- **The forest can be read off the list.** -/
theorem preorder_injective (depth : Nat) :
    Function.Injective (preorder depth : Forest α → List (Nat × α)) := by
  intro t t' h
  have hend : Above depth ([] : List (Nat × α)) := by
    intro node hnode
    cases hnode
  exact (preorder_append_inj hend hend (by rw [h])).1

end Forest

end Lpi.Verified.Preorder
