import Mathlib.Data.Nat.Find
import Mathlib.Data.Set.Basic
import Mathlib.Logic.Function.Basic

/-!
# Descriptor tables

A process numbers what it has open with small integers.  A new descriptor gets
the lowest number that is free, `close` gives one back, and `dup2` makes a second
number for one.  Only finitely many descriptors are open, so there is always a
free one (`exists_free`); both other calls fail for a number that is not open.

Tables are equal if they have the same descriptors (`Table.ext`), and what a
program makes of one is mostly written with `set`; `set_set` and `set_eq_self`
bring that to its simplest form.
-/

namespace Lpi.Verified.Descriptors

/-- What is open under each number. -/
structure Table (α : Type) where
  get : Nat → Option α
  finite : ∃ n, ∀ fd, n ≤ fd → get fd = none

namespace Table

variable {α β : Type} {t : Table α} {fd : Nat} {a : Option α}

@[ext] theorem ext {t t' : Table α} (h : ∀ fd, t.get fd = t'.get fd) : t = t' := by
  cases t
  cases t'
  congr
  exact funext h

/-- Nothing is open. -/
def empty : Table α := ⟨fun _ => none, 0, fun _ _ => rfl⟩

/-- The table with another entry. -/
def set (t : Table α) (fd : Nat) (a : Option α) : Table α where
  get := Function.update t.get fd a
  finite := by
    obtain ⟨n, hn⟩ := t.finite
    refine ⟨max n (fd + 1), fun fd' hfd' => ?_⟩
    rw [Function.update_of_ne (by omega)]
    exact hn fd' (by omega)

/-- The table with each entry replaced. -/
def map (f : α → β) (t : Table α) : Table β where
  get fd := (t.get fd).map f
  finite := by
    obtain ⟨n, hn⟩ := t.finite
    exact ⟨n, fun fd hfd => by rw [hn fd hfd, Option.map_none]⟩

/-- The descriptors that are open. -/
def opened (t : Table α) : Set Nat := {fd | t.get fd ≠ none}

theorem exists_free (t : Table α) : ∃ fd, (t.get fd).isNone = true := by
  obtain ⟨n, hn⟩ := t.finite
  exact ⟨n, by rw [hn n (Nat.le_refl n), Option.isNone_none]⟩

/-- The lowest descriptor that is free. -/
def lowest (t : Table α) : Nat := Nat.find t.exists_free

/-- Open a descriptor: its number, and the table with it. -/
def alloc (t : Table α) (a : α) : Nat × Table α := (t.lowest, t.set t.lowest (some a))

def close (t : Table α) (fd : Nat) : Option (Table α) :=
  if (t.get fd).isSome then some (t.set fd none) else none

/-- `dup2(fd, fd')`. -/
def dup2 (t : Table α) (fd fd' : Nat) : Option (Table α) :=
  if (t.get fd).isSome then some (if fd = fd' then t else t.set fd' (t.get fd)) else none

@[simp] theorem get_set_self : (t.set fd a).get fd = a := by
  simp [set]

theorem get_set_of_ne {fd' : Nat} (h : fd' ≠ fd) : (t.set fd a).get fd' = t.get fd' := by
  simp [set, h]

@[simp] theorem get_map (f : α → β) : (t.map f).get fd = (t.get fd).map f := rfl

@[simp] theorem set_set {b : Option α} : (t.set fd a).set fd b = t.set fd b := by
  ext1 fd'
  by_cases h : fd' = fd
  · rw [h, get_set_self, get_set_self]
  · rw [get_set_of_ne h, get_set_of_ne h, get_set_of_ne h]

theorem set_comm {fd' : Nat} {b : Option α} (h : fd ≠ fd') :
    (t.set fd a).set fd' b = (t.set fd' b).set fd a := by
  ext1 n
  by_cases hfd : n = fd
  · rw [hfd, get_set_of_ne h, get_set_self, get_set_self]
  · rw [get_set_of_ne hfd]
    by_cases hfd' : n = fd'
    · rw [hfd', get_set_self, get_set_self]
    · rw [get_set_of_ne hfd', get_set_of_ne hfd', get_set_of_ne hfd]

theorem set_eq_self (h : t.get fd = a) : t.set fd a = t := by
  ext1 fd'
  by_cases hfd : fd' = fd
  · rw [hfd, get_set_self, h]
  · rw [get_set_of_ne hfd]

/-- The lowest free descriptor is free. -/
@[simp] theorem get_lowest (t : Table α) : t.get t.lowest = none :=
  Option.isNone_iff_eq_none.1 (Nat.find_spec t.exists_free)

theorem lowest_eq (hfree : t.get fd = none) (hbelow : ∀ fd' < fd, (t.get fd').isSome = true) :
    t.lowest = fd := by
  refine (Nat.find_eq_iff _).2 ⟨Option.isNone_iff_eq_none.2 hfree, fun fd' hfd' hnone => ?_⟩
  have hsome := hbelow fd' hfd'
  rw [Option.isNone_iff_eq_none.1 hnone] at hsome
  cases hsome

theorem close_of_get {x : α} (h : t.get fd = some x) : t.close fd = some (t.set fd none) := by
  rw [close, h, Option.isSome_some, if_pos rfl]

theorem dup2_of_get {x : α} {fd' : Nat} (h : t.get fd = some x) (hne : fd ≠ fd') :
    t.dup2 fd fd' = some (t.set fd' (some x)) := by
  rw [dup2, h, Option.isSome_some, if_pos rfl, if_neg hne]

/-- What is open after a descriptor has been. -/
theorem get_alloc_eq_some {x y : α} :
    (t.alloc x).2.get fd = some y ↔ (fd = (t.alloc x).1 ∧ y = x) ∨ t.get fd = some y := by
  show (t.set t.lowest (some x)).get fd = some y ↔ (fd = t.lowest ∧ y = x) ∨ t.get fd = some y
  by_cases hfd : fd = t.lowest
  · simp [hfd, eq_comm]
  · simp [get_set_of_ne hfd, hfd]

/-- The next descriptor is another one, and was free before, too. -/
theorem lowest_alloc_ne (t : Table α) (x : α) : (t.alloc x).2.lowest ≠ t.lowest := by
  intro h
  have hfree : (t.set t.lowest (some x)).get (t.alloc x).2.lowest = none :=
    (t.alloc x).2.get_lowest
  rw [h, get_set_self] at hfree
  cases hfree

theorem get_lowest_alloc (t : Table α) (x : α) : t.get (t.alloc x).2.lowest = none := by
  have hfree : (t.set t.lowest (some x)).get (t.alloc x).2.lowest = none :=
    (t.alloc x).2.get_lowest
  rwa [get_set_of_ne (t.lowest_alloc_ne x)] at hfree

/-- A descriptor that is opened and closed leaves the table as it was. -/
theorem close_alloc (t : Table α) (x : α) : (t.alloc x).2.close (t.alloc x).1 = some t := by
  rw [alloc, close_of_get get_set_self, set_set, set_eq_self t.get_lowest]

/-- One that is not closed is open afterwards, and was not before. -/
theorem opened_alloc_ne (t : Table α) (x : α) : (t.alloc x).2.opened ≠ t.opened := by
  intro h
  have hopen : t.lowest ∈ (t.alloc x).2.opened := by
    simp [opened, alloc]
  rw [h] at hopen
  exact hopen t.get_lowest

end Table

end Lpi.Verified.Descriptors
