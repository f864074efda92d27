import Mathlib.Data.List.Basic
import Mathlib.Logic.Function.Basic

/-!
# Objects with names

The objects of a table are found by their names, and used by those that have found
them.  A name can be removed, which leaves the object to its users, and given to a new
object.  A new object is another one than all before (`get_create`), so an object
that has lost its name (`Valid.nameless_unlink`) is never found again (`Nameless.create`).
-/

namespace Lpi.Verified.NamedObjects

/-- The objects by the order they were made in, and which of them a name leads to. -/
structure Table (ν α : Type*) where
  objects : List α
  lookup : ν → Option Nat

variable {ν α : Type*}

namespace Table

def empty : Table ν α := ⟨[], fun _ => none⟩

/-- The object with an identifier. -/
def get (t : Table ν α) (id : Nat) : Option α := t.objects[id]?

/-- The object becomes `a`. -/
def set (t : Table ν α) (id : Nat) (a : α) : Table ν α :=
  { t with objects := t.objects.set id a }

variable [DecidableEq ν]

/-- A new object under the name. -/
def create (t : Table ν α) (name : ν) (a : α) : Table ν α where
  objects := t.objects ++ [a]
  lookup := Function.update t.lookup name (some t.objects.length)

/-- The name is removed. -/
def unlink (t : Table ν α) (name : ν) : Table ν α :=
  { t with lookup := Function.update t.lookup name none }

end Table

open Table

/-- Names lead to objects, and no two to one. -/
structure Valid (t : Table ν α) : Prop where
  lt : ∀ name id, t.lookup name = some id → id < t.objects.length
  unique : ∀ name name' id, t.lookup name = some id → t.lookup name' = some id → name' = name

/-- The object is there, and no name leads to it. -/
structure Nameless (t : Table ν α) (id : Nat) : Prop where
  lt : id < t.objects.length
  lookup : ∀ name, t.lookup name ≠ some id

variable {t : Table ν α} {id id' : Nat} {a b : α} {name : ν}

theorem lt_of_get (h : t.get id = some a) : id < t.objects.length := by
  rw [Table.get, List.getElem?_eq_some_iff] at h
  exact h.1

theorem exists_get (h : id < t.objects.length) : ∃ a, t.get id = some a :=
  ⟨t.objects[id], List.getElem?_eq_getElem h⟩

theorem get_set (h : t.get id = some a) :
    (t.set id b).get id' = if id' = id then some b else t.get id' := by
  have hlt := lt_of_get h
  simp only [Table.get, Table.set]
  by_cases hid : id' = id
  · rw [if_pos hid, hid, List.getElem?_set_self hlt]
  · rw [if_neg hid, List.getElem?_set_ne (fun heq => hid heq.symm)]

theorem Valid.empty : Valid (Table.empty : Table ν α) where
  lt := by intro name id h; cases h
  unique := by intro name name' id h; cases h

theorem Valid.set (h : Valid t) : Valid (t.set id b) where
  lt := by
    intro name id' hname
    rw [Table.set, List.length_set]
    exact h.lt name id' hname
  unique := h.unique

theorem Nameless.set (h : Nameless t id) : Nameless (t.set id' b) id :=
  ⟨by simpa [Table.set] using h.lt, h.lookup⟩

variable [DecidableEq ν]

theorem get_create : (t.create name a).get id =
    if id = t.objects.length then some a else t.get id := by
  simp only [Table.get, Table.create]
  by_cases hid : id = t.objects.length
  · rw [if_pos hid, hid, List.getElem?_concat_length]
  · rw [if_neg hid]
    by_cases hlt : id < t.objects.length
    · rw [List.getElem?_append_left hlt]
    · rw [List.getElem?_eq_none (by rw [List.length_append, List.length_singleton]; omega),
        List.getElem?_eq_none (by omega)]

theorem lookup_create {name' : ν} : (t.create name a).lookup name' =
    if name' = name then some t.objects.length else t.lookup name' :=
  Function.update_apply t.lookup name _ name'

theorem lookup_unlink {name' : ν} :
    (t.unlink name).lookup name' = if name' = name then none else t.lookup name' :=
  Function.update_apply t.lookup name none name'

theorem length_create : (t.create name a).objects.length = t.objects.length + 1 := by
  rw [Table.create, List.length_append, List.length_singleton]

theorem Valid.create (h : Valid t) : Valid (t.create name a) where
  lt := by
    intro name' id hid
    rw [lookup_create] at hid
    rw [length_create]
    split at hid
    · rw [Option.some.injEq] at hid
      omega
    · have := h.lt name' id hid
      omega
  unique := by
    intro name₁ name₂ id h₁ h₂
    rw [lookup_create] at h₁ h₂
    split at h₁ <;> split at h₂
    · rename_i heq₁ heq₂
      rw [heq₁, heq₂]
    · rw [Option.some.injEq] at h₁
      have := h.lt name₂ id h₂
      omega
    · rw [Option.some.injEq] at h₂
      have := h.lt name₁ id h₁
      omega
    · exact h.unique name₁ name₂ id h₁ h₂

theorem Valid.unlink (h : Valid t) : Valid (t.unlink name) where
  lt := by
    intro name' id hid
    rw [lookup_unlink] at hid
    split at hid
    · cases hid
    · exact h.lt name' id hid
  unique := by
    intro name₁ name₂ id h₁ h₂
    rw [lookup_unlink] at h₁ h₂
    split at h₁
    · cases h₁
    · split at h₂
      · cases h₂
      · exact h.unique name₁ name₂ id h₁ h₂

/-- An object loses its one name. -/
theorem Valid.nameless_unlink (h : Valid t) (hname : t.lookup name = some id) :
    Nameless (t.unlink name) id := by
  refine ⟨h.lt name id hname, fun name' hid => ?_⟩
  rw [lookup_unlink] at hid
  split at hid
  · cases hid
  · rename_i hne
    exact hne (h.unique name name' id hname hid)

/-- **A lost object is not found again** under any name. -/
theorem Nameless.create (h : Nameless t id) : Nameless (t.create name a) id := by
  refine ⟨?_, fun name' hid => ?_⟩
  · rw [length_create]
    exact Nat.lt_succ_of_lt h.lt
  · rw [lookup_create] at hid
    split at hid
    · rw [Option.some.injEq] at hid
      have := h.lt
      omega
    · exact h.lookup name' hid

theorem Nameless.unlink (h : Nameless t id) : Nameless (t.unlink name) id := by
  refine ⟨h.lt, fun name' hid => ?_⟩
  rw [lookup_unlink] at hid
  split at hid
  · cases hid
  · exact h.lookup name' hid

end Lpi.Verified.NamedObjects
