import Lpi.Verified.CString
import Lpi.Verified.Expectations
import Lpi.Verified.Run
import Mathlib.Logic.Function.Basic

/-!
# Mocked functions (`extern/cmocka/src/cmocka.c`)

A test declares what a mocked function is to return (`_will_return`) and how its
parameters are to be checked (`_expect_check`); the function asks for that when it
is called (`_mock`, `_check_expected`).  Both are kept in maps from symbols to
queues, one with the function as its only symbol and one with function and
parameter, and a map of the latter kind is a list of maps of the former.

The queue of some symbols is changed by what is declared and asked for these symbols
only (`queue_addSymbolValue`, `queue_getSymbolValue`).  So what a test gets is told
by the declarations before, function by function, and so is whether it passes the
check for values that are left over (`test_completes_and_passes_iff`).
-/

namespace Lpi.Ports.CmockaMock

open Lpi.Verified.CString
open Lpi.Verified.Expectations
open Lpi.Verified.Run

/-! ## Symbol maps -/

/-- `symbol_names[]`. -/
abbrev Names : Nat → Type
  | 0 => Unit
  | n + 1 => CStr × Names n

instance decidableEqNames : ∀ n, DecidableEq (Names n)
  | 0 => inferInstanceAs (DecidableEq Unit)
  | n + 1 =>
      have := decidableEqNames n
      inferInstanceAs (DecidableEq (CStr × Names n))

/-- A map for some number of symbols: without any, a list of values, whose nodes
have a reference count; else a list of symbols with the maps below them. -/
abbrev SymbolMap (V : Type) : Nat → Type
  | 0 => Queue V
  | n + 1 => List (CStr × SymbolMap V n)

variable {V : Type} {n : Nat}

/-- `list_initialize`. -/
def SymbolMap.listInitialize : ∀ n, SymbolMap V n
  | 0 => ([] : List _)
  | _ + 1 => ([] : List _)

/-- `list_empty`. -/
def SymbolMap.listEmpty : ∀ {n}, SymbolMap V n → Bool
  | 0, values => List.isEmpty values
  | _ + 1, map => List.isEmpty map

section Lists

variable {β ρ : Type}

/-- `list_find` for a symbol. -/
def listFind (name : CStr) : List (CStr × β) → Option β
  | [] => none
  | (symbolName, child) :: rest =>
      if symbolName = name then some child else listFind name rest

/-- Change the list below a symbol, which is added at the end if it is new. -/
def addAt (name : CStr) (new : β) (add : β → β) : List (CStr × β) → List (CStr × β)
  | [] => [(name, add new)]
  | (symbolName, child) :: rest =>
      if symbolName = name then (symbolName, add child) :: rest
      else (symbolName, child) :: addAt name new add rest

/-- Take something from the list below a symbol, which is removed if nothing is
left. -/
def getAt (name : CStr) (listEmpty : β → Bool) (get : β → Option ρ × β) :
    List (CStr × β) → Option ρ × List (CStr × β)
  | [] => (none, [])
  | (symbolName, child) :: rest =>
      if symbolName = name then
        let (result, child) := get child
        (result, if listEmpty child then rest else (symbolName, child) :: rest)
      else
        let (result, rest) := getAt name listEmpty get rest
        (result, (symbolName, child) :: rest)

end Lists

/-- `add_symbol_value`. -/
def addSymbolValue : ∀ {n}, SymbolMap V n → Names n → V → Int → SymbolMap V n
  | 0, values, _, value, refcount => push (α := V) values value refcount
  | n + 1, map, (name, names), value, refcount =>
      addAt name (.listInitialize n) (fun child => addSymbolValue child names value refcount) map

/-- `get_symbol_value`: the value with its old reference count. -/
def getSymbolValue : ∀ {n}, SymbolMap V n → Names n → Option (V × Int) × SymbolMap V n
  | 0, values, _ =>
    match pop (α := V) values with
    | none => (none, values)
    | some (value, values) => (some value, values)
  | _ + 1, map, (name, names) =>
      getAt name SymbolMap.listEmpty (fun child => getSymbolValue child names) map

/-- `remove_always_return_values`. -/
def removeAlwaysReturnValues : ∀ {n}, SymbolMap V n → SymbolMap V n
  | 0, values => dropOptional (α := V) values
  | _ + 1, map =>
      List.filter (fun (_, child) => !SymbolMap.listEmpty child)
        (List.map (fun (name, child) => (name, removeAlwaysReturnValues child)) map)

/-- `check_for_leftover_values`, the number of symbols with values. -/
def checkForLeftoverValues (map : SymbolMap V (n + 1)) : Nat :=
  List.countP (fun (_, child) => !SymbolMap.listEmpty child) map

/-! ## A test -/

/-- `global_function_result_map_head` and `global_function_parameter_map_head`; a
parameter is checked by `check_value` with its data. -/
structure State where
  result : SymbolMap UInt64 1
  parameter : SymbolMap (UInt64 → Bool) 2

/-- What a test and the code under test do with the two maps: `mock` is a `_mock`
that returns the value, `checkExpected` a check of the value that succeeds. -/
inductive Label where
  | willReturn (function : CStr) (value : UInt64) (count : Int)
  | mock (function : CStr) (value : UInt64)
  | expectCheck (function parameter : CStr) (check : UInt64 → Bool) (count : Int)
  | checkExpected (function parameter : CStr) (value : UInt64)

/-- One call; where it fails it leaves the test. -/
def step (s : State) : Label → Option State
  | .willReturn function value count =>
      if count ≠ 0 then
        some { s with result := addSymbolValue s.result (function, ()) value count }
      else none
  | .mock function value =>
    match getSymbolValue s.result (function, ()) with
    | (some (symbol, rc), result) =>
        if rc ≠ 0 ∧ symbol = value then some { s with result := result } else none
    | (none, _) => none
  | .expectCheck function parameter check count => some
      { s with parameter := addSymbolValue s.parameter (function, parameter, ()) check count }
  | .checkExpected function parameter value =>
    match getSymbolValue s.parameter (function, parameter, ()) with
    | (some (check, rc), parameter) =>
        if rc ≠ 0 ∧ check value = true then some { s with parameter := parameter } else none
    | (none, _) => none

/-- `initialize_testing`. -/
def initializeTesting : State := ⟨.listInitialize 1, .listInitialize 2⟩

/-- `fail_if_leftover_values` does not fail. -/
def State.passes (s : State) : Bool :=
  checkForLeftoverValues (removeAlwaysReturnValues s.result) = 0 &&
    checkForLeftoverValues (removeAlwaysReturnValues s.parameter) = 0

/-! ## Lists of symbols -/

section Lists

variable {β ρ : Type} {name name' : CStr} {new : β} {add : β → β} {empty : β → Bool}
  {get : β → Option ρ × β} {map : List (CStr × β)}

theorem listFind_of_notMem (h : name ∉ map.map Prod.fst) : listFind name map = none := by
  induction map with
  | nil => rfl
  | cons e rest ih =>
      simp only [List.map_cons, List.mem_cons, not_or] at h
      rw [listFind, if_neg (fun heq => h.1 heq.symm)]
      exact ih h.2

theorem mem_of_listFind {child : β} (h : listFind name map = some child) :
    (name, child) ∈ map := by
  induction map with
  | nil => cases h
  | cons e rest ih =>
      rw [listFind] at h
      split at h
      · rename_i heq
        rw [Option.some.injEq] at h
        subst heq h
        exact List.mem_cons_self
      · exact List.mem_cons_of_mem _ (ih h)

theorem listFind_addAt : listFind name' (addAt name new add map) =
    if name' = name then some (add ((listFind name map).getD new)) else listFind name' map := by
  induction map with
  | nil =>
      by_cases h : name' = name
      · simp [addAt, listFind, h]
      · simp [addAt, listFind, h, Ne.symm h]
  | cons e rest ih =>
      by_cases he : e.1 = name
      · by_cases h : name' = name
        · simp [addAt, listFind, he, h]
        · simp [addAt, listFind, he, h, Ne.symm h]
      · by_cases h : name' = name
        · subst h
          simpa [addAt, listFind, he] using ih
        · by_cases he' : e.1 = name'
          · simp [addAt, listFind, he', h]
          · simpa [addAt, listFind, he, he', h] using ih

theorem map_fst_addAt : (addAt name new add map).map Prod.fst =
    if name ∈ map.map Prod.fst then map.map Prod.fst else map.map Prod.fst ++ [name] := by
  induction map with
  | nil => simp [addAt]
  | cons e rest ih =>
      rw [addAt]
      by_cases he : e.1 = name
      · simp [he]
      · rw [if_neg he, List.map_cons, ih]
        by_cases hmem : name ∈ rest.map Prod.fst
        · simp [hmem]
        · have hne : ¬ name ∈ (e :: rest).map Prod.fst := by
            simp only [List.map_cons, List.mem_cons, not_or]
            exact ⟨fun heq => he heq.symm, hmem⟩
          rw [if_neg hmem, if_neg hne]
          rfl

theorem nodup_addAt (h : (map.map Prod.fst).Nodup) :
    ((addAt name new add map).map Prod.fst).Nodup := by
  rw [map_fst_addAt]
  split
  · exact h
  · rename_i hmem
    rw [List.nodup_append]
    refine ⟨h, List.nodup_singleton name, ?_⟩
    intro a ha b hb hab
    rw [List.mem_singleton.1 hb] at hab
    exact hmem (hab ▸ ha)

theorem forall_addAt {P : β → Prop} (h : ∀ e ∈ map, P e.2)
    (hadd : P (add ((listFind name map).getD new))) : ∀ e ∈ addAt name new add map, P e.2 := by
  induction map with
  | nil => simpa [addAt, listFind] using hadd
  | cons e rest ih =>
      intro d hd
      rw [addAt] at hd
      rw [listFind] at hadd
      by_cases he : e.1 = name
      · rw [if_pos he] at hd hadd
        rcases List.mem_cons.1 hd with rfl | hd
        · exact hadd
        · exact h d (List.mem_cons_of_mem _ hd)
      · rw [if_neg he] at hd hadd
        rcases List.mem_cons.1 hd with rfl | hd
        · exact h _ List.mem_cons_self
        · exact ih (fun e he => h e (List.mem_cons_of_mem _ he)) hadd d hd

theorem getAt_of_none (h : listFind name map = none) : getAt name empty get map = (none, map) := by
  induction map with
  | nil => rfl
  | cons e rest ih =>
      rw [listFind] at h
      split at h
      · cases h
      · rename_i he
        rw [getAt, if_neg he, ih h]

theorem fst_getAt {child : β} (h : listFind name map = some child) :
    (getAt name empty get map).1 = (get child).1 := by
  induction map with
  | nil => cases h
  | cons e rest ih =>
      rw [listFind] at h
      split at h
      · rename_i he
        rw [Option.some.injEq] at h
        rw [getAt, if_pos he, h]
      · rename_i he
        rw [getAt, if_neg he]
        exact ih h

theorem listFind_getAt {child : β} (h : (map.map Prod.fst).Nodup)
    (hchild : listFind name map = some child) :
    listFind name' (getAt name empty get map).2 =
      if name' = name then (if empty (get child).2 then none else some (get child).2)
      else listFind name' map := by
  induction map with
  | nil => cases hchild
  | cons e rest ih =>
      rw [List.map_cons, List.nodup_cons] at h
      rw [listFind] at hchild
      by_cases he : e.1 = name
      · rw [if_pos he, Option.some.injEq] at hchild
        subst hchild
        by_cases hempty : empty (get e.2).2
        · by_cases hname : name' = name
          · subst hname
            simp [getAt, he, hempty, listFind_of_notMem (he ▸ h.1)]
          · simp [getAt, he, hempty, hname, listFind, Ne.symm hname]
        · by_cases hname : name' = name
          · simp [getAt, he, hempty, hname, listFind]
          · simp [getAt, he, hempty, hname, listFind, Ne.symm hname]
      · rw [if_neg he] at hchild
        have hrest := ih h.2 hchild
        by_cases hname : name' = name
        · subst hname
          simpa [getAt, he, listFind] using hrest
        · by_cases he' : e.1 = name'
          · simp [getAt, he', listFind, hname]
          · simpa [getAt, he, he', listFind, hname] using hrest

theorem map_fst_getAt : ((getAt name empty get map).2.map Prod.fst).Sublist
    (map.map Prod.fst) := by
  induction map with
  | nil => exact List.Sublist.refl _
  | cons e rest ih =>
      rw [getAt]
      by_cases he : e.1 = name
      · rw [if_pos he]
        by_cases hempty : empty (get e.2).2
        · simp [hempty]
        · simp [hempty]
      · rw [if_neg he]
        exact ih.cons_cons e.1

theorem forall_getAt {P : β → Prop} (h : ∀ e ∈ map, P e.2)
    (hget : ∀ child, listFind name map = some child → empty (get child).2 = false →
      P (get child).2) : ∀ e ∈ (getAt name empty get map).2, P e.2 := by
  induction map with
  | nil => simp [getAt]
  | cons e rest ih =>
      intro d hd
      rw [getAt] at hd
      rw [listFind] at hget
      by_cases he : e.1 = name
      · rw [if_pos he] at hd hget
        by_cases hempty : empty (get e.2).2
        · simp only [hempty, if_true] at hd
          exact h d (List.mem_cons_of_mem _ hd)
        · simp only [hempty] at hd
          rcases List.mem_cons.1 hd with rfl | hd
          · exact hget _ rfl (by simpa using hempty)
          · exact h d (List.mem_cons_of_mem _ hd)
      · rw [if_neg he] at hd hget
        rcases List.mem_cons.1 hd with rfl | hd
        · exact h _ List.mem_cons_self
        · exact ih (fun e he => h e (List.mem_cons_of_mem _ he)) hget d hd

end Lists

/-! ## The queues of a map -/

/-- The queue of some symbols, empty if they are not in the map. -/
def queue : ∀ {n}, SymbolMap V n → Names n → Queue V
  | 0, values, _ => values
  | _ + 1, map, (name, names) => (listFind name map).elim [] fun child => queue child names

/-- No symbol is in a list twice, and below each one there is a value. -/
def WellFormed : ∀ {n}, SymbolMap V n → Prop
  | 0, _ => True
  | _ + 1, map => (List.map Prod.fst map).Nodup ∧
      ∀ e ∈ (map : List _), SymbolMap.listEmpty e.2 = false ∧ WellFormed e.2

theorem queue_listInitialize (names : Names n) :
    queue (SymbolMap.listInitialize n) names = ([] : Queue V) := by
  cases n <;> rfl

theorem wellFormed_listInitialize : WellFormed (SymbolMap.listInitialize n : SymbolMap V n) := by
  cases n with
  | zero => trivial
  | succ n => exact ⟨List.nodup_nil, by simp [SymbolMap.listInitialize]⟩

theorem listEmpty_addSymbolValue (map : SymbolMap V n) (names : Names n) (value : V)
    (refcount : Int) : (addSymbolValue map names value refcount).listEmpty = false := by
  cases n with
  | zero => simp [addSymbolValue, SymbolMap.listEmpty, push]
  | succ n =>
      rcases names with ⟨name, names⟩
      cases map with
      | nil => rfl
      | cons e rest =>
          rw [addSymbolValue, addAt]
          split <;> rfl

theorem wellFormed_addSymbolValue {map : SymbolMap V n} (h : WellFormed map) (names : Names n)
    (value : V) (refcount : Int) : WellFormed (addSymbolValue map names value refcount) := by
  induction n with
  | zero => trivial
  | succ n ih =>
      rcases names with ⟨name, names⟩
      refine ⟨nodup_addAt h.1, forall_addAt (P := fun child =>
        SymbolMap.listEmpty child = false ∧ WellFormed child) h.2 ?_⟩
      refine ⟨listEmpty_addSymbolValue _ _ _ _, ih ?_ names⟩
      cases hfind : listFind name map with
      | none => exact wellFormed_listInitialize
      | some child => exact (h.2 _ (mem_of_listFind hfind)).2

/-- **A value goes to the end of the queue of its symbols**, and to no other. -/
theorem queue_addSymbolValue (map : SymbolMap V n) (names names' : Names n) (value : V)
    (refcount : Int) : queue (addSymbolValue map names value refcount) names' =
      if names' = names then push (queue map names) value refcount else queue map names' := by
  induction n with
  | zero => exact (if_pos rfl).symm
  | succ n ih =>
      rcases names with ⟨name, names⟩
      rcases names' with ⟨name', names'⟩
      rw [addSymbolValue, queue, listFind_addAt]
      by_cases hname : name' = name
      · subst hname
        rw [if_pos rfl, Option.elim_some, ih]
        cases hfind : listFind name' map with
        | none => simp [queue, hfind, queue_listInitialize]
        | some child => simp [queue, hfind]
      · rw [if_neg hname, if_neg (fun heq => hname (congrArg Prod.fst heq)), queue]

theorem getSymbolValue_zero (values : Queue V) : getSymbolValue (n := 0) values () =
    ((pop values).map Prod.fst, ((pop values).map Prod.snd).getD values) := by
  rw [getSymbolValue]
  cases pop values <;> rfl

/-- The value in front of the queue is taken. -/
theorem fst_getSymbolValue (map : SymbolMap V n) (names : Names n) :
    (getSymbolValue map names).1 = (pop (queue map names)).map Prod.fst := by
  induction n with
  | zero => rw [getSymbolValue_zero, queue]
  | succ n ih =>
      rcases names with ⟨name, names⟩
      rw [getSymbolValue, queue]
      cases hfind : listFind name map with
      | none =>
          rw [getAt_of_none hfind]
          rfl
      | some child =>
          rw [fst_getAt hfind]
          exact ih child names

theorem wellFormed_getSymbolValue {map : SymbolMap V n} (h : WellFormed map) (names : Names n) :
    WellFormed (getSymbolValue map names).2 := by
  induction n with
  | zero => trivial
  | succ n ih =>
      rcases names with ⟨name, names⟩
      refine ⟨h.1.sublist map_fst_getAt, forall_getAt (P := fun child =>
        SymbolMap.listEmpty child = false ∧ WellFormed child) h.2 ?_⟩
      intro child hfind hempty
      exact ⟨hempty, ih (h.2 _ (mem_of_listFind hfind)).2 names⟩

theorem queue_of_listEmpty {map : SymbolMap V n} (h : map.listEmpty = true) (names : Names n) :
    queue map names = [] := by
  cases n with
  | zero => exact List.isEmpty_iff.1 h
  | succ n =>
      have hnil : map = [] := List.isEmpty_iff.1 h
      subst hnil
      rfl

/-- **The queues of all other symbols stay**, and that of the symbols loses what was
taken, also where that removes lists that are empty now. -/
theorem queue_getSymbolValue {map : SymbolMap V n} (h : WellFormed map) (names names' : Names n) :
    queue (getSymbolValue map names).2 names' =
      if names' = names then ((pop (queue map names)).map Prod.snd).getD (queue map names)
      else queue map names' := by
  induction n with
  | zero => exact (if_pos rfl).symm ▸ congrArg Prod.snd (getSymbolValue_zero map)
  | succ n ih =>
      rcases names with ⟨name, names⟩
      rcases names' with ⟨name', names'⟩
      rw [getSymbolValue]
      have hqueue : queue map (name, names) =
          (listFind name map).elim [] fun child => queue child names := rfl
      cases hfind : listFind name map with
      | none =>
          rw [hfind, Option.elim_none] at hqueue
          rw [getAt_of_none hfind, hqueue]
          split
          · rename_i heq
            rw [heq, hqueue]
            rfl
          · rfl
      | some child =>
          rw [hfind, Option.elim_some] at hqueue
          rw [queue, listFind_getAt h.1 hfind, hqueue]
          by_cases hname : name' = name
          · subst hname
            have hrest := ih (h.2 _ (mem_of_listFind hfind)).2 names names'
            have hleft : (if SymbolMap.listEmpty (getSymbolValue child names).2 then none
                else some (getSymbolValue child names).2).elim []
                  (fun child => queue child names') =
                queue (getSymbolValue child names).2 names' := by
              split
              · rename_i hempty
                exact (queue_of_listEmpty hempty names').symm
              · rfl
            rw [if_pos rfl, hleft, hrest, queue, hfind]
            simp
          · rw [if_neg hname, if_neg (fun heq => hname (congrArg Prod.fst heq)), queue]

/-! ## The end of a test -/

theorem listFind_filter_map {β : Type} {name : CStr} {map : List (CStr × β)} (f : β → β)
    (empty : β → Bool) (h : (map.map Prod.fst).Nodup) :
    listFind name ((map.map fun (name, child) => (name, f child)).filter
        fun (_, child) => !empty child) =
      (listFind name map).bind fun child => if empty (f child) then none else some (f child) := by
  induction map with
  | nil => rfl
  | cons e rest ih =>
      rw [List.map_cons, List.nodup_cons] at h
      have hrest := ih h.2
      by_cases hempty : empty (f e.2)
      · by_cases he : e.1 = name
        · have hnone := listFind_of_notMem (he ▸ h.1)
          rw [hnone] at hrest
          simpa [listFind, he, hempty] using hrest
        · simpa [listFind, he, hempty] using hrest
      · by_cases he : e.1 = name
        · simp [listFind, he, hempty]
        · simpa [listFind, he, hempty] using hrest

theorem wellFormed_removeAlwaysReturnValues {map : SymbolMap V n} (h : WellFormed map) :
    WellFormed (removeAlwaysReturnValues map) := by
  induction n with
  | zero => trivial
  | succ n ih =>
      constructor
      · refine List.Nodup.sublist (List.Sublist.map _ List.filter_sublist) ?_
        rw [List.map_map]
        exact h.1
      · intro e he
        rcases List.mem_filter.1 he with ⟨hmem, hempty⟩
        rcases List.mem_map.1 hmem with ⟨d, hd, rfl⟩
        exact ⟨by simpa using hempty, ih (h.2 d hd).2⟩

/-- An optional value is removed in front of each queue. -/
theorem queue_removeAlwaysReturnValues {map : SymbolMap V n} (h : WellFormed map)
    (names : Names n) :
    queue (removeAlwaysReturnValues map) names = dropOptional (queue map names) := by
  induction n with
  | zero => rfl
  | succ n ih =>
      rcases names with ⟨name, names⟩
      rw [removeAlwaysReturnValues, queue, listFind_filter_map _ _ h.1, queue]
      cases hfind : listFind name map with
      | none => rfl
      | some child =>
          have hchild := ih (h.2 _ (mem_of_listFind hfind)).2 names
          rw [Option.bind_some, Option.elim_some, ← hchild]
          split
          · rename_i hempty
            exact (queue_of_listEmpty hempty names).symm
          · rfl

/-- Where a list is not empty there is a value. -/
theorem exists_queue_ne {map : SymbolMap V n} (h : WellFormed map)
    (hempty : map.listEmpty = false) : ∃ names, queue map names ≠ [] := by
  induction n with
  | zero => exact ⟨(), by simpa [SymbolMap.listEmpty, queue] using hempty⟩
  | succ n ih =>
      cases map with
      | nil => cases hempty
      | cons e rest =>
          have he := h.2 e List.mem_cons_self
          rcases ih he.2 he.1 with ⟨names, hnames⟩
          refine ⟨(e.1, names), ?_⟩
          rw [queue, listFind, if_pos rfl]
          exact hnames

theorem checkForLeftoverValues_eq_zero {map : SymbolMap V (n + 1)} (h : WellFormed map) :
    checkForLeftoverValues map = 0 ↔ ∀ names, queue map names = [] := by
  rw [checkForLeftoverValues, List.countP_eq_zero]
  constructor
  · intro hnone
    cases hmap : map.listEmpty with
    | true => exact queue_of_listEmpty hmap
    | false =>
        cases map with
        | nil => cases hmap
        | cons e rest =>
            have hempty := (h.2 e List.mem_cons_self).1
            exact absurd (by simpa using hempty) (hnone e List.mem_cons_self)
  · intro hall e he
    have hempty : map.listEmpty = false := by
      cases map with
      | nil => cases he
      | cons d rest => rfl
    rcases exists_queue_ne h hempty with ⟨names, hnames⟩
    exact absurd (hall names) hnames

/-! ## What a map knows of a test -/

/-- The map is what is left of the declarations for each of its symbols after so
many questions, which were answered all. -/
structure Tracks (declared : Names n → List (V × Int)) (asked : Names n → Nat)
    (map : SymbolMap V n) : Prop where
  wellFormed : WellFormed map
  queue : ∀ names, queue map names = remaining (declared names) (asked names)
  answered : ∀ names, ∀ i < asked names, given (declared names) i ≠ none

variable {declared : Names n → List (V × Int)} {asked : Names n → Nat} {map : SymbolMap V n}

theorem tracks_listInitialize : Tracks (fun _ => ([] : List (V × Int))) (fun _ => 0)
    (SymbolMap.listInitialize n) :=
  ⟨wellFormed_listInitialize, fun names => queue_listInitialize names, by simp⟩

theorem Tracks.add (h : Tracks declared asked map) (names : Names n) (value : V) (count : Int) :
    Tracks (Function.update declared names (push (declared names) value count)) asked
      (addSymbolValue map names value count) where
  wellFormed := wellFormed_addSymbolValue h.wellFormed names value count
  queue := by
    intro names'
    rw [queue_addSymbolValue]
    by_cases hnames : names' = names
    · subst hnames
      rw [if_pos rfl, Function.update_self, h.queue, remaining_push (h.answered names')]
    · rw [if_neg hnames, Function.update_of_ne hnames, h.queue]
  answered := by
    intro names' i hi
    by_cases hnames : names' = names
    · subst hnames
      rw [Function.update_self]
      rcases Option.ne_none_iff_exists'.1 (h.answered names' i hi) with ⟨a, ha⟩
      rw [given_push ha]
      exact Option.some_ne_none a
    · rw [Function.update_of_ne hnames]
      exact h.answered names' i hi

theorem Tracks.get {value : V} (h : Tracks declared asked map) (names : Names n)
    (hgiven : given (declared names) (asked names) = some value) :
    ∃ rc, rc ≠ 0 ∧ (getSymbolValue map names).1 = some (value, rc) ∧
      Tracks declared (Function.update asked names (asked names + 1))
        (getSymbolValue map names).2 := by
  rcases pop_remaining hgiven with ⟨rc, hrc, hpop⟩
  rw [← h.queue] at hpop
  refine ⟨rc, hrc, by rw [fst_getSymbolValue, hpop]; rfl,
    wellFormed_getSymbolValue h.wellFormed names, ?_, ?_⟩
  · intro names'
    rw [queue_getSymbolValue h.wellFormed]
    by_cases hnames : names' = names
    · subst hnames
      rw [if_pos rfl, hpop, Function.update_self]
      rfl
    · rw [if_neg hnames, Function.update_of_ne hnames, h.queue]
  · intro names' i hi
    by_cases hnames : names' = names
    · subst hnames
      rw [Function.update_self] at hi
      rcases Nat.lt_succ_iff_lt_or_eq.1 hi with hlt | rfl
      · exact h.answered names' i hlt
      · rw [hgiven]
        exact Option.some_ne_none value
    · rw [Function.update_of_ne hnames] at hi
      exact h.answered names' i hi

theorem Tracks.get_none (h : Tracks declared asked map) (names : Names n)
    (hgiven : given (declared names) (asked names) = none) {value : V} {rc : Int}
    (hget : (getSymbolValue map names).1 = some (value, rc)) : rc = 0 := by
  rw [fst_getSymbolValue, h.queue] at hget
  rcases pop_remaining_none hgiven with hnone | ⟨a, rest, hzero⟩
  · rw [hnone] at hget
    cases hget
  · rw [hzero, Option.map_some, Option.some.injEq, Prod.mk.injEq] at hget
    exact hget.2.symm

theorem Tracks.leftover {declared : Names (n + 1) → List (V × Int)} {asked : Names (n + 1) → Nat}
    {map : SymbolMap V (n + 1)} (h : Tracks declared asked map) :
    checkForLeftoverValues (removeAlwaysReturnValues map) = 0 ↔
      ∀ names, satisfied (declared names) (asked names) := by
  rw [checkForLeftoverValues_eq_zero (wellFormed_removeAlwaysReturnValues h.wellFormed)]
  refine forall_congr' fun names => ?_
  rw [queue_removeAlwaysReturnValues h.wellFormed, h.queue,
    dropOptional_remaining (h.answered names)]

/-! ## Whole tests -/

/-- The values declared for a function by now. -/
def declaredResults (ls : List Label) (function : CStr) : List (UInt64 × Int) :=
  ls.filterMap fun
    | .willReturn name value count => if name = function then some (value, count) else none
    | _ => none

/-- The calls of a function by now. -/
def calls (ls : List Label) (function : CStr) : Nat :=
  ls.countP fun
    | .mock name _ => name = function
    | _ => false

/-- The checks declared for a parameter by now. -/
def declaredChecks (ls : List Label) (function parameter : CStr) :
    List ((UInt64 → Bool) × Int) :=
  ls.filterMap fun
    | .expectCheck name name' check count =>
        if name = function ∧ name' = parameter then some (check, count) else none
    | _ => none

def checks (ls : List Label) (function parameter : CStr) : Nat :=
  ls.countP fun
    | .checkExpected name name' _ => name = function ∧ name' = parameter
    | _ => false

/-- A call succeeds after the calls before it: what `_mock` returns was declared, and
the check that is next accepts the parameter. -/
def Succeeds (before : List Label) : Label → Prop
  | .willReturn _ _ count => count ≠ 0
  | .mock function value =>
      given (declaredResults before function) (calls before function) = some value
  | .expectCheck _ _ _ _ => True
  | .checkExpected function parameter value =>
      ∃ check, given (declaredChecks before function parameter)
        (checks before function parameter) = some check ∧ check value = true

/-- Both maps after the calls. -/
structure After (ls : List Label) (s : State) : Prop where
  result : Tracks (n := 1) (fun names => declaredResults ls names.1) (fun names => calls ls names.1)
    s.result
  parameter : Tracks (n := 2) (fun names => declaredChecks ls names.1 names.2.1)
    (fun names => checks ls names.1 names.2.1) s.parameter

theorem after_initializeTesting : After [] initializeTesting :=
  ⟨tracks_listInitialize, tracks_listInitialize⟩

theorem step_mock_iff {s t : State} {function : CStr} {value : UInt64} :
    step s (.mock function value) = some t ↔
      ∃ rc, rc ≠ 0 ∧ (getSymbolValue s.result (function, ())).1 = some (value, rc) ∧
        t = { s with result := (getSymbolValue s.result (function, ())).2 } := by
  rw [step]
  rcases getSymbolValue s.result (function, ()) with ⟨_ | ⟨symbol, rc⟩, result⟩
  · simp
  · simp only [Option.ite_none_right_eq_some, Option.some.injEq, Prod.mk.injEq]
    constructor
    · rintro ⟨⟨hrc, rfl⟩, rfl⟩
      exact ⟨rc, hrc, ⟨rfl, rfl⟩, rfl⟩
    · rintro ⟨rc', hrc, ⟨rfl, rfl⟩, rfl⟩
      exact ⟨⟨hrc, rfl⟩, rfl⟩

theorem step_checkExpected_iff {s t : State} {function parameter : CStr} {value : UInt64} :
    step s (.checkExpected function parameter value) = some t ↔
      ∃ check rc, rc ≠ 0 ∧ check value = true ∧
        (getSymbolValue s.parameter (function, parameter, ())).1 = some (check, rc) ∧
        t = { s with parameter := (getSymbolValue s.parameter (function, parameter, ())).2 } := by
  rw [step]
  rcases getSymbolValue s.parameter (function, parameter, ()) with ⟨_ | ⟨check, rc⟩, parameter⟩
  · simp
  · simp only [Option.ite_none_right_eq_some, Option.some.injEq, Prod.mk.injEq]
    constructor
    · rintro ⟨⟨hrc, hcheck⟩, rfl⟩
      exact ⟨check, rc, hrc, hcheck, ⟨rfl, rfl⟩, rfl⟩
    · rintro ⟨check', rc', hrc, hcheck, ⟨rfl, rfl⟩, rfl⟩
      exact ⟨⟨hrc, hcheck⟩, rfl⟩

variable {ls : List Label} {s t : State} {l : Label}

theorem After.step_iff (h : After ls s) : (∃ t, step s l = some t) ↔ Succeeds ls l := by
  cases l with
  | willReturn function value count => simp [step, Succeeds]
  | expectCheck function parameter check count => simp [step, Succeeds]
  | mock function value =>
      simp only [step_mock_iff, Succeeds]
      constructor
      · rintro ⟨_, rc, hrc, hget, _⟩
        cases hgiven : given (declaredResults ls function) (calls ls function) with
        | none => exact absurd (h.result.get_none (function, ()) hgiven hget) hrc
        | some value' =>
            rcases h.result.get (function, ()) hgiven with ⟨rc', _, hget', _⟩
            rw [hget, Option.some.injEq, Prod.mk.injEq] at hget'
            rw [hget'.1]
      · intro hgiven
        rcases h.result.get (function, ()) hgiven with ⟨rc, hrc, hget, _⟩
        exact ⟨_, rc, hrc, hget, rfl⟩
  | checkExpected function parameter value =>
      simp only [step_checkExpected_iff, Succeeds]
      constructor
      · rintro ⟨_, check, rc, hrc, hcheck, hget, _⟩
        cases hgiven : given (declaredChecks ls function parameter)
            (checks ls function parameter) with
        | none =>
            exact absurd (h.parameter.get_none (function, parameter, ()) hgiven hget) hrc
        | some check' =>
            rcases h.parameter.get (function, parameter, ()) hgiven with
              ⟨rc', _, hget', _⟩
            rw [hget, Option.some.injEq, Prod.mk.injEq] at hget'
            exact ⟨check', rfl, hget'.1 ▸ hcheck⟩
      · rintro ⟨check, hgiven, hcheck⟩
        rcases h.parameter.get (function, parameter, ()) hgiven with
          ⟨rc, hrc, hget, _⟩
        exact ⟨_, check, rc, hrc, hcheck, hget, rfl⟩

/-- A call changes what is declared or asked for its own symbols. -/
theorem After.next (h : After ls s) (hstep : step s l = some t) : After (ls ++ [l]) t := by
  cases l with
  | willReturn function value count =>
      simp only [step, Option.ite_none_right_eq_some, Option.some.injEq] at hstep
      rcases hstep with ⟨_, rfl⟩
      refine ⟨?_, by simpa [declaredChecks, checks] using h.parameter⟩
      convert h.result.add (function, ()) value count using 1
      · funext names
        by_cases hnames : names = (function, ())
        · simp [hnames, declaredResults, push]
        · have hne : ¬ function = names.1 := fun heq => hnames (Prod.ext heq.symm rfl)
          simp [hnames, hne, declaredResults]
      · simp [calls]
  | expectCheck function parameter check count =>
      simp only [step, Option.some.injEq] at hstep
      subst hstep
      refine ⟨by simpa [declaredResults, calls] using h.result, ?_⟩
      convert h.parameter.add (function, parameter, ()) check count using 1
      · funext names
        by_cases hnames : names = (function, parameter, ())
        · simp [hnames, declaredChecks, push]
        · have hne : ¬ (function = names.1 ∧ parameter = names.2.1) := fun heq =>
            hnames (Prod.ext heq.1.symm (Prod.ext heq.2.symm rfl))
          simp [hnames, hne, declaredChecks]
      · simp [checks]
  | mock function value =>
      have hgiven := h.step_iff.1 ⟨t, hstep⟩
      rcases step_mock_iff.1 hstep with ⟨_, _, _, rfl⟩
      rcases h.result.get (function, ()) hgiven with ⟨_, _, _, hresult⟩
      refine ⟨?_, by simpa [declaredChecks, checks] using h.parameter⟩
      convert hresult using 1
      · simp [declaredResults]
      · funext names
        by_cases hnames : names = (function, ())
        · simp [hnames, calls]
        · have hne : ¬ function = names.1 := fun heq => hnames (Prod.ext heq.symm rfl)
          simp [hnames, hne, calls]
  | checkExpected function parameter value =>
      rcases h.step_iff.1 ⟨t, hstep⟩ with ⟨_, hgiven, _⟩
      rcases step_checkExpected_iff.1 hstep with ⟨_, _, _, _, _, rfl⟩
      rcases h.parameter.get (function, parameter, ()) hgiven with ⟨_, _, _, hparameter⟩
      refine ⟨by simpa [declaredResults, calls] using h.result, ?_⟩
      convert hparameter using 1
      · simp [declaredChecks]
      · funext names
        by_cases hnames : names = (function, parameter, ())
        · simp [hnames, checks]
        · have hne : ¬ (function = names.1 ∧ parameter = names.2.1) := fun heq =>
            hnames (Prod.ext heq.1.symm (Prod.ext heq.2.symm rfl))
          simp [hnames, hne, checks]

/-- What was declared of a function or a parameter and not used up must be optional. -/
def Satisfied (ls : List Label) : Prop :=
  (∀ function, satisfied (declaredResults ls function) (calls ls function)) ∧
    ∀ function parameter,
      satisfied (declaredChecks ls function parameter) (checks ls function parameter)

theorem After.passes_iff (h : After ls s) : s.passes = true ↔ Satisfied ls := by
  rw [State.passes, Bool.and_eq_true, decide_eq_true_iff, decide_eq_true_iff, h.result.leftover,
    h.parameter.leftover]
  constructor
  · rintro ⟨hresult, hparameter⟩
    exact ⟨fun function => hresult (function, ()),
      fun function parameter => hparameter (function, parameter, ())⟩
  · rintro ⟨hresult, hparameter⟩
    exact ⟨fun names => hresult names.1, fun names => hparameter names.1 names.2.1⟩

theorem After.of_exec (h : After ls s) {ls' : List Label} (hexec : exec step s ls' = some t) :
    After (ls ++ ls') t := by
  induction ls' generalizing ls s with
  | nil =>
      rw [exec_nil, Option.some.injEq] at hexec
      rw [List.append_nil, ← hexec]
      exact h
  | cons l ls' ih =>
      rcases exec_cons_eq_some.1 hexec with ⟨m, hm, hrest⟩
      rw [List.append_cons]
      exact ih (h.next hm) hrest

theorem After.exists_exec_iff (h : After ls s) {ls' : List Label} :
    (∃ t, exec step s ls' = some t) ↔
      ∀ before l after, ls' = before ++ l :: after → Succeeds (ls ++ before) l := by
  induction ls' generalizing ls s with
  | nil => exact iff_of_true ⟨s, exec_nil s⟩ (by simp)
  | cons l ls' ih =>
      constructor
      · rintro ⟨t, hexec⟩ before l' after hsplit
        rcases exec_cons_eq_some.1 hexec with ⟨m, hm, hrest⟩
        cases before with
        | nil =>
            rw [List.nil_append, List.cons.injEq] at hsplit
            rw [List.append_nil, ← hsplit.1]
            exact h.step_iff.1 ⟨m, hm⟩
        | cons b before =>
            rw [List.cons_append, List.cons.injEq] at hsplit
            rw [List.append_cons, ← hsplit.1]
            exact (ih (h.next hm)).1 ⟨t, hrest⟩ before l' after hsplit.2
      · intro hall
        have hfirst := hall [] l ls' rfl
        rw [List.append_nil] at hfirst
        rcases h.step_iff.2 hfirst with ⟨m, hm⟩
        have hrest := (ih (h.next hm)).2 (by
          intro before l' after hsplit
          rw [List.append_assoc]
          exact hall (l :: before) l' after (by rw [hsplit]; rfl))
        rcases hrest with ⟨t, ht⟩
        exact ⟨t, exec_cons_eq_some.2 ⟨m, hm, ht⟩⟩

/-- **A test gets what it has declared.**  It runs through to its end exactly if each
call of it succeeds after the ones before it, where a call of a function is told by
the declarations for that function and its earlier calls; and then it passes exactly
if nothing is left over that was not optional. -/
theorem test_completes_and_passes_iff (ls : List Label) :
    ((∃ t, exec step initializeTesting ls = some t) ↔
      ∀ before l after, ls = before ++ l :: after → Succeeds before l) ∧
    ∀ t, exec step initializeTesting ls = some t → (t.passes = true ↔ Satisfied ls) := by
  refine ⟨after_initializeTesting.exists_exec_iff, fun t ht => ?_⟩
  exact (after_initializeTesting.of_exec ht).passes_iff

end Lpi.Ports.CmockaMock
