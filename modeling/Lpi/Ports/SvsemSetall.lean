import Lpi.Ports.NumericArgsNarrowing
import Mathlib.Data.List.Forall2
import Mathlib.Logic.Function.Basic

/-!
# Setting a set of semaphores (`svsem/svsem_setall.c`)

The program takes the identifier of a set and a value for each of its
semaphores, fills an array with the values, and passes it to
`semctl(SETALL)`.  The loop that fills the array stores every value in its
first element (`fill_eq`), and `calloc` has left the others 0.

`setall_exact_iff` says for which values this makes no difference.
-/

namespace Lpi.Ports.SvsemSetall

open Lpi.Verified.CInt
open Lpi.Verified.CString
open Lpi.Verified.Strtol

/-! ## The system -/

/-- The semaphore sets by identifier, and the calls that are refused though
their arguments are good, with the text of `errno`. -/
structure Kernel where
  sets : Int → Option (List Int)
  statError : Int → Option (List UInt8)
  callocError : Nat → Option (List UInt8)
  setallError : Int → Option (List UInt8)

/-- `SEMVMX`. -/
def semvmx : Int := 32767

/-- `IPC_STAT`, of which the program uses `sem_nsems`. -/
def Kernel.ipcStat (k : Kernel) (semid : Int) : Except (List UInt8) Nat :=
  match k.sets semid, k.statError semid with
  | none, _ => .error (ascii "Invalid argument")
  | some _, some e => .error e
  | some values, none => .ok values.length

/-- `calloc` of `n` elements. -/
def Kernel.calloc (k : Kernel) (n : Nat) : Except (List UInt8) (List Int) :=
  match k.callocError n with
  | some e => .error e
  | none => .ok (List.replicate n 0)

/-- `SETALL`. -/
def Kernel.setall (k : Kernel) (semid : Int) (array : List Int) :
    Except (List UInt8) Kernel :=
  match k.sets semid, k.setallError semid with
  | none, _ => .error (ascii "Invalid argument")
  | some _, some e => .error e
  | some values, none =>
      if array.any (semvmx < ·) then .error (ascii "Numerical result out of range")
      else .ok { k with sets := Function.update k.sets semid
                          (some (array.take values.length)) }

/-! ## The program -/

def usage (name : CStr) : List UInt8 :=
  ascii "Usage: " ++ name.bytes ++ ascii " <semid> <val>...\n"

def statFailed (semid : Int) (e : List UInt8) : List UInt8 :=
  ascii "Failed to semctl() IPC_STAT semid " ++ decimal semid ++ ascii " - " ++ e ++
    ascii "\n"

def wrongCount (semid : Int) (nsems supplied : Nat) : List UInt8 :=
  ascii "Set " ++ decimal semid ++ ascii " contains " ++ decimal nsems ++
    ascii " semaphores but " ++ decimal supplied ++ ascii " values were supplied.\n"

def callocFailed (nsems : Nat) (e : List UInt8) : List UInt8 :=
  ascii "Failed to calloc() " ++ decimal nsems ++ ascii " unsigned shorts - " ++ e ++
    ascii "\n"

/-- The format of this message ends with `%sn`. -/
def setallFailed (semid : Int) (e : List UInt8) : List UInt8 :=
  ascii "Failed to semctl() SET_ALL semid " ++ decimal semid ++ ascii " - " ++ e ++
    ascii "n"

def changed (pid : Int32) : List UInt8 :=
  ascii "Semaphore values changed (PID=" ++ decimal pid.toInt ++ ascii ")\n"

/-- `int semid = getLong(argv[1])`. -/
def semidOf (str : CStr) : Except (List UInt8) Int :=
  NumericArgs.assign .int (NumericArgs.SvsemSetall.getLong str)

/-- The loop over the values. -/
def fill : List CStr → List Int → Except (List UInt8) (List Int)
  | [], array => .ok array
  | str :: strs, array => do
      let value ← NumericArgs.SvsemSetall.value str
      fill strs (array.set 0 value)

/-- The program up to `SETALL`: the set and the array that are passed to it,
or the message of a failure before. -/
def handed (k : Kernel) (name : CStr) (args : List CStr) :
    Except (List UInt8) (Int × List Int) :=
  match args with
  | [] => .error (usage name)
  | semidArg :: strs =>
      if strs = [] ∨ semidArg.bytes = ascii "-h" then .error (usage name)
      else do
        let semid ← semidOf semidArg
        let nsems ← (k.ipcStat semid).mapError (statFailed semid)
        if strs.length ≠ nsems then throw (wrongCount semid nsems strs.length)
        let array ← (k.calloc nsems).mapError (callocFailed nsems)
        let array ← fill strs array
        pure (semid, array)

/-- The message on standard output and the sets afterwards, or the message
on standard error. -/
def main (k : Kernel) (pid : Int32) (name : CStr) (args : List CStr) :
    Except (List UInt8) (List UInt8 × Kernel) := do
  let (semid, array) ← handed k name args
  let k ← (k.setall semid array).mapError (setallFailed semid)
  pure (changed pid, k)

/-! ## What the loop leaves in the array -/

/-- The text is a number in the range of a semaphore. -/
def IsValue (str : CStr) (v : Int) : Prop :=
  ∃ n : Numeral, IsNumeral .auto str.bytes n ∧ n.value = v ∧ 0 ≤ v ∧ v ≤ semvmx

theorem IsValue.stored {str : CStr} {v : Int} (h : IsValue str v) :
    NumericArgs.SvsemSetall.value str = .ok v := by
  obtain ⟨n, hn, rfl, hlow, hhigh⟩ := h
  unfold semvmx at hhigh
  have hlong : IntType.long.Fits n.value := by
    simp only [IntType.Fits, IntType.low, IntType.long, if_true]
    omega
  have hushort : IntType.ushort.Fits n.value := by
    simp only [IntType.Fits, IntType.low, IntType.ushort, Bool.false_eq_true, if_false]
    omega
  calc NumericArgs.SvsemSetall.value str
      = .ok (IntType.ushort.wrap n.value) :=
        NumericArgs.Variable.stored_eq .svsemSetallValue hn hlong
    _ = .ok n.value := by rw [IntType.wrap_of_fits hushort]

theorem fill_step {str : CStr} {v : Int} (h : IsValue str v) (strs : List CStr)
    (array : List Int) : fill (str :: strs) array = fill strs (array.set 0 v) := by
  rw [fill, h.stored]
  rfl

/-- Each value overwrites the one before it, so the last one remains. -/
theorem fill_eq {strs : List CStr} {values : List Int}
    (h : List.Forall₂ IsValue strs values) (hne : values ≠ []) (array : List Int) :
    fill strs array = .ok (array.set 0 (values.getLast hne)) := by
  induction h generalizing array with
  | nil => exact absurd rfl hne
  | @cons str v strs values hv hrest ih =>
      rw [fill_step hv]
      cases values with
      | nil =>
          cases hrest
          rfl
      | cons w values =>
          rw [ih (List.cons_ne_nil w values), List.set_set,
            List.getLast_cons (List.cons_ne_nil w values)]

/-! ## The array that is passed on -/

section Handed

variable {k : Kernel} {name semidArg : CStr} {semid : Int} {strs : List CStr}
  {values old : List Int}

/-- Where nothing fails before the loop, `SETALL` gets the last value and
zeros. -/
theorem handed_eq (hhelp : semidArg.bytes ≠ ascii "-h")
    (hsemid : semidOf semidArg = .ok semid) (hset : k.sets semid = some old)
    (hstat : k.statError semid = none) (hcalloc : k.callocError old.length = none)
    (hcount : strs.length = old.length) (hvalues : List.Forall₂ IsValue strs values)
    (hne : values ≠ []) :
    handed k name (semidArg :: strs) =
      .ok (semid, (List.replicate values.length 0).set 0 (values.getLast hne)) := by
  have hlength : strs.length = values.length := hvalues.length_eq
  have hstrs : strs ≠ [] := by
    rintro rfl
    exact hne (List.length_eq_zero_iff.1 hlength.symm)
  have hnsems : k.ipcStat semid = .ok values.length := by
    rw [Kernel.ipcStat, hset, hstat, ← hlength, hcount]
  have harray : k.calloc values.length = .ok (List.replicate values.length 0) := by
    rw [Kernel.calloc, ← hlength, hcount, hcalloc]
  simp only [handed, hstrs, hhelp, or_self, if_false, hsemid, hnsems, hlength,
    harray, fill_eq hvalues hne, Except.mapError, ne_eq, not_true_eq_false, bind,
    Except.bind, pure, Except.pure]

theorem le_semvmx (hvalues : List.Forall₂ IsValue strs values) :
    ∀ v ∈ values, v ≤ semvmx := by
  induction hvalues with
  | nil => simp
  | cons hv _ ih =>
      obtain ⟨_, _, _, _, hle⟩ := hv
      simp only [List.forall_mem_cons]
      exact ⟨hle, ih⟩

/-- The semaphores then have the last value and zeros. -/
theorem main_sets (hhelp : semidArg.bytes ≠ ascii "-h")
    (hsemid : semidOf semidArg = .ok semid) (hset : k.sets semid = some old)
    (hstat : k.statError semid = none) (hcalloc : k.callocError old.length = none)
    (hsetall : k.setallError semid = none) (hcount : strs.length = old.length)
    (hvalues : List.Forall₂ IsValue strs values) (hne : values ≠ []) (pid : Int32) :
    ∃ k', main k pid name (semidArg :: strs) = .ok (changed pid, k') ∧
      k'.sets semid =
        some ((List.replicate values.length 0).set 0 (values.getLast hne)) := by
  have hlength : values.length = old.length := by
    rw [← hvalues.length_eq, hcount]
  have hrange : ((List.replicate values.length 0).set 0 (values.getLast hne)).any
      (semvmx < ·) = false := by
    rw [List.any_eq_false]
    intro v hv
    rcases List.mem_or_eq_of_mem_set hv with hzero | hlast
    · rw [List.eq_of_mem_replicate hzero]
      decide
    · have hle := le_semvmx hvalues v (hlast ▸ values.getLast_mem hne)
      simpa using hle
  have hhanded : handed k name (semidArg :: strs) = _ :=
    handed_eq hhelp hsemid hset hstat hcalloc hcount hvalues hne
  simp only [main, hhanded, Kernel.setall, hset, hsetall, hrange, bind, Except.bind,
    pure, Except.pure, Except.mapError, Bool.false_eq_true, if_false]
  refine ⟨_, rfl, ?_⟩
  dsimp only
  rw [Function.update_self, List.take_of_length_le (by simp [hlength])]

end Handed

/-- Every value is at its index. -/
def Placed (values array : List Int) : Prop :=
  ∀ i, i < values.length → array[i]? = values[i]?

instance (values array : List Int) : Decidable (Placed values array) :=
  inferInstanceAs (Decidable (∀ i, i < values.length → _))

theorem placed_iff {values array : List Int} (h : array.length = values.length) :
    Placed values array ↔ array = values := by
  constructor
  · intro hplaced
    apply List.ext_getElem?
    intro i
    by_cases hi : i < values.length
    · exact hplaced i hi
    · rw [List.getElem?_eq_none (by omega), List.getElem?_eq_none (by omega)]
  · rintro rfl i _
    rfl

/-- The last value and zeros are the values themselves only if there is one
value, or nothing but zeros. -/
theorem last_eq_iff {values : List Int} (hne : values ≠ []) :
    (List.replicate values.length 0).set 0 (values.getLast hne) = values ↔
      values.length = 1 ∨ ∀ v ∈ values, v = 0 := by
  cases values with
  | nil => exact absurd rfl hne
  | cons v vs =>
      rw [List.length_cons, List.replicate_succ, List.set_cons_zero, List.cons.injEq]
      constructor
      · rintro ⟨hlast, hzeros⟩
        rw [eq_comm, List.eq_replicate_iff] at hzeros
        by_cases hvs : vs = []
        · simp [hvs]
        · right
          have hv : v = 0 := by
            rw [← hlast, List.getLast_cons hvs]
            exact hzeros.2 _ (List.getLast_mem hvs)
          simpa [hv] using hzeros.2
      · rintro (hone | hzeros)
        · have hvs : vs = [] := List.length_eq_zero_iff.1 (by omega)
          subst hvs
          simp
        · have hv : v = 0 := hzeros v (by simp)
          refine ⟨?_, ?_⟩
          · rw [hzeros _ (List.getLast_mem hne), hv]
          · rw [eq_comm, List.eq_replicate_iff]
            exact ⟨rfl, fun w hw => hzeros w (by simp [hw])⟩

/-- **When every semaphore gets its value.**  A set is given a value in the
range of a semaphore for each of its semaphores, and no call before `SETALL`
fails.  In the array passed to `SETALL` every value is at its own index if and
only if the set has one semaphore, or every value is 0. -/
theorem setall_exact_iff (k : Kernel) (name semidArg : CStr) (semid : Int)
    (strs : List CStr) (values old : List Int)
    (hhelp : semidArg.bytes ≠ ascii "-h") (hsemid : semidOf semidArg = .ok semid)
    (hset : k.sets semid = some old) (hpos : 1 ≤ old.length)
    (hcount : strs.length = old.length) (hvalues : List.Forall₂ IsValue strs values)
    (hstat : k.statError semid = none)
    (hcalloc : k.callocError old.length = none) :
    (∃ array, handed k name (semidArg :: strs) = .ok (semid, array) ∧
      array.length = old.length ∧ Placed values array) ↔
    old.length = 1 ∨ ∀ v ∈ values, v = 0 := by
  have hlength : values.length = old.length := by
    rw [← hvalues.length_eq, hcount]
  have hne : values ≠ [] := by
    rintro rfl
    rw [← hlength] at hpos
    exact absurd hpos (by decide)
  have harray : handed k name (semidArg :: strs) =
      .ok (semid, (List.replicate values.length 0).set 0 (values.getLast hne)) :=
    handed_eq hhelp hsemid hset hstat hcalloc hcount hvalues hne
  rw [← hlength, ← last_eq_iff hne]
  constructor
  · rintro ⟨array, hhanded, hlen, hplaced⟩
    rw [harray, Except.ok.injEq, Prod.mk.injEq] at hhanded
    rw [hhanded.2]
    exact (placed_iff hlen).1 hplaced
  · intro hlast
    refine ⟨_, harray, by simp, ?_⟩
    rw [hlast]
    exact (placed_iff rfl).2 rfl

/-- A kernel with one set, which has the identifier 7, and without errors. -/
def quietKernel (values : List Int) : Kernel where
  sets := fun semid => if semid = 7 then some values else none
  statError := fun _ => none
  callocError := fun _ => none
  setallError := fun _ => none

def argName : CStr := ⟨ascii "svsem_setall", by decide⟩
def argSeven : CStr := ⟨ascii "7", by decide⟩
def argOne : CStr := ⟨ascii "1", by decide⟩
def argTwo : CStr := ⟨ascii "2", by decide⟩

theorem setall_exact_one_semaphore :
    IsValue argTwo 2 ∧
    (∃ array, handed (quietKernel [0]) argName [argSeven, argTwo] = .ok (7, array) ∧
      array.length = 1 ∧ Placed [2] array) := by
  have hvalue : IsValue argTwo 2 :=
    ⟨⟨false, 2⟩, isNumeral_iff_scan.2 (by decide), by decide⟩
  exact ⟨hvalue, (setall_exact_iff (quietKernel [0]) argName argSeven 7 [argTwo] [2] [0]
    (by decide) (by decide) (by decide) (by decide) (by decide)
    (.cons hvalue .nil) (by decide) (by decide)).2 (.inl rfl)⟩

/-- Of the values 1 and 2 for two semaphores, the array has 2 at index 0, and
0 at index 1. -/
theorem setall_two_semaphores :
    IsValue argOne 1 ∧ IsValue argTwo 2 ∧
    handed (quietKernel [0, 0]) argName [argSeven, argOne, argTwo] = .ok (7, [2, 0]) ∧
    ¬ Placed [1, 2] [2, 0] := by
  have hone : IsValue argOne 1 :=
    ⟨⟨false, 1⟩, isNumeral_iff_scan.2 (by decide), by decide⟩
  have htwo : IsValue argTwo 2 :=
    ⟨⟨false, 2⟩, isNumeral_iff_scan.2 (by decide), by decide⟩
  have hsemid : semidOf argSeven = .ok 7 := by decide
  exact ⟨hone, htwo, handed_eq (by decide) hsemid rfl rfl rfl rfl
    (.cons hone (.cons htwo .nil)) (by decide), by decide⟩

end Lpi.Ports.SvsemSetall
