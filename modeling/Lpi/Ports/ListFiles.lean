import Lpi.Verified.CData
import Lpi.Verified.CString

/-!
# Listing a directory (`dirs_links/src/list_files.c`)

`readdir` returns `NULL` at the end and if it fails, and only in the second case
it sets `errno`.  `listFiles` sets it to zero before the loop, but not before
each call, and `printf` may leave something else there.  `listFiles_right_iff`
says when the end is taken for the end.
-/

namespace Lpi.Ports.ListFiles

open Lpi.Verified.CData
open Lpi.Verified.CString

/-! ## The program -/

/-- A value that a call may set `errno` to; none sets it to zero. -/
structure Errno where
  value : Int32
  ne_zero : value ≠ 0
  deriving DecidableEq

/-- The system: how `opendir`, `readdir` behind the entries, and `closedir` fail,
if they do, what each call of `printf` sets `errno` to, if it does, and the texts
for `errno`. -/
structure System where
  opendir : Option Errno
  entries : List CStr
  readdir : Option Errno
  closedir : Option Errno
  printf : Nat → Option Errno
  strerror : Int32 → List UInt8

/-- `errno`, what is printed, and by how many calls. -/
structure State where
  errno : Int32
  stdout : List UInt8
  calls : Nat
  deriving DecidableEq, Repr

/-- The value of `errno` after a call. -/
def set (errno : Int32) (effect : Option Errno) : Int32 := (effect.map Errno.value).getD errno

def printf (sys : System) (text : List UInt8) (s : State) : State where
  errno := set s.errno (sys.printf s.calls)
  stdout := s.stdout ++ text
  calls := s.calls + 1

def dot : CStr := ⟨ascii ".", by decide⟩
def dotdot : CStr := ⟨ascii "..", by decide⟩

/-- The path in front of the name, and the name. -/
def printEntry (sys : System) (dirpath name : CStr) (s : State) : State :=
  printf sys (name.bytes ++ ascii "\n")
    (if dirpath ≠ dot then printf sys (dirpath.bytes ++ ascii "/") s else s)

/-- The loop over what `readdir` returns, up to `NULL`. -/
def loop (sys : System) (dirpath : CStr) : List CStr → State → State
  | [], s => { s with errno := set s.errno sys.readdir }
  | name :: entries, s =>
      if name = dot ∨ name = dotdot then loop sys dirpath entries s
      else loop sys dirpath entries (printEntry sys dirpath name s)

/-- What is printed, and with which status the program ends, if it does. -/
structure Result where
  stdout : List UInt8
  stderr : List UInt8
  exit : Option Exit
  deriving DecidableEq

def listFiles (sys : System) (dirpath : CStr) : Result :=
  match sys.opendir with
  | some e =>
      ⟨[], ascii "Failed to open dir " ++ dirpath.bytes ++ ascii " - " ++ sys.strerror e.value ++
        ascii "\n", some .failure⟩
  | none =>
      let s := loop sys dirpath sys.entries ⟨0, [], 0⟩
      if s.errno ≠ 0 then
        ⟨s.stdout, ascii "Failed to read dir entry in " ++ dirpath.bytes ++ ascii " - " ++
          sys.strerror s.errno ++ ascii "\n", some .failure⟩
      else match sys.closedir with
        | some e =>
            ⟨s.stdout, ascii "Failed to close dir " ++ dirpath.bytes ++ ascii " - " ++
              sys.strerror e.value ++ ascii "\n", some .failure⟩
        | none => ⟨s.stdout, [], none⟩

/-! ## What it is for -/

/-- The entries that are listed. -/
def visible (entries : List CStr) : List CStr :=
  entries.filter fun name => name ≠ dot ∧ name ≠ dotdot

/-- The line for an entry. -/
def entryLine (dirpath name : CStr) : List UInt8 :=
  (if dirpath ≠ dot then dirpath.bytes ++ ascii "/" else []) ++ name.bytes ++ ascii "\n"

/-- A failure is reported if and only if `readdir` failed, and otherwise the
entries are listed. -/
structure Right (sys : System) (dirpath : CStr) (r : Result) : Prop where
  failure : r.exit = some .failure ↔ sys.readdir ≠ none
  listed : sys.readdir = none → r.stdout = (visible sys.entries).flatMap (entryLine dirpath)

/-- The calls of `printf` for the entries. -/
def calls (dirpath : CStr) (entries : List CStr) : Nat :=
  (if dirpath = dot then 1 else 2) * (visible entries).length

/-! ## The loop -/

theorem set_ne_zero_iff {errno : Int32} {effect : Option Errno} :
    set errno effect ≠ 0 ↔ errno ≠ 0 ∨ effect ≠ none := by
  cases effect with
  | none => simp [set]
  | some e => simp [set, e.ne_zero]

/-- From `s` to `s'` the text is printed, by `n` calls, and once `errno` is set
it stays so. -/
structure Prints (sys : System) (s s' : State) (text : List UInt8) (n : Nat) : Prop where
  stdout : s'.stdout = s.stdout ++ text
  calls : s'.calls = s.calls + n
  errno : s'.errno ≠ 0 ↔ s.errno ≠ 0 ∨ ∃ i < n, sys.printf (s.calls + i) ≠ none

variable {sys : System} {dirpath : CStr}

theorem Prints.refl (s : State) : Prints sys s s [] 0 where
  stdout := (List.append_nil _).symm
  calls := rfl
  errno := by simp

theorem prints_printf (text : List UInt8) (s : State) :
    Prints sys s (printf sys text s) text 1 where
  stdout := rfl
  calls := rfl
  errno := by simp [printf, set_ne_zero_iff]

theorem Prints.trans {s s' s'' : State} {text text' : List UInt8} {n m : Nat}
    (h : Prints sys s s' text n) (h' : Prints sys s' s'' text' m) :
    Prints sys s s'' (text ++ text') (n + m) where
  stdout := by rw [h'.stdout, h.stdout, List.append_assoc]
  calls := by rw [h'.calls, h.calls, Nat.add_assoc]
  errno := by
    rw [h'.errno, h.errno, h.calls, or_assoc]
    refine or_congr_right ⟨?_, ?_⟩
    · rintro (⟨i, hi, hset⟩ | ⟨i, hi, hset⟩)
      · exact ⟨i, by omega, hset⟩
      · exact ⟨n + i, by omega, by rwa [← Nat.add_assoc]⟩
    · rintro ⟨i, hi, hset⟩
      by_cases hfirst : i < n
      · exact .inl ⟨i, hfirst, hset⟩
      · refine .inr ⟨i - n, by omega, ?_⟩
        rwa [Nat.add_assoc, Nat.add_sub_cancel' (by omega)]

theorem prints_printEntry (name : CStr) (s : State) :
    Prints sys s (printEntry sys dirpath name s) (entryLine dirpath name)
      (if dirpath = dot then 1 else 2) := by
  by_cases hdot : dirpath = dot
  · have hname : Prints sys s _ (name.bytes ++ ascii "\n") 1 := prints_printf _ s
    rw [printEntry, if_neg (not_not_intro hdot), entryLine, if_neg (not_not_intro hdot),
      if_pos hdot]
    exact hname
  · have hpath : Prints sys s _ (dirpath.bytes ++ ascii "/") 1 := prints_printf _ s
    rw [printEntry, if_pos hdot, entryLine, if_pos hdot, if_neg hdot,
      List.append_assoc _ name.bytes]
    exact hpath.trans (prints_printf _ _)

/-- The loop prints the entries, and then `readdir` may set `errno`. -/
theorem loop_spec (entries : List CStr) (s : State) :
    ∃ s', Prints sys s s' ((visible entries).flatMap (entryLine dirpath))
        (calls dirpath entries) ∧
      loop sys dirpath entries s = { s' with errno := set s'.errno sys.readdir } := by
  induction entries generalizing s with
  | nil => exact ⟨s, .refl s, rfl⟩
  | cons name entries ih =>
      by_cases hskip : name = dot ∨ name = dotdot
      · obtain ⟨s', hprints, hloop⟩ := ih s
        have hvisible : visible (name :: entries) = visible entries := by
          rw [visible, List.filter_cons_of_neg (by simpa [imp_iff_not_or] using hskip), visible]
        rw [calls, hvisible, ← calls]
        exact ⟨s', hprints, by rw [loop, if_pos hskip, hloop]⟩
      · obtain ⟨s', hprints, hloop⟩ := ih (printEntry sys dirpath name s)
        have hvisible : visible (name :: entries) = name :: visible entries := by
          rw [visible, List.filter_cons_of_pos (by simpa [not_or] using hskip), visible]
        rw [calls, hvisible, List.length_cons, Nat.mul_succ, Nat.add_comm, ← calls,
          List.flatMap_cons]
        exact ⟨s', (prints_printEntry name s).trans hprints, by rw [loop, if_neg hskip, hloop]⟩

/-- **A failure is reported if and only if `readdir` failed, and otherwise the
directory is listed**, exactly when `readdir` did fail or no call of `printf`
touched `errno`. -/
theorem listFiles_right_iff (hopen : sys.opendir = none) (hclose : sys.closedir = none) :
    Right sys dirpath (listFiles sys dirpath) ↔
      sys.readdir ≠ none ∨ ∀ i < calls dirpath sys.entries, sys.printf i = none := by
  obtain ⟨s, hprints, hloop⟩ : ∃ s, Prints sys ⟨0, [], 0⟩ s _ _ ∧ loop sys dirpath _ _ = _ :=
    loop_spec sys.entries ⟨0, [], 0⟩
  have herrno : (loop sys dirpath sys.entries ⟨0, [], 0⟩).errno ≠ 0 ↔
      (∃ i < calls dirpath sys.entries, sys.printf i ≠ none) ∨ sys.readdir ≠ none := by
    rw [hloop, set_ne_zero_iff, hprints.errno]
    simp
  have hresult : (listFiles sys dirpath).stdout =
        (loop sys dirpath sys.entries ⟨0, [], 0⟩).stdout ∧
      ((listFiles sys dirpath).exit = some .failure ↔
        (loop sys dirpath sys.entries ⟨0, [], 0⟩).errno ≠ 0) := by
    simp only [listFiles, hopen, hclose]
    split
    · rename_i hset
      exact ⟨rfl, iff_of_true rfl hset⟩
    · rename_i hzero
      exact ⟨rfl, iff_of_false nofun hzero⟩
  have hstdout : (listFiles sys dirpath).stdout =
      (visible sys.entries).flatMap (entryLine dirpath) := by
    rw [hresult.1, hloop, hprints.stdout, List.nil_append]
  constructor
  · intro h
    by_cases hreaddir : sys.readdir = none
    · right
      have hzero := mt (hresult.2.trans herrno).2 (mt h.failure.1 (not_not_intro hreaddir))
      simpa [hreaddir] using hzero
    · exact .inl hreaddir
  · intro h
    refine ⟨?_, fun _ => hstdout⟩
    rw [hresult.2, herrno]
    refine or_iff_right_of_imp ?_
    rintro ⟨i, hi, hset⟩
    exact h.resolve_right fun hnone => hset (hnone i hi)

/-- A directory with two entries, where each call of `printf` sets `errno` to
`ENOTTY` if `touched` is set, as it may for a file. -/
def twoEntries (touched : Bool) : System where
  opendir := none
  entries := [dot, ⟨ascii "notes", by decide⟩, dotdot, ⟨ascii "todo", by decide⟩]
  readdir := none
  closedir := none
  printf _ := if touched then some ⟨25, by decide⟩ else none
  strerror _ := ascii "Inappropriate ioctl for device"

theorem listFiles_right_untouched :
    Right (twoEntries false) dot (listFiles (twoEntries false) dot) :=
  (listFiles_right_iff rfl rfl).2 (.inr fun _ _ => rfl)

/-- The end is taken for a failure. -/
theorem end_is_failure : ¬ Right (twoEntries true) dot (listFiles (twoEntries true) dot) := by
  intro h
  have hexit : (listFiles (twoEntries true) dot).exit = some .failure := by decide
  exact h.failure.1 hexit rfl

end Lpi.Ports.ListFiles
