import Lpi.Ports.NumericArgs
import Lpi.Verified.CData
import Lpi.Verified.Flags
import Lpi.Verified.Getopt
import Lpi.Verified.Sscanf

/-!
# Creating a message queue of System V (`svipc/svmsg_create.c`)

The key of the queue is made from a file, given as a number, or `IPC_PRIVATE`,
and the program wants exactly one of the three options.  But the number goes to
a variable of its own, from where it is not taken, so that with `-k` the key is
what was in its variable before.  `msgget_right_iff` says when that is the key
that was asked for.
-/

namespace Lpi.Ports.SvmsgCreate

open Lpi.Verified.CData
open Lpi.Verified.CInt
open Lpi.Verified.CString
open Lpi.Verified.Flags
open Lpi.Verified.Getopt
open Lpi.Verified.Sscanf (clamp)
open Lpi.Verified.Strtol (scan)
open Lpi.Ports.NumericArgs (Outcome SvmsgCreate.getInt)

/-! ## The program -/

def IPC_CREAT : BitVec 32 := 0x200#32
def IPC_EXCL : BitVec 32 := 0x400#32
def IPC_PRIVATE : Int32 := 0

/-- `S_IRUSR | S_IWUSR`. -/
def readWriteUser : Int := 0o600

/-- The system: the key of a file, the queue for a key, both -1 if the call
fails, and the text of `errno` after that. -/
structure Kernel where
  ftok : CStr → Int32
  msgget : Int32 → BitVec 32 → Int32
  strerror : List UInt8

/-- The variables of the loop; `key` and `lKey` have no value at first. -/
structure Vars where
  msgFlags : BitVec 32
  numKeyFlags : Nat
  key : Int32
  lKey : Int
  deriving DecidableEq, Repr

def printUsage (programName : CStr) : List UInt8 :=
  ascii "Usage: " ++ programName.bytes ++
    ascii " [-cx] \x7b-f <pathname> | -k <key> | -p\x7d [<octal perm>]\n" ++
    ascii "    -c            - Use IPC_CREAT flag\n" ++
    ascii "    -x            - Use IPC_EXCL flag\n" ++
    ascii "    -f <pathname> - Generate key using ftok()\n" ++
    ascii "    -k <key>      - Use key\n" ++
    ascii "    -p            - Use IPC_PRIVATE key\n"

/-- The string of the options. -/
def optstring : List UInt8 := ascii "hcxf:k:p"

/-- `sscanf(str, "%li", ...)`, if it converts a number. -/
def scanLong (str : CStr) : Option Int :=
  (scan .auto str.bytes).map fun r => clamp .long r.1.value

def turn (k : Kernel) (programName : CStr) (v : Vars) : Found → Except (List UInt8) Vars
  | .flag 99 => .ok { v with msgFlags := v.msgFlags ||| IPC_CREAT }
  | .flag 120 => .ok { v with msgFlags := v.msgFlags ||| IPC_EXCL }
  | .value 102 optarg =>
      if k.ftok optarg = -1 then
        .error (ascii "Failed to ftok() key from file " ++ optarg.bytes ++ ascii " - " ++
          k.strerror ++ ascii "\n")
      else .ok { v with key := k.ftok optarg, numKeyFlags := v.numKeyFlags + 1 }
  | .value 107 optarg =>
      match scanLong optarg with
      | none => .error (ascii "-k <key> requires a numeric argument\n")
      -- the number is not assigned to `key`
      | some n => .ok { v with lKey := n, numKeyFlags := v.numKeyFlags + 1 }
  | .flag 112 => .ok { v with key := IPC_PRIVATE, numKeyFlags := v.numKeyFlags + 1 }
  | found => .error (found.diagnostic programName ++ printUsage programName)

def perms : List CStr → Outcome
  | [] => .ok readWriteUser
  | arg :: _ => SvmsgCreate.getInt arg

/-- The program up to the call of `msgget`: the key and the flags, or what is
printed before the failure.  `garbage` is in the variables `key` and `lKey`. -/
def request (k : Kernel) (garbage : Int32 × Int) (programName : CStr) (argv : List CStr) :
    Except (List UInt8) (Int32 × BitVec 32) :=
  match loop (turn k programName) (getopt optstring argv).1 ⟨0, 0, garbage.1, garbage.2⟩ with
  | .error e => .error e
  | .ok v =>
      if v.numKeyFlags ≠ 1 then
        .error (ascii "Exactly one of the options -f, -k, or -p must be supplied\n")
      else match perms (getopt optstring argv).2 with
        | .error e => .error e
        | .ok perms => .ok (v.key, v.msgFlags ||| BitVec.ofInt 32 perms)

/-- What a run does: its call of `msgget`, what it prints, and how it ends. -/
structure Result where
  msgget : Option (Int32 × BitVec 32)
  stdout : List UInt8
  stderr : List UInt8
  exit : Exit
  deriving DecidableEq

def main (k : Kernel) (garbage : Int32 × Int) (programName : CStr) (argv : List CStr) :
    Result :=
  match request k garbage programName argv with
  | .error e => ⟨none, [], e, .failure⟩
  | .ok (key, flags) =>
      if k.msgget key flags = -1 then
        ⟨some (key, flags), [], ascii "Failed to msgget() msg queue - " ++ k.strerror ++
          ascii "\n", .failure⟩
      else ⟨some (key, flags), decimal (k.msgget key flags).toInt ++ ascii "\n", [], .success⟩

/-! ## What is asked for -/

/-- One of the options `-f`, `-k` and `-p`. -/
def isKeyOption (f : Found) : Bool := f.letter = 102 || f.letter = 107 || f.letter = 112

/-- The key that an option asks for, if it can be had; a number is converted to
`key_t`. -/
def keyOf (k : Kernel) : Found → Option Int32
  | .value 102 path => if k.ftok path = -1 then none else some (k.ftok path)
  | .value 107 number => (scanLong number).map fun n => Int32.ofInt n
  | .flag 112 => some IPC_PRIVATE
  | _ => none

/-- The call is for the key of the only option for one, and creates the queue
if that is asked for. -/
structure Right (k : Kernel) (found : List Found) (key : Int32) (flags : BitVec 32) :
    Prop where
  key : ∃ f, found.filter isKeyOption = [f] ∧ keyOf k f = some key
  creat : Has flags IPC_CREAT ↔ .flag 99 ∈ found
  excl : Has flags IPC_EXCL ↔ .flag 120 ∈ found

/-- All options are among `-c`, `-x`, `-f`, `-k` and `-p`. -/
def Allowed (found : List Found) : Prop :=
  ∀ f ∈ found, f.isError = false ∧ f.letter ≠ 104

/-- The permissions add no flag that no option asks for. -/
def PermsOnly (found : List Found) (perms : Int) : Prop :=
  (Has (BitVec.ofInt 32 perms) IPC_CREAT → .flag 99 ∈ found) ∧
    (Has (BitVec.ofInt 32 perms) IPC_EXCL → .flag 120 ∈ found)

/-! ## The loop -/

/-- An option that the loop goes through. -/
inductive Passes (k : Kernel) : Found → Prop where
  | c : Passes k (.flag 99)
  | x : Passes k (.flag 120)
  | f {path : CStr} (h : k.ftok path ≠ -1) : Passes k (.value 102 path)
  | k {number : CStr} {n : Int} (h : scanLong number = some n) : Passes k (.value 107 number)
  | p : Passes k (.flag 112)

/-- The flag of an option. -/
def flagOf : Found → Option (BitVec 32) := flagIn [(99, IPC_CREAT), (120, IPC_EXCL)]

/-- The key that an option stores. -/
def storeOf (k : Kernel) : Found → Option Int32
  | .value c path => if c = 102 then some (k.ftok path) else none
  | .flag c => if c = 112 then some IPC_PRIVATE else none
  | _ => none

variable {k : Kernel} {programName : CStr} {found : List Found}

theorem loop_eq (h : ∀ f ∈ found, Passes k f) (v : Vars) :
    ∃ lKey, loop (turn k programName) found v = .ok
      ⟨v.msgFlags ||| union (found.filterMap flagOf),
        v.numKeyFlags + (found.filter isKeyOption).length,
        (found.filterMap (storeOf k)).getLast?.getD v.key, lKey⟩ := by
  induction found generalizing v with
  | nil => exact ⟨v.lKey, by simp [loop, union]⟩
  | cons f found ih =>
      rw [List.forall_mem_cons] at h
      cases h.1 with
      | c =>
          obtain ⟨lKey, hloop⟩ := ih h.2 { v with msgFlags := v.msgFlags ||| IPC_CREAT }
          refine ⟨lKey, ?_⟩
          simp only [loop, turn, hloop]
          simp [flagOf, flagIn, storeOf, isKeyOption, Found.letter, or_union_cons]
      | x =>
          obtain ⟨lKey, hloop⟩ := ih h.2 { v with msgFlags := v.msgFlags ||| IPC_EXCL }
          refine ⟨lKey, ?_⟩
          simp only [loop, turn, hloop]
          simp [flagOf, flagIn, storeOf, isKeyOption, Found.letter, or_union_cons]
      | @f path hpath =>
          obtain ⟨lKey, hloop⟩ :=
            ih h.2 { v with key := k.ftok path, numKeyFlags := v.numKeyFlags + 1 }
          refine ⟨lKey, ?_⟩
          simp only [loop, turn, if_neg hpath, hloop]
          simp [flagOf, flagIn, storeOf, isKeyOption, Found.letter, List.getLast?_cons,
            List.filterMap_cons, Nat.add_comm, Nat.add_left_comm]
      | @k number n hn =>
          obtain ⟨lKey, hloop⟩ := ih h.2 { v with lKey := n, numKeyFlags := v.numKeyFlags + 1 }
          refine ⟨lKey, ?_⟩
          simp only [loop, turn, hn, hloop]
          simp [flagOf, flagIn, storeOf, isKeyOption, Found.letter, List.filterMap_cons,
            Nat.add_comm, Nat.add_left_comm]
      | p =>
          obtain ⟨lKey, hloop⟩ :=
            ih h.2 { v with key := IPC_PRIVATE, numKeyFlags := v.numKeyFlags + 1 }
          refine ⟨lKey, ?_⟩
          simp only [loop, turn, hloop]
          simp [flagOf, flagIn, storeOf, isKeyOption, Found.letter, List.getLast?_cons,
            Nat.add_comm, Nat.add_left_comm]

theorem letterTable_optstring : letterTable optstring =
    [(104, false), (99, false), (120, false), (102, true), (107, true), (112, false)] := by
  decide

theorem flag_cases {c : UInt8} (h : takesValue optstring c = some false) :
    c = 104 ∨ c = 99 ∨ c = 120 ∨ c = 112 := by
  simpa [letterTable_optstring] using mem_letterTable h

theorem value_cases {c : UInt8} (h : takesValue optstring c = some true) :
    c = 102 ∨ c = 107 := by
  simpa [letterTable_optstring] using mem_letterTable h

/-- The loop goes through an option that is allowed, if it can have the key. -/
theorem passes_iff {argv : List CStr} {f : Found} (hf : f ∈ (getopt optstring argv).1) :
    Passes k f ↔ f.isError = false ∧ f.letter ≠ 104 ∧
      (isKeyOption f = true → ∃ asked, keyOf k f = some asked) := by
  constructor
  · intro h
    cases h with
    | c | x => exact ⟨rfl, by simp [Found.letter], by simp [isKeyOption, Found.letter]⟩
    | f hpath => exact ⟨rfl, by simp [Found.letter], fun _ => ⟨_, if_neg hpath⟩⟩
    | k hn => exact ⟨rfl, by simp [Found.letter], fun _ => ⟨_, by rw [keyOf, hn]; rfl⟩⟩
    | p => exact ⟨rfl, by simp [Found.letter], fun _ => ⟨_, rfl⟩⟩
  · rintro ⟨herror, hh, hkey⟩
    cases (consistent_of_mem_getopt f hf).resolve_left (by simp [herror]) with
    | flag hc htakes =>
        obtain rfl | rfl | rfl | rfl := flag_cases htakes
        · exact absurd rfl hh
        · exact .c
        · exact .x
        · exact .p
    | value hc optarg htakes =>
        obtain rfl | rfl := value_cases htakes
        · obtain ⟨asked, hasked⟩ := hkey rfl
          exact .f fun hpath => by simp [keyOf, hpath] at hasked
        · obtain ⟨asked, hasked⟩ := hkey rfl
          obtain ⟨n, hn, -⟩ := Option.map_eq_some_iff.1 hasked
          exact .k hn

/-- At any other option the program ends. -/
theorem ends_of_not_passes {argv : List CStr} {f : Found}
    (hf : f ∈ (getopt optstring argv).1) (h : ¬ Passes k f) (v : Vars) :
    ∃ e, turn k programName v f = .error e := by
  cases consistent_of_mem_getopt f hf with
  | inl herror =>
      cases f with
      | flag c | value c optarg => cases herror
      | unknown c | missing c => exact ⟨_, rfl⟩
  | inr hvalid =>
      cases hvalid with
      | flag hc htakes =>
          obtain rfl | rfl | rfl | rfl := flag_cases htakes
          · exact ⟨_, rfl⟩
          · exact absurd .c h
          · exact absurd .x h
          · exact absurd .p h
      | value hc optarg htakes =>
          obtain rfl | rfl := value_cases htakes
          · by_cases hpath : k.ftok optarg = -1
            · exact ⟨_, if_pos hpath⟩
            · exact absurd (.f hpath) h
          · cases hn : scanLong optarg with
            | none => exact ⟨_, by rw [turn, hn]⟩
            | some n => exact absurd (.k hn) h

/-- Only an option for a key stores one. -/
theorem stored_eq (found : List Found) :
    found.filterMap (storeOf k) = (found.filter isKeyOption).filterMap (storeOf k) := by
  rw [List.filterMap_filter]
  apply List.filterMap_congr
  intro f _
  cases f with
  | flag c =>
      by_cases hc : c = 112
      · simp [isKeyOption, Found.letter, hc]
      · simp [storeOf, hc]
  | value c optarg =>
      by_cases hc : c = 102
      · simp [isKeyOption, Found.letter, hc]
      · simp [storeOf, hc]
  | unknown c | missing c => simp [storeOf]

/-! ## The call of `msgget` -/

variable {garbage : Int32 × Int} {argv : List CStr}

/-- When the call is made, and with which arguments. -/
theorem request_eq_ok_iff {key : Int32} {flags : BitVec 32} :
    request k garbage programName argv = .ok (key, flags) ↔
      (∀ f ∈ (getopt optstring argv).1, Passes k f) ∧
        ∃ f n, (getopt optstring argv).1.filter isKeyOption = [f] ∧
          perms (getopt optstring argv).2 = .ok n ∧ key = (storeOf k f).getD garbage.1 ∧
          flags = union ((getopt optstring argv).1.filterMap flagOf) ||| BitVec.ofInt 32 n := by
  by_cases hpasses : ∀ f ∈ (getopt optstring argv).1, Passes k f
  · obtain ⟨lKey, hloop⟩ : ∃ lKey, loop (turn k programName) _ _ = _ :=
      loop_eq hpasses ⟨0, 0, garbage.1, garbage.2⟩
    rw [and_iff_right hpasses, request, hloop]
    have hzero : ∀ flags : BitVec 32, 0 ||| flags = flags := fun _ => BitVec.zero_or
    simp only [Nat.zero_add, hzero]
    by_cases hone : ((getopt optstring argv).1.filter isKeyOption).length = 1
    · obtain ⟨f, hf⟩ := List.length_eq_one_iff.1 hone
      have hstored : ((getopt optstring argv).1.filterMap (storeOf k)).getLast?.getD garbage.1 =
          (storeOf k f).getD garbage.1 := by
        rw [stored_eq, hf]
        cases hstore : storeOf k f with
        | none => simp [hstore]
        | some key => simp [hstore]
      rw [if_neg (not_not_intro hone), hstored]
      cases hperms : perms (getopt optstring argv).2 with
      | error e => simp
      | ok n =>
          simp only [Except.ok.injEq, Prod.mk.injEq, hf, List.cons.injEq, and_true]
          constructor
          · rintro ⟨rfl, rfl⟩
            exact ⟨f, n, rfl, rfl, rfl, rfl⟩
          · rintro ⟨_, _, rfl, rfl, rfl, rfl⟩
            exact ⟨rfl, rfl⟩
    · rw [if_pos hone]
      refine iff_of_false nofun ?_
      rintro ⟨f, n, hf, -⟩
      exact hone (by rw [hf, List.length_singleton])
  · obtain ⟨f, hf, hnot⟩ : ∃ f ∈ (getopt optstring argv).1, ¬ Passes k f := by
      simpa using hpasses
    obtain ⟨e, he⟩ := loop_error ⟨f, hf, ends_of_not_passes hf hnot⟩
      ⟨0, 0, garbage.1, garbage.2⟩
    rw [request, he]
    exact iff_of_false nofun fun h => hpasses h.1

theorem msgget_main {key : Int32} {flags : BitVec 32} :
    (main k garbage programName argv).msgget = some (key, flags) ↔
      request k garbage programName argv = .ok (key, flags) := by
  rw [main]
  cases request k garbage programName argv with
  | error e => simp
  | ok call =>
      obtain ⟨key', flags'⟩ := call
      by_cases hfails : k.msgget key' flags' = -1
      · simp [hfails]
      · simp [hfails]

/-- The loop goes through all options if they are allowed and the only option
for a key has one. -/
theorem forall_passes_iff {f : Found}
    (hone : (getopt optstring argv).1.filter isKeyOption = [f]) :
    (∀ g ∈ (getopt optstring argv).1, Passes k g) ↔
      Allowed (getopt optstring argv).1 ∧ ∃ asked, keyOf k f = some asked := by
  have hf : f ∈ (getopt optstring argv).1 ∧ isKeyOption f = true :=
    List.mem_filter.1 (hone ▸ List.mem_singleton_self f)
  constructor
  · intro h
    exact ⟨fun g hg => ⟨((passes_iff hg).1 (h g hg)).1, ((passes_iff hg).1 (h g hg)).2.1⟩,
      ((passes_iff hf.1).1 (h f hf.1)).2.2 hf.2⟩
  · rintro ⟨hallowed, hasked⟩ g hg
    refine (passes_iff hg).2 ⟨(hallowed g hg).1, (hallowed g hg).2, fun hkey => ?_⟩
    have hmem : g ∈ (getopt optstring argv).1.filter isKeyOption := List.mem_filter.2 ⟨hg, hkey⟩
    rw [hone, List.mem_singleton] at hmem
    exact hmem ▸ hasked

/-- The key is stored, unless it is a number. -/
theorem getD_storeOf_iff {f : Found} {asked key : Int32} (h : keyOf k f = some asked) :
    (storeOf k f).getD key = asked ↔ (f.letter = 107 → key = asked) := by
  unfold keyOf at h
  split at h
  · rename_i path
    by_cases hpath : k.ftok path = -1
    · simp [hpath] at h
    · simp only [if_neg hpath, Option.some.injEq] at h
      simp [storeOf, Found.letter, h]
  · simp [storeOf, Found.letter]
  · simp only [Option.some.injEq] at h
    simp [storeOf, Found.letter, h]
  · cases h

/-- **The call is the one that is asked for** whenever it is made, if and only if
the garbage in `key` is the number, in case that one is given, and the
permissions hold no flag that no option asks for. -/
theorem msgget_right_iff (k : Kernel) (garbage : Int32 × Int) (programName : CStr)
    (argv : List CStr) :
    (∀ key flags, (main k garbage programName argv).msgget = some (key, flags) →
        Right k (getopt optstring argv).1 key flags) ↔
      ∀ f asked n, Allowed (getopt optstring argv).1 →
        (getopt optstring argv).1.filter isKeyOption = [f] → keyOf k f = some asked →
        perms (getopt optstring argv).2 = .ok n →
        (f.letter = 107 → garbage.1 = asked) ∧ PermsOnly (getopt optstring argv).1 n := by
  have hcreat : Has (union ((getopt optstring argv).1.filterMap flagOf)) IPC_CREAT ↔
      .flag 99 ∈ (getopt optstring argv).1 :=
    has_union_flagIn (by decide) (by decide) _
  have hexcl : Has (union ((getopt optstring argv).1.filterMap flagOf)) IPC_EXCL ↔
      .flag 120 ∈ (getopt optstring argv).1 :=
    has_union_flagIn (by decide) (by decide) _
  simp only [msgget_main, request_eq_ok_iff]
  constructor
  · intro h f asked n hallowed hone hasked hn
    have hpasses := (forall_passes_iff hone).2 ⟨hallowed, asked, hasked⟩
    obtain ⟨⟨f', hone', hkey⟩, hcreat', hexcl'⟩ :=
      h _ _ ⟨hpasses, f, n, hone, hn, rfl, rfl⟩
    obtain rfl : f = f' := (List.cons.inj (hone.symm.trans hone')).1
    refine ⟨(getD_storeOf_iff hasked).1 (Option.some.inj (hkey.symm.trans hasked)), ?_, ?_⟩
    · exact fun hperms => hcreat'.1 (has_or.2 (.inr hperms))
    · exact fun hperms => hexcl'.1 (has_or.2 (.inr hperms))
  · rintro h key flags ⟨hpasses, f, n, hone, hn, rfl, rfl⟩
    obtain ⟨hallowed, asked, hasked⟩ := (forall_passes_iff hone).1 hpasses
    obtain ⟨hkey, hperms⟩ := h f asked n hallowed hone hasked hn
    refine ⟨⟨f, hone, hasked.trans (congrArg some ((getD_storeOf_iff hasked).2 hkey).symm)⟩,
      ?_, ?_⟩
    · rw [has_or, hcreat]
      exact or_iff_left_of_imp hperms.1
    · rw [has_or, hexcl]
      exact or_iff_left_of_imp hperms.2

/-- A system without files and with one queue. -/
def oneQueue : Kernel := ⟨fun _ => -1, fun _ _ => 7, ascii "No such file or directory"⟩

/-- `-k 1234`. -/
def numberGiven : List CStr := [⟨ascii "-k", by decide⟩, ⟨ascii "1234", by decide⟩]

/-- With 0 in the variable, the private queue is taken. -/
theorem number_lost :
    ¬ ∀ key flags,
      (main oneQueue (0, 0) ⟨ascii "svmsg_create", by decide⟩ numberGiven).msgget =
        some (key, flags) → Right oneQueue (getopt optstring numberGiven).1 key flags := by
  intro h
  have hcall : request oneQueue (0, 0) ⟨ascii "svmsg_create", by decide⟩ numberGiven =
      .ok (0, 0x180#32) := by
    decide
  obtain ⟨f, hone, hkey⟩ := (h 0 _ (msgget_main.2 hcall)).key
  have hfound : (getopt optstring numberGiven).1.filter isKeyOption =
      [.value 107 ⟨ascii "1234", by decide⟩] := by
    decide
  obtain rfl := List.singleton_inj.1 (hfound.symm.trans hone)
  have hnumber : keyOf oneQueue (.value 107 ⟨ascii "1234", by decide⟩) = some 1234 := by
    decide
  rw [hnumber] at hkey
  cases hkey

end Lpi.Ports.SvmsgCreate
