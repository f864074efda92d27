import Lpi.Verified.CData
import Lpi.Verified.Getopt

/-!
# Listing a tree (`dirs_links/src/nftw_dir_tree.c`)

The flags of `nftw` and the types that it reports have names that look alike.
For `-d` the program takes the type `FTW_D`, which is the number of the flag
`FTW_PHYS`, and not the flag `FTW_DEPTH`; and a test that is the wrong way round
makes it always start in the current directory.  `walk_as_asked_iff` says when it
does all the same what it is asked to.
-/

namespace Lpi.Ports.NftwDirTree

open Lpi.Verified.CData
open Lpi.Verified.CString
open Lpi.Verified.Flags
open Lpi.Verified.Getopt

/-! ## The program -/

/-- The type that is reported for a directory, from `<ftw.h>`. -/
def FTW_D : BitVec 32 := 1#32

def FTW_PHYS : BitVec 32 := 1#32
def FTW_MOUNT : BitVec 32 := 2#32
def FTW_DEPTH : BitVec 32 := 8#32

def dot : CStr := ⟨[46], by decide⟩

/-- The arguments of `nftw`; the path may be `NULL`. -/
structure Call where
  pathname : Option CStr
  flags : BitVec 32
  deriving DecidableEq

/-- The string of the options. -/
def optstring : List UInt8 := ascii "dmp"

def printUsageError (program : CStr) : List UInt8 :=
  ascii "Usage: " ++ program.bytes ++ ascii " [-d] [-m] [-p] [<file>]\n"

def turn (program : CStr) (flags : BitVec 32) : Found → Except (List UInt8) (BitVec 32)
  | .flag 100 => .ok (flags ||| FTW_D)
  | .flag 109 => .ok (flags ||| FTW_MOUNT)
  | .flag 112 => .ok (flags ||| FTW_PHYS)
  | found => .error (found.diagnostic program ++ printUsageError program)

/-- `argc`; the program itself is not in `argv` here. -/
def argc (argv : List CStr) : Nat := argv.length + 1

/-- `optind` after the loop: the operands are the last arguments then. -/
def optind (argv : List CStr) : Nat := argc argv - (getopt optstring argv).2.length

/-- The program up to the call of `nftw`. -/
def call (program : CStr) (argv : List CStr) : Except (List UInt8) Call :=
  match loop (turn program) (getopt optstring argv).1 0 with
  | .error e => .error e
  | .ok flags =>
      if argc argv > optind argv + 1 then .error (printUsageError program)
      else .ok ⟨if optind argv > argc argv then (getopt optstring argv).2.head? else some dot,
        flags⟩

/-- What a run does, apart from the listing. -/
structure Result where
  call : Option Call
  stderr : List UInt8
  exit : Exit
  deriving DecidableEq

/-- `main`; `nftw` says whether the call succeeds. -/
def main (nftw : Call → Bool) (program : CStr) (argv : List CStr) : Result :=
  match call program argv with
  | .error e => ⟨none, e, .failure⟩
  | .ok call =>
      if nftw call then ⟨some call, [], .success⟩
      else ⟨some call, ascii "nftw failed\n", .failure⟩

/-! ## What is asked for -/

/-- A command line of options of the program, with one operand at most. -/
structure CommandLine where
  argv : List CStr
  known : ∀ f ∈ (getopt optstring argv).1, f.isError = false
  atMostOne : (getopt optstring argv).2.length ≤ 1

def CommandLine.found (c : CommandLine) : List Found := (getopt optstring c.argv).1

def CommandLine.operands (c : CommandLine) : List CStr := (getopt optstring c.argv).2

/-- The call is the one that is asked for. -/
structure AsAsked (c : CommandLine) (call : Call) : Prop where
  pathname : call.pathname = some (c.operands.head?.getD dot)
  depth : Has call.flags FTW_DEPTH ↔ .flag 100 ∈ c.found
  mount : Has call.flags FTW_MOUNT ↔ .flag 109 ∈ c.found
  phys : Has call.flags FTW_PHYS ↔ .flag 112 ∈ c.found

/-! ## The loop -/

/-- The flag that an option sets. -/
def flagOf : Found → Option (BitVec 32) :=
  flagIn [(100, FTW_D), (109, FTW_MOUNT), (112, FTW_PHYS)]

theorem letterTable_optstring :
    letterTable optstring = [(100, false), (109, false), (112, false)] := by
  decide

theorem CommandLine.eq_flag (c : CommandLine) {f : Found} (hf : f ∈ c.found) :
    f = .flag 100 ∨ f = .flag 109 ∨ f = .flag 112 := by
  cases (consistent_of_mem_getopt f hf).resolve_left (by simp [c.known f hf]) with
  | @flag letter hc htakes =>
      have hletter : letter = 100 ∨ letter = 109 ∨ letter = 112 := by
        simpa [letterTable_optstring] using mem_letterTable htakes
      simpa using hletter
  | value hc optarg htakes =>
      have hnone := mem_letterTable htakes
      simp [letterTable_optstring] at hnone

theorem loop_eq (program : CStr) {found : List Found}
    (h : ∀ f ∈ found, f = .flag 100 ∨ f = .flag 109 ∨ f = .flag 112) (flags : BitVec 32) :
    loop (turn program) found flags = .ok (flags ||| union (found.filterMap flagOf)) := by
  induction found generalizing flags with
  | nil => simp [loop, union]
  | cons f found ih =>
      rw [List.forall_mem_cons] at h
      rcases h.1 with rfl | rfl | rfl
      · simp only [loop, turn, ih h.2]
        simp [flagOf, flagIn, or_union_cons]
      · simp only [loop, turn, ih h.2]
        simp [flagOf, flagIn, or_union_cons]
      · simp only [loop, turn, ih h.2]
        simp [flagOf, flagIn, or_union_cons]

/-- The call is made with the current directory. -/
theorem call_main (nftw : Call → Bool) (program : CStr) (c : CommandLine) :
    (main nftw program c.argv).call =
      some ⟨some dot, union (c.found.filterMap flagOf)⟩ := by
  have hoptind : ¬ argc c.argv > optind c.argv + 1 := by
    have hone := c.atMostOne
    unfold optind
    omega
  have hargc : ¬ optind c.argv > argc c.argv := by
    unfold optind
    omega
  have hzero : (0 : BitVec 32) ||| union (c.found.filterMap flagOf) =
      union (c.found.filterMap flagOf) := BitVec.zero_or
  have hcall : call program c.argv = .ok ⟨some dot, union (c.found.filterMap flagOf)⟩ := by
    rw [call, ← CommandLine.found, loop_eq program fun _ => c.eq_flag, hzero]
    simp only [if_neg hoptind, if_neg hargc]
  simp only [main, hcall]
  cases nftw _ with
  | true => rfl
  | false => rfl

/-- **The tree is listed as it is asked for** if and only if `-d` is not given,
and no other directory than the current one. -/
theorem walk_as_asked_iff (nftw : Call → Bool) (program : CStr) (c : CommandLine) :
    (∃ call, (main nftw program c.argv).call = some call ∧ AsAsked c call) ↔
      .flag 100 ∉ c.found ∧ ∀ operand ∈ c.operands, operand = dot := by
  have hdepth : Has (union (c.found.filterMap flagOf)) FTW_DEPTH ↔
      ∃ l ∈ ([] : List UInt8), .flag l ∈ c.found :=
    has_union_flagIn_iff (by decide) (by decide) c.found
  have hmount : Has (union (c.found.filterMap flagOf)) FTW_MOUNT ↔ .flag 109 ∈ c.found :=
    has_union_flagIn (by decide) (by decide) c.found
  have hphys : Has (union (c.found.filterMap flagOf)) FTW_PHYS ↔
      ∃ l ∈ [100, 112], .flag l ∈ c.found :=
    has_union_flagIn_iff (by decide) (by decide) c.found
  have hoperands : some dot = some (c.operands.head?.getD dot) ↔
      ∀ operand ∈ c.operands, operand = dot := by
    have hone : c.operands.length ≤ 1 := c.atMostOne
    cases hops : c.operands with
    | nil => simp
    | cons operand more =>
        rw [hops, List.length_cons] at hone
        obtain rfl : more = [] := List.eq_nil_of_length_eq_zero (by omega)
        simp [eq_comm]
  constructor
  · rintro ⟨call, hcall, hasked⟩
    obtain rfl := Option.some.inj ((call_main nftw program c).symm.trans hcall)
    refine ⟨fun hd => ?_, hoperands.1 hasked.pathname⟩
    obtain ⟨l, hl, -⟩ := hdepth.1 (hasked.depth.2 hd)
    exact List.not_mem_nil hl
  · rintro ⟨hd, hdot⟩
    refine ⟨_, call_main nftw program c, hoperands.2 hdot, ?_, hmount, ?_⟩
    · rw [hdepth]
      simp [hd]
    · rw [hphys]
      simp [hd]

/-- `-d`. -/
def depthFirst : CommandLine where
  argv := [⟨ascii "-d", by decide⟩]
  known := by decide
  atMostOne := by decide

/-- The depth-first order is not asked for. -/
theorem depth_lost :
    ¬ ∃ call, (main (fun _ => true) ⟨ascii "nftw_dir_tree", by decide⟩ depthFirst.argv).call =
      some call ∧ AsAsked depthFirst call := by
  rintro ⟨call, hcall, hasked⟩
  obtain rfl := Option.some.inj
    ((call_main (fun _ => true) ⟨ascii "nftw_dir_tree", by decide⟩ depthFirst).symm.trans hcall)
  have hgiven : .flag 100 ∈ depthFirst.found := by decide
  have hflags : ¬ Has (union (depthFirst.found.filterMap flagOf)) FTW_DEPTH := by decide
  exact hflags (hasked.depth.2 hgiven)

end Lpi.Ports.NftwDirTree
