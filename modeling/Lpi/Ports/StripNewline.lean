import Lpi.Ports.CheckPasswd
import Lpi.Ports.IFcntlLockingLines

/-!
# The last character of a line

`i_fcntl_locking.c` and `check_passwd.c` both look at `strlen(buf) - 1` after a
call of `fgets`, to remove the newline.  `strip_newline_iff` says for which
input this is a place in the buffer, and when the name that `check_passwd.c`
looks up is the line that was typed.
-/

namespace Lpi.Ports.StripNewline

open Lpi.Verified.CString
open Lpi.Verified.Lines
open Lpi.Ports.IFcntlLocking
open Lpi.Ports.CheckPasswd

/-- The run ends, and nothing is stored outside of the buffer. -/
def StaysInside (run : Option (IFcntlLocking.Ending × State)) : Prop :=
  ∃ e t, run = some (e, t) ∧ e ≠ .undefined

section Lock

variable {program pathname : CStr} {line : List UInt8} {frame : Frame}
  {stdin : List UInt8} {rounds : Nat}

/-- The store is in the buffer if and only if no line has a NUL where a read
begins. -/
theorem staysInside_iff (hpath : pathname.bytes ≠ ascii "-h")
    (hrounds : stdin.length < rounds) :
    (∀ k, StaysInside
        (IFcntlLocking.main k rounds none program [pathname] line frame stdin)) ↔
      ∀ l ∈ stdin.splitOn 10, ∀ j, l[99 * j]? ≠ some 0 := by
  rw [← head_chunks_iff (by decide) (by decide) (Nat.le_of_lt hrounds)]
  simp only [main_eq_run hpath]
  constructor
  · intro hall c hc hhead
    obtain ⟨e, t, hrun, he⟩ := hall granting
    obtain ⟨t', hundefined⟩ := run_undefined (s :=
      ⟨line, frame, stdin, ascii "Enter ? for help\n", [], [], []⟩) granting_benign hrounds
      ⟨c, hc, hhead⟩
    rw [hrun, Option.some.injEq, Prod.mk.injEq] at hundefined
    exact he hundefined.1
  · intro hheads k
    obtain ⟨e, t, _, _, hrun, _, _, _, hend⟩ := @run_spec k
      ⟨line, frame, stdin, ascii "Enter ? for help\n", [], [], []⟩ rounds hrounds hheads
    refine ⟨e, t, hrun, ?_⟩
    rcases hend with ⟨rfl, _⟩ | ⟨rfl, _⟩
    · simp
    · simp

end Lock

/-- **Where the last character is.**  For every input: `i_fcntl_locking.c` stays
in its buffer, whatever the system answers, if and only if no line has a NUL at
a multiple of 99 bytes from its beginning; and `check_passwd.c` stays in its
buffer and looks up the line that was typed if and only if there is no input,
or the first line has no NUL and is shorter than the buffer. -/
theorem strip_newline_iff (program pathname : CStr) (line : List UInt8) (frame : Frame)
    (sys : System) (buffer stdin : List UInt8) (rounds : Nat)
    (hpath : pathname.bytes ≠ ascii "-h") (hrounds : stdin.length < rounds)
    (hmalloc : sys.malloc = .ok ()) (hmax : 9 ≤ sys.maxUsernameLength)
    (hint : sys.maxUsernameLength < 2 ^ 31) :
    ((∀ k, StaysInside
        (IFcntlLocking.main k rounds none program [pathname] line frame stdin)) ↔
      ∀ l ∈ stdin.splitOn 10, ∀ j, l[99 * j]? ≠ some 0) ∧
    (LooksUpTyped sys buffer stdin ↔
      stdin = [] ∨ (0 ∉ typedLine stdin ∧
        ((typedLine stdin).length : Int) < sys.maxUsernameLength)) :=
  ⟨staysInside_iff hpath hrounds, looksUpTyped_iff hmalloc hmax hint⟩

/-- A system on which user names have less than 256 bytes, without any users. -/
def noUsers : System where
  sysconf := 256
  malloc := .ok ()
  getpwnam _ := .error none
  getspnam _ := .error false
  getpass := .ok []
  crypt _ _ := .ok []

/-- A name without a NUL, which is short enough. -/
theorem strip_newline_joe :
    (∀ k, StaysInside (IFcntlLocking.main k 5 none iFcntlLockingName [lockFile] [] zeroFrame
        (ascii "joe\n"))) ∧
    LooksUpTyped noUsers [] (ascii "joe\n") := by
  obtain ⟨hlock, hname⟩ := strip_newline_iff iFcntlLockingName lockFile [] zeroFrame noUsers
    [] (ascii "joe\n") 5 (by decide) (by decide) rfl (by decide) (by decide)
  refine ⟨hlock.2 ?_, hname.2 (by decide)⟩
  have hnul : ∀ l ∈ (ascii "joe\n").splitOn 10, 0 ∉ l := by decide
  intro l hl j hj
  exact hnul l hl (List.mem_of_getElem? hj)

/-- A line that consists of a NUL makes both programs leave their buffers, and of
a name that is too long only the beginning is looked up. -/
theorem nul_leaves_buffer :
    ¬ StaysInside (IFcntlLocking.main granting 5 none iFcntlLockingName [lockFile] []
        zeroFrame [0, 10]) ∧
    ¬ LooksUpTyped noUsers [] [0, 10] ∧
    (CheckPasswd.main noUsers [] (List.replicate 300 97)).lookups =
      [List.replicate 255 97] := by
  have hlock : (IFcntlLocking.main granting 5 none iFcntlLockingName [lockFile] []
      zeroFrame [0, 10]).map Prod.fst = some .undefined := by decide
  have hname : (CheckPasswd.main noUsers [] [0, 10]).ending = .undefined := by decide
  refine ⟨?_, fun h => h.1 hname, by decide +kernel⟩
  rintro ⟨e, t, hrun, he⟩
  rw [hrun, Option.map_some, Option.some.injEq] at hlock
  exact he hlock

end Lpi.Ports.StripNewline
