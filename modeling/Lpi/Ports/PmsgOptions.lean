import Lpi.Verified.Flags
import Lpi.Verified.Getopt

/-!
# The options of the programs for a queue (`pmsg/pmsg_send.c`, `pmsg/pmsg_receive.c`)

Both programs have the option `-n`.  The sender stores what `getopt` returns in
`opt` and looks at it; the receiver only compares it with -1, and looks at the
variable all the same, which has no value.  So it is the garbage in the variable
that decides what every option is (`classify_iff`).
-/

namespace Lpi.Ports.PmsgOptions

open Lpi.Verified.CString
open Lpi.Verified.Flags
open Lpi.Verified.Getopt

def O_RDONLY : BitVec 32 := 0x0#32
def O_WRONLY : BitVec 32 := 0x1#32
def O_NONBLOCK : BitVec 32 := 0x800#32

/-- The string of the options. -/
def optstring : List UInt8 := ascii "n"

/-- The flags for `mq_open`, and what is on standard error so far. -/
structure Vars where
  oflag : BitVec 32
  stderr : List UInt8
  deriving DecidableEq

/-- The `switch` on the variable `opt`; the program may end with the text on
standard error. -/
def switch (printUsage : List UInt8) (opt : Int32) (v : Vars) : Except (List UInt8) Vars :=
  if opt = 110 then .ok { v with oflag := v.oflag ||| O_NONBLOCK }
  else .error (v.stderr ++ printUsage)

/-- One turn of the loop over the options; `opt` is what the variable holds after
a call of `getopt`. -/
def turn (program : CStr) (printUsage : List UInt8) (opt : Found → Int32) (v : Vars)
    (f : Found) : Except (List UInt8) Vars :=
  switch printUsage (opt f) { v with stderr := v.stderr ++ f.diagnostic program }

/-- How the command line ends: with the usage and a failure, or in a call of
`mq_open`. -/
inductive Outcome where
  | usage (stderr : List UInt8)
  | mqOpen (name : CStr) (v : Vars)
  deriving DecidableEq

/-- Behind the loop: the test of the number of operands, and the call. -/
def finish (printUsage : List UInt8) (needed : Nat) (operands : List CStr) :
    Except (List UInt8) Vars → Outcome
  | .error e => .usage e
  | .ok v =>
      match operands with
      | [] => .usage (v.stderr ++ printUsage)
      | name :: more =>
          if more.length + 1 < needed then .usage (v.stderr ++ printUsage) else .mqOpen name v

/-! ## `pmsg_send.c` -/

namespace Send

def printUsage (program : CStr) : List UInt8 :=
  ascii "Usage: " ++ program.bytes ++ ascii " [-n] <mq_name> <msg> [<priority>]\n" ++
    ascii "    -n - Use O_NONBLOCK flag\n"

def options (program : CStr) (argv : List CStr) : Except (List UInt8) Vars :=
  loop (turn program (printUsage program) fun f => Int32.ofNat f.opt.toNat)
    (getopt optstring argv).1 ⟨O_WRONLY, []⟩

/-- `main` up to `mq_open`. -/
def main (program : CStr) (argv : List CStr) : Outcome :=
  finish (printUsage program) 2 (getopt optstring argv).2 (options program argv)

end Send

/-! ## `pmsg_receive.c` -/

namespace Receive

def printUsage (program : CStr) : List UInt8 :=
  ascii "Usage: " ++ program.bytes ++ ascii " [-n] <mq_name>\n" ++
    ascii "    -n - Use O_NONBLOCK flag\n"

/-- The result of `getopt` is not stored, so `opt` keeps what it held. -/
def options (opt : Int32) (program : CStr) (argv : List CStr) : Except (List UInt8) Vars :=
  loop (turn program (printUsage program) fun _ => opt) (getopt optstring argv).1
    ⟨O_RDONLY, []⟩

def main (opt : Int32) (program : CStr) (argv : List CStr) : Outcome :=
  finish (printUsage program) 1 (getopt optstring argv).2 (options opt program argv)

end Receive

/-! ## What the programs are for -/

/-- An option of the arguments is unknown. -/
def Unknown (argv : List CStr) : Prop := ∃ f ∈ (getopt optstring argv).1, f.isError = true

/-- The usage is shown for an unknown option or a missing operand, and otherwise
the queue is opened without waiting if and only if `-n` is given. -/
structure Classifies (needed : Nat) (argv : List CStr) (o : Outcome) : Prop where
  usage : (∃ stderr, o = .usage stderr) ↔
    Unknown argv ∨ (getopt optstring argv).2.length < needed
  nonblock : ∀ name v, o = .mqOpen name v →
    (Has v.oflag O_NONBLOCK ↔ .flag 110 ∈ (getopt optstring argv).1)

/-- Both loops reject the options, or both accept them with or without `-n`. -/
def SameOptionPart (a b : Except (List UInt8) Vars) : Prop :=
  match a, b with
  | .error _, .error _ => True
  | .ok v, .ok v' => Has v.oflag O_NONBLOCK ↔ Has v'.oflag O_NONBLOCK
  | _, _ => False

/-! ## The loop -/

variable {program : CStr} {printUsage : List UInt8} {opt : Found → Int32}

theorem rejects {found : List Found} (h : ∃ f ∈ found, opt f ≠ 110) (v : Vars) :
    ∃ e, loop (turn program printUsage opt) found v = .error e := by
  obtain ⟨f, hf, hopt⟩ := h
  exact loop_error ⟨f, hf, fun v => ⟨_, if_neg hopt⟩⟩ v

theorem accepts {found : List Found} (h : ∀ f ∈ found, opt f = 110) (v : Vars) :
    ∃ v', loop (turn program printUsage opt) found v = .ok v' ∧
      (Has v'.oflag O_NONBLOCK ↔ Has v.oflag O_NONBLOCK ∨ found ≠ []) := by
  induction found generalizing v with
  | nil => exact ⟨v, rfl, by simp⟩
  | cons f found ih =>
      rw [List.forall_mem_cons] at h
      simp only [loop, turn, switch, if_pos h.1]
      obtain ⟨v', hv', hflag⟩ := ih h.2 ⟨v.oflag ||| O_NONBLOCK, v.stderr ++ f.diagnostic program⟩
      have hset : Has (v.oflag ||| O_NONBLOCK) O_NONBLOCK := has_or.2 (.inr (by decide))
      exact ⟨v', hv', by simp [hflag, hset]⟩

/-- Two loops over the same options differ if and only if one of them fails. -/
theorem sameOptionPart_iff {program' : CStr} {printUsage' : List UInt8}
    {opt' : Found → Int32} {found : List Found} {v v' : Vars}
    (hv : ¬ Has v.oflag O_NONBLOCK) (hv' : ¬ Has v'.oflag O_NONBLOCK) :
    SameOptionPart (loop (turn program printUsage opt) found v)
        (loop (turn program' printUsage' opt') found v') ↔
      ((∃ f ∈ found, opt f ≠ 110) ↔ ∃ f ∈ found, opt' f ≠ 110) := by
  by_cases hleft : ∃ f ∈ found, opt f ≠ 110
  · obtain ⟨e, he⟩ : ∃ e, loop (turn program printUsage opt) found v = .error e := rejects hleft v
    by_cases hright : ∃ f ∈ found, opt' f ≠ 110
    · obtain ⟨e', he'⟩ : ∃ e', loop (turn program' printUsage' opt') found v' = .error e' :=
        rejects hright v'
      simp only [SameOptionPart, he, he', hleft, hright]
    · obtain ⟨w', hw', -⟩ : ∃ w', loop (turn program' printUsage' opt') found v' = .ok w' ∧ _ :=
        accepts (by simpa using hright) v'
      simp [SameOptionPart, he, hw', hleft, hright]
  · obtain ⟨w, hw, hflag⟩ : ∃ w, loop (turn program printUsage opt) found v = .ok w ∧
        (Has w.oflag O_NONBLOCK ↔ _ ∨ _) := accepts (by simpa using hleft) v
    by_cases hright : ∃ f ∈ found, opt' f ≠ 110
    · obtain ⟨e', he'⟩ : ∃ e', loop (turn program' printUsage' opt') found v' = .error e' :=
        rejects hright v'
      simp [SameOptionPart, hw, he', hleft, hright]
    · obtain ⟨w', hw', hflag'⟩ : ∃ w', loop (turn program' printUsage' opt') found v' = .ok w' ∧
          (Has w'.oflag O_NONBLOCK ↔ _ ∨ _) := accepts (by simpa using hright) v'
      simp only [SameOptionPart, hw, hw', hleft, hright, hflag, hflag', hv, hv']

theorem letterTable_optstring : letterTable optstring = [(110, false)] := by
  decide

/-- What is found is the option `-n`, or unknown. -/
theorem eq_flag_of_mem {argv : List CStr} {f : Found} (hf : f ∈ (getopt optstring argv).1)
    (hknown : f.isError = false) : f = .flag 110 := by
  cases consistent_of_mem_getopt f hf with
  | inl herror => exact absurd (hknown.symm.trans herror) Bool.false_ne_true
  | inr hvalid =>
      cases hvalid with
      | @flag c hc h =>
          have hletter : c = 110 := by
            simpa [letterTable_optstring] using mem_letterTable h
          rw [hletter]
      | value hc optarg h =>
          have hnone := mem_letterTable h
          simp [letterTable_optstring] at hnone

theorem flag_mem_iff {argv : List CStr} (h : ¬ Unknown argv) :
    .flag 110 ∈ (getopt optstring argv).1 ↔ (getopt optstring argv).1 ≠ [] := by
  constructor
  · exact List.ne_nil_of_mem
  · intro hne
    obtain ⟨f, hf⟩ := List.exists_mem_of_ne_nil _ hne
    have hknown : f.isError = false := Bool.eq_false_iff.2 fun herror => h ⟨f, hf, herror⟩
    exact eq_flag_of_mem hf hknown ▸ hf

/-- The program is right if its loop ends in a failure exactly for an unknown
option. -/
theorem classifies_finish {argv : List CStr} {needed : Nat} {v : Vars} (hneeded : 0 < needed)
    (hv : ¬ Has v.oflag O_NONBLOCK)
    (h : (∃ f ∈ (getopt optstring argv).1, opt f ≠ 110) ↔ Unknown argv) :
    Classifies needed argv (finish printUsage needed (getopt optstring argv).2
      (loop (turn program printUsage opt) (getopt optstring argv).1 v)) := by
  by_cases hunknown : Unknown argv
  · obtain ⟨e, he⟩ : ∃ e, loop (turn program printUsage opt) (getopt optstring argv).1 v =
        .error e := rejects (h.2 hunknown) v
    rw [he]
    exact ⟨by simp [finish, hunknown], fun _ _ hopen => nomatch hopen⟩
  · have hletters : ∀ f ∈ (getopt optstring argv).1, opt f = 110 := by
      intro f hf
      by_contra hne
      exact hunknown (h.1 ⟨f, hf, hne⟩)
    obtain ⟨v', hloop, hflag⟩ : ∃ v',
        loop (turn program printUsage opt) (getopt optstring argv).1 v = .ok v' ∧
        (Has v'.oflag O_NONBLOCK ↔ Has v.oflag O_NONBLOCK ∨ _) := accepts hletters v
    rw [hloop]
    rw [or_iff_right hv, ← flag_mem_iff hunknown] at hflag
    cases hoperands : (getopt optstring argv).2 with
    | nil => exact ⟨by simp [finish, hoperands, hneeded], fun _ _ hopen => nomatch hopen⟩
    | cons name more =>
        by_cases hfew : more.length + 1 < needed
        · simp only [finish, if_pos hfew]
          exact ⟨by simp [hoperands, hfew], fun _ _ hopen => nomatch hopen⟩
        · simp only [finish, if_neg hfew]
          refine ⟨by simp [hoperands, hunknown, hfew], ?_⟩
          rintro name' v'' ⟨⟩
          exact hflag

/-- The sender looks at what `getopt` returned. -/
theorem opt_ne_iff {argv : List CStr} :
    (∃ f ∈ (getopt optstring argv).1, Int32.ofNat f.opt.toNat ≠ 110) ↔ Unknown argv := by
  refine exists_congr fun f => and_congr_right fun hf => ?_
  cases hknown : f.isError with
  | false =>
      rw [eq_flag_of_mem hf hknown]
      decide
  | true =>
      cases f with
      | flag c | value c optarg => cases hknown
      | unknown c | missing c =>
          have hopt : Int32.ofNat (63 : UInt8).toNat ≠ 110 := by decide
          exact iff_of_true hopt rfl

/-- **Both programs classify the options in the same way, and rightly,** if and
only if there are none or the garbage in `opt` happens to be the letter exactly
when all of them are known. -/
theorem classify_iff (program program' : CStr) (opt : Int32) (argv : List CStr) :
    (Classifies 2 argv (Send.main program argv) ∧
        Classifies 1 argv (Receive.main opt program' argv) ∧
        SameOptionPart (Send.options program argv) (Receive.options opt program' argv)) ↔
      (getopt optstring argv).1 = [] ∨ (opt = 110 ↔ ¬ Unknown argv) := by
  have hsend : ¬ Has O_WRONLY O_NONBLOCK := by decide
  have hreceive : ¬ Has O_RDONLY O_NONBLOCK := by decide
  have hsame : SameOptionPart (Send.options program argv) (Receive.options opt program' argv) ↔
      ((∃ f ∈ (getopt optstring argv).1, Int32.ofNat f.opt.toNat ≠ 110) ↔
        ∃ f ∈ (getopt optstring argv).1, opt ≠ 110) :=
    sameOptionPart_iff hsend hreceive
  have hgarbage : ((∃ f ∈ (getopt optstring argv).1, opt ≠ 110) ↔ Unknown argv) ↔
      (getopt optstring argv).1 = [] ∨ (opt = 110 ↔ ¬ Unknown argv) := by
    by_cases hnone : (getopt optstring argv).1 = []
    · simp [Unknown, hnone]
    · obtain ⟨f, hf⟩ := List.exists_mem_of_ne_nil _ hnone
      have hall : (∃ f ∈ (getopt optstring argv).1, opt ≠ 110) ↔ opt ≠ 110 :=
        ⟨fun ⟨_, _, hopt⟩ => hopt, fun hopt => ⟨f, hf, hopt⟩⟩
      rw [or_iff_right hnone, hall, ne_eq, not_iff_comm]
      exact ⟨Iff.symm, Iff.symm⟩
  rw [hsame, opt_ne_iff, ← hgarbage]
  constructor
  · exact fun h => h.2.2.symm
  · exact fun h => ⟨classifies_finish (by decide) hsend opt_ne_iff,
      classifies_finish (by decide) hreceive h, h.symm⟩

/-- `-n /queue`. -/
def waitless : List CStr := [⟨ascii "-n", by decide⟩, ⟨ascii "/queue_n", by decide⟩]

/-- With 0 in the variable the receiver rejects its own option. -/
theorem receiver_rejects :
    ¬ Classifies 1 waitless (Receive.main 0 ⟨ascii "pmsg_receive", by decide⟩ waitless) := by
  intro h
  have hfound : ∀ f ∈ (getopt optstring waitless).1, f.isError = false := by decide
  have hoperands : ¬ (getopt optstring waitless).2.length < 1 := by decide
  have hgarbage : ∃ f ∈ (getopt optstring waitless).1, (0 : Int32) ≠ 110 := by decide
  obtain ⟨e, he⟩ : ∃ e, Receive.options 0 ⟨ascii "pmsg_receive", by decide⟩ waitless =
      .error e := by
    rw [Receive.options]
    exact rejects hgarbage _
  have husage := h.usage.1 ⟨e, by rw [Receive.main, he, finish]⟩
  obtain ⟨f, hf, herror⟩ := husage.resolve_right hoperands
  exact Bool.false_ne_true ((hfound f hf).symm.trans herror)

end Lpi.Ports.PmsgOptions
