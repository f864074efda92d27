import Lpi.Ports.NumericArgs
import Lpi.Verified.CData
import Lpi.Verified.Flags
import Lpi.Verified.Getopt

/-!
# Creating a message queue (`pmsg/pmsg_create.c`)

The options `-m` and `-s` are for the number of messages of the queue and for
their size, but the branches of both store into `mq_maxmsg`.  So the size is
always 2048, and the number of messages is that of the last of both options.
`queue_as_asked_iff` says on which command lines nobody notices.
-/

namespace Lpi.Ports.PmsgCreate

open Lpi.Verified.CData
open Lpi.Verified.CInt
open Lpi.Verified.CString
open Lpi.Verified.Flags
open Lpi.Verified.Getopt
open Lpi.Ports.NumericArgs (PmsgCreate.getLong)

/-! ## The program -/

def O_RDWR : BitVec 32 := 0x2#32
def O_CREAT : BitVec 32 := 0x40#32
def O_EXCL : BitVec 32 := 0x80#32

/-- `S_IRUSR | S_IWUSR`. -/
def readWriteUser : Int := 0o600

/-- `struct mq_attr`, as far as the program sets it. -/
structure Attr where
  maxmsg : Int
  msgsize : Int
  deriving DecidableEq, Repr

/-- The arguments of `mq_open`; there are no attributes if the pointer is
`NULL`. -/
structure Call where
  name : CStr
  oflag : BitVec 32
  mode : Int
  attrp : Option Attr
  deriving DecidableEq

/-- The variables of the loop over the options; `attrp` is set once the pointer
is `&attr`. -/
structure Vars where
  oflag : BitVec 32
  attr : Attr
  attrp : Bool
  deriving DecidableEq

def Vars.init : Vars := ⟨O_RDWR, ⟨10, 2048⟩, false⟩

def printUsage (program : CStr) : List UInt8 :=
  ascii "Usage: " ++ program.bytes ++
    ascii " [-cx] [-m <max_msgs>] [-s <max_msg_size>] <mq_name> [<octal_perms>]\n" ++
    ascii "    -c                - Create queue (O_CREAT)\n" ++
    ascii "    -x                - Create exclusively (O_EXCL)\n" ++
    ascii "    -m <max_msgs>     - Set max # of msgs\n" ++
    ascii "    -s <max_msg_size> - Set max msg size\n"

/-- The string of the options. -/
def optstring : List UInt8 := ascii "cxm:s:"

/-- One turn of the loop, or what is printed before `exit(EXIT_FAILURE)`. -/
def turn (program : CStr) (v : Vars) : Found → Except (List UInt8) Vars
  | .flag 99 => .ok { v with oflag := v.oflag ||| O_CREAT }
  | .flag 120 => .ok { v with oflag := v.oflag ||| O_EXCL }
  | .value 109 optarg =>
      match PmsgCreate.getLong optarg .auto with
      | .error e => .error e
      | .ok n => .ok { v with attr := { v.attr with maxmsg := n }, attrp := true }
  | .value 115 optarg =>
      -- `-s` stores into `mq_maxmsg` as well
      match PmsgCreate.getLong optarg .auto with
      | .error e => .error e
      | .ok n => .ok { v with attr := { v.attr with maxmsg := n }, attrp := true }
  | found => .error (found.diagnostic program ++ printUsage program)

/-- `mode_t mode`, which is an `unsigned int`. -/
def mode : List CStr → Except (List UInt8) Int
  | [] => .ok readWriteUser
  | perms :: _ =>
      match PmsgCreate.getLong perms .octal with
      | .error e => .error e
      | .ok n => .ok (IntType.uint.wrap n)

/-- The program up to the call of `mq_open`. -/
def call (program : CStr) (argv : List CStr) : Except (List UInt8) Call :=
  match loop (turn program) (getopt optstring argv).1 Vars.init with
  | .error e => .error e
  | .ok v =>
      match (getopt optstring argv).2 with
      | [] => .error (printUsage program)
      | name :: perms =>
          match mode perms with
          | .error e => .error e
          | .ok mode => .ok ⟨name, v.oflag, mode, if v.attrp then some v.attr else none⟩

/-- What a run does. -/
structure Result where
  call : Option Call
  stderr : List UInt8
  exit : Exit
  deriving DecidableEq

/-- `main`; `mqOpen` gives the text of `errno` if the call fails. -/
def main (mqOpen : Call → Option (List UInt8)) (program : CStr) (argv : List CStr) :
    Result :=
  match call program argv with
  | .error e => ⟨none, e, .failure⟩
  | .ok call =>
      match mqOpen call with
      | none => ⟨some call, [], .success⟩
      | some e =>
          ⟨some call, ascii "Failed to mq_open() " ++ call.name.bytes ++ ascii " - " ++ e ++
            ascii "\n", .failure⟩

/-! ## What is asked for -/

/-- A command line of options of the program with a name behind them; its
numbers can be converted. -/
structure CommandLine where
  argv : List CStr
  known : ∀ f ∈ (getopt optstring argv).1, f.isError = false
  numbers : ∀ c optarg, .value c optarg ∈ (getopt optstring argv).1 →
    ∃ n, PmsgCreate.getLong optarg .auto = .ok n
  named : (getopt optstring argv).2 ≠ []
  perms : ∀ perms ∈ (getopt optstring argv).2[1]?, ∃ n, PmsgCreate.getLong perms .octal = .ok n

def CommandLine.found (c : CommandLine) : List Found := (getopt optstring c.argv).1

def CommandLine.operands (c : CommandLine) : List CStr := (getopt optstring c.argv).2

/-- The numbers given with an option. -/
def numbers (c : UInt8) (found : List Found) : List Int :=
  (optargs c found).filterMap fun optarg => (PmsgCreate.getLong optarg .auto).toOption

/-- The attributes asked for, if any: those of the last `-m` and the last
`-s`. -/
def asked (found : List Found) : Option Attr :=
  if optargs 109 found = [] ∧ optargs 115 found = [] then none
  else some ⟨(numbers 109 found).getLast?.getD 10, (numbers 115 found).getLast?.getD 2048⟩

/-- The call is the one that is asked for. -/
structure AsAsked (found : List Found) (call : Call) : Prop where
  attrp : call.attrp = asked found
  creat : Has call.oflag O_CREAT ↔ .flag 99 ∈ found
  excl : Has call.oflag O_EXCL ↔ .flag 120 ∈ found

/-- The order of options with different letters does not matter. -/
def OrderFree (mqOpen : Call → Option (List UInt8)) (program : CStr) (c : CommandLine) :
    Prop :=
  ∀ c' : CommandLine, SameOptions c.found c'.found → c'.operands = c.operands →
    main mqOpen program c'.argv = main mqOpen program c.argv

/-! ## The loop -/

/-- An option that the loop goes through. -/
inductive Passes : Found → Prop where
  | c : Passes (.flag 99)
  | x : Passes (.flag 120)
  | m {optarg : CStr} {n : Int} (h : PmsgCreate.getLong optarg .auto = .ok n) :
      Passes (.value 109 optarg)
  | s {optarg : CStr} {n : Int} (h : PmsgCreate.getLong optarg .auto = .ok n) :
      Passes (.value 115 optarg)

theorem letterTable_optstring :
    letterTable optstring = [(99, false), (120, false), (109, true), (115, true)] := by
  decide

theorem CommandLine.passes (c : CommandLine) : ∀ f ∈ c.found, Passes f := by
  intro f hf
  cases consistent_of_mem_getopt f hf with
  | inl herror => exact absurd ((c.known f hf).symm.trans herror) Bool.false_ne_true
  | inr hvalid =>
      cases hvalid with
      | @flag c' _ h =>
          have hletter : c' = 99 ∨ c' = 120 := by
            simpa [letterTable_optstring] using mem_letterTable h
          rcases hletter with rfl | rfl
          · exact .c
          · exact .x
      | @value c' _ optarg h =>
          have hletter : c' = 109 ∨ c' = 115 := by
            simpa [letterTable_optstring] using mem_letterTable h
          obtain ⟨n, hn⟩ := c.numbers c' optarg hf
          rcases hletter with rfl | rfl
          · exact .m hn
          · exact .s hn

/-- The flag of an option. -/
def flagOf : Found → Option (BitVec 32) := flagIn [(99, O_CREAT), (120, O_EXCL)]

/-- The number that an option stores. -/
def storeOf : Found → Option Int
  | .value c optarg =>
      if c = 109 ∨ c = 115 then (PmsgCreate.getLong optarg .auto).toOption else none
  | _ => none

/-- What the loop makes of the variables. -/
def Vars.after (v : Vars) (found : List Found) : Vars where
  oflag := v.oflag ||| union (found.filterMap flagOf)
  attr := { v.attr with maxmsg := (found.filterMap storeOf).getLast?.getD v.attr.maxmsg }
  attrp := v.attrp || found.filterMap storeOf ≠ []

theorem loop_eq (program : CStr) {found : List Found} (h : ∀ f ∈ found, Passes f)
    (v : Vars) : loop (turn program) found v = .ok (v.after found) := by
  induction found generalizing v with
  | nil => simp [loop, Vars.after, union]
  | cons f found ih =>
      rw [List.forall_mem_cons] at h
      cases h.1 with
      | c =>
          simp only [loop, turn, ih h.2]
          simp [Vars.after, flagOf, flagIn, storeOf, or_union_cons]
      | x =>
          simp only [loop, turn, ih h.2]
          simp [Vars.after, flagOf, flagIn, storeOf, or_union_cons]
      | m hn =>
          simp only [loop, turn, hn, ih h.2]
          simp [Vars.after, flagOf, flagIn, storeOf, hn, Except.toOption, List.getLast?_cons,
            List.filterMap_cons]
      | s hn =>
          simp only [loop, turn, hn, ih h.2]
          simp [Vars.after, flagOf, flagIn, storeOf, hn, Except.toOption, List.getLast?_cons,
            List.filterMap_cons]

/-- The call depends on what the loop leaves and on the operands. -/
theorem main_congr (mqOpen : Call → Option (List UInt8)) (program : CStr)
    {c c' : CommandLine} (hafter : Vars.init.after c'.found = Vars.init.after c.found)
    (hoperands : c'.operands = c.operands) :
    main mqOpen program c'.argv = main mqOpen program c.argv := by
  have hcall : call program c'.argv = call program c.argv := by
    rw [call, ← CommandLine.found, loop_eq program c'.passes, call, ← CommandLine.found,
      loop_eq program c.passes, hafter, ← CommandLine.operands, hoperands, CommandLine.operands]
  rw [main, hcall, main]

theorem main_of_call {mqOpen : Call → Option (List UInt8)} {program : CStr}
    {argv : List CStr} {made : Call} (h : call program argv = .ok made) :
    (main mqOpen program argv).call = some made := by
  simp only [main, h]
  cases mqOpen made with
  | none => rfl
  | some e => rfl

/-- On a command line that is meant well, the call is made. -/
theorem call_main (mqOpen : Call → Option (List UInt8)) (program : CStr) (c : CommandLine) :
    ∃ call, (main mqOpen program c.argv).call = some call ∧
      call.oflag = (Vars.init.after c.found).oflag ∧
      call.attrp = if (Vars.init.after c.found).attrp then
        some (Vars.init.after c.found).attr else none := by
  obtain ⟨name, perms, hoperands⟩ := List.exists_cons_of_ne_nil c.named
  obtain ⟨m, hm⟩ : ∃ m, mode perms = .ok m := by
    cases perms with
    | nil => exact ⟨readWriteUser, rfl⟩
    | cons perms more =>
        obtain ⟨n, hn⟩ := c.perms perms (by simp [hoperands])
        exact ⟨IntType.uint.wrap n, by simp only [mode, hn]⟩
  have hcall : call program c.argv = .ok ⟨name, (Vars.init.after c.found).oflag, m,
      if (Vars.init.after c.found).attrp then
        some (Vars.init.after c.found).attr else none⟩ := by
    simp only [call, hoperands, hm]
    rw [← CommandLine.found, loop_eq program c.passes]
  exact ⟨_, main_of_call hcall, rfl, rfl⟩

/-! ## The numbers that are stored -/

theorem numbers_append (c : UInt8) (found found' : List Found) :
    numbers c (found ++ found') = numbers c found ++ numbers c found' := by
  rw [numbers, optargs_append, List.filterMap_append, numbers, numbers]

/-- An option stores nothing, or a number given with `-m`, or one given with
`-s`. -/
theorem store_cases (f : Found) :
    [f].filterMap storeOf = [] ∧ numbers 109 [f] = [] ∧ numbers 115 [f] = [] ∨
      (∃ n, [f].filterMap storeOf = [n] ∧ numbers 109 [f] = [n] ∧ numbers 115 [f] = []) ∨
      ∃ n, [f].filterMap storeOf = [n] ∧ numbers 109 [f] = [] ∧ numbers 115 [f] = [n] := by
  cases f with
  | flag c | unknown c | missing c => exact .inl ⟨rfl, rfl, rfl⟩
  | value c optarg =>
      by_cases hm : c = 109
      · cases hn : PmsgCreate.getLong optarg .auto with
        | error e =>
            simp [numbers, optargs, storeOf, hm, hn, Except.toOption]
        | ok n => simp [numbers, optargs, storeOf, hm, hn, Except.toOption]
      · by_cases hs : c = 115
        · cases hn : PmsgCreate.getLong optarg .auto with
          | error e =>
              simp [numbers, optargs, storeOf, hs, hn, Except.toOption]
          | ok n => simp [numbers, optargs, storeOf, hs, hn, Except.toOption]
        · simp [numbers, optargs, storeOf, hm, hs]

/-- The last number stored is the last one of `-m` or the last one of `-s`. -/
theorem last_stored (found : List Found) :
    (found.filterMap storeOf).getLast? = (numbers 109 found).getLast? ∨
      (found.filterMap storeOf).getLast? = (numbers 115 found).getLast? := by
  induction found using List.reverseRecOn with
  | nil => exact .inl rfl
  | append_singleton found f ih =>
      rw [List.filterMap_append, numbers_append, numbers_append]
      rcases store_cases f with ⟨h, hm, hs⟩ | ⟨n, h, hm, hs⟩ | ⟨n, h, hm, hs⟩
      · simpa [h, hm, hs] using ih
      · simp [h, hm]
      · simp [h, hs]

/-- If only one of both options is given, its numbers are stored. -/
theorem stored_of_numbers_nil (found : List Found) :
    (numbers 115 found = [] → found.filterMap storeOf = numbers 109 found) ∧
      (numbers 109 found = [] → found.filterMap storeOf = numbers 115 found) := by
  induction found with
  | nil => exact ⟨fun _ => rfl, fun _ => rfl⟩
  | cons f found ih =>
      rw [← List.singleton_append, List.filterMap_append, numbers_append, numbers_append]
      simp only [List.append_eq_nil_iff]
      rcases store_cases f with ⟨hf, hm, hs⟩ | ⟨n, hf, hm, hs⟩ | ⟨n, hf, hm, hs⟩
      · simpa [hf, hm, hs] using ih
      · simpa [hf, hm, hs] using ih.1
      · simpa [hf, hm, hs] using ih.2

theorem stored_eq_nil_iff (found : List Found) :
    found.filterMap storeOf = [] ↔ numbers 109 found = [] ∧ numbers 115 found = [] := by
  induction found with
  | nil => exact ⟨fun _ => ⟨rfl, rfl⟩, fun _ => rfl⟩
  | cons f found ih =>
      rw [← List.singleton_append, List.filterMap_append, numbers_append, numbers_append]
      rcases store_cases f with ⟨hf, hm, hs⟩ | ⟨n, hf, hm, hs⟩ | ⟨n, hf, hm, hs⟩
      · simpa [hf, hm, hs] using ih
      · simp [hf, hm]
      · simp [hf, hs]

/-- The variables after the loop do not depend on more than the options and the
last number. -/
theorem after_congr {found found' : List Found} (h : SameOptions found found')
    (hlast : (found.filterMap storeOf).getLast? = (found'.filterMap storeOf).getLast?)
    (v : Vars) : v.after found' = v.after found := by
  have hflags : union (found'.filterMap flagOf) = union (found.filterMap flagOf) := by
    apply union_congr
    intro flag
    simp only [List.mem_filterMap, h.mem_iff]
  have hnil : found'.filterMap storeOf = [] ↔ found.filterMap storeOf = [] := by
    rw [← List.getLast?_eq_none_iff, ← hlast, List.getLast?_eq_none_iff]
  simp [Vars.after, hflags, hlast, hnil]

/-! ## What is asked for and what is done -/

theorem has_creat_iff (found : List Found) :
    Has (Vars.init.after found).oflag O_CREAT ↔ .flag 99 ∈ found := by
  have hinit : ¬ Has O_RDWR O_CREAT := by decide
  rw [Vars.after, has_or, Vars.init, or_iff_right hinit]
  exact has_union_flagIn (by decide) (by decide) found

theorem has_excl_iff (found : List Found) :
    Has (Vars.init.after found).oflag O_EXCL ↔ .flag 120 ∈ found := by
  have hinit : ¬ Has O_RDWR O_EXCL := by decide
  rw [Vars.after, has_or, Vars.init, or_iff_right hinit]
  exact has_union_flagIn (by decide) (by decide) found

theorem numbers_eq_nil_iff (c : CommandLine) (l : UInt8) :
    numbers l c.found = [] ↔ optargs l c.found = [] := by
  rw [numbers, List.filterMap_eq_nil_iff]
  constructor
  · intro h
    rw [List.eq_nil_iff_forall_not_mem]
    intro optarg hmem
    obtain ⟨n, hn⟩ := c.numbers l optarg (mem_optargs.1 hmem)
    simpa [hn, Except.toOption] using h optarg hmem
  · intro h
    simp [h]

/-- The attributes that are passed. -/
theorem attrp_eq (c : CommandLine) :
    (if (Vars.init.after c.found).attrp then some (Vars.init.after c.found).attr else none) =
      if optargs 109 c.found = [] ∧ optargs 115 c.found = [] then none
      else some ⟨(c.found.filterMap storeOf).getLast?.getD 10, 2048⟩ := by
  have hnil := stored_eq_nil_iff c.found
  rw [numbers_eq_nil_iff, numbers_eq_nil_iff] at hnil
  by_cases hgiven : c.found.filterMap storeOf = []
  · rw [if_pos (hnil.1 hgiven)]
    simp only [Vars.after, Vars.init, hgiven]
    rfl
  · rw [if_neg (mt hnil.2 hgiven), if_pos (by simp [Vars.after, hgiven])]
    rfl

/-- Every list of the options of a command line has a command line. -/
theorem CommandLine.exists_of_found (c : CommandLine) {found : List Found}
    (h : ∀ f ∈ found, f ∈ c.found) :
    ∃ c' : CommandLine, c'.found = found ∧ c'.operands = c.operands := by
  have hgetopt : getopt optstring (found.flatMap spell ++ endOfOptions :: c.operands) =
      (found, c.operands) :=
    getopt_spell_of_mem (by decide) (fun f hf => ⟨h f hf, c.known f (h f hf)⟩) c.operands
  refine ⟨⟨found.flatMap spell ++ endOfOptions :: c.operands, ?_, ?_, ?_, ?_⟩, ?_, ?_⟩
  · rw [hgetopt]
    exact fun f hf => c.known f (h f hf)
  · rw [hgetopt]
    exact fun l optarg hf => c.numbers l optarg (h _ hf)
  · rw [hgetopt]
    exact c.named
  · rw [hgetopt]
    exact c.perms
  · rw [CommandLine.found, hgetopt]
  · rw [CommandLine.operands, hgetopt]

theorem attrp_eq_asked_iff (c : CommandLine) :
    (if (Vars.init.after c.found).attrp then some (Vars.init.after c.found).attr else none) =
        asked c.found ↔
      optargs 115 c.found = [] ∨
        (c.found.filterMap storeOf).getLast?.getD 10 = (numbers 109 c.found).getLast?.getD 10 ∧
          (numbers 115 c.found).getLast? = some 2048 := by
  rw [attrp_eq, asked]
  by_cases hs : optargs 115 c.found = []
  · have hnumbers : numbers 115 c.found = [] := (numbers_eq_nil_iff c 115).2 hs
    simp [hs, hnumbers, (stored_of_numbers_nil c.found).1 hnumbers]
  · have hnumbers : numbers 115 c.found ≠ [] := mt (numbers_eq_nil_iff c 115).1 hs
    rw [if_neg fun h => hs h.2, if_neg fun h => hs h.2, or_iff_right hs,
      List.getLast?_eq_some_getLast hnumbers]
    simp only [Option.some.injEq, Attr.mk.injEq, Option.getD_some, eq_comm (a := (2048 : Int))]

/-- If the order does not matter, the last size is the number of messages, since
it is so when the sizes are behind the other options. -/
theorem stored_of_orderFree {mqOpen : Call → Option (List UInt8)} {program : CStr}
    {c : CommandLine} (h : OrderFree mqOpen program c) (hs : optargs 115 c.found ≠ []) :
    (c.found.filterMap storeOf).getLast?.getD 10 = (numbers 115 c.found).getLast?.getD 10 := by
  have hmoved : ∀ f ∈ c.found.filter (·.letter ≠ 115) ++ c.found.filter (·.letter = 115),
      f ∈ c.found := by
    simp only [List.mem_append, List.mem_filter]
    rintro f (hf | hf)
    · exact hf.1
    · exact hf.1
  obtain ⟨c', hfound, hoperands⟩ := c.exists_of_found hmoved
  have hsame : SameOptions c.found c'.found := hfound ▸ sameOptions_move 115 c.found
  obtain ⟨call, hcall, -, hattrp⟩ := call_main mqOpen program c
  obtain ⟨call', hcall', -, hattrp'⟩ := call_main mqOpen program c'
  have hsizes : (c.found.filter (·.letter = 115)).filterMap storeOf = numbers 115 c.found := by
    have hnone : numbers 109 (c.found.filter (·.letter = 115)) = [] := by
      rw [numbers, optargs_filter_letter_ne (by decide), List.filterMap_nil]
    rw [(stored_of_numbers_nil _).2 hnone, numbers, optargs_filter_letter, numbers]
  have hnumbers : numbers 115 c.found ≠ [] := mt (numbers_eq_nil_iff c 115).1 hs
  have hlast : (c'.found.filterMap storeOf).getLast? = (numbers 115 c.found).getLast? := by
    rw [hfound, List.filterMap_append, hsizes, List.getLast?_append_of_ne_nil _ hnumbers]
  have hcalls : call' = call := by
    rw [h c' hsame hoperands, hcall] at hcall'
    exact (Option.some.inj hcall').symm
  rw [attrp_eq, if_neg fun hnil => hs hnil.2] at hattrp
  rw [attrp_eq, if_neg fun hnil => hs ((hsame.optargs_eq 115).trans hnil.2), hcalls, hattrp,
    hlast] at hattrp'
  exact (Attr.mk.inj (Option.some.inj hattrp')).1

/-- Where no size does any harm, the last number that is stored is that of the last
`-m`, in any order. -/
theorem last_stored_of_asked {c : CommandLine} {found : List Found}
    (h : optargs 115 c.found = [] ∨ (numbers 109 c.found).getLast? = some 2048 ∧
      (numbers 115 c.found).getLast? = some 2048) (hsame : SameOptions c.found found) :
    (found.filterMap storeOf).getLast? = (numbers 109 c.found).getLast? := by
  have hm : numbers 109 found = numbers 109 c.found := by
    rw [numbers, ← hsame.optargs_eq, numbers]
  have hs : numbers 115 found = numbers 115 c.found := by
    rw [numbers, ← hsame.optargs_eq, numbers]
  cases h with
  | inl hnone =>
      have hnil : numbers 115 c.found = [] := (numbers_eq_nil_iff c 115).2 hnone
      rw [(stored_of_numbers_nil found).1 (hs.trans hnil), hm]
  | inr hboth =>
      have hstored := last_stored found
      rw [hm, hs, hboth.1, hboth.2, or_self] at hstored
      rw [hstored, hboth.1]

/-- **The call is the one that is asked for, whatever the order of the options**
if and only if no size is given, or both the number of messages and their size
are given as 2048. -/
theorem queue_as_asked_iff (mqOpen : Call → Option (List UInt8)) (program : CStr)
    (c : CommandLine) :
    ((∃ call, (main mqOpen program c.argv).call = some call ∧ AsAsked c.found call) ∧
        OrderFree mqOpen program c) ↔
      optargs 115 c.found = [] ∨ (numbers 109 c.found).getLast? = some 2048 ∧
        (numbers 115 c.found).getLast? = some 2048 := by
  obtain ⟨call, hcall, hoflag, hattrp⟩ := call_main mqOpen program c
  constructor
  · rintro ⟨⟨call', hcall', hasked⟩, horder⟩
    obtain rfl : call = call' := Option.some.inj (hcall.symm.trans hcall')
    by_cases hs : optargs 115 c.found = []
    · exact .inl hs
    · right
      have hattr := (attrp_eq_asked_iff c).1 (hattrp.symm.trans hasked.attrp)
      obtain ⟨hmsgs, hsize⟩ := (or_iff_right hs).1 hattr
      have hlast := stored_of_orderFree horder hs
      rw [hmsgs, hsize, Option.getD_some] at hlast
      refine ⟨?_, hsize⟩
      cases hm : (numbers 109 c.found).getLast? with
      | none => rw [hm] at hlast; cases hlast
      | some n => rw [hm] at hlast; exact congrArg some hlast
  · intro h
    have hself := last_stored_of_asked h fun _ => rfl
    refine ⟨⟨call, hcall, ?_, ?_, ?_⟩, ?_⟩
    · rw [hattrp, attrp_eq_asked_iff, hself]
      exact h.imp_right fun hboth => ⟨rfl, hboth.2⟩
    · rw [hoflag]
      exact has_creat_iff c.found
    · rw [hoflag]
      exact has_excl_iff c.found
    · intro c' hsame hoperands
      exact main_congr mqOpen program
        (after_congr hsame (hself.trans (last_stored_of_asked h hsame).symm) _) hoperands

/-- `-s 512 /queue`. -/
def sizeArgs : List CStr :=
  [⟨ascii "-s", by decide⟩, ⟨ascii "512", by decide⟩, ⟨ascii "/queue", by decide⟩]

theorem getopt_sizeArgs : getopt optstring sizeArgs =
    ([.value 115 ⟨[53, 49, 50], by decide⟩], [⟨ascii "/queue", by decide⟩]) := by
  decide

def sizeLine : CommandLine where
  argv := sizeArgs
  known := by
    rw [getopt_sizeArgs]
    decide
  numbers := by
    rw [getopt_sizeArgs]
    intro c optarg h
    rw [List.mem_singleton, Found.value.injEq] at h
    exact ⟨512, h.2 ▸ by decide⟩
  named := by
    rw [getopt_sizeArgs]
    decide
  perms := by
    rw [getopt_sizeArgs]
    exact fun _ h => nomatch h

/-- The size becomes the number of messages. -/
theorem size_stored :
    ¬ ∃ call, (main (fun _ => none) ⟨ascii "pmsg_create", by decide⟩ sizeLine.argv).call =
      some call ∧ AsAsked sizeLine.found call := by
  rintro ⟨call, hcall, hasked⟩
  obtain ⟨made, hmade, -, hattrp⟩ :=
    call_main (fun _ => none) ⟨ascii "pmsg_create", by decide⟩ sizeLine
  obtain rfl : made = call := Option.some.inj (hmade.symm.trans hcall)
  have hpassed : (if (Vars.init.after sizeLine.found).attrp then
      some (Vars.init.after sizeLine.found).attr else none) = some ⟨512, 2048⟩ := by
    decide
  have hmeant : asked sizeLine.found = some ⟨10, 512⟩ := by
    decide
  have hsame : some (⟨512, 2048⟩ : Attr) = some ⟨10, 512⟩ := by
    rw [← hpassed, ← hattrp, hasked.attrp, hmeant]
  cases hsame

end Lpi.Ports.PmsgCreate
