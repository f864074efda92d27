import Lpi.Ports.Pshm

/-!
# What a shared-memory object holds after a history of runs

The size of the object is changed by two of the programs, its contents by one.
`content` says what they amount to: the message of the last `pshm_write`, cut
or extended with zeros by every later `pshm_create`.  Nothing of an earlier
message is left, because `pshm_write` gives the object the length of its
message before it copies it.

The price of that order is paid by a run of `pshm_write` that fails after the
`ftruncate` (`failed_write_at_most_resizes`).
-/

namespace Lpi.Ports.Pshm

open Lpi.Ports.NumericArgs
open Lpi.Verified.CData
open Lpi.Verified.CString
open Lpi.Verified.FileObject
open Lpi.Verified.Getopt
open Lpi.Verified.Strtol

/-! ## One run -/

/-- The bytes of an object; one that does not exist has none. -/
def Shm.bytes (shm : Shm) (name : CStr) : List UInt8 := (shm name).getD []

/-- `shm_open` may create the object, but changes no bytes. -/
theorem System.open_bytes {sys : System} {shm shm' : Shm} {name : CStr}
    {flags : Flags} (h : sys.open shm name flags = some shm') :
    shm'.bytes name = shm.bytes name := by
  unfold System.open at h
  split at h
  · simp at h
  · cases hobj : shm name with
    | some bs =>
        simp only [hobj, Option.ite_none_left_eq_some, Option.some.injEq] at h
        rw [h.2]
    | none =>
        simp only [hobj, Option.ite_none_right_eq_some, Option.some.injEq] at h
        obtain ⟨_, rfl⟩ := h
        simp [Shm.bytes, hobj]

theorem System.truncate_eq_some {sys : System} {shm shm' : Shm} {name : CStr}
    {size : Nat} (h : sys.truncate shm name size = some shm') :
    shm' = Function.update shm name (some (resize size (shm.bytes name))) := by
  unfold System.truncate at h
  split at h
  · simp at h
  · simp only [Option.map_eq_some_iff] at h
    obtain ⟨bs, hobj, rfl⟩ := h
    simp [Shm.bytes, hobj]

/-- A successful `pshm_create` sets the size and nothing else. -/
theorem pshmCreate_success {sys : System} {argv : List CStr} {shm : Shm} {name : CStr}
    (hname : (operands argv).head? = some name)
    (h : (pshmCreate sys argv shm).exit = .success) :
    ∃ size, sizeArgument (operands argv) = .ok size ∧
      (pshmCreate sys argv shm).shm name = some (resize size (shm.bytes name)) := by
  unfold pshmCreate at h ⊢
  generalize operands argv = operands at hname h ⊢
  cases operands with
  | nil => simp at hname
  | cons name' rest =>
      simp only [List.head?_cons, Option.some.injEq] at hname
      subst hname
      cases hopts : loop turn (getopt optstring argv).1 ⟨false, false⟩ with
      | error e => simp [hopts, failure] at h
      | ok flags =>
          simp only [hopts] at h ⊢
          cases hmode : modeArgument (name' :: rest) with
          | error e => simp [hmode, failure] at h
          | ok mode =>
              simp only [hmode] at h ⊢
              cases hopen : sys.open shm name' flags with
              | none => simp [hopen, failure] at h
              | some shm₁ =>
                  simp only [hopen] at h ⊢
                  cases hsize : sizeArgument (name' :: rest) with
                  | error e => simp [hsize, failure] at h
                  | ok size =>
                      simp only [hsize] at h ⊢
                      cases htrunc : sys.truncate shm₁ name' size with
                      | none => simp [htrunc, failure] at h
                      | some shm₂ =>
                          have heq := System.truncate_eq_some htrunc
                          have hbytes := System.open_bytes hopen
                          refine ⟨size, rfl, ?_⟩
                          simp [heq, hbytes]

/-- A successful `pshm_write` leaves the message, which is not empty, and
nothing else. -/
theorem pshmWrite_success {sys : System} {args : List CStr} {shm : Shm}
    {name : CStr} (hname : args.head? = some name)
    (h : (pshmWrite sys args shm).exit = .success) :
    ∃ msg, args = [name, msg] ∧ msg.bytes ≠ [] ∧
      (pshmWrite sys args shm).shm name = some msg.bytes := by
  unfold pshmWrite at h ⊢
  split at h
  · rename_i name' msg
    simp only [List.head?_cons, Option.some.injEq] at hname
    subst hname
    split at h
    · simp [failure] at h
    · rename_i hhelp
      cases hopen : sys.open shm name' ⟨false, false⟩ with
      | none => simp [hopen, failure] at h
      | some shm₁ =>
          simp only [hopen] at h
          cases htrunc : sys.truncate shm₁ name' msg.bytes.length with
          | none => simp [htrunc, failure] at h
          | some shm₂ =>
              simp only [htrunc] at h
              split at h
              · simp [failure] at h
              · rename_i hmaps
                split at h
                · simp [failure] at h
                · rename_i hclose
                  have heq := System.truncate_eq_some htrunc
                  have hfull : overlay msg.bytes
                      (resize msg.bytes.length (shm₁.bytes name')) =
                      msg.bytes := overlay_full (by simp)
                  refine ⟨msg, rfl, ?_, ?_⟩
                  · intro hnil
                    simp [System.maps, hnil] at hmaps
                  · simp [hhelp, htrunc, hmaps, hclose, copyMessage, heq, hfull]
  · simp [failure] at h

/-! ## Histories -/

/-- A run of one of the two programs that change the object. -/
inductive Command where
  | create (sys : System) (argv : List CStr)
  | write (sys : System) (args : List CStr)

def Command.run : Command → Shm → Result
  | .create sys argv => pshmCreate sys argv
  | .write sys args => pshmWrite sys args

/-- The run is about the object `name`. -/
def Command.On (name : CStr) : Command → Prop
  | .create _ argv => (operands argv).head? = some name
  | .write _ args => args.head? = some name

instance (name : CStr) : DecidablePred (Command.On name)
  | .create _ argv => inferInstanceAs (Decidable ((operands argv).head? = some name))
  | .write _ args => inferInstanceAs (Decidable (args.head? = some name))

/-- The message of a `pshm_write`. -/
def Command.message? : Command → Option (List UInt8)
  | .create .. => none
  | .write _ args => args[1]?.map CStr.bytes

/-- The size a `pshm_create` asks for. -/
def Command.size? : Command → Option Nat
  | .create _ argv => (sizeArgument (operands argv)).toOption
  | .write .. => none

/-- The runs one after the other, as long as all of them succeed. -/
def runAll : List Command → Shm → Option Shm
  | [], shm => some shm
  | c :: cs, shm =>
      if (c.run shm).exit = .success then runAll cs (c.run shm).shm else none

/-- The message of the last `pshm_write`, empty if there was none. -/
def lastMessage (history : List Command) : List UInt8 :=
  (history.reverse.findSome? Command.message?).getD []

/-- The sizes of the runs of `pshm_create` after the last `pshm_write`. -/
def sizesSince (history : List Command) : List Nat :=
  ((history.reverse.takeWhile fun c => c.message?.isNone).reverse).filterMap
    Command.size?

/-- What the object should hold. -/
def content (history : List Command) : List UInt8 :=
  (sizesSince history).foldl (fun bs n => resize n bs) (lastMessage history)

theorem content_create {history : List Command} {c : Command} {size : Nat}
    (hmessage : c.message? = none) (hsize : c.size? = some size) :
    content (history ++ [c]) = resize size (content history) := by
  have hlast : lastMessage (history ++ [c]) = lastMessage history := by
    simp [lastMessage, hmessage]
  have hsizes : sizesSince (history ++ [c]) = sizesSince history ++ [size] := by
    simp [sizesSince, hmessage, hsize]
  simp only [content, hlast, hsizes, List.foldl_append, List.foldl_cons,
    List.foldl_nil]

theorem content_write {history : List Command} {c : Command}
    {msg : List UInt8} (hmessage : c.message? = some msg) :
    content (history ++ [c]) = msg := by
  have hlast : lastMessage (history ++ [c]) = msg := by
    simp [lastMessage, hmessage]
  have hsizes : sizesSince (history ++ [c]) = [] := by
    simp [sizesSince, hmessage]
  simp [content, hlast, hsizes]

theorem runAll_append {history : List Command} {c : Command} {shm shm' : Shm} :
    runAll (history ++ [c]) shm = some shm' ↔
      ∃ mid, runAll history shm = some mid ∧ (c.run mid).exit = .success ∧
        shm' = (c.run mid).shm := by
  induction history generalizing shm with
  | nil => simp [runAll, eq_comm]
  | cons d history ih =>
      by_cases hd : (d.run shm).exit = .success
      · simp [runAll, hd, ih]
      · simp [runAll, hd]

/-- The object holds what its history says. -/
theorem bytes_eq_content {name : CStr} {shm shm' : Shm}
    (hfresh : shm name = none) {history : List Command}
    (hon : ∀ c ∈ history, c.On name)
    (hruns : runAll history shm = some shm') :
    shm'.bytes name = content history := by
  induction history using List.reverseRecOn generalizing shm' with
  | nil =>
      simp only [runAll, Option.some.injEq] at hruns
      subst hruns
      simp [Shm.bytes, hfresh, content, sizesSince, lastMessage]
  | append_singleton history c ih =>
      obtain ⟨mid, hmid, hsuccess, rfl⟩ := runAll_append.1 hruns
      have hbefore := ih (fun d hd => hon d (by simp [hd])) hmid
      have hc := hon c (by simp)
      cases c with
      | create sys argv =>
          obtain ⟨size, hsize, hobj⟩ := pshmCreate_success hc hsuccess
          have hsize' : Command.size? (.create sys argv) = some size := by
            simp only [Command.size?, hsize]
            rfl
          rw [content_create rfl hsize', ← hbefore]
          simp [Shm.bytes, Command.run, hobj]
      | write sys args =>
          obtain ⟨msg, rfl, _, hobj⟩ := pshmWrite_success hc hsuccess
          have hmessage : Command.message? (.write sys [name, msg]) =
              some msg.bytes := rfl
          rw [content_write hmessage]
          simp [Shm.bytes, Command.run, hobj]

/-- Without a `pshm_write` there is nothing but zeros. -/
theorem content_eq_zero {history : List Command}
    (h : ∀ c ∈ history, c.message? = none) : ∀ b ∈ content history, b = 0 := by
  have hlast : lastMessage history = [] := by
    have hnone : history.reverse.findSome? Command.message? = none := by
      rw [List.findSome?_eq_none_iff]
      intro c hc
      exact h c (List.mem_reverse.1 hc)
    simp [lastMessage, hnone]
  unfold content
  rw [hlast]
  exact eq_zero_of_mem_foldl_resize (by simp)

/-! ## Reading it back -/

theorem System.written_le (sys : System) (length : Nat) : sys.written length ≤ maxRwCount :=
  le_trans (min_le_right _ _) (min_le_right _ _)

theorem System.written_willing (length : Nat) :
    System.willing.written length = min length maxRwCount := by
  rw [System.written]
  exact min_eq_right (min_le_left _ _)

/-- The object is printed if one `write()` takes it, and otherwise its beginning. -/
theorem pshmRead_willing {shm : Shm} {name : CStr} {object : List UInt8}
    (hname : name.bytes ≠ helpOption) (hobj : shm name = some object)
    (hne : object ≠ []) :
    pshmRead .willing [name] shm =
      if object.length ≤ maxRwCount then ⟨.success, shm, object ++ ascii "\n"⟩
      else failure shm (object.take maxRwCount) := by
  have hopen : System.willing.open shm name ⟨false, false⟩ = some shm := by
    simp [System.open, System.willing, hobj]
  have hmaps : System.willing.maps object.length = true := by
    simp [System.maps, System.willing, hne]
  have hcalls : System.willing.fstat = true ∧ System.willing.close = true ∧
      System.willing.newline = true := ⟨rfl, rfl, rfl⟩
  simp only [pshmRead, if_neg hname, hopen, hobj, hmaps, hcalls, System.written_willing,
    Bool.true_eq_false, if_false, if_true]
  by_cases hlength : object.length ≤ maxRwCount
  · rw [min_eq_left hlength, if_pos hlength, if_neg (fun hne' => hne' rfl)]
  · have hlt : maxRwCount < object.length := Nat.lt_of_not_le hlength
    rw [min_eq_right (le_of_lt hlt), if_neg hlength, if_pos (Nat.ne_of_lt hlt)]

/-- A run that succeeds has printed the whole object. -/
theorem pshmRead_success {sys : System} {shm : Shm} {name : CStr} {object : List UInt8}
    (hobj : shm name = some object) (h : (pshmRead sys [name] shm).exit = .success) :
    object.length ≤ maxRwCount ∧ (pshmRead sys [name] shm).stdout =
      object ++ if sys.newline then ascii "\n" else [] := by
  simp only [pshmRead] at h ⊢
  split at h
  · cases h
  · rename_i hname
    cases hopen : sys.open shm name ⟨false, false⟩ with
    | none => simp [hopen, failure] at h
    | some shm' =>
        have hsame : shm' name = some object := by
          simp only [System.open, hobj, Bool.and_false, Bool.false_eq_true, if_false,
            Option.ite_none_left_eq_some, Option.some.injEq] at hopen
          rw [← hopen.2, hobj]
        simp only [hopen, hsame] at h
        split at h
        · cases h
        split at h
        · cases h
        split at h
        · cases h
        split at h
        · cases h
        rename_i hfstat hmaps hclose hwritten
        rw [not_not] at hwritten
        refine ⟨hwritten ▸ sys.written_le _, ?_⟩
        simp [hname, hsame, hfstat, hmaps, hclose, hwritten]

/-- **The last write wins.**  After any history of successful runs of
`pshm_create` and `pshm_write` on one name, which did not exist before, the
object holds the last message, cut or extended with zeros by the later sizes,
and only zeros if there was no message.  If the object is not empty, `pshm_read` prints
it and a newline, as long as one `write()` takes it; of a longer object it prints as much
as that and fails.  If it succeeds, on any system, it has printed the whole object. -/
theorem last_write_wins (name : CStr) (hname : name.bytes ≠ helpOption)
    (shm shm' : Shm) (hfresh : shm name = none) (history : List Command)
    (hon : ∀ c ∈ history, c.On name)
    (hruns : runAll history shm = some shm') (object : List UInt8)
    (hobject : shm' name = some object) (hne : object ≠ []) :
    (pshmRead .willing [name] shm' =
      if object.length ≤ maxRwCount then ⟨.success, shm', content history ++ ascii "\n"⟩
      else failure shm' ((content history).take maxRwCount)) ∧
    (∀ sys, (pshmRead sys [name] shm').exit = .success →
      (pshmRead sys [name] shm').stdout =
        content history ++ if sys.newline then ascii "\n" else []) ∧
    object = content history ∧
    ((∀ c ∈ history, c.message? = none) → ∀ b ∈ object, b = 0) := by
  have hbytes := bytes_eq_content hfresh hon hruns
  have hcontent : object = content history := by
    simpa [Shm.bytes, hobject] using hbytes
  refine ⟨?_, ?_, hcontent, ?_⟩
  · rw [pshmRead_willing hname hobject hne, hcontent]
  · intro sys hsuccess
    rw [(pshmRead_success hobject hsuccess).2, hcontent]
  · intro hnone
    rw [hcontent]
    exact content_eq_zero hnone

/-- The name of the object in the runs below. -/
def slashA : CStr := ⟨ascii "/a", by decide⟩

def dashC : CStr := ⟨ascii "-c", by decide⟩

/-- A longer message, a shorter one, and then a size of three bytes. -/
theorem last_write_wins_shorter_message :
    ∃ shm', shm' slashA = some [120, 0, 0] ∧
      pshmRead .willing [slashA] shm' =
        ⟨.success, shm', [120, 0, 0] ++ ascii "\n"⟩ := by
  let history : List Command :=
    [.create .willing [dashC, slashA],
      .write .willing [slashA, ⟨ascii "abcd", by decide⟩],
      .write .willing [slashA, ⟨ascii "x", by decide⟩],
      .create .willing [slashA, ⟨ascii "3", by decide⟩]]
  have hruns : (runAll history fun _ => none).map (fun shm => shm slashA) =
      some (some [120, 0, 0]) := by decide
  obtain ⟨shm', hrun, hobject⟩ := Option.map_eq_some_iff.1 hruns
  obtain ⟨hread, _, hcontent, _⟩ := last_write_wins slashA (by decide)
    (fun _ => none) shm' rfl history (by decide) hrun [120, 0, 0] hobject (by simp)
  rw [← hcontent] at hread
  exact ⟨shm', hobject, hread⟩

def dashH : CStr := ⟨helpOption, by decide⟩

/-- `3221225472`, which is three times `2 ^ 30`. -/
def largeSize : CStr := ⟨ascii "3221225472", by decide⟩

theorem runAll_large : ∃ shm',
    runAll [.create .willing [dashC, slashA, largeSize]] (fun _ => none) = some shm' ∧
      shm' slashA = some (List.replicate 3221225472 0) := by
  have hsuccess : (pshmCreate .willing [dashC, slashA, largeSize] fun _ => none).exit =
      .success := rfl
  have hname : (operands [dashC, slashA, largeSize]).head? = some slashA := rfl
  have harg : sizeArgument (operands [dashC, slashA, largeSize]) = .ok 3221225472 := rfl
  rcases pshmCreate_success hname hsuccess with ⟨size, hsize, hobject⟩
  rw [harg, Except.ok.injEq] at hsize
  refine ⟨_, by rw [runAll, Command.run, if_pos hsuccess, runAll], ?_⟩
  rw [hobject, ← hsize]
  exact congrArg some (resize_nil 3221225472)

/-- A large object is not printed as a whole, and one with the name `-h` not at all. -/
theorem last_write_wins_fails :
    (∃ shm', runAll [.create .willing [dashC, slashA, largeSize]] (fun _ => none) = some shm' ∧
      shm' slashA = some (List.replicate 3221225472 0) ∧
      pshmRead .willing [slashA] shm' = failure shm' (List.replicate maxRwCount 0)) ∧
    (∃ shm', runAll [.create .willing [dashC, endOfOptions, dashH, ⟨ascii "16", by decide⟩]]
        (fun _ => none) = some shm' ∧
      shm' dashH = some (List.replicate 16 0) ∧
      pshmRead .willing [dashH] shm' = failure shm' []) := by
  constructor
  · rcases runAll_large with ⟨shm', hrun, hobject⟩
    have hne : List.replicate 3221225472 (0 : UInt8) ≠ [] := by
      rw [Ne, List.replicate_eq_nil_iff]
      decide
    refine ⟨shm', hrun, hobject, ?_⟩
    rw [pshmRead_willing (by decide) hobject hne, List.length_replicate, if_neg (by decide),
      List.take_replicate]
    rfl
  · have hruns : (runAll [.create .willing [dashC, endOfOptions, dashH,
        ⟨ascii "16", by decide⟩]] fun _ => none).map (fun shm => shm dashH) =
        some (some (List.replicate 16 0)) := by decide
    obtain ⟨shm', hrun, hobject⟩ := Option.map_eq_some_iff.1 hruns
    exact ⟨shm', hrun, hobject, rfl⟩

/-! ## A write that fails -/

/-- `pshm_write` comes as far as its `ftruncate`, and that succeeds. -/
def resizes (sys : System) (args : List CStr) (shm : Shm) : Bool :=
  match args with
  | [name, msg] =>
      name.bytes ≠ helpOption && sys.shmOpen && (shm name).isSome &&
        sys.ftruncate && decide (msg.bytes.length < 2 ^ 63)
  | _ => false

theorem System.open_eq (sys : System) (shm : Shm) (name : CStr) :
    sys.open shm name ⟨false, false⟩ =
      if sys.shmOpen = true ∧ (shm name).isSome = true then some shm else none := by
  unfold System.open
  cases sys.shmOpen <;> cases shm name <;> simp

theorem System.truncate_eq {sys : System} {shm : Shm} {name : CStr}
    {old : List UInt8} (hobj : shm name = some old) (size : Nat) :
    sys.truncate shm name size =
      if sys.ftruncate = true ∧ size < 2 ^ 63 then
        some (Function.update shm name (some (resize size old)))
      else none := by
  unfold System.truncate
  rw [hobj]
  by_cases h : sys.ftruncate = true ∧ size < 2 ^ 63
  · have hnot : ¬ (sys.ftruncate = false ∨ 2 ^ 63 ≤ size) := by
      rw [not_or, Nat.not_le]
      exact ⟨by simp [h.1], h.2⟩
    rw [if_pos h, if_neg hnot]
    rfl
  · have hrefused : sys.ftruncate = false ∨ 2 ^ 63 ≤ size := by
      rw [not_and_or, Nat.not_lt, Bool.not_eq_true] at h
      exact h
    rw [if_neg h, if_pos hrefused]

/-- A run that does not come past its `ftruncate` fails and changes
nothing. -/
theorem pshmWrite_of_not_resizes {sys : System} {args : List CStr} {shm : Shm}
    (h : resizes sys args shm = false) :
    pshmWrite sys args shm = failure shm [] := by
  unfold resizes at h
  unfold pshmWrite
  split
  · rename_i name msg
    by_cases hhelp : name.bytes = helpOption
    · rw [if_pos hhelp]
    · rw [if_neg hhelp, System.open_eq]
      by_cases hopen : sys.shmOpen = true ∧ (shm name).isSome = true
      · rw [if_pos hopen]
        obtain ⟨old, hold⟩ := Option.isSome_iff_exists.1 hopen.2
        have htrunc : ¬ (sys.ftruncate = true ∧ msg.bytes.length < 2 ^ 63) := by
          rintro ⟨hgrant, hlength⟩
          simp only [hopen, hgrant, decide_eq_true hlength] at h
          simp [hhelp] at h
        simp only [System.truncate_eq hold, if_neg htrunc]
      · simp only [if_neg hopen]
  · rfl

/-- A run that comes past it and fails has resized the object, and that is
all. -/
theorem pshmWrite_of_resizes {sys : System} {name msg : CStr} {shm : Shm}
    {old : List UInt8} (hold : shm name = some old)
    (h : resizes sys [name, msg] shm = true)
    (hfail : (pshmWrite sys [name, msg] shm).exit = .failure) :
    (pshmWrite sys [name, msg] shm).shm =
      Function.update shm name (some (resize msg.bytes.length old)) := by
  simp only [resizes, Bool.and_eq_true, decide_eq_true_eq] at h
  obtain ⟨⟨⟨⟨hhelp, hopen⟩, hsome⟩, hgrant⟩, hlength⟩ := h
  simp only [pshmWrite, hhelp, if_false, System.open_eq, hopen, hsome,
    and_self, if_true, System.truncate_eq hold, hgrant, hlength] at hfail ⊢
  split
  · rfl
  · rename_i hmaps
    split
    · rfl
    · rename_i hclose
      simp [hmaps, hclose] at hfail

/-- **A failed write.**  A run of `pshm_write` that fails before its
`ftruncate` has succeeded leaves all objects as they were.  With a message
that is not empty, a later failure leaves the object with the length of the
message and its old bytes, cut or extended with zeros. -/
theorem failed_write_at_most_resizes (sys : System) (args : List CStr)
    (shm : Shm) (hfail : (pshmWrite sys args shm).exit = .failure) :
    (resizes sys args shm = false → (pshmWrite sys args shm).shm = shm) ∧
    (∀ name msg old, args = [name, msg] → msg.bytes ≠ [] →
      shm name = some old → resizes sys args shm = true →
      (pshmWrite sys args shm).shm =
        Function.update shm name (some (resize msg.bytes.length old))) := by
  constructor
  · intro h
    rw [pshmWrite_of_not_resizes h]
    rfl
  · rintro name msg old rfl _ hold h
    exact pshmWrite_of_resizes hold h hfail

/-- The object `/a` with the one byte `A`. -/
def letterA : Shm := fun name => if name = slashA then some [65] else none

def hi : CStr := ⟨ascii "hi", by decide⟩

/-- A system that refuses `mmap`, for want of memory say. -/
def noMemory : System := { System.willing with mmap := false }

theorem failed_write_at_most_resizes_no_memory :
    (pshmWrite noMemory [slashA, hi] letterA).exit = .failure ∧
      (pshmWrite noMemory [slashA, hi] letterA).shm slashA = some [65, 0] := by
  have hfail : (pshmWrite noMemory [slashA, hi] letterA).exit = .failure := by
    decide
  have hresized := (failed_write_at_most_resizes noMemory [slashA, hi] letterA
    hfail).2 slashA hi [65] rfl (by decide) (by decide) (by decide)
  refine ⟨hfail, ?_⟩
  rw [hresized, Function.update_self]
  rfl

/-- The failed run has changed the object. -/
theorem failed_write_not_atomic :
    (pshmWrite noMemory [slashA, hi] letterA).exit = .failure ∧
      letterA slashA = some [65] ∧
      (pshmWrite noMemory [slashA, hi] letterA).shm slashA = some [65, 0] ∧
      (pshmWrite noMemory [slashA, hi] letterA).shm ≠ letterA := by
  have hafter : (pshmWrite noMemory [slashA, hi] letterA).shm slashA =
      some [65, 0] := by decide
  refine ⟨by decide, by decide, hafter, ?_⟩
  intro hsame
  rw [hsame] at hafter
  exact absurd hafter (by decide)

end Lpi.Ports.Pshm
