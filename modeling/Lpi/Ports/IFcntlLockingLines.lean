import Lpi.Ports.IFcntlLockingLanguage

/-!
# The lines of `i_fcntl_locking.c`

The buffer has room for 99 bytes of a line, and the last character is removed
whether it is a newline or not.  `lines_executed_iff` says for which input the
commands that are executed are the lines that were typed.

If a read begins with a NUL, there is no last character, and the store is
outside of the buffer.  `run_spec` and `run_undefined` say that this is the only
way to get there.
-/

namespace Lpi.Ports.IFcntlLocking

open Lpi.Verified.CData
open Lpi.Verified.CInt
open Lpi.Verified.CString
open Lpi.Verified.Lines

/-! ## One read -/

/-- What is left of a read as a command. -/
def commandOf (chunk : List UInt8) : List UInt8 := (cString (chunk ++ [0])).dropLast

/-! ## One round -/

section Round

variable {k : Kernel} {s : State}

theorem fgets_of_ne_nil {stream : List UInt8} (h : stream ≠ []) :
    fgets maxLine stream =
      some (chunk 10 99 stream, stream.drop (chunk 10 99 stream).length) :=
  if_neg h

theorem round_of_nil (h : s.stdin = []) :
    ∃ t, s.round k = .stop (.exit .success) t ∧ t.commands = s.commands ∧
      t.requests = s.requests := by
  rw [State.round, fgets, if_pos h]
  exact ⟨_, rfl, rfl, rfl⟩

/-- The index is in the buffer unless there is no last character. -/
theorem lastIndex_lt_maxLine {line : List UInt8} (h : cString line ≠ [])
    (hlength : (cString line).length ≤ 99) : lastIndex line < maxLine := by
  rw [lastIndex_of_ne_nil h (by omega), maxLine]
  omega

/-- A read that begins with a NUL. -/
theorem round_undefined (hne : s.stdin ≠ [])
    (hhead : (chunk 10 99 s.stdin).head? = some 0) :
    ∃ t, s.round k = .stop .undefined t := by
  have hchunk : chunk 10 99 s.stdin ≠ [] := chunk_ne_nil (by decide) hne
  have hempty : cString (overlay (chunk 10 99 s.stdin ++ [0]) s.line) = [] := by
    rw [cString_stored, cString_stored_eq_nil hchunk]
    exact hhead
  have hindex : ¬ lastIndex (overlay (chunk 10 99 s.stdin ++ [0]) s.line) < maxLine := by
    rw [lastIndex_of_nil hempty]
    decide
  rw [State.round, fgets_of_ne_nil hne]
  exact ⟨_, if_neg hindex⟩

/-- Any other read leads to the execution of its command. -/
theorem round_eq_execute (hne : s.stdin ≠ [])
    (hhead : (chunk 10 99 s.stdin).head? ≠ some 0) :
    ∃ t : State, s.round k = t.execute k ∧
      t.stdin = s.stdin.drop (chunk 10 99 s.stdin).length ∧
      cString t.line = commandOf (chunk 10 99 s.stdin) ∧
      t.commands = s.commands ∧ t.requests = s.requests := by
  have hchunk : chunk 10 99 s.stdin ≠ [] := chunk_ne_nil (by decide) hne
  have hstring : cString (overlay (chunk 10 99 s.stdin ++ [0]) s.line) ≠ [] := by
    rwa [cString_stored, Ne, cString_stored_eq_nil hchunk]
  have hlength : (cString (overlay (chunk 10 99 s.stdin ++ [0]) s.line)).length ≤ 99 := by
    rw [cString_stored]
    exact Nat.le_trans (length_cString_stored_le _) (length_chunk_le 10 99 s.stdin)
  have hindex := lastIndex_lt_maxLine hstring hlength
  have hline := cString_set_last _ hstring
  rw [← toNat_lastIndex hstring (by omega), cString_stored] at hline
  rw [State.round, fgets_of_ne_nil hne]
  exact ⟨_, if_pos hindex, rfl, hline, rfl, rfl⟩

end Round

/-! ## Runs -/

/-- The requests that lines make, one for each line that is accepted. -/
inductive Makes : List (List UInt8) → List Request → Prop
  | nil : Makes [] []
  | accepted {line : List UInt8} {r : Request} {lines : List (List UInt8)} {rs : List Request}
      (h : Accepts line r) (rest : Makes lines rs) : Makes (line :: lines) (r :: rs)
  | other {line : List UInt8} {lines : List (List UInt8)} {rs : List Request}
      (h : ∀ r, ¬ Accepts line r) (rest : Makes lines rs) : Makes (line :: lines) rs

theorem Makes.append {lines lines' : List (List UInt8)} {rs rs' : List Request}
    (h : Makes lines rs) (h' : Makes lines' rs') : Makes (lines ++ lines') (rs ++ rs') := by
  induction h with
  | nil => exact h'
  | accepted haccepts _ ih => exact .accepted haccepts ih
  | other hnot _ ih => exact .other hnot ih

theorem Accepts.ne_nil {line : List UInt8} {r : Request} (h : Accepts line r) : line ≠ [] := by
  obtain ⟨c, gap, l, numbers, n, more, m, tail, rfl, _⟩ := h
  exact List.cons_ne_nil c _

section Run

variable {k : Kernel} {s : State}

/-- The answers of the system do not end the program. -/
def Kernel.Benign (k : Kernel) : Prop :=
  ∀ i r, ∃ out, respond k.pid r (k.fcntl i r) = .ok out

/-- A line that is executed makes its request; a blank one makes none. -/
theorem makes_execute : ∃ rs, (s.execute k).state.requests = s.requests ++ rs ∧
    Makes (unlessBlank (cString s.line)) rs := by
  by_cases h : ∃ r, Requests (cString s.line) r
  · obtain ⟨r, hr⟩ := h
    have haccepts := accepts_iff.2 hr
    refine ⟨[r], requests_execute hr, ?_⟩
    rw [unlessBlank, if_neg haccepts.ne_nil]
    exact .accepted haccepts .nil
  · obtain ⟨t, hexecute, hrequests, _⟩ := execute_of_not_requests (k := k) (not_exists.1 h)
    refine ⟨[], by rw [hexecute, Round.state, hrequests, List.append_nil], ?_⟩
    by_cases hblank : cString s.line = []
    · rw [unlessBlank, if_pos hblank]
      exact .nil
    · rw [unlessBlank, if_neg hblank]
      exact .other (fun r haccepts => h ⟨r, accepts_iff.1 haccepts⟩) .nil

/-- What is done with a line: the next round begins, unless the system ends
the program. -/
theorem execute_cases :
    ∃ t : State, (s.execute k = .next t ∨
        (s.execute k = .stop (.exit .failure) t ∧ ¬ k.Benign)) ∧
      t.stdin = s.stdin ∧
      t.commands = s.commands ++ unlessBlank (cString s.line) ∧
      ∃ rs, t.requests = s.requests ++ rs ∧ Makes (unlessBlank (cString s.line)) rs := by
  obtain ⟨hstdin, hcommands, _⟩ := @execute_spec k s
  refine ⟨(s.execute k).state, ?_, hstdin, hcommands, makes_execute⟩
  rw [State.execute]
  obtain ⟨parsed, frame⟩ := parse (cString s.line) s.frame
  cases parsed with
  | request =>
      simp only
      cases hrespond : respond k.pid frame.request
          (k.fcntl s.requests.length frame.request) with
      | ok out => exact Or.inl rfl
      | error message =>
          refine Or.inr ⟨rfl, ?_⟩
          intro hbenign
          obtain ⟨out, hout⟩ := hbenign s.requests.length frame.request
          rw [hrespond] at hout
          cases hout
  | _ => exact Or.inl rfl

/-- The commands of the reads. -/
def commandsOf (cs : List (List UInt8)) : List (List UInt8) :=
  (cs.map commandOf).filter (· ≠ [])

theorem commandsOf_cons (c : List UInt8) (cs : List (List UInt8)) :
    commandsOf (c :: cs) = unlessBlank (commandOf c) ++ commandsOf cs := by
  by_cases h : commandOf c = []
  · simp [commandsOf, unlessBlank, h]
  · simp [commandsOf, unlessBlank, h]

/-- Every read makes the stream shorter. -/
theorem length_drop_chunk_lt {stream : List UInt8} {rounds : Nat} (hne : stream ≠ [])
    (h : stream.length < rounds + 1) :
    (stream.drop (chunk 10 99 stream).length).length < rounds := by
  have hchunk : chunk 10 99 stream ≠ [] := chunk_ne_nil (by decide) hne
  have hpos := List.length_pos_iff.2 hne
  have hpos' := List.length_pos_iff.2 hchunk
  rw [List.length_drop]
  omega

/-- A run in which no read begins with a NUL executes the commands of the reads,
up to where the system ends it. -/
theorem run_spec {rounds : Nat} (hrounds : s.stdin.length < rounds)
    (hheads : ∀ c ∈ chunks 10 99 rounds s.stdin, c.head? ≠ some 0) :
    ∃ e t done rs, run k rounds s = some (e, t) ∧ t.commands = s.commands ++ done ∧
      t.requests = s.requests ++ rs ∧ Makes done rs ∧
      ((e = .exit .success ∧ done = commandsOf (chunks 10 99 rounds s.stdin)) ∨
        (e = .exit .failure ∧ ¬ k.Benign ∧
          done <+: commandsOf (chunks 10 99 rounds s.stdin))) := by
  induction rounds generalizing s with
  | zero => exact absurd hrounds (Nat.not_lt_zero _)
  | succ rounds ih =>
      by_cases hne : s.stdin = []
      · obtain ⟨t, hround, hcommands, hrequests⟩ := round_of_nil (k := k) hne
        refine ⟨.exit .success, t, [], [], ?_, by simp [hcommands], by simp [hrequests], .nil,
          Or.inl ⟨rfl, by simp [hne, commandsOf]⟩⟩
        rw [run, hround]
      · rw [chunks_succ 10 99 rounds hne] at hheads ⊢
        rw [List.forall_mem_cons] at hheads
        obtain ⟨t, hround, hstdin, hline, hcommands, hrequests⟩ :=
          round_eq_execute (k := k) hne hheads.1
        obtain ⟨t', hexecute, hstdin', hcommands', rs, hrequests', hmakes⟩ := @execute_cases k t
        rw [hstdin] at hstdin'
        rw [hline, hcommands] at hcommands'
        rw [hrequests] at hrequests'
        rw [hline] at hmakes
        rw [commandsOf_cons]
        rcases hexecute with hnext | ⟨hstop, hbad⟩
        · have hshorter : t'.stdin.length < rounds := by
            rw [hstdin']
            exact length_drop_chunk_lt hne hrounds
          rw [← hstdin'] at hheads ⊢
          obtain ⟨e, t'', done, rs', hrun, hdone, hdone', hmakes', hend⟩ := ih hshorter hheads.2
          refine ⟨e, t'', unlessBlank (commandOf (chunk 10 99 s.stdin)) ++ done, rs ++ rs',
            ?_, ?_, ?_, hmakes.append hmakes', ?_⟩
          · rw [run, hround, hnext]
            exact hrun
          · rw [hdone, hcommands', List.append_assoc]
          · rw [hdone', hrequests', List.append_assoc]
          · rcases hend with ⟨he, rfl⟩ | ⟨he, hbad, hinitial⟩
            · exact Or.inl ⟨he, rfl⟩
            · exact Or.inr ⟨he, hbad, (List.prefix_append_right_inj _).2 hinitial⟩
        · refine ⟨_, t', _, rs, ?_, hcommands', hrequests', hmakes,
            Or.inr ⟨rfl, hbad, List.prefix_append _ _⟩⟩
          rw [run, hround, hstop]

/-- A run with a read that begins with a NUL gets there, if the system does not
end it before. -/
theorem run_undefined {rounds : Nat} (hbenign : k.Benign)
    (hrounds : s.stdin.length < rounds)
    (hhead : ∃ c ∈ chunks 10 99 rounds s.stdin, c.head? = some 0) :
    ∃ t, run k rounds s = some (.undefined, t) := by
  induction rounds generalizing s with
  | zero => exact absurd hrounds (Nat.not_lt_zero _)
  | succ rounds ih =>
      by_cases hne : s.stdin = []
      · simp [hne] at hhead
      · rw [chunks_succ 10 99 rounds hne, List.exists_mem_cons_iff] at hhead
        by_cases hfirst : (chunk 10 99 s.stdin).head? = some 0
        · obtain ⟨t, hround⟩ := round_undefined (k := k) hne hfirst
          exact ⟨t, by rw [run, hround]⟩
        · obtain ⟨t, hround, hstdin, _⟩ := round_eq_execute (k := k) hne hfirst
          obtain ⟨t', hexecute, hstdin', _⟩ := @execute_cases k t
          rw [hstdin] at hstdin'
          have hshorter : t'.stdin.length < rounds := by
            rw [hstdin']
            exact length_drop_chunk_lt hne hrounds
          rw [← hstdin'] at hhead
          obtain ⟨t'', hrun⟩ := ih hshorter (hhead.resolve_left hfirst)
          rcases hexecute with hnext | ⟨_, hbad⟩
          · exact ⟨t'', by rw [run, hround, hnext]; exact hrun⟩
          · exact absurd hbenign hbad

end Run

/-! ## The lines that were typed -/

theorem granting_benign : granting.Benign := by
  intro i r
  by_cases hcmd : r.cmd = F_GETLK
  · exact ⟨_, by simp [respond, hcmd, granting]; rfl⟩
  · exact ⟨_, by simp [respond, hcmd, granting]; rfl⟩

theorem commandOf_eq_dropLast {c : List UInt8} (h : 0 ∉ c) : commandOf c = c.dropLast := by
  rw [commandOf, cString_append_zero h]

/-- Without a NUL, a command is a read without its last character. -/
theorem commandsOf_chunks {stdin : List UInt8} (hnul : 0 ∉ stdin) {rounds : Nat}
    (hrounds : stdin.length < rounds) :
    commandsOf (chunks 10 99 rounds stdin) = strippedLines (chunks 10 99 rounds stdin) := by
  rw [commandsOf, strippedLines]
  congr 1
  apply List.map_congr_left
  intro c hc
  apply commandOf_eq_dropLast
  exact fun h => hnul (mem_of_mem_chunks (by decide) (Nat.le_of_lt hrounds) hc 0 h)

theorem head_chunks_of_notMem {stdin : List UInt8} (hnul : 0 ∉ stdin) {rounds : Nat}
    (hrounds : stdin.length < rounds) :
    ∀ c ∈ chunks 10 99 rounds stdin, c.head? ≠ some 0 := by
  intro c hc hhead
  exact hnul (mem_of_mem_chunks (by decide) (Nat.le_of_lt hrounds) hc 0
    (List.mem_of_head? hhead))

theorem main_eq_run {k : Kernel} {program pathname : CStr} {line stdin : List UInt8}
    {frame : Frame} {rounds : Nat} (hpath : pathname.bytes ≠ ascii "-h") :
    main k rounds none program [pathname] line frame stdin =
      run k rounds ⟨line, frame, stdin, ascii "Enter ? for help\n", [], [], []⟩ := by
  simp only [main, if_neg hpath]
  rfl

/-- A run that has ended in this way has executed these lines, or the first of
them if it ended early, and has made their requests; in them a number that does
not fit is the nearest one that does. -/
def Executes (lines : List (List UInt8)) (e : Ending) (t : State) : Prop :=
  t.commands <+: lines ∧ (e = .exit .success → t.commands = lines) ∧
    Makes t.commands t.requests

/-- **When the lines are executed as they were typed.**  For every input without
a NUL, whatever the buffer and the variables contain and whatever the system
answers, the program executes the lines that were typed, if and only if no line
has more than 98 bytes and the input does not end within a line. -/
theorem lines_executed_iff (program pathname : CStr) (line : List UInt8) (frame : Frame)
    (stdin : List UInt8) (rounds : Nat) (hpath : pathname.bytes ≠ ascii "-h")
    (hnul : 0 ∉ stdin) (hrounds : stdin.length < rounds) :
    (∀ k, ∃ e t, main k rounds none program [pathname] line frame stdin = some (e, t) ∧
        Executes (typedLines 10 stdin) e t) ↔
      (∀ l ∈ stdin.splitOn 10, l.length ≤ 98) ∧ (stdin = [] ∨ stdin.getLast? = some 10) := by
  have hmain : ∀ k, ∃ e t, main k rounds none program [pathname] line frame stdin =
      some (e, t) ∧ Makes t.commands t.requests ∧
      ((e = .exit .success ∧ t.commands = strippedLines (chunks 10 99 rounds stdin)) ∨
        (e = .exit .failure ∧ ¬ k.Benign ∧
          t.commands <+: strippedLines (chunks 10 99 rounds stdin))) := by
    intro k
    obtain ⟨e, t, done, rs, hrun, hcommands, hrequests, hmakes, hend⟩ := @run_spec k
      ⟨line, frame, stdin, ascii "Enter ? for help\n", [], [], []⟩ rounds hrounds
      (head_chunks_of_notMem hnul hrounds)
    rw [List.nil_append] at hcommands hrequests
    rw [commandsOf_chunks hnul hrounds, ← hcommands] at hend
    exact ⟨e, t, (main_eq_run hpath).trans hrun, by rwa [hrequests, hcommands], hend⟩
  have hlength : (∀ l ∈ stdin.splitOn 10, l.length ≤ 98) ↔
      ∀ l ∈ stdin.splitOn 10, l.length < 99 := by
    simp only [Nat.lt_succ_iff]
  rw [hlength, ← strippedLines_eq_iff (by decide) (Nat.le_of_lt hrounds)]
  constructor
  · intro hall
    obtain ⟨e, t, hrun, _, hexecutes, _⟩ := hall granting
    obtain ⟨e', t', hrun', _, hend⟩ := hmain granting
    rw [hrun, Option.some.injEq, Prod.mk.injEq] at hrun'
    obtain ⟨rfl, rfl⟩ := hrun'
    rcases hend with ⟨he, hcommands⟩ | ⟨_, hbad, _⟩
    · rw [← hcommands, hexecutes he]
    · exact absurd granting_benign hbad
  · intro heq k
    obtain ⟨e, t, hrun, hrequests, hend⟩ := hmain k
    rw [heq] at hend
    refine ⟨e, t, hrun, ?_⟩
    rcases hend with ⟨_, hcommands⟩ | ⟨rfl, _, hinitial⟩
    · exact ⟨by rw [hcommands], fun _ => hcommands, hrequests⟩
    · exact ⟨hinitial, by simp, hrequests⟩

def iFcntlLockingName : CStr := ⟨ascii "i_fcntl_locking", by decide⟩
def lockFile : CStr := ⟨ascii "lockfile", by decide⟩

/-- Two lines with their newlines, and an empty one between them. -/
theorem lines_executed_two :
    ∃ e t, main granting 20 none iFcntlLockingName [lockFile] [] zeroFrame
        (ascii "g r 0 10\n\ns w 5 1\n") = some (e, t) ∧
      Executes [ascii "g r 0 10", ascii "s w 5 1"] e t := by
  have hlines : typedLines 10 (ascii "g r 0 10\n\ns w 5 1\n") =
      [ascii "g r 0 10", ascii "s w 5 1"] := by decide
  rw [← hlines]
  exact (lines_executed_iff iFcntlLockingName lockFile [] zeroFrame
    (ascii "g r 0 10\n\ns w 5 1\n") 20 (by decide) (by decide) (by decide)).2 (by decide)
    granting

/-- A line without a newline loses its last digit. -/
theorem unterminated_line_cut :
    (main granting 20 none iFcntlLockingName [lockFile] [] zeroFrame (ascii "g r 0 10")).map
        (fun r => (r.2.commands, r.2.requests)) =
      some ([ascii "g r 0 1"], [⟨F_GETLK, F_RDLCK, SEEK_SET, 0, 1⟩]) ∧
    typedLines 10 (ascii "g r 0 10") = [ascii "g r 0 10"] := by
  decide

end Lpi.Ports.IFcntlLocking
