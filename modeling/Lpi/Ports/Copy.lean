import Lpi.Verified.CData
import Lpi.Verified.CString
import Lpi.Verified.FileObject
import Lpi.Verified.Run
import Mathlib.Logic.Function.Basic

/-!
# Copying a file (`fileio/src/copy.c`)

The program opens its first argument for reading and its second one with
`O_CREAT | O_WRONLY | O_TRUNC`, and then transfers what each `read()` returns.
The file system maps paths to inodes, so two paths may name the same file; in
that case the second `open` empties the file before the first `read()`.

`copy_exact_iff` gives the condition under which a run with exit status 0 has
copied anything: the paths name different files, or there was nothing to
copy.
-/

namespace Lpi.Ports.Copy

open Lpi.Verified.CData
open Lpi.Verified.CString
open Lpi.Verified.FileObject
open Lpi.Verified.Run

/-! ## The file system -/

/-- Paths name inodes, which hold bytes; `next` is the number of the next
inode to be created. -/
structure Fs where
  inode : CStr → Option Nat
  content : Nat → List UInt8
  next : Nat
  valid : ∀ path n, inode path = some n → n < next

/-- The bytes of the file a path names. -/
def Fs.read (fs : Fs) (path : CStr) : Option (List UInt8) :=
  (fs.inode path).map fs.content

/-- Give the inode `n` new contents. -/
def Fs.store (fs : Fs) (n : Nat) (bs : List UInt8) : Fs :=
  { fs with content := Function.update fs.content n bs }

/-- Create an empty file. -/
def Fs.create (fs : Fs) (path : CStr) : Fs where
  inode := Function.update fs.inode path (some fs.next)
  content := Function.update fs.content fs.next []
  next := fs.next + 1
  valid := by
    intro p n h
    by_cases hp : p = path
    · subst hp
      rw [Function.update_self, Option.some.injEq] at h
      omega
    · rw [Function.update_of_ne hp] at h
      have := fs.valid p n h
      omega

/-- Both paths name one file. -/
def Fs.SameInode (fs : Fs) (p q : CStr) : Prop :=
  ∃ n, fs.inode p = some n ∧ fs.inode q = some n

/-! ## The program -/

/-- `BUFFER_SIZE`. -/
def bufferSize : Nat := 1024

inductive Pc where
  /-- `strcmp(argv[1], "--help") == 0`. -/
  | checkArgs
  | openInput
  | openOutput
  | read
  /-- `write(outputFd, buffer, numRead)`. -/
  | write (buffer : List UInt8)
  | closeInput
  | closeOutput
  | exited (status : Exit)
  deriving DecidableEq, Repr

/-- The process and the file system.  An open file is an inode and an
offset. -/
structure State where
  fs : Fs
  pc : Pc
  input : Nat
  inputOff : Nat
  output : Nat
  outputOff : Nat

/-- The answer to a system call; `count n` is a transfer of `n` bytes. -/
inductive Answer where
  | ok
  | count (n : Nat)
  | err
  deriving DecidableEq, Repr

def State.exit (s : State) (status : Exit) : State :=
  { s with pc := .exited status }

/-- `open` of the input file. -/
def State.openInput (s : State) (inputFilepath : CStr) : Option State :=
  (s.fs.inode inputFilepath).map fun n =>
    { s with input := n, inputOff := 0, pc := .openOutput }

/-- `open` of the output file. -/
def State.openOutput (s : State) (outputFilepath : CStr) : State :=
  match s.fs.inode outputFilepath with
  | some n =>
      { s with fs := s.fs.store n [], output := n, outputOff := 0, pc := .read }
  | none =>
      { s with fs := s.fs.create outputFilepath, output := s.fs.next
               outputOff := 0, pc := .read }

/-- What a `read()` of the input file has before it. -/
def State.rest (s : State) : List UInt8 :=
  (s.fs.content s.input).drop s.inputOff

/-- A `write()` of `bs` to the output file. -/
def State.written (s : State) (bs : List UInt8) : State :=
  { s with fs := s.fs.store s.output
             (writeAt s.outputOff bs (s.fs.content s.output))
           outputOff := s.outputOff + bs.length }

/-- `--help`. -/
def helpOption : List UInt8 := ascii "--help"

/-- The next step, with `argv[1]` and `argv[2]`; with another number of
arguments the program only prints its usage. -/
def step (inputFilepath outputFilepath : CStr) (s : State) :
    Answer → Option State
  | .ok =>
    match s.pc with
    | .checkArgs =>
        if inputFilepath.bytes = helpOption then some (s.exit .failure)
        else some { s with pc := .openInput }
    | .openInput => s.openInput inputFilepath
    | .openOutput => some (s.openOutput outputFilepath)
    | .read => if s.rest = [] then some { s with pc := .closeInput } else none
    | .write buffer => some { s.written buffer with pc := .read }
    | .closeInput => some { s with pc := .closeOutput }
    | .closeOutput => some (s.exit .success)
    | .exited _ => none
  | .count n =>
    match s.pc with
    | .read =>
        if 0 < n ∧ n ≤ bufferSize ∧ n ≤ s.rest.length then some
          { s with inputOff := s.inputOff + n, pc := .write (s.rest.take n) }
        else none
    | .write buffer =>
        if n < buffer.length then some ((s.written (buffer.take n)).exit .failure)
        else none
    | _ => none
  | .err =>
    match s.pc with
    | .checkArgs | .exited _ => none
    | .openInput | .openOutput | .read | .write _ | .closeInput | .closeOutput =>
        some (s.exit .failure)

/-- The program starts in the file system `fs`. -/
def start (fs : Fs) : State := ⟨fs, .checkArgs, 0, 0, 0, 0⟩

/-! ## The invariant of the transfer -/

variable {fs : Fs} {inputFilepath outputFilepath : CStr} {s t : State}

/-- Both files are open, and `pending` has been read and not written yet.  A
file that is copied to itself is empty and stays so; otherwise the output file
holds what has been read, but for `pending`. -/
structure Copying (fs : Fs) (inputFilepath outputFilepath : CStr) (s : State)
    (pending : List UInt8) : Prop where
  before : fs.inode inputFilepath = some s.input
  input : s.fs.inode inputFilepath = some s.input
  output : s.fs.inode outputFilepath = some s.output
  aliased : s.input = s.output ↔ fs.SameInode inputFilepath outputFilepath
  same : s.input = s.output →
    s.fs.content s.input = [] ∧ s.inputOff = 0 ∧ pending = []
  kept : s.input ≠ s.output → s.fs.content s.input = fs.content s.input
  moved : s.input ≠ s.output →
    s.fs.content s.output ++ pending = (fs.content s.input).take s.inputOff ∧
    s.outputOff = (s.fs.content s.output).length

/-- What holds at each place of the program. -/
def Inv (fs : Fs) (inputFilepath outputFilepath : CStr) (s : State) : Prop :=
  match s.pc with
  | .checkArgs | .openInput => s.fs = fs
  | .openOutput => s.fs = fs ∧ fs.inode inputFilepath = some s.input ∧
      s.inputOff = 0
  | .read => Copying fs inputFilepath outputFilepath s []
  | .write buffer =>
      Copying fs inputFilepath outputFilepath s buffer ∧ s.input ≠ s.output
  | .closeInput | .closeOutput | .exited .success =>
      Copying fs inputFilepath outputFilepath s [] ∧
        (s.input ≠ s.output → (fs.content s.input).length ≤ s.inputOff)
  | .exited .failure => True

/-- The `open` of the output file, which may be the input file. -/
theorem copying_openOutput
    (hinput : s.fs.inode inputFilepath = some s.input) (hoff : s.inputOff = 0) :
    Copying s.fs inputFilepath outputFilepath (s.openOutput outputFilepath) [] := by
  unfold State.openOutput
  cases hout : s.fs.inode outputFilepath with
  | some n =>
      refine
        { before := hinput, input := hinput, output := hout, aliased := ?_
          same := ?_, kept := ?_, moved := ?_ }
      · constructor
        · intro heq
          have hn : s.input = n := heq
          exact ⟨n, hn ▸ hinput, hout⟩
        · rintro ⟨k, hk, hk'⟩
          rw [hinput, Option.some.injEq] at hk
          rw [hout, Option.some.injEq] at hk'
          exact hk.trans hk'.symm
      · intro heq
        have hn : s.input = n := heq
        exact ⟨by simp [Fs.store, hn], hoff, rfl⟩
      · intro hne
        exact Function.update_of_ne hne _ _
      · intro _
        simp [Fs.store, hoff]
  | none =>
      -- The new inode is none of those that are in use.
      have hlt := s.fs.valid _ _ hinput
      have hne : s.input ≠ s.fs.next := by omega
      have hpath : inputFilepath ≠ outputFilepath := by
        intro heq
        rw [heq, hout] at hinput
        simp at hinput
      refine
        { before := hinput, input := ?_, output := ?_, aliased := ?_
          same := fun heq => absurd heq hne, kept := ?_, moved := ?_ }
      · simpa [Fs.create, hpath] using hinput
      · simp [Fs.create]
      · constructor
        · intro heq
          exact absurd heq hne
        · rintro ⟨k, _, hk⟩
          simp [hout] at hk
      · intro _
        exact Function.update_of_ne hne _ _
      · intro _
        simp [Fs.create, hoff]

/-- A `read()` that returns bytes does so from another file. -/
theorem Copying.read_count {n : Nat}
    (h : Copying fs inputFilepath outputFilepath s []) (hpos : 0 < n)
    (hle : n ≤ s.rest.length) :
    Copying fs inputFilepath outputFilepath
        { s with inputOff := s.inputOff + n, pc := .write (s.rest.take n) }
        (s.rest.take n) ∧ s.input ≠ s.output := by
  have hne : s.input ≠ s.output := by
    intro heq
    obtain ⟨hempty, _, _⟩ := h.same heq
    simp only [State.rest, hempty, List.drop_nil, List.length_nil] at hle
    omega
  refine ⟨?_, hne⟩
  obtain ⟨hmoved, hoff⟩ := h.moved hne
  refine
    { before := h.before, input := h.input, output := h.output
      aliased := h.aliased, same := fun heq => absurd heq hne, kept := h.kept
      moved := fun _ => ⟨?_, hoff⟩ }
  show s.fs.content s.output ++ s.rest.take n =
    (fs.content s.input).take (s.inputOff + n)
  rw [List.append_nil] at hmoved
  rw [hmoved, State.rest, h.kept hne, List.take_add]

/-- A `write()` that takes everything brings the output file up to date. -/
theorem Copying.write_all {buffer : List UInt8}
    (h : Copying fs inputFilepath outputFilepath s buffer)
    (hne : s.input ≠ s.output) :
    Copying fs inputFilepath outputFilepath
      { s.written buffer with pc := .read } [] := by
  obtain ⟨hmoved, hoff⟩ := h.moved hne
  have hnew : (s.written buffer).fs.content s.output =
      s.fs.content s.output ++ buffer := by
    simp only [State.written, Fs.store, Function.update_self]
    rw [hoff, writeAt_end]
  refine
    { before := h.before, input := h.input, output := h.output
      aliased := h.aliased, same := fun heq => absurd heq hne, kept := ?_
      moved := ?_ }
  · intro _
    show Function.update s.fs.content s.output _ s.input = _
    rw [Function.update_of_ne hne]
    exact h.kept hne
  · intro _
    show (s.written buffer).fs.content s.output ++ [] =
        (fs.content s.input).take s.inputOff ∧
      s.outputOff + buffer.length =
        ((s.written buffer).fs.content s.output).length
    rw [hnew, List.append_nil, List.length_append, hoff]
    exact ⟨hmoved, rfl⟩

theorem Copying.at_pc {pending : List UInt8} (pc : Pc)
    (h : Copying fs inputFilepath outputFilepath s pending) :
    Copying fs inputFilepath outputFilepath { s with pc := pc } pending :=
  ⟨h.before, h.input, h.output, h.aliased, h.same, h.kept, h.moved⟩

theorem exit_failure_inv :
    Inv fs inputFilepath outputFilepath (s.exit .failure) := by
  simp [Inv, State.exit]

theorem Inv.ok_step (h : Inv fs inputFilepath outputFilepath s)
    (hstep : step inputFilepath outputFilepath s .ok = some t) :
    Inv fs inputFilepath outputFilepath t := by
  cases hpc : s.pc with
  | checkArgs =>
      simp only [Inv, hpc] at h
      simp only [step, hpc] at hstep
      split at hstep
      · simp only [Option.some.injEq] at hstep
        subst hstep
        exact exit_failure_inv
      · simp only [Option.some.injEq] at hstep
        subst hstep
        exact h
  | openInput =>
      simp only [Inv, hpc] at h
      simp only [step, hpc, State.openInput, Option.map_eq_some_iff] at hstep
      obtain ⟨n, hn, rfl⟩ := hstep
      exact ⟨h, h ▸ hn, rfl⟩
  | openOutput =>
      simp only [Inv, hpc] at h
      obtain ⟨rfl, hinput, hoff⟩ := h
      simp only [step, hpc, Option.some.injEq] at hstep
      subst hstep
      have hread : (s.openOutput outputFilepath).pc = .read := by
        unfold State.openOutput
        split <;> rfl
      simp only [Inv, hread]
      exact copying_openOutput hinput hoff
  | read =>
      simp only [Inv, hpc] at h
      simp only [step, hpc, Option.ite_none_right_eq_some,
        Option.some.injEq] at hstep
      obtain ⟨hend, rfl⟩ := hstep
      refine ⟨h.at_pc .closeInput, ?_⟩
      intro hne
      rw [State.rest, List.drop_eq_nil_iff, h.kept hne] at hend
      exact hend
  | write buffer =>
      simp only [Inv, hpc] at h
      simp only [step, hpc, Option.some.injEq] at hstep
      subst hstep
      exact h.1.write_all h.2
  | closeInput =>
      simp only [Inv, hpc] at h
      simp only [step, hpc, Option.some.injEq] at hstep
      subst hstep
      exact ⟨h.1.at_pc .closeOutput, h.2⟩
  | closeOutput =>
      simp only [Inv, hpc] at h
      simp only [step, hpc, Option.some.injEq] at hstep
      subst hstep
      exact ⟨h.1.at_pc (.exited .success), h.2⟩
  | exited status => simp [step, hpc] at hstep

theorem Inv.next {a : Answer} (h : Inv fs inputFilepath outputFilepath s)
    (hstep : step inputFilepath outputFilepath s a = some t) :
    Inv fs inputFilepath outputFilepath t := by
  cases a with
  | ok => exact h.ok_step hstep
  | count n =>
      cases hpc : s.pc with
      | read =>
          simp only [Inv, hpc] at h
          simp only [step, hpc, Option.ite_none_right_eq_some,
            Option.some.injEq] at hstep
          obtain ⟨⟨hpos, _, hle⟩, rfl⟩ := hstep
          exact h.read_count hpos hle
      | write buffer =>
          simp only [step, hpc, Option.ite_none_right_eq_some,
            Option.some.injEq] at hstep
          obtain ⟨_, rfl⟩ := hstep
          exact exit_failure_inv
      | checkArgs | openInput | openOutput | closeInput | closeOutput
      | exited status => simp [step, hpc] at hstep
  | err =>
      cases hpc : s.pc with
      | checkArgs | exited status => simp [step, hpc] at hstep
      | openInput | openOutput | read | write buffer | closeInput | closeOutput =>
          simp only [step, hpc, Option.some.injEq] at hstep
          subst hstep
          exact exit_failure_inv

theorem start_inv (fs : Fs) (inputFilepath outputFilepath : CStr) :
    Inv fs inputFilepath outputFilepath (start fs) :=
  rfl

theorem inv_of_reachable
    (h : Reachable (step inputFilepath outputFilepath) (start fs) s) :
    Inv fs inputFilepath outputFilepath s :=
  h.invariant (fun _ _ _ hI hstep => Inv.next hI hstep)
    (start_inv fs inputFilepath outputFilepath)

/-! ## Main result -/

/-- The output file holds what the input file held before, and another input
file still does. -/
def Copied (fs fs' : Fs) (inputFilepath outputFilepath : CStr) : Prop :=
  fs'.read outputFilepath = fs.read inputFilepath ∧
    (¬ fs.SameInode inputFilepath outputFilepath →
      fs'.read inputFilepath = fs.read inputFilepath)

/-- **When the copy is one.**  For every file system, every two arguments,
every way `read()` cuts up the input and every run that ends with status 0:
the output file holds what the input file held, and an input file other than
the output file is unchanged, exactly if the two paths do not name one file or
that file was empty. -/
theorem copy_exact_iff (fs : Fs) (inputFilepath outputFilepath : CStr)
    (ls : List Answer) (s : State)
    (hrun : exec (step inputFilepath outputFilepath) (start fs) ls = some s)
    (hexit : s.pc = .exited .success) :
    Copied fs s.fs inputFilepath outputFilepath ↔
      (fs.SameInode inputFilepath outputFilepath →
        fs.read inputFilepath = some []) := by
  have hinv := inv_of_reachable ⟨ls, hrun⟩
  simp only [Inv, hexit] at hinv
  obtain ⟨hcopying, hend⟩ := hinv
  have hbefore : fs.read inputFilepath = some (fs.content s.input) := by
    simp [Fs.read, hcopying.before]
  have hafter : s.fs.read outputFilepath = some (s.fs.content s.output) := by
    simp [Fs.read, hcopying.output]
  have hinput : s.fs.read inputFilepath = some (s.fs.content s.input) := by
    simp [Fs.read, hcopying.input]
  unfold Copied
  rw [← hcopying.aliased, hbefore, hafter, hinput]
  by_cases heq : s.input = s.output
  · have hempty := (hcopying.same heq).1
    rw [heq] at hempty
    rw [hempty]
    constructor
    · rintro ⟨hcopied, _⟩ _
      exact hcopied.symm
    · intro hnothing
      exact ⟨(hnothing heq).symm, fun hne => absurd heq hne⟩
  · have hkept := hcopying.kept heq
    obtain ⟨hmoved, _⟩ := hcopying.moved heq
    rw [List.append_nil, List.take_of_length_le (hend heq)] at hmoved
    simp [heq, hkept, hmoved]

/-- A file system in which the paths `file` and `link` name the same file, of
one byte, and `copy` names nothing. -/
def linked : Fs where
  inode := fun path =>
    if path.bytes = ascii "file" ∨ path.bytes = ascii "link" then some 0 else none
  content := fun _ => [65]
  next := 1
  valid := by
    intro path n h
    split at h <;> simp_all

def pathFile : CStr := ⟨ascii "file", by decide⟩
def pathLink : CStr := ⟨ascii "link", by decide⟩
def pathCopy : CStr := ⟨ascii "copy", by decide⟩

/-- To a new file the byte is copied. -/
theorem copy_exact_new_file :
    ∃ s, Reachable (step pathFile pathCopy) (start linked) s ∧
      s.pc = .exited .success ∧ Copied linked s.fs pathFile pathCopy := by
  let ls : List Answer := [.ok, .ok, .ok, .count 1, .ok, .ok, .ok, .ok]
  obtain ⟨s, hs, hexit⟩ := exists_exec (step pathFile pathCopy)
    (fun s => s.pc = .exited .success) (start linked) ls (by decide)
  refine ⟨s, ⟨ls, hs⟩, hexit, ?_⟩
  rw [copy_exact_iff linked pathFile pathCopy ls s hs hexit]
  rintro ⟨n, _, hn⟩
  exact absurd hn (by simp [linked, pathCopy, ascii])

/-- Between two names of one file the byte is lost, with status 0. -/
theorem copy_to_itself_loses_contents :
    ∃ s, Reachable (step pathFile pathLink) (start linked) s ∧
      s.pc = .exited .success ∧ linked.read pathFile = some [65] ∧
      s.fs.read pathLink = some [] ∧ ¬ Copied linked s.fs pathFile pathLink := by
  obtain ⟨s, hs, hexit, hread⟩ := exists_exec (step pathFile pathLink)
    (fun s => s.pc = .exited .success ∧ s.fs.read pathLink = some [])
    (start linked) [.ok, .ok, .ok, .ok, .ok, .ok] (by decide)
  refine ⟨s, ⟨_, hs⟩, hexit, by decide, hread, ?_⟩
  rintro ⟨hcopied, _⟩
  rw [hread] at hcopied
  exact absurd hcopied (by decide)

end Lpi.Ports.Copy
