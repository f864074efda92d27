import Lpi.Verified.CData
import Lpi.Verified.CString
import Lpi.Verified.Getopt
import Lpi.Verified.Hex
import Lpi.Verified.RecordWalk

/-!
# Displaying extended attributes (`xattr/src/xattr_view.c`)

For each file the program gets the list of the names of its attributes, which
is the names one after the other, each with its NUL, and walks over it.  The
buffer for the list is the same for all files, so behind a list there may be
the end of an earlier, longer one.

`names_visited` says that the walk visits the names of each file, and nothing
else, and reads no byte behind the list: it asks for the value of each name in turn, and
prints it or a message.
-/

namespace Lpi.Ports.XattrView

open Lpi.Verified.CData
open Lpi.Verified.CString
open Lpi.Verified.Getopt hiding loop
open Lpi.Verified.Hex
open Lpi.Verified.RecordWalk

/-! ## The program -/

/-- `XATTR_SIZE`. -/
def xattrSize : Nat := 10000

/-- The calls of the program, with the size of the buffer as the last argument;
an error is the text of `errno`. -/
structure Kernel where
  listxattr : CStr → Nat → Except (List UInt8) (List UInt8)
  getxattr : CStr → List UInt8 → Nat → Except (List UInt8) (List UInt8)

/-- One round of the loop over the names: the file, the size of its list, the
name at the pointer, and the places in the buffer that are read. -/
structure Visit where
  filepath : CStr
  size : Nat
  name : List UInt8
  touched : List Nat
  deriving DecidableEq

structure State where
  xattrNameList : List UInt8
  xattrValue : List UInt8
  visits : List Visit
  stdout : List UInt8
  stderr : List UInt8

def printValueStr (length : Nat) (value : List UInt8) : List UInt8 :=
  cString (value.take length) ++ ascii "\n"

def printValueHex (length : Nat) (value : List UInt8) : List UInt8 :=
  ((value.take length).flatMap fun b => hex02 b.toNat ++ [32]) ++ ascii "\n"

/-- `strlen(xattrName) + 1`. -/
def stride (rest : List UInt8) : Nat := (cString rest).length + 1

/-- The round with `xattrName` at place `p`.  The name is read up to its
NUL. -/
def visitAt (filepath : CStr) (size : Nat) (xattrNameList : List UInt8) (p : Nat) :
    Visit :=
  let name := cString (xattrNameList.drop p)
  ⟨filepath, size, name, (List.range (name.length + 1)).map (p + ·)⟩

/-- The body of the loop over the names. -/
def State.visit (k : Kernel) (print : Nat → List UInt8 → List UInt8) (filepath : CStr)
    (size : Nat) (s : State) (p : Nat) : State :=
  let name := cString (s.xattrNameList.drop p)
  let visits := s.visits ++ [visitAt filepath size s.xattrNameList p]
  match k.getxattr filepath name xattrSize with
  | .error e =>
      { s with visits := visits
               stderr := s.stderr ++ ascii "Failed to get xattr value for: " ++ name ++
                 ascii " - " ++ e ++ ascii "\n" }
  | .ok value =>
      let xattrValue := overlay value s.xattrValue
      { s with visits := visits
               xattrValue := xattrValue
               stdout := s.stdout ++ ascii "\tname=" ++ name ++ ascii "; value=" ++
                 print value.length xattrValue }

/-- `listxattr` has stored a list, and the name of the file is printed. -/
def State.listed (s : State) (filepath : CStr) (list : List UInt8) : State :=
  { s with xattrNameList := overlay list s.xattrNameList
           stdout := s.stdout ++ filepath.bytes ++ ascii ":\n" }

/-- The loop over the names of one file, for at most `fuel` tests of its
condition. -/
def attributes (k : Kernel) (print : Nat → List UInt8 → List UInt8) (fuel : Nat)
    (filepath : CStr) (list : List UInt8) (s : State) : Option State :=
  loop stride (State.visit k print filepath list.length) (s.listed filepath list).xattrNameList
    list.length fuel 0 (s.listed filepath list)

/-- How the program ends. -/
structure Result where
  exit : Exit
  state : State

/-- The loop over the files; `none` if one of its loops does not end. -/
def files (k : Kernel) (print : Nat → List UInt8 → List UInt8) (fuel : Nat) :
    List CStr → State → Option Result
  | [], s => some ⟨.success, s⟩
  | filepath :: rest, s =>
      match k.listxattr filepath xattrSize with
      | .error e => some ⟨.failure,
          { s with stderr := s.stderr ++ ascii "Failed to get xattr name list of " ++
                     filepath.bytes ++ ascii " - " ++ e ++ ascii "\n" }⟩
      | .ok list => (attributes k print fuel filepath list s).bind (files k print fuel rest)

def usage (program : CStr) : List UInt8 :=
  ascii "Usage: " ++ program.bytes ++ ascii " [-x] <file>...\n"

/-- The string of the options. -/
def optstring : List UInt8 := ascii "x"

/-- One turn of the loop over the options, for the variable `printXattrValue`. -/
def turn (program : CStr) :
    (Nat → List UInt8 → List UInt8) → Found →
      Except (List UInt8) (Nat → List UInt8 → List UInt8)
  | _, .flag 120 => .ok printValueHex
  | _, found => .error (found.diagnostic program ++ usage program)

/-- `main`, with what is in the two buffers at first. -/
def main (k : Kernel) (fuel : Nat) (program : CStr) (argv : List CStr)
    (nameList value : List UInt8) : Option Result :=
  let s : State := ⟨nameList, value, [], [], []⟩
  match Verified.Getopt.loop (turn program) (getopt optstring argv).1 printValueStr with
  | .error e => some ⟨.failure, { s with stderr := e }⟩
  | .ok print => files k print fuel (getopt optstring argv).2 s

/-! ## Names and their list -/

/-- The name of an attribute. -/
structure Name where
  bytes : List UInt8
  nulFree : 0 ∉ bytes
  nonempty : bytes ≠ []

/-- A name in the list, with its NUL. -/
def Name.encode (name : Name) : List UInt8 := name.bytes ++ [0]

theorem cString_encode (name : Name) (rest : List UInt8) :
    cString (name.encode ++ rest) = name.bytes := by
  rw [Name.encode, List.append_assoc]
  exact cString_append_zero name.nulFree rest

theorem delimits : Delimits stride Name.encode where
  stride_eq := by
    intro name rest
    rw [stride, cString_encode, Name.encode, List.length_append]
    rfl
  pos := by
    intro name
    simp [Name.encode]

/-! ## What is printed -/

/-- The line for a name, if `getxattr` gives its value. -/
def valueLine (print : Nat → List UInt8 → List UInt8) (name : List UInt8) :
    Except (List UInt8) (List UInt8) → List UInt8
  | .ok value => ascii "\tname=" ++ name ++ ascii "; value=" ++ print value.length value
  | .error _ => []

/-- The message for a name, if `getxattr` fails. -/
def failureLine (name : List UInt8) : Except (List UInt8) (List UInt8) → List UInt8
  | .ok _ => []
  | .error e => ascii "Failed to get xattr value for: " ++ name ++ ascii " - " ++ e ++ ascii "\n"

/-- What is printed for the names of a file. -/
def valueLines (k : Kernel) (print : Nat → List UInt8 → List UInt8) (filepath : CStr)
    (names : List Name) : List UInt8 :=
  names.flatMap fun name =>
    valueLine print name.bytes (k.getxattr filepath name.bytes xattrSize)

def failureLines (k : Kernel) (filepath : CStr) (names : List Name) : List UInt8 :=
  names.flatMap fun name => failureLine name.bytes (k.getxattr filepath name.bytes xattrSize)

/-- Of the buffer for the values only the value is printed. -/
def PrintsValue (print : Nat → List UInt8 → List UInt8) : Prop :=
  ∀ value rest, print value.length (value ++ rest) = print value.length value

theorem printsValue_str : PrintsValue printValueStr := by
  intro value rest
  rw [printValueStr, printValueStr, List.take_left', List.take_length]
  rfl

theorem printsValue_hex : PrintsValue printValueHex := by
  intro value rest
  rw [printValueHex, printValueHex, List.take_left', List.take_length]
  rfl

/-! ## The walk -/

section Walk

variable {k : Kernel} {print : Nat → List UInt8 → List UInt8} {filepath : CStr}
  {size : Nat}

/-- A round leaves the list as it is, and its visit does not depend on whether
`getxattr` fails. -/
theorem visit_spec (hprint : PrintsValue print) (s : State) (p : Nat) :
    (s.visit k print filepath size p).xattrNameList = s.xattrNameList ∧
    (s.visit k print filepath size p).visits =
      s.visits ++ [visitAt filepath size s.xattrNameList p] ∧
    (s.visit k print filepath size p).stdout =
      s.stdout ++ valueLine print (cString (s.xattrNameList.drop p))
        (k.getxattr filepath (cString (s.xattrNameList.drop p)) xattrSize) ∧
    (s.visit k print filepath size p).stderr =
      s.stderr ++ failureLine (cString (s.xattrNameList.drop p))
        (k.getxattr filepath (cString (s.xattrNameList.drop p)) xattrSize) := by
  simp only [State.visit]
  cases k.getxattr filepath (cString (s.xattrNameList.drop p)) xattrSize with
  | error e => simp [valueLine, failureLine]
  | ok value => simp [valueLine, failureLine, overlay, hprint value]

theorem cString_placed {names : List Name} (rest : List UInt8) {p : Nat} {name : Name}
    (h : (p, name) ∈ placed Name.encode 0 names) :
    cString ((names.flatMap Name.encode ++ rest).drop p) = name.bytes := by
  obtain ⟨more, hmore⟩ := drop_placed_zero rest h
  rw [hmore, cString_encode]

/-- At the place of a name, the name is visited and nothing behind the list is
read. -/
theorem visitAt_placed {names : List Name} (rest : List UInt8) {p : Nat} {name : Name}
    (h : (p, name) ∈ placed Name.encode 0 names) :
    (visitAt filepath size (names.flatMap Name.encode ++ rest) p).name = name.bytes ∧
    ∀ i ∈ (visitAt filepath size (names.flatMap Name.encode ++ rest) p).touched,
      i < (names.flatMap Name.encode).length := by
  have hname := cString_placed rest h
  have hle := placed_le h
  rw [Name.encode, List.length_append, List.length_singleton] at hle
  refine ⟨hname, ?_⟩
  intro i hi
  simp only [visitAt, hname, List.mem_map, List.mem_range] at hi
  obtain ⟨j, hj, rfl⟩ := hi
  omega

/-- What the walk over the names of a file adds to a state. -/
structure Walked (k : Kernel) (print : Nat → List UInt8 → List UInt8) (filepath : CStr)
    (names : List Name) (s t : State) : Prop where
  visits : ∃ visits, t.visits = s.visits ++ visits ∧
    (visits.map fun v => (v.filepath, v.name)) =
      names.map (fun name => (filepath, name.bytes)) ∧
    ∀ v ∈ visits, v.filepath = filepath ∧
      v.size = (names.flatMap Name.encode).length ∧ ∀ i ∈ v.touched, i < v.size
  stdout : t.stdout =
    s.stdout ++ filepath.bytes ++ ascii ":\n" ++ valueLines k print filepath names
  stderr : t.stderr = s.stderr ++ failureLines k filepath names

/-- One file, whatever the buffer held before. -/
theorem attributes_spec (hprint : PrintsValue print) (names : List Name) (s : State)
    {fuel : Nat} (hfuel : names.length < fuel) :
    ∃ t, attributes k print fuel filepath (names.flatMap Name.encode) s = some t ∧
      Walked k print filepath names s t := by
  let list := names.flatMap Name.encode
  let buffer := list ++ s.xattrNameList.drop list.length
  have hloop : attributes k print fuel filepath list s =
      some ((placed Name.encode 0 names).foldl
        (fun t pr => t.visit k print filepath list.length pr.1) (s.listed filepath list)) :=
    loop_records delimits names _ _ hfuel
  -- The rounds read the same list, since none of them writes to it.
  have hround : ∀ (t : State) p, t.xattrNameList = buffer →
      (t.visit k print filepath list.length p).xattrNameList = buffer ∧
      (t.visit k print filepath list.length p).visits =
        t.visits ++ [visitAt filepath list.length buffer p] ∧
      (t.visit k print filepath list.length p).stdout =
        t.stdout ++ valueLine print (cString (buffer.drop p))
          (k.getxattr filepath (cString (buffer.drop p)) xattrSize) ∧
      (t.visit k print filepath list.length p).stderr =
        t.stderr ++ failureLine (cString (buffer.drop p))
          (k.getxattr filepath (cString (buffer.drop p)) xattrSize) := by
    intro t p ht
    have hspec := @visit_spec k print filepath list.length hprint t p
    rw [ht] at hspec
    exact hspec
  have hname : ∀ p name, (p, name) ∈ placed Name.encode 0 names →
      cString (buffer.drop p) = name.bytes := fun p name hp => cString_placed _ hp
  refine ⟨_, hloop, ⟨_, foldl_log (fun t p ht => ⟨(hround t p ht).1, (hround t p ht).2.1⟩) _ rfl,
    ?_, ?_⟩, ?_, ?_⟩
  · rw [List.map_flatMap, List.map_eq_flatMap]
    apply flatMap_placed fun p => [(filepath, (visitAt filepath list.length buffer p).name)]
    intro p name hp
    exact congrArg (fun n => [(filepath, n)]) (hname p name hp)
  · intro v hv
    obtain ⟨⟨p, name⟩, hp, hv⟩ := List.mem_flatMap.1 hv
    obtain rfl := List.mem_singleton.1 hv
    exact ⟨rfl, rfl, (visitAt_placed _ hp).2⟩
  · rw [foldl_log (fun t p ht => ⟨(hround t p ht).1, (hround t p ht).2.2.1⟩) _ rfl]
    refine congrArg _ (flatMap_placed (fun p => valueLine print (cString (buffer.drop p))
      (k.getxattr filepath (cString (buffer.drop p)) xattrSize)) ?_)
    intro p name hp
    rw [hname p name hp]
  · rw [foldl_log (fun t p ht => ⟨(hround t p ht).1, (hround t p ht).2.2.2⟩) _ rfl]
    refine congrArg _ (flatMap_placed (fun p => failureLine (cString (buffer.drop p))
      (k.getxattr filepath (cString (buffer.drop p)) xattrSize)) ?_)
    intro p name hp
    rw [hname p name hp]

/-- The files, one after the other. -/
theorem files_spec (hprint : PrintsValue print) {names : CStr → List Name} {fuel : Nat}
    (args : List CStr) (s : State)
    (hlist : ∀ f ∈ args, k.listxattr f xattrSize = .ok ((names f).flatMap Name.encode))
    (hfuel : ∀ f ∈ args, (names f).length < fuel) :
    ∃ t visits, files k print fuel args s = some ⟨.success, t⟩ ∧
      t.visits = s.visits ++ visits ∧
      (visits.map fun v => (v.filepath, v.name)) =
        args.flatMap (fun f => (names f).map fun name => (f, name.bytes)) ∧
      (∀ v ∈ visits, v.size = ((names v.filepath).flatMap Name.encode).length ∧
        ∀ i ∈ v.touched, i < v.size) ∧
      t.stdout = s.stdout ++
        args.flatMap (fun f => f.bytes ++ ascii ":\n" ++ valueLines k print f (names f)) ∧
      t.stderr = s.stderr ++ args.flatMap (fun f => failureLines k f (names f)) := by
  induction args generalizing s with
  | nil => exact ⟨s, [], rfl, by simp, rfl, by simp, by simp, by simp⟩
  | cons f args ih =>
      obtain ⟨t, hattributes, ⟨visits, ht, hnames, hvisits⟩, hout, herr⟩ :=
        @attributes_spec k print f hprint (names f) s fuel (hfuel f List.mem_cons_self)
      obtain ⟨t', visits', hfiles, ht', hnames', hvisits', hout', herr'⟩ := ih t
        (fun g hg => hlist g (List.mem_cons_of_mem f hg))
        (fun g hg => hfuel g (List.mem_cons_of_mem f hg))
      refine ⟨t', visits ++ visits', ?_, ?_, ?_, ?_, ?_, ?_⟩
      · rw [files, hlist f List.mem_cons_self]
        simp only [hattributes, Option.bind_some, hfiles]
      · rw [ht', ht, List.append_assoc]
      · rw [List.map_append, hnames, hnames', List.flatMap_cons]
      · intro v hv
        rcases List.mem_append.1 hv with hv | hv
        · obtain ⟨hpath, hsize, htouched⟩ := hvisits v hv
          rw [hpath]
          exact ⟨hsize, htouched⟩
        · exact hvisits' v hv
      · rw [hout', hout, List.flatMap_cons]
        simp only [List.append_assoc]
      · rw [herr', herr, List.flatMap_cons, List.append_assoc]

end Walk

/-! ## The names of all files -/

/-- `printXattrValue` behind the options. -/
def printerFor (found : List Found) : Nat → List UInt8 → List UInt8 :=
  if found = [] then printValueStr else printValueHex

theorem printsValue_printerFor (found : List Found) : PrintsValue (printerFor found) := by
  rw [printerFor]
  split
  · exact printsValue_str
  · exact printsValue_hex

theorem loop_turn (program : CStr) {found : List Found} (hopts : ∀ f ∈ found, f = .flag 120)
    (print : Nat → List UInt8 → List UInt8) :
    Verified.Getopt.loop (turn program) found print =
      .ok (if found = [] then print else printValueHex) := by
  induction found generalizing print with
  | nil => rfl
  | cons f found ih =>
      rw [List.forall_mem_cons] at hopts
      rw [hopts.1, Verified.Getopt.loop, turn]
      simp only [ih hopts.2, List.cons_ne_nil, if_false]
      split <;> rfl

/-- **The walk is the inverse of the list.**  If the list of the names of each file fits in
the buffer, the program visits exactly these names, and reads only the bytes of the list of
the file.  For each name in turn it asks `getxattr`, and prints the value or the message.
This holds for all results of `getxattr` and for all that the buffers may hold before. -/
theorem names_visited (k : Kernel) (program : CStr) (argv : List CStr)
    (nameList value : List UInt8) (names : CStr → List Name) (fuel : Nat)
    (hopts : ∀ f ∈ (getopt optstring argv).1, f = .flag 120)
    (hfits : ∀ f ∈ (getopt optstring argv).2,
      ((names f).flatMap Name.encode).length ≤ xattrSize)
    (hlist : ∀ f ∈ (getopt optstring argv).2,
      ((names f).flatMap Name.encode).length ≤ xattrSize →
      k.listxattr f xattrSize = .ok ((names f).flatMap Name.encode))
    (hfuel : ∀ f ∈ (getopt optstring argv).2, (names f).length < fuel) :
    ∃ s, main k fuel program argv nameList value = some ⟨.success, s⟩ ∧
      (s.visits.map fun v => (v.filepath, v.name)) =
        (getopt optstring argv).2.flatMap
          (fun f => (names f).map fun name => (f, name.bytes)) ∧
      (∀ v ∈ s.visits, v.size = ((names v.filepath).flatMap Name.encode).length ∧
        ∀ i ∈ v.touched, i < v.size) ∧
      s.stdout = (getopt optstring argv).2.flatMap (fun f => f.bytes ++ ascii ":\n" ++
        valueLines k (printerFor (getopt optstring argv).1) f (names f)) ∧
      s.stderr = (getopt optstring argv).2.flatMap (fun f => failureLines k f (names f)) := by
  have hloop := loop_turn program hopts printValueStr
  rw [main, hloop]
  obtain ⟨t, visits, hfiles, ht, hnames, hvisits, hout, herr⟩ := @files_spec k
    (printerFor (getopt optstring argv).1) (printsValue_printerFor _) names fuel
    (getopt optstring argv).2 ⟨nameList, value, [], [], []⟩
    (fun f hf => hlist f hf (hfits f hf)) hfuel
  rw [List.nil_append] at ht hout herr
  exact ⟨t, hfiles, ht ▸ hnames, ht ▸ hvisits, hout, herr⟩

def xattrViewName : CStr := ⟨ascii "xattr_view", by decide⟩
def firstFile : CStr := ⟨ascii "first", by decide⟩
def secondFile : CStr := ⟨ascii "second", by decide⟩
def userA : Name := ⟨ascii "user.a", by decide, by decide⟩
def userBc : Name := ⟨ascii "user.bc", by decide, by decide⟩
def userD : Name := ⟨ascii "user.d", by decide, by decide⟩

/-- The names of the two files, the longer list first. -/
def twoFiles (f : CStr) : List Name :=
  if f = firstFile then [userA, userBc] else [userD]

/-- Every name has the value `hi`, except the first one, which cannot be
read. -/
def twoFilesKernel : Kernel where
  listxattr f _ := .ok ((twoFiles f).flatMap Name.encode)
  getxattr _ name _ :=
    if name = ascii "user.a" then .error (ascii "Permission denied") else .ok (ascii "hi")

def dashX : CStr := ⟨ascii "-x", by decide⟩

theorem names_visited_two_files :
    ∃ s, main twoFilesKernel 3 xattrViewName [dashX, firstFile, secondFile] [] [] =
        some ⟨.success, s⟩ ∧
      (s.visits.map fun v => (v.filepath, v.name)) =
        [(firstFile, ascii "user.a"), (firstFile, ascii "user.bc"),
          (secondFile, ascii "user.d")] ∧
      s.stdout = ascii "first:\n\tname=user.bc; value=68 69 \nsecond:\n" ++
        ascii "\tname=user.d; value=68 69 \n" ∧
      s.stderr = ascii "Failed to get xattr value for: user.a - Permission denied\n" := by
  obtain ⟨s, hmain, hnames, _, hout, herr⟩ := names_visited twoFilesKernel xattrViewName
    [dashX, firstFile, secondFile] [] [] twoFiles 3 (by decide) (by decide)
    (fun _ _ _ => rfl) (by decide)
  exact ⟨s, hmain, hnames, hout.trans (by decide), herr.trans (by decide)⟩

end Lpi.Ports.XattrView
