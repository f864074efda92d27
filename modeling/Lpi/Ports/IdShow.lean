import Lpi.Verified.CData
import Lpi.Verified.CString

/-!
# The identifiers of a process (`proccred/src/idshow.c`)

The program prints its user and its group identifiers with their names.
`getpwuid` and `getgrgid` return a pointer to a record that the next call writes
over, and the four calls for a line are all made before the line is formatted.
So there is only one name in the line; `names_right_iff` says when that is the
name of all.
-/

namespace Lpi.Ports.IdShow

open Lpi.Verified.CData
open Lpi.Verified.CString

/-! ## The records -/

/-- The names of the users and of the groups, and the text of `errno` if there is
none. -/
structure Database where
  user : UInt32 → Option CStr
  group : UInt32 → Option CStr
  strerror : List UInt8

/-- Where a name is: in the record of `getpwuid` or in that of `getgrgid`. -/
inductive Pointer where
  | pw_name
  | gr_name
  deriving DecidableEq, Repr

/-- The names in the records. -/
structure Static where
  pw_name : CStr
  gr_name : CStr

def Static.read (s : Static) : Pointer → CStr
  | .pw_name => s.pw_name
  | .gr_name => s.gr_name

def Static.write (s : Static) (name : CStr) : Pointer → Static
  | .pw_name => { s with pw_name := name }
  | .gr_name => { s with gr_name := name }

@[simp] theorem Static.read_write (s : Static) (name : CStr) (p : Pointer) :
    (s.write name p).read p = name := by
  cases p with
  | pw_name => rfl
  | gr_name => rfl

/-- A name from the database, or what is printed before `exit(EXIT_FAILURE)`. -/
def lookup (names : UInt32 → Option CStr) (record : Pointer) (message : UInt32 → List UInt8)
    (id : UInt32) (s : Static) : Except (List UInt8) (Pointer × Static) :=
  match names id with
  | none => .error (message id)
  | some name => .ok (record, s.write name record)

def getUsernameFromUID (db : Database) :
    UInt32 → Static → Except (List UInt8) (Pointer × Static) :=
  lookup db.user .pw_name fun uid =>
    ascii "Failed to get user from UID " ++ decimal uid.toNat ++ ascii " - " ++ db.strerror ++
      ascii "\n"

def getGroupnameFromGID (db : Database) :
    UInt32 → Static → Except (List UInt8) (Pointer × Static) :=
  lookup db.group .gr_name fun gid =>
    ascii "Failed to get group from GID " ++ decimal gid.toNat ++ ascii " - " ++ db.strerror ++
      ascii "\n"

/-! ## Printing -/

/-- An argument of `printf`: the call for the name, or the number itself. -/
inductive Arg where
  | name (id : UInt32)
  | number (id : UInt32)
  deriving DecidableEq, Repr

inductive Value where
  | string (p : Pointer)
  | long (n : Int)
  deriving DecidableEq, Repr

/-- The order in which the arguments of a call are evaluated. -/
structure Order where
  order : List Arg → List Arg
  perm : ∀ args, (order args).Perm args

/-- The arguments are evaluated one after the other; `values` holds those of the
arguments before. -/
def evaluate (get : UInt32 → Static → Except (List UInt8) (Pointer × Static)) :
    List Arg → (Arg → Value) → Static → Except (List UInt8) ((Arg → Value) × Static)
  | [], values, s => .ok (values, s)
  | .number id :: args, values, s =>
      evaluate get args (fun a => if a = .number id then .long id.toNat else values a) s
  | .name id :: args, values, s =>
      match get id s with
      | .error e => .error e
      | .ok (p, s) => evaluate get args (fun a => if a = .name id then .string p else values a) s

/-- A name and the number next to it. -/
structure Field where
  name : CStr
  number : Int
  deriving DecidableEq

/-- What `%s` prints: the string that the pointer leads to now. -/
def percentS (s : Static) : Value → CStr
  | .string p => s.read p
  | .long _ => CStr.empty

/-- What `%ld` prints. -/
def percentLd : Value → Int
  | .long n => n
  | .string _ => 0

/-- `printf` of a name and a number for each identifier. -/
def printf (get : UInt32 → Static → Except (List UInt8) (Pointer × Static)) (o : Order)
    (ids : List UInt32) (s : Static) : Except (List UInt8) (List Field × Static) :=
  match evaluate get (o.order (ids.flatMap fun id => [.name id, .number id]))
      (fun _ => .long 0) s with
  | .error e => .error e
  | .ok (values, s) =>
      .ok (ids.map fun id => ⟨percentS s (values (.name id)), percentLd (values (.number id))⟩, s)

/-- `%s (%ld)` with the label in front. -/
def Field.text (label : List UInt8) (f : Field) : List UInt8 :=
  label ++ f.name.bytes ++ ascii " (" ++ decimal f.number ++ ascii ")"

/-- A line of fields with their labels. -/
def lineText (labels : List (List UInt8)) (fields : List Field) : List UInt8 :=
  (ascii "; ").intercalate ((labels.zip fields).map fun x => x.2.text x.1) ++ ascii "\n"

/-! ## The program -/

/-- The process: what the calls for its identifiers return, or the text of
`errno`. -/
structure Process where
  resuid : Except (List UInt8) (UInt32 × UInt32 × UInt32)
  resgid : Except (List UInt8) (UInt32 × UInt32 × UInt32)
  fsuid : UInt32
  fsgid : UInt32
  groups : Except (List UInt8) (List UInt32)

/-- What a run prints, and how it ends: the fields of both lines, standard
output and standard error. -/
structure Result where
  users : List Field
  groups : List Field
  stdout : List UInt8
  stderr : List UInt8
  exit : Exit
  deriving DecidableEq

/-- The supplementary groups, one call of `printf` for each: what is printed,
and the message if a name is missing. -/
def supplementary (db : Database) (o : Order) :
    List UInt32 → Static → List UInt8 × Option (List UInt8)
  | [], _ => ([], none)
  | gid :: gids, s =>
      match printf (getGroupnameFromGID db) o [gid] s with
      | .error e => ([], some e)
      | .ok (fields, s) =>
          (fields.flatMap (fun f => f.name.bytes ++ ascii "(" ++ decimal f.number ++ ascii ")\n") ++
            (supplementary db o gids s).1, (supplementary db o gids s).2)

def userLabels : List (List UInt8) := [ascii "RUID=", ascii "EUID=", ascii "SUID=", ascii "FSUID="]

def groupLabels : List (List UInt8) :=
  [ascii "RGID=", ascii "EGID=", ascii "SGID=", ascii "FSGID="]

/-- The part of `main` behind the two lines. -/
def listGroups (p : Process) (db : Database) (o : Order) (users groups : List Field)
    (s : Static) : Result :=
  let lines := lineText userLabels users ++ lineText groupLabels groups
  match p.groups with
  | .error e =>
      ⟨users, groups, lines, ascii "Failed to get supplementary groups - " ++ e ++ ascii "\n",
        .failure⟩
  | .ok gids =>
      let text := ascii "Supplementary groups (" ++ decimal gids.length ++ ascii "):\n" ++
        (supplementary db o gids s).1
      match (supplementary db o gids s).2 with
      | some e => ⟨users, groups, lines ++ text, e, .failure⟩
      | none => ⟨users, groups, lines ++ text ++ ascii "\n", [], .success⟩

/-- `main`, with the orders in which the arguments of the calls for the users and
for the groups are evaluated, and what is in the records at first. -/
def main (p : Process) (db : Database) (o o' : Order) (s : Static) : Result :=
  match p.resuid with
  | .error e => ⟨[], [], [], ascii "Failed to get uids - " ++ e ++ ascii "\n", .failure⟩
  | .ok (ruid, euid, suid) =>
      match p.resgid with
      | .error e => ⟨[], [], [], ascii "Failed to get gids - " ++ e ++ ascii "\n", .failure⟩
      | .ok (rgid, egid, sgid) =>
          match printf (getUsernameFromUID db) o [ruid, euid, suid, p.fsuid] s with
          | .error e => ⟨[], [], [], e, .failure⟩
          | .ok (users, s) =>
              match printf (getGroupnameFromGID db) o' [rgid, egid, sgid, p.fsgid] s with
              | .error e => ⟨users, [], lineText userLabels users, e, .failure⟩
              | .ok (groups, s) => listGroups p db o' users groups s

/-! ## One call of `printf` -/

/-- What an argument is evaluated to. -/
def valueOf (record : Pointer) : Arg → Value
  | .name _ => .string record
  | .number id => .long id.toNat

variable {names : UInt32 → Option CStr} {record : Pointer} {message : UInt32 → List UInt8}

/-- The arguments have their values, and in the record there is the name of one
of the identifiers whose names are asked for. -/
theorem evaluate_lookup {args : List Arg} (h : ∀ id, .name id ∈ args → names id ≠ none)
    (values : Arg → Value) (s : Static) :
    ∃ values' s', evaluate (lookup names record message) args values s = .ok (values', s') ∧
      (∀ a, values' a = if a ∈ args then valueOf record a else values a) ∧
      ((∃ id, .name id ∈ args ∧ names id = some (s'.read record)) ∨
        (∀ id, .name id ∉ args) ∧ s' = s) := by
  induction args generalizing values s with
  | nil => exact ⟨values, s, rfl, fun _ => rfl, .inr ⟨fun _ => List.not_mem_nil, rfl⟩⟩
  | cons a args ih =>
      have hargs : ∀ id, .name id ∈ args → names id ≠ none :=
        fun id hid => h id (List.mem_cons_of_mem a hid)
      cases a with
      | number id =>
          obtain ⟨values', s', heval, hvalues, hrecord⟩ := ih hargs
            (fun a => if a = .number id then .long id.toNat else values a) s
          refine ⟨values', s', heval, fun a => ?_, ?_⟩
          · rw [hvalues]
            by_cases ha : a = .number id
            · simp [ha, valueOf]
            · simp [ha]
          · simpa using hrecord
      | name id =>
          obtain ⟨name, hname⟩ := Option.ne_none_iff_exists'.1 (h id List.mem_cons_self)
          obtain ⟨values', s', heval, hvalues, hrecord⟩ := ih hargs
            (fun a => if a = .name id then .string record else values a) (s.write name record)
          refine ⟨values', s', ?_, fun a => ?_, .inl ?_⟩
          · simpa only [evaluate, lookup, hname] using heval
          · rw [hvalues]
            by_cases ha : a = .name id
            · simp [ha, valueOf]
            · simp [ha]
          · rcases hrecord with ⟨id', hid', hread⟩ | ⟨-, rfl⟩
            · exact ⟨id', List.mem_cons_of_mem _ hid', hread⟩
            · exact ⟨id, List.mem_cons_self, by simp [hname]⟩

/-- **One name for all**: next to each number there is the name of the same
identifier of the line. -/
theorem printf_lookup (o : Order) {ids : List UInt32} (hne : ids ≠ [])
    (h : ∀ id ∈ ids, names id ≠ none) (s : Static) :
    ∃ name s', printf (lookup names record message) o ids s =
        .ok (ids.map fun id => ⟨name, id.toNat⟩, s') ∧
      ∃ id ∈ ids, names id = some name := by
  have hmem : ∀ a, a ∈ o.order (ids.flatMap fun id => [.name id, .number id]) ↔
      ∃ id ∈ ids, a = .name id ∨ a = .number id := by
    intro a
    rw [(o.perm _).mem_iff]
    simp
  have hname : ∀ id, .name id ∈ o.order (ids.flatMap fun id => [.name id, .number id]) ↔
      id ∈ ids := by
    intro id
    rw [hmem]
    simp
  obtain ⟨values, s', heval, hvalues, hrecord⟩ :
      ∃ values s', evaluate (lookup names record message) _ _ _ = .ok (values, s') ∧ _ ∧ _ :=
    evaluate_lookup (fun id hid => h id ((hname id).1 hid)) (fun _ => .long 0) s
  refine ⟨s'.read record, s', ?_, ?_⟩
  · rw [printf, heval]
    simp only [Except.ok.injEq, Prod.mk.injEq, and_true]
    apply List.map_congr_left
    intro id hid
    rw [hvalues, if_pos ((hmem _).2 ⟨id, hid, .inl rfl⟩), hvalues,
      if_pos ((hmem _).2 ⟨id, hid, .inr rfl⟩)]
    rfl
  · rcases hrecord with ⟨id, hid, hread⟩ | ⟨hnone, -⟩
    · exact ⟨id, (hname id).1 hid, hread⟩
    · obtain ⟨id, hid⟩ := List.exists_mem_of_ne_nil _ hne
      exact absurd ((hname id).2 hid) (hnone id)

/-! ## The two lines -/

/-- In the line there are the numbers, and next to each its own name. -/
def LineRight (names : UInt32 → Option CStr) (ids : List UInt32) (line : List Field) : Prop :=
  ∃ own : UInt32 → CStr, (∀ id ∈ ids, names id = some (own id)) ∧
    line = ids.map fun id => ⟨own id, id.toNat⟩

/-- One name is right for all if all have the same one. -/
theorem lineRight_iff {ids : List UInt32} {name : CStr}
    (h : ∃ id ∈ ids, names id = some name) :
    LineRight names ids (ids.map fun id => ⟨name, id.toNat⟩) ↔
      ∀ id ∈ ids, ∀ id' ∈ ids, names id = names id' := by
  constructor
  · rintro ⟨own, hown, hline⟩
    have hall : ∀ id ∈ ids, names id = some name := by
      intro id hid
      have hfield := (List.map_inj_left.1 hline) id hid
      rw [Field.mk.injEq] at hfield
      rw [hown id hid, hfield.1]
    exact fun id hid id' hid' => (hall id hid).trans (hall id' hid').symm
  · intro hsame
    obtain ⟨id, hid, hname⟩ := h
    exact ⟨fun _ => name, fun id' hid' => (hsame id' hid' id hid).trans hname, rfl⟩

theorem fields_listGroups (p : Process) (db : Database) (o : Order) (users groups : List Field)
    (s : Static) : (listGroups p db o users groups s).users = users ∧
      (listGroups p db o users groups s).groups = groups := by
  cases hgids : p.groups with
  | error e => simp only [listGroups, hgids, and_self]
  | ok gids =>
      cases hfails : (supplementary db o gids s).2 with
      | none => simp only [listGroups, hgids, hfails, and_self]
      | some e => simp only [listGroups, hgids, hfails, and_self]

/-- **Each identifier is printed with its own name** if and only if the names of
the four users are one name, and so are those of the four groups. -/
theorem names_right_iff {p : Process} {db : Database} {ruid euid suid rgid egid sgid : UInt32}
    (hresuid : p.resuid = .ok (ruid, euid, suid)) (hresgid : p.resgid = .ok (rgid, egid, sgid))
    (husers : ∀ id ∈ [ruid, euid, suid, p.fsuid], db.user id ≠ none)
    (hgroups : ∀ id ∈ [rgid, egid, sgid, p.fsgid], db.group id ≠ none)
    (o o' : Order) (s : Static) :
    LineRight db.user [ruid, euid, suid, p.fsuid] (main p db o o' s).users ∧
        LineRight db.group [rgid, egid, sgid, p.fsgid] (main p db o o' s).groups ↔
      (∀ id ∈ [ruid, euid, suid, p.fsuid], ∀ id' ∈ [ruid, euid, suid, p.fsuid],
          db.user id = db.user id') ∧
        ∀ id ∈ [rgid, egid, sgid, p.fsgid], ∀ id' ∈ [rgid, egid, sgid, p.fsgid],
          db.group id = db.group id' := by
  obtain ⟨user, s', husers', huser⟩ : ∃ user s', printf (getUsernameFromUID db) o _ s = _ ∧ _ :=
    printf_lookup o (List.cons_ne_nil _ _) husers s
  obtain ⟨group, s'', hgroups', hgroup⟩ :
      ∃ group s'', printf (getGroupnameFromGID db) o' _ s' = _ ∧ _ :=
    printf_lookup o' (List.cons_ne_nil _ _) hgroups s'
  have hlines : (main p db o o' s).users =
        ([ruid, euid, suid, p.fsuid].map fun id => ⟨user, id.toNat⟩) ∧
      (main p db o o' s).groups =
        [rgid, egid, sgid, p.fsgid].map fun id => ⟨group, id.toNat⟩ := by
    simp only [main, hresuid, hresgid, husers', hgroups']
    exact fields_listGroups p db o' _ _ s''
  rw [hlines.1, hlines.2, lineRight_iff huser, lineRight_iff hgroup]

/-- A system with the users `root` and `student`, and the group `staff`. -/
def twoUsers : Database where
  user uid :=
    if uid = 0 then some ⟨ascii "root", by decide⟩
    else if uid = 1000 then some ⟨ascii "student", by decide⟩
    else none
  group _ := some ⟨ascii "staff", by decide⟩
  strerror := ascii "Success"

/-- A process with the effective user identifier of a program of `root`. -/
def setUserID : Process := ⟨.ok (1000, 0, 0), .ok (50, 50, 50), 0, 50, .ok []⟩

/-- A process that is all `root`. -/
def rootOnly : Process := ⟨.ok (0, 0, 0), .ok (50, 50, 50), 0, 50, .ok []⟩

def leftToRight : Order := ⟨id, fun _ => .refl _⟩

def noNames : Static := ⟨CStr.empty, CStr.empty⟩

theorem names_right_root :
    LineRight twoUsers.user [0, 0, 0, 0]
        (main rootOnly twoUsers leftToRight leftToRight noNames).users ∧
      LineRight twoUsers.group [50, 50, 50, 50]
        (main rootOnly twoUsers leftToRight leftToRight noNames).groups :=
  (names_right_iff (p := rootOnly) rfl rfl (by simp [rootOnly, twoUsers])
    (by simp [rootOnly, twoUsers]) leftToRight leftToRight noNames).2 (by simp [rootOnly])

/-- The user 1000 is printed as `root`. -/
theorem student_is_root :
    ¬ LineRight twoUsers.user [1000, 0, 0, 0]
      (main setUserID twoUsers leftToRight leftToRight noNames).users := by
  have hline : (main setUserID twoUsers leftToRight leftToRight noNames).users =
      ([1000, 0, 0, 0] : List UInt32).map fun id => ⟨⟨ascii "root", by decide⟩, id.toNat⟩ := by
    decide
  rw [hline, lineRight_iff ⟨0, by simp, rfl⟩]
  intro h
  exact absurd (h 1000 (by simp) 0 (by simp)) (by decide)

end Lpi.Ports.IdShow
