import Lpi.Verified.Lines

/-!
# Checking a password (`users_groups/src/check_passwd.c`)

The program reads a user name with `fgets`, removes the newline if there is
one, and looks the name up.  `readUsername` is this part; `looksUpTyped_iff`
says for which input the name that is looked up is the line that was typed.
-/

namespace Lpi.Ports.CheckPasswd

open Lpi.Verified.CData
open Lpi.Verified.CString
open Lpi.Verified.Lines

/-! ## The program -/

/-- What is read of `struct passwd`. -/
structure Passwd where
  pwPasswd : List UInt8
  pwUid : Nat
  deriving DecidableEq

/-- The system.  An error is the text of `errno`; `getpwnam` may fail without
one, and for `getspnam` it matters only whether it is `EACCES`. -/
structure System where
  sysconf : Int
  malloc : Except (List UInt8) Unit
  getpwnam : List UInt8 → Except (Option (List UInt8)) Passwd
  getspnam : List UInt8 → Except Bool (List UInt8)
  getpass : Except (List UInt8) (List UInt8)
  crypt : List UInt8 → List UInt8 → Except (List UInt8) (List UInt8)

/-- `maxUsernameLength`. -/
def System.maxUsernameLength (sys : System) : Int :=
  if 0 ≤ sys.sysconf then sys.sysconf else 256

/-- What comes of the input of the user name. -/
inductive Input where
  | eof
  /-- The character in front of the buffer is used. -/
  | undefined
  | name (username : List UInt8)
  deriving DecidableEq, Repr

/-- The buffer after the newline has been removed, if there is one. -/
def removeNewline (username : List UInt8) : List UInt8 :=
  if username[(lastIndex username).toNat]? = some 10 then
    username.set (lastIndex username).toNat 0
  else username

/-- From the call of `fgets` to the user name; `buffer` is what `malloc`
returned. -/
def readUsername (maxUsernameLength : Int) (buffer stdin : List UInt8) : Input :=
  match fgets maxUsernameLength.toNat stdin with
  | none => .eof
  | some (chunk, _) =>
      let username := overlay (chunk ++ [0]) buffer
      if lastIndex username < maxUsernameLength then
        .name (cString (removeNewline username))
      else .undefined

inductive Ending where
  | exit (e : Exit)
  | undefined
  deriving DecidableEq, Repr

/-- How a run ends, and the names that are looked up. -/
structure Result where
  ending : Ending
  stdout : List UInt8
  stderr : List UInt8
  lookups : List (List UInt8)
  deriving DecidableEq

def usernamePrompt : List UInt8 := ascii "Username: "

/-- A failure with a message, after these lookups. -/
def failure (message : List UInt8) (lookups : List (List UInt8)) : Result :=
  ⟨.exit .failure, usernamePrompt, message, lookups⟩

/-- From the encrypted password on. -/
def authenticate (sys : System) (username encryptedPasswordEntry : List UInt8) (uid : Nat) :
    Result :=
  match sys.getpass with
  | .error e => failure (ascii "Failed to get passwd - " ++ e ++ ascii "\n") [username]
  | .ok password =>
      match sys.crypt password encryptedPasswordEntry with
      | .error e => failure (ascii "Failed to encrypt passwd - " ++ e ++ ascii "\n") [username]
      | .ok encryptedPassword =>
          if encryptedPassword ≠ encryptedPasswordEntry then
            ⟨.exit .failure, usernamePrompt ++ ascii "Incorrect passwd\n", [], [username]⟩
          else
            ⟨.exit .success, usernamePrompt ++ ascii "Successfully authenticated: UID=" ++
              decimal uid ++ ascii "\n", [], [username]⟩

/-- From the lookup of the user name on. -/
def lookup (sys : System) (username : List UInt8) : Result :=
  match sys.getpwnam username with
  | .error none => failure (ascii "Username " ++ username ++ ascii " not found\n") [username]
  | .error (some e) => failure (ascii "Failed to get passwd entry for " ++ username ++
      ascii " - " ++ e ++ ascii "\n") [username]
  | .ok passwdEntry =>
      match sys.getspnam username with
      | .error true => failure (ascii "No permissions to read shadow file - " ++
          ascii "Permission denied" ++ ascii "\n") [username]
      | .error false => authenticate sys username passwdEntry.pwPasswd passwdEntry.pwUid
      | .ok spPwdp => authenticate sys username spPwdp passwdEntry.pwUid

/-- `main`; `buffer` is what `malloc` returned. -/
def main (sys : System) (buffer stdin : List UInt8) : Result :=
  match sys.malloc with
  | .error e => failure (ascii "Failed to allocate " ++ decimal sys.maxUsernameLength ++
      ascii " bytes for username - " ++ e ++ ascii "\n") []
  | .ok _ =>
      match readUsername sys.maxUsernameLength buffer stdin with
      | .eof => failure (ascii "Failed to get username\n") []
      | .undefined => ⟨.undefined, usernamePrompt, [], []⟩
      | .name username => lookup sys username

/-! ## The name that is looked up -/

theorem authenticate_spec (sys : System) (username entry : List UInt8) (uid : Nat) :
    (authenticate sys username entry uid).ending ≠ .undefined ∧
      (authenticate sys username entry uid).lookups = [username] := by
  unfold authenticate
  split
  · exact ⟨by simp [failure], rfl⟩
  · split
    · exact ⟨by simp [failure], rfl⟩
    · split
      · exact ⟨by simp, rfl⟩
      · exact ⟨by simp, rfl⟩

theorem lookup_spec (sys : System) (username : List UInt8) :
    (lookup sys username).ending ≠ .undefined ∧
      (lookup sys username).lookups = [username] := by
  unfold lookup
  split
  · exact ⟨by simp [failure], rfl⟩
  · exact ⟨by simp [failure], rfl⟩
  · split
    · exact ⟨by simp [failure], rfl⟩
    · exact authenticate_spec _ _ _ _
    · exact authenticate_spec _ _ _ _

/-- What is left of a string without the newline at its end. -/
def chomp (t : List UInt8) : List UInt8 :=
  if t.getLast? = some 10 then t.dropLast else t

theorem getElem?_lastIndex {username : List UInt8} (hne : cString username ≠ [])
    (hlength : (cString username).length < 2 ^ 64) :
    username[(lastIndex username).toNat]? = (cString username).getLast? := by
  have hpos := List.length_pos_iff.2 hne
  rw [toNat_lastIndex hne hlength, List.getLast?_eq_getElem?, getElem?_cString (by omega)]

theorem cString_removeNewline {username : List UInt8} (hne : cString username ≠ [])
    (hlength : (cString username).length < 2 ^ 64) :
    cString (removeNewline username) = chomp (cString username) := by
  rw [removeNewline, chomp, getElem?_lastIndex hne hlength]
  split
  · rw [toNat_lastIndex hne hlength, cString_set_last username hne]
  · rfl

section Username

variable {max : Int} {buffer stdin : List UInt8}

/-- What comes of the input depends on the string that is stored only. -/
theorem readUsername_eq (hmax : 9 ≤ max) (hint : max < 2 ^ 31) (hne : stdin ≠ [])
    {c : List UInt8} (hc : chunk 10 (max.toNat - 1) stdin = c) :
    readUsername max buffer stdin =
      if cString (c ++ [0]) = [] then .undefined
      else .name (chomp (cString (c ++ [0]))) := by
  have hchunk : (chunk 10 (max.toNat - 1) stdin).length ≤ max.toNat - 1 :=
    length_chunk_le 10 _ stdin
  rw [hc] at hchunk
  have hle := length_cString_stored_le c
  have hfgets : fgets max.toNat stdin = some (c, stdin.drop c.length) := by
    rw [fgets, if_neg hne, hc]
  rw [readUsername, hfgets]
  simp only
  by_cases hempty : cString (c ++ [0]) = []
  · rw [if_pos hempty, if_neg]
    rw [lastIndex_of_nil (by rw [cString_stored, hempty])]
    omega
  · have hstored : cString (overlay (c ++ [0]) buffer) ≠ [] := by
      rwa [cString_stored]
    have hsmall : (cString (overlay (c ++ [0]) buffer)).length < 2 ^ 64 := by
      rw [cString_stored]
      omega
    rw [if_neg hempty, if_pos, cString_removeNewline hstored hsmall, cString_stored]
    rw [lastIndex_of_ne_nil hstored hsmall, cString_stored]
    omega

/-- A read without a NUL is taken as it is, but for the newline. -/
theorem readUsername_of_notMem (hmax : 9 ≤ max) (hint : max < 2 ^ 31) (hne : stdin ≠ [])
    {l : List UInt8} (hnul : 0 ∉ l) (hnewline : 10 ∉ l)
    (hc : chunk 10 (max.toNat - 1) stdin = l ∨ chunk 10 (max.toNat - 1) stdin = l ++ [10]) :
    readUsername max buffer stdin = .name l := by
  have hchunk : chunk 10 (max.toNat - 1) stdin ≠ [] := chunk_ne_nil (by omega) hne
  rcases hc with hc | hc
  · have hlast : l.getLast? ≠ some 10 := getLast?_ne_of_notMem hnewline
    rw [readUsername_eq hmax hint hne hc, cString_append_zero hnul, if_neg (hc ▸ hchunk),
      chomp, if_neg hlast]
  · have hnul' : 0 ∉ l ++ [10] := by simp [hnul]
    rw [readUsername_eq hmax hint hne hc, cString_append_zero hnul', if_neg (hc ▸ hchunk),
      chomp, if_pos (by simp), List.dropLast_concat]

/-- A read with a NUL is cut there. -/
theorem readUsername_of_mem (hmax : 9 ≤ max) (hint : max < 2 ^ 31) (hne : stdin ≠ [])
    {l : List UInt8} (hnul : 0 ∈ l) (hnewline : 10 ∉ l)
    (hc : chunk 10 (max.toNat - 1) stdin = l ∨ chunk 10 (max.toNat - 1) stdin = l ++ [10])
    {name : List UInt8} (hname : readUsername max buffer stdin = .name name) :
    name.length < l.length := by
  have hstring : ∀ c, c = l ∨ c = l ++ [10] → cString (c ++ [0]) = cString l := by
    rintro c (rfl | rfl)
    · exact cString_append_of_mem hnul _
    · rw [List.append_assoc]
      exact cString_append_of_mem hnul _
  have hlast : (cString l).getLast? ≠ some 10 := by
    intro hlast
    exact hnewline ((List.takeWhile_prefix _).subset (List.mem_of_getLast? hlast))
  rw [readUsername_eq hmax hint hne rfl, hstring _ hc, chomp, if_neg hlast] at hname
  split at hname
  · cases hname
  · obtain rfl := Input.name.inj hname
    exact length_cString_lt hnul

/-- The line that was typed. -/
def typedLine (stdin : List UInt8) : List UInt8 := stdin.takeWhile (· ≠ 10)

theorem typedLine_append {l : List UInt8} (h : 10 ∉ l) (t : List UInt8) :
    typedLine (l ++ t) = l ++ typedLine t := by
  apply List.takeWhile_append_of_pos
  intro b hb
  simpa using fun hten : b = 10 => h (hten ▸ hb)

/-- What was read is the line, or the part of it that fits. -/
theorem chunk_typedLine (room : Nat) (stdin : List UInt8) :
    ∃ l more, 10 ∉ l ∧ typedLine stdin = l ++ more ∧
      (chunk 10 room stdin = l ∨ chunk 10 room stdin = l ++ [10]) ∧
      (more = [] ∧ l.length ≤ room ∨ l.length = room) := by
  rcases chunk_cases 10 room stdin with ⟨l, t, hl, hlen, rfl, hc⟩ | ⟨l, t, hl, hlen, rfl, hc⟩ |
    ⟨hl, hlen, hc⟩
  · refine ⟨l, [], hl, ?_, Or.inr hc, Or.inl ⟨rfl, Nat.le_of_lt hlen⟩⟩
    rw [typedLine_append hl]
    simp [typedLine]
  · exact ⟨l, typedLine t, hl, typedLine_append hl t, Or.inl hc, Or.inr hlen⟩
  · refine ⟨stdin, [], hl, ?_, Or.inl hc, Or.inl ⟨rfl, Nat.le_of_lt hlen⟩⟩
    have happend := typedLine_append hl []
    rwa [List.append_nil] at happend

/-- The name is the line that was typed if and only if the line has no NUL and
fits. -/
theorem readUsername_iff (buffer : List UInt8) (hmax : 9 ≤ max) (hint : max < 2 ^ 31)
    (hne : stdin ≠ []) :
    readUsername max buffer stdin = .name (typedLine stdin) ↔
      0 ∉ typedLine stdin ∧ ((typedLine stdin).length : Int) < max := by
  obtain ⟨l, more, hl, htyped, hc, hlength⟩ := chunk_typedLine (max.toNat - 1) stdin
  rw [htyped]
  by_cases hnul : 0 ∈ l
  · constructor
    · intro hname
      have hlt := readUsername_of_mem hmax hint hne hnul hl hc hname
      rw [List.length_append] at hlt
      omega
    · rintro ⟨hnot, _⟩
      exact absurd (List.mem_append_left more hnul) hnot
  · rw [readUsername_of_notMem hmax hint hne hnul hl hc, Input.name.injEq,
      List.self_eq_append_right, List.mem_append, List.length_append]
    constructor
    · rintro rfl
      refine ⟨by simp [hnul], ?_⟩
      rw [List.length_nil]
      omega
    · rintro ⟨_, hshort⟩
      rcases hlength with ⟨hnil, _⟩ | hfull
      · exact hnil
      · apply List.length_eq_zero_iff.1
        omega

end Username

/-- The program stays in the buffer, and looks up the line that was typed. -/
def LooksUpTyped (sys : System) (buffer stdin : List UInt8) : Prop :=
  (main sys buffer stdin).ending ≠ .undefined ∧
    ∀ name ∈ (main sys buffer stdin).lookups, name = typedLine stdin

theorem looksUpTyped_iff {sys : System} {buffer stdin : List UInt8}
    (hmalloc : sys.malloc = .ok ()) (hmax : 9 ≤ sys.maxUsernameLength)
    (hint : sys.maxUsernameLength < 2 ^ 31) :
    LooksUpTyped sys buffer stdin ↔
      stdin = [] ∨ (0 ∉ typedLine stdin ∧
        ((typedLine stdin).length : Int) < sys.maxUsernameLength) := by
  by_cases hne : stdin = []
  · subst hne
    have heof : readUsername sys.maxUsernameLength buffer [] = .eof := rfl
    simp [LooksUpTyped, main, hmalloc, heof, failure]
  · rw [← readUsername_iff buffer hmax hint hne, or_iff_right hne, LooksUpTyped,
      main, hmalloc]
    cases hread : readUsername sys.maxUsernameLength buffer stdin with
    | eof =>
        rw [readUsername_eq hmax hint hne rfl] at hread
        split at hread
        · cases hread
        · cases hread
    | undefined => simp
    | name username =>
        obtain ⟨hending, hlookups⟩ := lookup_spec sys username
        simp [hending, hlookups]

end Lpi.Ports.CheckPasswd
