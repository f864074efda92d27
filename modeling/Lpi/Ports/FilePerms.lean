import Lpi.Verified.CString
import Lpi.Verified.Flags

/-!
# Permissions as a string (`src/FilePerms.c`)

`filePermStr` makes nine letters of a mode.  The third letter of each class
stands for two bits, that for execution and one of `S_ISUID`, `S_ISGID` and
`S_ISVTX`.  `decode` reads the letters again, and gets the low twelve bits back;
the string depends on no others (`filePermStr_faithful`).
-/

namespace Lpi.Ports.FilePerms

open Lpi.Verified.CString
open Lpi.Verified.Flags

/-! ## The program -/

def S_ISUID : BitVec 32 := 0o4000#32
def S_ISGID : BitVec 32 := 0o2000#32
def S_ISVTX : BitVec 32 := 0o1000#32
def S_IRUSR : BitVec 32 := 0o400#32
def S_IWUSR : BitVec 32 := 0o200#32
def S_IXUSR : BitVec 32 := 0o100#32
def S_IRGRP : BitVec 32 := 0o40#32
def S_IWGRP : BitVec 32 := 0o20#32
def S_IXGRP : BitVec 32 := 0o10#32
def S_IROTH : BitVec 32 := 0o4#32
def S_IWOTH : BitVec 32 := 0o2#32
def S_IXOTH : BitVec 32 := 0o1#32

/-- A character of the source. -/
def chr (c : Char) : UInt8 := UInt8.ofNat c.toNat

/-- The bits of a class, the one that goes with execution included, and the
letters for the latter with and without execution. -/
structure PermClass where
  read : BitVec 32
  write : BitVec 32
  exec : BitVec 32
  special : BitVec 32
  both : UInt8
  alone : UInt8
  single : ∀ flag ∈ [read, write, exec, special], ∃ i, flag = BitVec.twoPow 32 i
  distinct : [chr 'x', both, alone, chr '-'].Nodup

def user : PermClass where
  read := S_IRUSR
  write := S_IWUSR
  exec := S_IXUSR
  special := S_ISUID
  both := chr 's'
  alone := chr 'S'
  single := by simpa using ⟨⟨8, rfl⟩, ⟨7, rfl⟩, ⟨6, rfl⟩, ⟨11, rfl⟩⟩
  distinct := by decide

def group : PermClass where
  read := S_IRGRP
  write := S_IWGRP
  exec := S_IXGRP
  special := S_ISGID
  both := chr 's'
  alone := chr 'S'
  single := by simpa using ⟨⟨5, rfl⟩, ⟨4, rfl⟩, ⟨3, rfl⟩, ⟨10, rfl⟩⟩
  distinct := by decide

def other : PermClass where
  read := S_IROTH
  write := S_IWOTH
  exec := S_IXOTH
  special := S_ISVTX
  both := chr 't'
  alone := chr 'T'
  single := by simpa using ⟨⟨2, rfl⟩, ⟨1, rfl⟩, ⟨0, rfl⟩, ⟨9, rfl⟩⟩
  distinct := by decide

/-- The letter for one bit. -/
def letter (c : UInt8) (flag perm : BitVec 32) : UInt8 := if Has perm flag then c else chr '-'

/-- The letter for execution and the bit that goes with it. -/
def PermClass.third (c : PermClass) (perm : BitVec 32) : UInt8 :=
  if Has perm c.exec then (if Has perm c.special then c.both else chr 'x')
  else (if Has perm c.special then c.alone else chr '-')

/-- The arguments of `snprintf` for a class. -/
def PermClass.letters (c : PermClass) (perm : BitVec 32) : List UInt8 :=
  [letter (chr 'r') c.read perm, letter (chr 'w') c.write perm, c.third perm]

/-- `FILE_PERM_STR_SIZE`, which counts the terminating NUL. -/
def filePermStrSize : Nat := (ascii "rwxrwxrwx").length + 1

def filePermStr (perm : BitVec 32) : List UInt8 :=
  snprintf filePermStrSize (user.letters perm ++ group.letters perm ++ other.letters perm)

/-! ## Reading the letters -/

/-- The bit of a letter that stands for one. -/
def readLetter (c : UInt8) (flag : BitVec 32) (l : UInt8) : Option (BitVec 32) :=
  if l = c then some flag else if l = chr '-' then some 0 else none

/-- The bits of a third letter. -/
def PermClass.readThird (c : PermClass) (l : UInt8) : Option (BitVec 32) :=
  if l = chr 'x' then some c.exec
  else if l = c.both then some (c.exec ||| c.special)
  else if l = c.alone then some c.special
  else if l = chr '-' then some 0
  else none

def PermClass.decode (c : PermClass) (r w x : UInt8) : Option (BitVec 32) :=
  (readLetter (chr 'r') c.read r).bind fun read =>
    (readLetter (chr 'w') c.write w).bind fun write =>
      (c.readThird x).map fun third => read ||| write ||| third

/-- The mode that a string of nine letters stands for. -/
def decode : List UInt8 → Option (BitVec 32)
  | [ur, uw, ux, gr, gw, gx, or, ow, ox] =>
      (user.decode ur uw ux).bind fun u =>
        (group.decode gr gw gx).bind fun g => (other.decode or ow ox).map fun o => u ||| g ||| o
  | _ => none

/-- All the bits of a class. -/
def PermClass.mask (c : PermClass) : BitVec 32 := union [c.read, c.write, c.exec, c.special]

private theorem readLetter_letter {c : UInt8} {flag : BitVec 32} (hc : c ≠ chr '-')
    (hflag : ∃ i, flag = BitVec.twoPow 32 i) (perm : BitVec 32) :
    readLetter c flag (letter c flag perm) = some (perm &&& flag) := by
  rw [and_single hflag]
  by_cases h : Has perm flag
  · simp [letter, readLetter, h]
  · simp [letter, readLetter, h, hc.symm]

private theorem readThird_third (c : PermClass) (perm : BitVec 32) :
    c.readThird (c.third perm) = some (perm &&& (c.exec ||| c.special)) := by
  have hexec : perm &&& c.exec = if Has perm c.exec then c.exec else 0 :=
    and_single (c.single c.exec (by simp))
  have hspecial : perm &&& c.special = if Has perm c.special then c.special else 0 :=
    and_single (c.single c.special (by simp))
  have hletters := c.distinct
  simp only [List.nodup_cons, List.mem_cons, List.not_mem_nil, or_false, not_or] at hletters
  rw [BitVec.and_or_distrib_left, hexec, hspecial]
  by_cases he : Has perm c.exec
  · by_cases hs : Has perm c.special
    · have hletter : c.third perm = c.both := by simp [PermClass.third, he, hs]
      simp [hletter, PermClass.readThird, he, hs, Ne.symm hletters.1.1]
    · have hletter : c.third perm = chr 'x' := by simp [PermClass.third, he, hs]
      simp [hletter, PermClass.readThird, he, hs]
  · by_cases hs : Has perm c.special
    · have hletter : c.third perm = c.alone := by simp [PermClass.third, he, hs]
      simp [hletter, PermClass.readThird, he, hs, Ne.symm hletters.1.2.1,
        Ne.symm hletters.2.1.1]
    · have hletter : c.third perm = chr '-' := by simp [PermClass.third, he, hs]
      simp [hletter, PermClass.readThird, he, hs, Ne.symm hletters.1.2.2,
        Ne.symm hletters.2.1.2, Ne.symm hletters.2.2.1]

private theorem decode_letters (c : PermClass) (perm : BitVec 32) :
    c.decode (letter (chr 'r') c.read perm) (letter (chr 'w') c.write perm) (c.third perm) =
      some (perm &&& c.mask) := by
  have hread := readLetter_letter (c := chr 'r') (by decide) (c.single c.read (by simp)) perm
  have hwrite := readLetter_letter (c := chr 'w') (by decide) (c.single c.write (by simp)) perm
  have hmask : perm &&& c.mask =
      perm &&& c.read ||| perm &&& c.write ||| perm &&& (c.exec ||| c.special) := by
    rw [← BitVec.and_or_distrib_left, ← BitVec.and_or_distrib_left]
    simp only [PermClass.mask, union, BitVec.or_zero, BitVec.or_assoc]
  rw [PermClass.decode, hread, hwrite, readThird_third, hmask]
  rfl

private theorem filePermStr_eq (perm : BitVec 32) :
    filePermStr perm = user.letters perm ++ group.letters perm ++ other.letters perm :=
  snprintf_eq_self (by simp [PermClass.letters]; decide)

private theorem decode_filePermStr (perm : BitVec 32) :
    decode (filePermStr perm) = some (perm &&& 0o7777#32) := by
  have hmask : user.mask ||| group.mask ||| other.mask = 0o7777#32 := by decide
  rw [filePermStr_eq, ← hmask, BitVec.and_or_distrib_left, BitVec.and_or_distrib_left]
  show ((user.decode _ _ _).bind fun u => (group.decode _ _ _).bind fun g =>
    (other.decode _ _ _).map fun o => u ||| g ||| o) = _
  rw [decode_letters, decode_letters, decode_letters]
  rfl

/-! ## The bits that count -/

private theorem letters_and {c : PermClass} {mask : BitVec 32} (hmask : mask &&& c.mask = c.mask)
    (perm : BitVec 32) : c.letters (perm &&& mask) = c.letters perm := by
  have hflag : ∀ flag ∈ [c.read, c.write, c.exec, c.special],
      (Has (perm &&& mask) flag ↔ Has perm flag) := by
    intro flag hmem
    have hc : c.mask &&& flag = flag := union_and_of_mem hmem
    apply has_and
    calc mask &&& flag
      _ = mask &&& c.mask &&& flag := by rw [BitVec.and_assoc, hc]
      _ = flag := by rw [hmask, hc]
  have hread := hflag c.read (by simp)
  have hwrite := hflag c.write (by simp)
  have hexec := hflag c.exec (by simp)
  have hspecial := hflag c.special (by simp)
  simp only [PermClass.letters, letter, PermClass.third, hread, hwrite, hexec, hspecial]

private theorem filePermStr_and (perm : BitVec 32) :
    filePermStr (perm &&& 0o7777#32) = filePermStr perm := by
  rw [filePermStr, letters_and (by decide), letters_and (by decide), letters_and (by decide)]
  rfl

/-- **The string has nine letters, which tell the low twelve bits of the mode.** -/
theorem filePermStr_faithful (m : BitVec 32) :
    (filePermStr m).length = 9 ∧ decode (filePermStr m) = some (m &&& 0o7777#32) ∧
      ∀ m', filePermStr m = filePermStr m' ↔ m &&& 0o7777#32 = m' &&& 0o7777#32 := by
  refine ⟨?_, decode_filePermStr m, ?_⟩
  · rw [filePermStr_eq]
    rfl
  · intro m'
    constructor
    · intro heq
      have hdecode := decode_filePermStr m
      rw [heq, decode_filePermStr] at hdecode
      exact (Option.some.inj hdecode).symm
    · intro heq
      rw [← filePermStr_and m, heq, filePermStr_and]

-- `decode` reads the letters of the classes, so which letters these are is fixed here.
example : filePermStr 0o7755#32 = ascii "rwsr-sr-t" ∧
    filePermStr 0o7640#32 = ascii "rwSr-S--T" := by
  decide

end Lpi.Ports.FilePerms
