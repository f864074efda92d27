import Lpi.Ports.NftwDirTree
import Lpi.Verified.Listing
import Lpi.Verified.Preorder

/-!
# The listing of a tree (`dirs_links/src/nftw_dir_tree.c`, `dirTree`)

`nftw` calls `dirTree` for each entry of a tree, and `dirTree` prints a line for it:
the kind of file, what `nftw` says about it, its number, and its name behind four
blanks for each level.  The flag `FTW_DEPTH` is never given, so an entry comes before
those below it.

Names that start with a blank or have a newline in them can spoil the listing.
Without these the whole tree can be read off what the program prints
(`listing_determines`).
-/

namespace Lpi.Ports.NftwListing

open Lpi.Ports.NftwDirTree (Call call FTW_DEPTH)
open Lpi.Verified
open Lpi.Verified.CString
open Lpi.Verified.Flags
open Lpi.Verified.Listing
open Lpi.Verified.Preorder

/-! ## The program -/

/-- What `nftw` says about an entry, from `<ftw.h>`. -/
inductive FtwType where
  | F
  | D
  | DNR
  | DP
  | NS
  | SL
  | SLN
  | other
  deriving DecidableEq, Repr

/-- An entry that `nftw` comes to.  Its name is `&pathname[ftw->base]`. -/
structure Entry where
  type : FtwType
  mode : BitVec 32
  ino : UInt64
  name : CStr
  deriving DecidableEq

def S_IFMT : BitVec 32 := 0o170000#32
def S_IFIFO : BitVec 32 := 0o010000#32
def S_IFCHR : BitVec 32 := 0o020000#32
def S_IFDIR : BitVec 32 := 0o040000#32
def S_IFBLK : BitVec 32 := 0o060000#32
def S_IFREG : BitVec 32 := 0o100000#32
def S_IFLNK : BitVec 32 := 0o120000#32
def S_IFSOCK : BitVec 32 := 0o140000#32

/-- The letter for the kind of file; there is no mode without a `stat()`. -/
def Entry.letter (e : Entry) : UInt8 :=
  if e.type = .NS then 63
  else
    let kind := e.mode &&& S_IFMT
    if kind = S_IFBLK then 98
    else if kind = S_IFCHR then 99
    else if kind = S_IFDIR then 100
    else if kind = S_IFIFO then 112
    else if kind = S_IFLNK then 108
    else if kind = S_IFREG then 45
    else if kind = S_IFSOCK then 115
    else 63

def FtwType.text : FtwType → List UInt8
  | .F => ascii "F"
  | .D => ascii "D"
  | .DNR => ascii "DNR"
  | .DP => ascii "DP"
  | .NS => ascii "NS"
  | .SL => ascii "SL"
  | .SLN => ascii "SLN"
  | .other => ascii "?"

/-- `n` blanks. -/
def blanks (n : Nat) : List UInt8 := List.replicate n 32

/-- `%7ld ` for the number, which is converted to `long`, or as many blanks as the
number would take. -/
def numberText : Option Int → List UInt8
  | some ino => blanks (7 - (decimal ino).length) ++ decimal ino ++ blanks 1
  | none => blanks 7

/-- The number, if there has been a `stat()`. -/
def Entry.number (e : Entry) : Option Int :=
  if e.type ≠ .NS then some e.ino.toInt64.toInt else none

/-- `pathname[ftw->base]` and what is before it on its line. -/
def dirTree (level : Nat) (e : Entry) : List UInt8 :=
  [e.letter] ++ blanks 1 ++ e.type.text ++ blanks 3 ++ numberText e.number ++ blanks 1 ++
    blanks (4 * level) ++ e.name.bytes ++ ascii "\n"

/-- What the calls of `dirTree` print, an entry before those below it. -/
def listing (tree : Forest Entry) : List UInt8 :=
  (tree.preorder 0).flatMap fun (level, e) => dirTree level e

/-- What the program prints; `nftw` says which entries it comes to. -/
def stdout (nftw : Call → Forest Entry) (program : CStr) (argv : List CStr) : List UInt8 :=
  match call program argv with
  | .error _ => []
  | .ok c => listing (nftw c)

/-! ## What is shown -/

/-- What the listing is to tell about an entry.  There is a number unless `stat()` has
failed. -/
structure Shown where
  letter : UInt8
  type : FtwType
  number : Option Int
  name : List UInt8
  counted : number = none ↔ type = .NS

def Entry.shown (e : Entry) : Shown where
  letter := e.letter
  type := e.type
  number := e.number
  name := e.name.bytes
  counted := by simp [Entry.number]

/-- A line up to the newline. -/
def Shown.text (level : Nat) (v : Shown) : List UInt8 :=
  [v.letter] ++ blanks 1 ++ v.type.text ++ blanks 3 ++ numberText v.number ++ blanks 1 ++
    blanks (4 * level) ++ v.name

/-- The name is on one line and does not look like an indent. -/
structure Shown.Plain (v : Shown) : Prop where
  letter : v.letter ≠ 10
  oneLine : 10 ∉ v.name
  noBlank : v.name.head? ≠ some 32

/-- The name of an entry is such a name. -/
def Entry.Plain (e : Entry) : Prop := 10 ∉ e.name.bytes ∧ e.name.bytes.head? ≠ some 32

theorem letter_ne_newline (e : Entry) : e.letter ≠ 10 := by
  unfold Entry.letter
  dsimp only
  repeat' split
  all_goals decide

theorem blank_of_mem_blanks {n : Nat} {c : UInt8} (h : c ∈ blanks n) : c = 32 :=
  List.eq_of_mem_replicate h

theorem newline_notMem_text (type : FtwType) : 10 ∉ type.text := by
  cases type <;> decide

theorem blank_notMem_text (type : FtwType) : 32 ∉ type.text := by
  cases type <;> decide

theorem text_injective : Function.Injective FtwType.text := by
  intro a b h
  cases a <;> cases b <;> first | rfl | exact absurd h (by decide)

theorem newline_notMem_numberText (number : Option Int) : 10 ∉ numberText number := by
  intro h
  cases number with
  | none => exact absurd (blank_of_mem_blanks h) (by decide)
  | some ino =>
      rw [numberText, List.mem_append, List.mem_append] at h
      rcases h with (h | h) | h
      · exact absurd (blank_of_mem_blanks h) (by decide)
      · rcases mem_decimal h with hdigit | hsign
        · exact absurd hdigit (by decide)
        · exact absurd hsign (by decide)
      · exact absurd (blank_of_mem_blanks h) (by decide)

theorem Entry.Plain.shown {e : Entry} (he : e.Plain) : e.shown.Plain :=
  ⟨letter_ne_newline e, he.1, he.2⟩

theorem Shown.Plain.newline_notMem_text {level : Nat} {v : Shown} (hv : v.Plain) :
    10 ∉ v.text level := by
  have hblanks : ∀ n, (10 : UInt8) ∉ blanks n :=
    fun n h => absurd (blank_of_mem_blanks h) (by decide)
  simp only [Shown.text, List.mem_append, List.mem_singleton, not_or]
  exact ⟨⟨⟨⟨⟨⟨⟨hv.letter.symm, hblanks 1⟩, NftwListing.newline_notMem_text _⟩, hblanks 3⟩,
    newline_notMem_numberText _⟩, hblanks 1⟩, hblanks _⟩, hv.oneLine⟩

/-! ## Reading a line -/

/-- Blanks end where something else follows. -/
theorem blanks_append_inj {m n : Nat} {x y : List UInt8} (hx : x.head? ≠ some 32)
    (hy : y.head? ≠ some 32) (h : blanks m ++ x = blanks n ++ y) : m = n ∧ x = y := by
  have hblank : ∀ n, ∀ c ∈ blanks n, decide (c = 32) = true :=
    fun n c hc => decide_eq_true (blank_of_mem_blanks hc)
  have hend : ∀ z : List UInt8, z.head? ≠ some 32 → ∀ c ∈ z.head?, decide (c = 32) = false := by
    intro z hz c hc
    rw [decide_eq_false_iff_not]
    intro heq
    exact hz (heq ▸ hc)
  have hparts := append_inj_of_kind (hblank m) (hblank n) (hend x hx) (hend y hy) h
  refine ⟨?_, hparts.2⟩
  have hlen := congrArg List.length hparts.1
  rw [blanks, blanks, List.length_replicate, List.length_replicate] at hlen
  exact hlen

/-- A word ends where a blank follows. -/
theorem word_append_inj {a b x y : List UInt8} (ha : 32 ∉ a) (hb : 32 ∉ b)
    (h : a ++ 32 :: x = b ++ 32 :: y) : a = b ∧ x = y := by
  have hword : ∀ w : List UInt8, 32 ∉ w → ∀ c ∈ w, decide (c ≠ 32) = true := by
    intro w hw c hc
    rw [decide_eq_true_iff]
    intro heq
    exact hw (heq ▸ hc)
  have hparts := append_inj_of_kind (hword a ha) (hword b hb) (by simp) (by simp) h
  exact ⟨hparts.1, (List.cons.inj hparts.2).2⟩

theorem blank_notMem_decimal (x : Int) : 32 ∉ decimal x := by
  intro h
  rcases mem_decimal h with hdigit | hsign
  · exact absurd hdigit (by decide)
  · exact absurd hsign (by decide)

theorem decimal_ne_nil (x : Int) : decimal x ≠ [] := by
  unfold decimal
  by_cases hx : x < 0
  · simp [hx]
  · rw [if_neg hx]
    exact digitChars_ne_nil _

theorem blanks_append (m n : Nat) : blanks m ++ blanks n = blanks (m + n) :=
  List.replicate_append_replicate

/-- The number, the level and the name behind the type. -/
theorem tail_inj {ino ino' : Int} {level level' : Nat} {name name' : List UInt8}
    (hname : name.head? ≠ some 32) (hname' : name'.head? ≠ some 32)
    (h : numberText (some ino) ++ (blanks 1 ++ (blanks (4 * level) ++ name)) =
      numberText (some ino') ++ (blanks 1 ++ (blanks (4 * level') ++ name'))) :
    ino = ino' ∧ level = level' ∧ name = name' := by
  have hsplit : ∀ (i : Int) (l : Nat) (w : List UInt8),
      numberText (some i) ++ (blanks 1 ++ (blanks (4 * l) ++ w)) =
        blanks (7 - (decimal i).length) ++ (decimal i ++ 32 :: (blanks (4 * l + 1) ++ w)) := by
    intro i l w
    have hone : blanks 1 = [32] := rfl
    rw [numberText, ← List.append_assoc (blanks 1) (blanks (4 * l)), blanks_append,
      Nat.add_comm 1, hone, List.append_assoc, List.append_assoc]
    rfl
  have hfirst : ∀ (i : Int) (z : List UInt8), (decimal i ++ z).head? ≠ some 32 := by
    intro i z
    rw [List.head?_append_of_ne_nil _ (decimal_ne_nil i)]
    intro hblank
    exact blank_notMem_decimal i (List.mem_of_mem_head? hblank)
  rw [hsplit, hsplit] at h
  have hnumber := (blanks_append_inj (hfirst ino _) (hfirst ino' _) h).2
  have hword := word_append_inj (blank_notMem_decimal ino) (blank_notMem_decimal ino') hnumber
  have hindent := blanks_append_inj hname hname' hword.2
  exact ⟨decimal_injective hword.1, by omega, hindent.2⟩

theorem Shown.text_inj {level level' : Nat} {v v' : Shown} (hv : v.Plain) (hv' : v'.Plain)
    (h : v.text level = v'.text level') : level = level' ∧ v = v' := by
  have hsplit : ∀ (l : Nat) (x : Shown), x.text l = x.letter :: 32 :: (x.type.text ++
      32 :: (blanks 2 ++ (numberText x.number ++ (blanks 1 ++ (blanks (4 * l) ++ x.name))))) := by
    intro l x
    simp [Shown.text, blanks, List.replicate_succ]
  rw [hsplit, hsplit, List.cons.injEq, List.cons.injEq] at h
  rcases v with ⟨letter, type, number, name, hcounted⟩
  rcases v' with ⟨letter', type', number', name', hcounted'⟩
  rcases h with ⟨hletter, _, h⟩
  have hword := word_append_inj (blank_notMem_text type) (blank_notMem_text type') h
  have htype : type = type' := text_injective hword.1
  have hrest := List.append_cancel_left hword.2
  subst hletter htype
  cases number with
  | none =>
      have hnone : number' = none := hcounted'.2 (hcounted.1 rfl)
      subst hnone
      have hindent := blanks_append_inj hv.noBlank hv'.noBlank
        (List.append_cancel_left (List.append_cancel_left hrest))
      have hname : name = name' := hindent.2
      subst hname
      exact ⟨by omega, rfl⟩
  | some ino =>
      cases number' with
      | none => exact absurd (hcounted.2 (hcounted'.1 rfl)) (by simp)
      | some ino' =>
          rcases tail_inj hv.noBlank hv'.noBlank hrest with ⟨hino, hlevel, hname⟩
          have hname : name = name' := hname
          subst hino hname
          exact ⟨hlevel, rfl⟩

/-! ## Reading the listing -/

/-- The listing in terms of what it is to tell. -/
theorem listing_eq (tree : Forest Entry) : listing tree =
    ((tree.map Entry.shown).preorder 0).flatMap fun node => node.2.text node.1 ++ [10] := by
  rw [Forest.map_preorder, List.flatMap_map]
  rfl

theorem prefixFree_node : PrefixFree (fun node : Nat × Shown => node.2.Plain)
    fun node => node.2.text node.1 ++ [10] := by
  apply prefixFree_line
  · intro node hnode
    exact hnode.newline_notMem_text
  · intro a b ha hb h
    have hparts := Shown.text_inj ha hb h
    exact Prod.ext hparts.1 hparts.2

/-- No option gives `FTW_DEPTH`. -/
theorem call_depth {program : CStr} {argv : List CStr} {c : Call}
    (hcall : call program argv = .ok c) : ¬ Has c.flags FTW_DEPTH := by
  have hturn : ∀ flags f flags', ¬ Has flags FTW_DEPTH →
      NftwDirTree.turn program flags f = .ok flags' → ¬ Has flags' FTW_DEPTH := by
    intro flags f flags' hflags hturn
    unfold NftwDirTree.turn at hturn
    split at hturn
    · rw [← Except.ok.inj hturn, has_or, not_or]
      exact ⟨hflags, by decide⟩
    · rw [← Except.ok.inj hturn, has_or, not_or]
      exact ⟨hflags, by decide⟩
    · rw [← Except.ok.inj hturn, has_or, not_or]
      exact ⟨hflags, by decide⟩
    · cases hturn
  unfold NftwDirTree.call at hcall
  cases hloop : Getopt.loop (NftwDirTree.turn program)
      (Getopt.getopt NftwDirTree.optstring argv).1 0 with
  | error e =>
      rw [hloop] at hcall
      cases hcall
  | ok flags =>
      have hflags := Getopt.loop_invariant hturn (by decide) hloop
      rw [hloop] at hcall
      dsimp only at hcall
      split at hcall
      · cases hcall
      · rw [← Except.ok.inj hcall]
        exact hflags

/-- **The tree can be read off what the program prints.**  The program lists a directory
before what is in it, and if two runs with the same arguments print the same, then `nftw`
has come to the same tree in both, as far as it is to be shown. -/
theorem listing_determines {nftw nftw' : Call → Forest Entry} {program : CStr}
    {argv : List CStr} {c : Call} (hcall : call program argv = .ok c)
    (hplain : (nftw c).All Entry.Plain) (hplain' : (nftw' c).All Entry.Plain)
    (h : stdout nftw program argv = stdout nftw' program argv) :
    ¬ Has c.flags FTW_DEPTH ∧ (nftw c).map Entry.shown = (nftw' c).map Entry.shown := by
  refine ⟨call_depth hcall, ?_⟩
  simp only [stdout, hcall] at h
  rw [listing_eq, listing_eq] at h
  have hall : ∀ tree : Forest Entry, tree.All Entry.Plain →
      ∀ node ∈ (tree.map Entry.shown).preorder 0, node.2.Plain := by
    intro tree htree node hnode
    rw [Forest.map_preorder, List.mem_map] at hnode
    rcases hnode with ⟨⟨level, e⟩, hmem, rfl⟩
    exact Entry.Plain.shown (htree.of_mem_preorder hmem)
  exact Forest.preorder_injective 0
    (prefixFree_node.flatMap_inj (by simp) (hall _ hplain) (hall _ hplain') h)

/-- A directory with a file in it. -/
def small (perms : BitVec 32) (_ : Call) : Forest Entry :=
  .cons ⟨.D, S_IFDIR, 2, NftwDirTree.dot⟩
    (.cons ⟨.F, S_IFREG ||| perms, 14, ⟨ascii "leaf", by decide⟩⟩ .nil .nil) .nil

/-- The permissions are not shown. -/
theorem listing_determines_small :
    stdout (small 0o644#32) NftwDirTree.dot [] = stdout (small 0o600#32) NftwDirTree.dot [] ∧
    (small 0o644#32 ⟨some NftwDirTree.dot, 0⟩).map Entry.shown =
      (small 0o600#32 ⟨some NftwDirTree.dot, 0⟩).map Entry.shown := by
  have hplain : ∀ perms c, (small perms c).All Entry.Plain := by
    intro perms c
    have hname : (10 : UInt8) ∉ ascii "leaf" ∧ (ascii "leaf").head? ≠ some 32 := by decide
    exact ⟨⟨by decide, by decide⟩, ⟨hname, trivial, trivial⟩, trivial⟩
  have hsame : stdout (small 0o644#32) NftwDirTree.dot [] =
      stdout (small 0o600#32) NftwDirTree.dot [] := by decide
  exact ⟨hsame, (listing_determines (by decide) (hplain _ _) (hplain _ _) hsame).2⟩

end Lpi.Ports.NftwListing
