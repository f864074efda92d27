import Lpi.Verified.CData

/-!
# Byte strings handed over in pieces

A `read()` delivers its source in pieces whose sizes the caller does not
control.  A piece is never empty (an empty result means end of file) and
never longer than the buffer, so both facts are part of its type and no
theorem about splits has to assume them.

The buffer itself always has its full size: what a shorter piece does not
overwrite is still there.
-/

namespace Lpi.Verified.Pieces

open Lpi.Verified.CData

/-- One non-empty result of a `read()` into a buffer of `cap` bytes. -/
@[ext] structure Chunk (cap : Nat) where
  bytes : List UInt8
  ne_nil : bytes ≠ []
  length_le : bytes.length ≤ cap
  deriving DecidableEq

variable {cap : Nat}

/-- The source a sequence of pieces comes from. -/
def join (cs : List (Chunk cap)) : List UInt8 := cs.flatMap Chunk.bytes

@[simp] theorem join_nil : join ([] : List (Chunk cap)) = [] := rfl

@[simp] theorem join_cons (c : Chunk cap) (cs : List (Chunk cap)) :
    join (c :: cs) = c.bytes ++ join cs := rfl

@[simp] theorem join_append (cs ds : List (Chunk cap)) :
    join (cs ++ ds) = join cs ++ join ds := by
  simp [join]

/-- Every byte string can be delivered in pieces, however small the
buffer. -/
theorem exists_join_eq (hcap : 0 < cap) (bs : List UInt8) :
    ∃ cs : List (Chunk cap), join cs = bs := by
  induction bs with
  | nil => exact ⟨[], rfl⟩
  | cons b bs ih =>
      obtain ⟨cs, hcs⟩ := ih
      exact ⟨⟨[b], by simp, hcap⟩ :: cs, by simp [hcs]⟩

/-! ## Buffers -/

/-- A `char` array of `cap` bytes. -/
structure Buffer (cap : Nat) where
  bytes : List UInt8
  length_eq : bytes.length = cap
  deriving DecidableEq

theorem Buffer.length_overlay (b : Buffer cap) (bs : List UInt8) :
    (overlay (bs.take cap) b.bytes).length = cap := by
  have hlen := b.length_eq
  simp only [overlay, List.length_append, List.length_take, List.length_drop]
  omega

/-- Store the first `cap` bytes of `bs` at the start of the buffer. -/
def Buffer.fill (b : Buffer cap) (bs : List UInt8) : Buffer cap where
  bytes := overlay (bs.take cap) b.bytes
  length_eq := b.length_overlay bs

/-- What was stored can be read back, up to the size of the buffer. -/
theorem Buffer.take_fill (b : Buffer cap) (bs : List UInt8) :
    (b.fill bs).bytes.take (bs.take cap).length = bs.take cap :=
  take_overlay _ _

theorem Buffer.take_fill_take (b : Buffer cap) {bs : List UInt8} {n : Nat} (hcap : n ≤ cap)
    (hlen : n ≤ bs.length) : (b.fill (bs.take n)).bytes.take n = bs.take n := by
  have hfits : (bs.take n).take cap = bs.take n := by
    rw [List.take_take, Nat.min_eq_right hcap]
  have hfill := b.take_fill (bs.take n)
  rwa [hfits, List.length_take, Nat.min_eq_left hlen] at hfill

/-- A piece fits. -/
theorem Chunk.take_cap (c : Chunk cap) : c.bytes.take cap = c.bytes :=
  List.take_of_length_le c.length_le

end Lpi.Verified.Pieces
