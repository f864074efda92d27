import Mathlib.Data.List.Basic

/-!
# Byte-string objects

A file or a shared-memory object as the list of its bytes.  `resize` is what
`ftruncate` does to it: bytes past the new size are lost, and new ones are
zero.  A history of sizes is a fold of `resize`.  `writeAt` is a `write()` at
an offset.
-/

namespace Lpi.Verified.FileObject

/-- The object after `ftruncate` to `n` bytes. -/
def resize (n : Nat) (bs : List UInt8) : List UInt8 :=
  bs.take n ++ List.replicate (n - bs.length) 0

@[simp] theorem length_resize (n : Nat) (bs : List UInt8) :
    (resize n bs).length = n := by
  simp only [resize, List.length_append, List.length_take,
    List.length_replicate]
  omega

/-- An object that is extended from nothing. -/
theorem resize_nil (n : Nat) : resize n [] = List.replicate n 0 := by
  rw [resize, List.take_nil, List.nil_append, List.length_nil, Nat.sub_zero]

/-- An object is unchanged exactly when it has its size already. -/
theorem resize_eq_self_iff {n : Nat} {bs : List UInt8} :
    resize n bs = bs ↔ n = bs.length := by
  constructor
  · intro h
    rw [← h, length_resize]
  · rintro rfl
    simp [resize]

/-- Each byte of the object after `ftruncate`. -/
theorem getElem?_resize (n i : Nat) (bs : List UInt8) :
    (resize n bs)[i]? = if i < n then some (bs.getD i 0) else none := by
  unfold resize
  by_cases hi : i < n
  · rw [if_pos hi]
    by_cases hlen : i < bs.length
    · rw [List.getElem?_append_left (by rw [List.length_take]; omega),
        List.getElem?_take_of_lt hi, List.getD_eq_getElem?_getD,
        List.getElem?_eq_getElem hlen, Option.getD_some]
    · rw [List.getElem?_append_right (by rw [List.length_take]; omega),
        List.getElem?_replicate_of_lt (by rw [List.length_take]; omega),
        List.getD_eq_getElem?_getD, List.getElem?_eq_none (Nat.not_lt.1 hlen),
        Option.getD_none]
  · rw [if_neg hi, List.getElem?_eq_none]
    have hlength := length_resize n bs
    unfold resize at hlength
    omega

/-- Whatever is done to the size of an object of zero bytes, they stay zero. -/
theorem eq_zero_of_mem_resize {n : Nat} {bs : List UInt8}
    (h : ∀ b ∈ bs, b = 0) : ∀ b ∈ resize n bs, b = 0 := by
  intro b hb
  rcases List.mem_append.1 hb with hold | hnew
  · exact h b (List.mem_of_mem_take hold)
  · exact List.eq_of_mem_replicate hnew

theorem eq_zero_of_mem_foldl_resize {sizes : List Nat} {bs : List UInt8}
    (h : ∀ b ∈ bs, b = 0) :
    ∀ b ∈ sizes.foldl (fun bs n => resize n bs) bs, b = 0 := by
  induction sizes generalizing bs with
  | nil => exact h
  | cons n sizes ih => exact ih (eq_zero_of_mem_resize h)

/-- The object after `bs` has been written at offset `off`. -/
def writeAt (off : Nat) (bs old : List UInt8) : List UInt8 :=
  resize off old ++ bs ++ old.drop (off + bs.length)

/-- A `write()` at the end appends. -/
theorem writeAt_end (bs old : List UInt8) :
    writeAt old.length bs old = old ++ bs := by
  have hsame : resize old.length old = old := resize_eq_self_iff.2 rfl
  simp [writeAt, hsame]

end Lpi.Verified.FileObject
