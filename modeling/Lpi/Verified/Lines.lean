import Lpi.Verified.CData
import Lpi.Verified.CInt
import Lpi.Verified.CString
import Mathlib.Data.List.Count

/-!
# Reading a stream line by line

`fgets` reads up to the next newline, which it keeps, but not more than there
is room for.  `chunk` is what one such call reads, and `chunks` what they all
read until the end of the stream.  `chunk_cases` says what a chunk can be: a
line with its newline, a part of a line that fills the room, or the last line
without a newline.

The lines of a stream are `List.splitOn`.  `chunks_terminated_iff` says when
the chunks are the lines, `strippedLines_eq_iff` that only then the chunks
without their last elements are, and `head_chunks_iff` which elements of the
lines come first in a chunk.

A program that removes the newline looks at the character in front of the NUL,
at `lastIndex`.  If a NUL was read first, there is none.
-/

namespace Lpi.Verified.Lines

variable {α : Type*} [DecidableEq α]

/-- What is read into room for that many elements. -/
def chunk (nl : α) : Nat → List α → List α
  | 0, _ => []
  | _ + 1, [] => []
  | room + 1, b :: s => if b = nl then [nl] else b :: chunk nl room s

/-- What the calls read one after the other, at most that many of them. -/
def chunks (nl : α) (room : Nat) : Nat → List α → List (List α)
  | 0, _ => []
  | _ + 1, [] => []
  | calls + 1, b :: s =>
      chunk nl room (b :: s) ::
        chunks nl room calls ((b :: s).drop (chunk nl room (b :: s)).length)

/-- `fgets` with a buffer of `n` bytes, at least two: what is stored in front of
the NUL, and what is left of the stream; `none` at its end. -/
def fgets (n : Nat) (stream : List UInt8) : Option (List UInt8 × List UInt8) :=
  if stream = [] then none
  else some (chunk 10 (n - 1) stream, stream.drop (chunk 10 (n - 1) stream).length)

/-- The lines that are not empty. -/
def typedLines (nl : α) (s : List α) : List (List α) :=
  (s.splitOn nl).filter (· ≠ [])

variable {nl : α}

/-! ## One call -/

/-- A line, a part of a line, or what is left without a newline. -/
theorem chunk_cases (nl : α) (room : Nat) (s : List α) :
    (∃ l t, nl ∉ l ∧ l.length < room ∧ s = l ++ nl :: t ∧
      chunk nl room s = l ++ [nl]) ∨
    (∃ l t, nl ∉ l ∧ l.length = room ∧ s = l ++ t ∧ chunk nl room s = l) ∨
    (nl ∉ s ∧ s.length < room ∧ chunk nl room s = s) := by
  induction room generalizing s with
  | zero => exact Or.inr (Or.inl ⟨[], s, by simp, rfl, rfl, rfl⟩)
  | succ room ih =>
      cases s with
      | nil => exact Or.inr (Or.inr ⟨by simp, Nat.succ_pos room, rfl⟩)
      | cons b s =>
          by_cases hb : b = nl
          · subst hb
            exact Or.inl ⟨[], s, by simp, Nat.succ_pos room, rfl, by simp [chunk]⟩
          · have hchunk : chunk nl (room + 1) (b :: s) = b :: chunk nl room s :=
              if_neg hb
            rw [hchunk]
            rcases ih s with ⟨l, t, hl, hlen, rfl, hc⟩ | ⟨l, t, hl, hlen, rfl, hc⟩ |
              ⟨hs, hlen, hc⟩
            · refine Or.inl ⟨b :: l, t, ?_, Nat.succ_lt_succ hlen, rfl, by rw [hc]; rfl⟩
              simpa [Ne.symm hb] using hl
            · refine Or.inr (Or.inl ⟨b :: l, t, ?_, congrArg (· + 1) hlen, rfl, by rw [hc]⟩)
              simpa [Ne.symm hb] using hl
            · refine Or.inr (Or.inr ⟨?_, Nat.succ_lt_succ hlen, by rw [hc]⟩)
              simpa [Ne.symm hb] using hs

theorem chunk_ne_nil {room : Nat} (hroom : 0 < room) {s : List α} (hs : s ≠ []) :
    chunk nl room s ≠ [] := by
  rcases chunk_cases nl room s with ⟨l, t, _, _, _, hc⟩ | ⟨l, t, _, hlen, _, hc⟩ | ⟨_, _, hc⟩
  · simp [hc]
  · rw [hc]
    rintro rfl
    exact absurd hlen (Nat.ne_of_lt hroom)
  · rw [hc]
    exact hs

theorem length_chunk_le (nl : α) (room : Nat) (s : List α) :
    (chunk nl room s).length ≤ room := by
  rcases chunk_cases nl room s with ⟨l, t, _, hlen, _, hc⟩ | ⟨l, t, _, hlen, _, hc⟩ |
    ⟨_, hlen, hc⟩
  · rw [hc, List.length_append]
    exact hlen
  · rw [hc]
    exact Nat.le_of_eq hlen
  · rw [hc]
    exact Nat.le_of_lt hlen

/-! ## All calls -/

@[simp] theorem chunks_nil (nl : α) (room calls : Nat) : chunks nl room calls [] = [] := by
  cases calls <;> rfl

theorem chunks_succ (nl : α) (room calls : Nat) {s : List α} (hs : s ≠ []) :
    chunks nl room (calls + 1) s =
      chunk nl room s :: chunks nl room calls (s.drop (chunk nl room s).length) := by
  cases s with
  | nil => exact absurd rfl hs
  | cons b s => rfl

/-- What holds of the empty stream and is kept by each kind of chunk in front
holds of a stream and its chunks. -/
theorem chunks_induction {P : List α → List (List α) → Prop} {room : Nat}
    (hroom : 0 < room) (nil : P [] [])
    (line : ∀ l t cs, nl ∉ l → l.length < room → P t cs →
      P (l ++ nl :: t) ((l ++ [nl]) :: cs))
    (part : ∀ l t cs, nl ∉ l → l.length = room → P t cs → P (l ++ t) (l :: cs))
    (last : ∀ l, nl ∉ l → l.length < room → l ≠ [] → P l [l])
    {calls : Nat} {s : List α} (hcalls : s.length ≤ calls) :
    P s (chunks nl room calls s) := by
  induction calls generalizing s with
  | zero =>
      obtain rfl := List.length_eq_zero_iff.1 (Nat.le_zero.1 hcalls)
      exact nil
  | succ calls ih =>
      by_cases hs : s = []
      · rw [hs, chunks_nil]
        exact nil
      · rw [chunks_succ nl room calls hs]
        rcases chunk_cases nl room s with ⟨l, t, hl, hlen, rfl, hc⟩ |
          ⟨l, t, hl, hlen, rfl, hc⟩ | ⟨hl, hlen, hc⟩
        · have hdrop : (l ++ nl :: t).drop (l ++ [nl]).length = t := by simp
          rw [hc, hdrop]
          apply line l t _ hl hlen
          apply ih
          rw [List.length_append, List.length_cons] at hcalls
          omega
        · rw [hc, List.drop_left]
          apply part l t _ hl hlen
          apply ih
          rw [List.length_append] at hcalls
          omega
        · rw [hc, List.drop_length, chunks_nil]
          exact last s hl hlen hs

/-- The chunks hold elements of the stream only. -/
theorem mem_of_mem_chunks {room : Nat} (hroom : 0 < room) {calls : Nat} {s : List α}
    (hcalls : s.length ≤ calls) {c : List α} (hc : c ∈ chunks nl room calls s) :
    ∀ b ∈ c, b ∈ s := by
  refine chunks_induction (P := fun s cs => c ∈ cs → ∀ b ∈ c, b ∈ s) hroom ?_ ?_ ?_ ?_
    hcalls hc
  · intro h
    exact absurd h List.not_mem_nil
  · intro l t cs _ _ ih h b hb
    rcases List.mem_cons.1 h with rfl | h
    · simp only [List.mem_append, List.mem_singleton] at hb
      simp only [List.mem_append, List.mem_cons]
      tauto
    · exact List.mem_append_right l (List.mem_cons_of_mem nl (ih h b hb))
  · intro l t cs _ _ ih h b hb
    rcases List.mem_cons.1 h with rfl | h
    · exact List.mem_append_left t hb
    · exact List.mem_append_right l (ih h b hb)
  · intro l _ _ _ h b hb
    rw [List.mem_singleton.1 h] at hb
    exact hb

/-! ## Lines -/

theorem splitOn_append {l : List α} (h : nl ∉ l) (t : List α) :
    (l ++ t).splitOn nl = (t.splitOn nl).modifyHead (l ++ ·) := by
  induction l with
  | nil =>
      cases h' : t.splitOn nl <;> simp [h']
  | cons b l ih =>
      simp only [List.mem_cons, not_or] at h
      rw [List.cons_append, List.splitOn_cons_eq_if_modifyHead,
        if_neg (by simpa using Ne.symm h.1), ih h.2]
      cases t.splitOn nl <;> rfl

omit [DecidableEq α] in
theorem getLast?_ne_of_notMem {l : List α} (h : nl ∉ l) : l.getLast? ≠ some nl :=
  fun hlast => h (List.mem_of_getLast? hlast)

/-- The chunks are lines with their newlines if and only if no line is too long
and the stream does not end within a line. -/
theorem chunks_terminated_iff {room : Nat} (hroom : 0 < room) {calls : Nat} {s : List α}
    (hcalls : s.length ≤ calls) :
    (∀ c ∈ chunks nl room calls s, c.getLast? = some nl) ↔
      (∀ l ∈ s.splitOn nl, l.length < room) ∧ (s = [] ∨ s.getLast? = some nl) := by
  refine chunks_induction (P := fun s cs => (∀ c ∈ cs, c.getLast? = some nl) ↔
    (∀ l ∈ s.splitOn nl, l.length < room) ∧ (s = [] ∨ s.getLast? = some nl))
    hroom ?_ ?_ ?_ ?_ hcalls
  · simp [hroom]
  · intro l t cs hl hlen ih
    have hlast : (l ++ nl :: t).getLast? = some nl ↔ t = [] ∨ t.getLast? = some nl := by
      cases t with
      | nil => simp
      | cons b t => simp [List.getLast?_cons_cons]
    rw [List.splitOn_append_cons_self_of_not_mem hl, hlast]
    simpa [hlen] using ih
  · intro l t cs hl hlen _
    constructor
    · intro hall
      exact absurd (hall l List.mem_cons_self) (getLast?_ne_of_notMem hl)
    · rintro ⟨hshort, _⟩
      obtain ⟨first, more, hsplit⟩ := List.exists_cons_of_ne_nil (List.splitOn_ne_nil nl t)
      have hfirst := hshort (l ++ first) (by
        rw [splitOn_append hl, hsplit]
        exact List.mem_cons_self)
      rw [List.length_append] at hfirst
      omega
  · intro l hl _ hne
    constructor
    · intro hall
      exact absurd (hall l List.mem_cons_self) (getLast?_ne_of_notMem hl)
    · rintro ⟨_, hnil | hlast⟩
      · exact absurd hnil hne
      · exact absurd hlast (getLast?_ne_of_notMem hl)

/-! ## Chunks without their last elements -/

/-- What a caller gets who removes the last element of each chunk and skips
those that are empty then. -/
def strippedLines (cs : List (List α)) : List (List α) :=
  (cs.map List.dropLast).filter (· ≠ [])

omit [DecidableEq α] in
/-- Skipping empty lists does not change the number of elements. -/
theorem sum_length_filter (ls : List (List α)) :
    ((ls.filter (· ≠ [])).map List.length).sum = (ls.map List.length).sum := by
  induction ls with
  | nil => rfl
  | cons l ls ih =>
      by_cases hl : l = []
      · simpa [hl] using ih
      · simpa [hl] using ih

theorem sum_length_splitOn (nl : α) (s : List α) :
    ((s.splitOn nl).map List.length).sum + s.count nl = s.length := by
  induction s with
  | nil => simp
  | cons b s ih =>
      rw [List.splitOn_cons_eq_if_modifyHead]
      by_cases hb : b = nl
      · subst hb
        simp only [beq_self_eq_true, if_true, List.map_cons, List.sum_cons,
          List.length_nil, List.count_cons_self, List.length_cons]
        omega
      · obtain ⟨first, more, hsplit⟩ := List.exists_cons_of_ne_nil (List.splitOn_ne_nil nl s)
        rw [hsplit] at ih ⊢
        rw [if_neg (by simpa using hb), List.count_cons_of_ne hb]
        simp only [List.modifyHead_cons, List.map_cons, List.sum_cons,
          List.length_cons] at ih ⊢
        omega

/-- Each chunk loses one element. -/
theorem sum_length_dropLast_chunks (nl : α) {room : Nat} (hroom : 0 < room) {calls : Nat}
    {s : List α} (hcalls : s.length ≤ calls) :
    (((chunks nl room calls s).map List.dropLast).map List.length).sum +
      (chunks nl room calls s).length = s.length := by
  refine chunks_induction (P := fun s cs =>
    ((cs.map List.dropLast).map List.length).sum + cs.length = s.length)
    hroom rfl ?_ ?_ ?_ hcalls
  · intro l t cs _ _ ih
    simp only [List.map_cons, List.sum_cons, List.dropLast_concat, List.length_append,
      List.length_cons] at ih ⊢
    omega
  · intro l t cs _ hlen ih
    simp only [List.map_cons, List.sum_cons, List.length_dropLast, List.length_append,
      List.length_cons] at ih ⊢
    omega
  · intro l _ _ hne
    have hpos := List.length_pos_iff.2 hne
    simp only [List.map_cons, List.map_nil, List.sum_cons, List.sum_nil,
      List.length_dropLast, List.length_cons, List.length_nil]
    omega

/-- Only the chunks that are lines have a newline. -/
theorem countP_chunks (nl : α) {room : Nat} (hroom : 0 < room) {calls : Nat} {s : List α}
    (hcalls : s.length ≤ calls) :
    (chunks nl room calls s).countP (fun c => c.getLast? = some nl) = s.count nl := by
  refine chunks_induction (P := fun s cs =>
    cs.countP (fun c => c.getLast? = some nl) = s.count nl) hroom rfl ?_ ?_ ?_ hcalls
  · intro l t cs hl _ ih
    rw [List.countP_cons_of_pos (by simp), List.count_append, List.count_cons_self,
      List.count_eq_zero_of_not_mem hl, ih, Nat.zero_add]
  · intro l t cs hl _ ih
    have hlast := getLast?_ne_of_notMem hl
    rw [List.countP_cons_of_neg (by simpa using hlast), List.count_append,
      List.count_eq_zero_of_not_mem hl, ih, Nat.zero_add]
  · intro l hl _ _
    have hlast := getLast?_ne_of_notMem hl
    rw [List.countP_cons_of_neg (by simpa using hlast), List.countP_nil,
      List.count_eq_zero_of_not_mem hl]

/-- The lines come back if all chunks are lines. -/
theorem strippedLines_of_terminated {room : Nat} (hroom : 0 < room) {calls : Nat}
    {s : List α} (hcalls : s.length ≤ calls)
    (h : ∀ c ∈ chunks nl room calls s, c.getLast? = some nl) :
    strippedLines (chunks nl room calls s) = typedLines nl s := by
  refine chunks_induction (P := fun s cs => (∀ c ∈ cs, c.getLast? = some nl) →
    strippedLines cs = typedLines nl s) hroom ?_ ?_ ?_ ?_ hcalls h
  · intro _
    simp [strippedLines, typedLines]
  · intro l t cs hl _ ih hall
    have hrest := ih fun c hc => hall c (List.mem_cons_of_mem _ hc)
    rw [strippedLines, typedLines] at hrest ⊢
    rw [List.splitOn_append_cons_self_of_not_mem hl, List.map_cons, List.dropLast_concat,
      List.filter_cons, List.filter_cons, hrest]
  · intro l t cs hl _ _ hall
    exact absurd (hall l List.mem_cons_self) (getLast?_ne_of_notMem hl)
  · intro l hl _ _ hall
    exact absurd (hall l List.mem_cons_self) (getLast?_ne_of_notMem hl)

/-- The chunks without their last elements are the lines if and only if the
chunks are the lines: otherwise elements of the lines are missing. -/
theorem strippedLines_eq_iff {room : Nat} (hroom : 0 < room) {calls : Nat} {s : List α}
    (hcalls : s.length ≤ calls) :
    strippedLines (chunks nl room calls s) = typedLines nl s ↔
      (∀ l ∈ s.splitOn nl, l.length < room) ∧ (s = [] ∨ s.getLast? = some nl) := by
  rw [← chunks_terminated_iff hroom hcalls]
  refine ⟨?_, strippedLines_of_terminated hroom hcalls⟩
  intro heq
  have hsum := congrArg (fun ls => (ls.map List.length).sum) heq
  simp only [strippedLines, typedLines, sum_length_filter] at hsum
  have hchunks := sum_length_dropLast_chunks nl hroom hcalls
  have hlines := sum_length_splitOn nl s
  have hcount := countP_chunks nl hroom hcalls
  have hlength : (chunks nl room calls s).countP (fun c => c.getLast? = some nl) =
      (chunks nl room calls s).length := by omega
  rw [List.countP_eq_length] at hlength
  intro c hc
  simpa using hlength c hc

/-! ## The first elements of the chunks -/

omit [DecidableEq α] in
/-- Behind a full chunk, the places of the line are counted anew. -/
theorem getElem?_append_iff {room : Nat} (hroom : 0 < room) {l : List α}
    (hlen : l.length = room) (first : List α) (z : α) :
    (∀ k, (l ++ first)[room * k]? ≠ some z) ↔
      l.head? ≠ some z ∧ ∀ k, first[room * k]? ≠ some z := by
  have hzero : (l ++ first)[room * 0]? = l.head? := by
    rw [Nat.mul_zero, List.getElem?_append_left (by omega), List.head?_eq_getElem?]
  have hsucc : ∀ k, (l ++ first)[room * (k + 1)]? = first[room * k]? := by
    intro k
    rw [Nat.mul_succ, List.getElem?_append_right (by omega), hlen, Nat.add_sub_cancel]
  constructor
  · intro h
    refine ⟨hzero ▸ h 0, ?_⟩
    intro k
    rw [← hsucc k]
    exact h (k + 1)
  · rintro ⟨hhead, hfirst⟩ k
    cases k with
    | zero => rwa [hzero]
    | succ k =>
        rw [hsucc]
        exact hfirst k

omit [DecidableEq α] in
/-- A line that fits has only one such place. -/
theorem getElem?_iff_of_lt {room : Nat} {l : List α} (hlen : l.length < room) (z : α) :
    (∀ k, l[room * k]? ≠ some z) ↔ l.head? ≠ some z := by
  constructor
  · intro h
    have hzero := h 0
    rwa [Nat.mul_zero, ← List.head?_eq_getElem?] at hzero
  · intro h k
    cases k with
    | zero => rwa [Nat.mul_zero, ← List.head?_eq_getElem?]
    | succ k =>
        rw [Nat.mul_succ, List.getElem?_eq_none (by omega)]
        simp

/-- The first elements of the chunks are those at the multiples of the room in
the lines. -/
theorem head_chunks_iff {room : Nat} (hroom : 0 < room) {z : α} (hz : z ≠ nl)
    {calls : Nat} {s : List α} (hcalls : s.length ≤ calls) :
    (∀ c ∈ chunks nl room calls s, c.head? ≠ some z) ↔
      ∀ l ∈ s.splitOn nl, ∀ k, l[room * k]? ≠ some z := by
  refine chunks_induction (P := fun s cs => (∀ c ∈ cs, c.head? ≠ some z) ↔
    ∀ l ∈ s.splitOn nl, ∀ k, l[room * k]? ≠ some z) hroom (by simp) ?_ ?_ ?_ hcalls
  · intro l t cs hl hlen ih
    have hhead : (l ++ [nl]).head? ≠ some z ↔ l.head? ≠ some z := by
      cases l with
      | nil => simp [Ne.symm hz]
      | cons b l => simp
    rw [List.splitOn_append_cons_self_of_not_mem hl, List.forall_mem_cons,
      List.forall_mem_cons, ih, getElem?_iff_of_lt hlen, hhead]
  · intro l t cs hl hlen ih
    obtain ⟨first, more, hsplit⟩ := List.exists_cons_of_ne_nil (List.splitOn_ne_nil nl t)
    rw [hsplit, List.forall_mem_cons] at ih
    rw [splitOn_append hl, hsplit, List.modifyHead_cons, List.forall_mem_cons,
      List.forall_mem_cons, ih, getElem?_append_iff hroom hlen, and_assoc]
  · intro l hl hlen _
    rw [List.splitOn_eq_singleton hl, List.forall_mem_singleton, List.forall_mem_singleton,
      getElem?_iff_of_lt hlen]

/-! ## The buffer after a call of `fgets` -/

section Buffer

open Lpi.Verified.CData
open Lpi.Verified.CInt
open Lpi.Verified.CString

/-- `strlen(buffer) - 1`, which is a `size_t`. -/
def lastIndex (buffer : List UInt8) : Int :=
  IntType.ulong.wrap (((cString buffer).length : Int) - 1)

/-- Without a last character, the subtraction wraps around. -/
theorem lastIndex_of_nil {buffer : List UInt8} (h : cString buffer = []) :
    lastIndex buffer = 2 ^ 64 - 1 := by
  rw [lastIndex, h]
  decide

theorem lastIndex_of_ne_nil {buffer : List UInt8} (h : cString buffer ≠ [])
    (hlength : (cString buffer).length < 2 ^ 64) :
    lastIndex buffer = (cString buffer).length - 1 := by
  have hpos := List.length_pos_iff.2 h
  apply IntType.wrap_of_fits
  simp only [IntType.Fits, IntType.low, IntType.ulong, Bool.false_eq_true, if_false]
  omega

theorem toNat_lastIndex {buffer : List UInt8} (h : cString buffer ≠ [])
    (hlength : (cString buffer).length < 2 ^ 64) :
    (lastIndex buffer).toNat = (cString buffer).length - 1 := by
  have hpos := List.length_pos_iff.2 h
  rw [lastIndex_of_ne_nil h hlength]
  omega

/-- The string that is stored, whatever the buffer held before. -/
theorem cString_stored (stored old : List UInt8) :
    cString (overlay (stored ++ [0]) old) = cString (stored ++ [0]) := by
  rw [overlay]
  exact cString_append_of_mem (by simp) _

theorem length_cString_stored_le (stored : List UInt8) :
    (cString (stored ++ [0])).length ≤ stored.length := by
  have hlt := length_cString_lt (show 0 ∈ stored ++ [0] by simp)
  rw [List.length_append, List.length_singleton] at hlt
  omega

/-- The string is empty if and only if a NUL was read first. -/
theorem cString_stored_eq_nil {stored : List UInt8} (hne : stored ≠ []) :
    cString (stored ++ [0]) = [] ↔ stored.head? = some 0 := by
  obtain ⟨b, bs, rfl⟩ := List.exists_cons_of_ne_nil hne
  by_cases hb : b = 0
  · simp [cString, hb]
  · simp [cString, hb]

end Buffer

end Lpi.Verified.Lines
