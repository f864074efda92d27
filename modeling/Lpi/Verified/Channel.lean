import Mathlib.Data.List.Basic

/-!
# One direction of a stream connection

The sender appends bytes and may close; the receiver's `read` returns some of
the bytes it has not had, at least one, or nothing at all once the sender has
closed and everything was read.  How many bytes it returns is up to the
network.
-/

namespace Lpi.Verified.Channel

/-- Everything sent, how much of it was read, and whether the sender has
closed. -/
structure Stream where
  sent : List UInt8
  taken : Nat
  closed : Bool
  deriving DecidableEq

/-- A new connection. -/
def Stream.new : Stream := ⟨[], 0, false⟩

/-- What has not been read. -/
def Stream.unread (s : Stream) : List UInt8 := s.sent.drop s.taken

def Stream.write (s : Stream) (bs : List UInt8) : Stream :=
  { s with sent := s.sent ++ bs }

def Stream.close (s : Stream) : Stream := { s with closed := true }

/-- A `read` of up to `cap` bytes that returns `n`. -/
def Stream.read (s : Stream) (cap n : Nat) : Option (List UInt8 × Stream) :=
  if n = 0 then
    if s.unread = [] ∧ s.closed then some ([], s) else none
  else if n ≤ cap ∧ n ≤ s.unread.length then
    some (s.unread.take n, { s with taken := s.taken + n })
  else none

@[simp] theorem sent_write (s : Stream) (bs : List UInt8) :
    (s.write bs).sent = s.sent ++ bs := rfl

@[simp] theorem sent_close (s : Stream) : s.close.sent = s.sent := rfl

/-- A `read` returns the end of the stream, or some of the bytes in front. -/
theorem read_cases {s t : Stream} {cap n : Nat} {bs : List UInt8}
    (h : s.read cap n = some (bs, t)) :
    (n = 0 ∧ s.unread = [] ∧ s.closed = true ∧ bs = [] ∧ t = s) ∨
    (n ≠ 0 ∧ n ≤ cap ∧ n ≤ s.unread.length ∧ bs = s.unread.take n ∧
      t = { s with taken := s.taken + n }) := by
  unfold Stream.read at h
  split at h
  · rename_i hn
    simp only [Option.ite_none_right_eq_some, Option.some.injEq,
      Prod.mk.injEq] at h
    obtain ⟨⟨hunread, hclosed⟩, rfl, rfl⟩ := h
    exact Or.inl ⟨hn, hunread, hclosed, rfl, rfl⟩
  · rename_i hn
    simp only [Option.ite_none_right_eq_some, Option.some.injEq,
      Prod.mk.injEq] at h
    obtain ⟨⟨hcap, hlen⟩, rfl, rfl⟩ := h
    exact Or.inr ⟨hn, hcap, hlen, rfl, rfl⟩

theorem sent_of_read {s t : Stream} {cap n : Nat} {bs : List UInt8}
    (h : s.read cap n = some (bs, t)) : t.sent = s.sent := by
  rcases read_cases h with ⟨_, _, _, _, rfl⟩ | ⟨_, _, _, _, rfl⟩
  · rfl
  · rfl

/-- A `read` that returns as many bytes as were ever sent returns those. -/
theorem eq_sent_of_read {s t : Stream} {cap n : Nat} {bs : List UInt8}
    (h : s.read cap n = some (bs, t)) (hn : n ≠ 0) (hle : s.sent.length ≤ n) :
    bs = s.sent := by
  rcases read_cases h with ⟨hzero, _⟩ | ⟨_, _, hlen, hbs, _⟩
  · exact absurd hzero hn
  · have htaken : s.taken = 0 := by
      rw [Stream.unread, List.length_drop] at hlen
      omega
    have hunread : s.unread = s.sent := by
      rw [Stream.unread, htaken, List.drop_zero]
    rw [hbs, hunread, List.take_of_length_le hle]

theorem length_of_read {s t : Stream} {cap n : Nat} {bs : List UInt8}
    (h : s.read cap n = some (bs, t)) : bs.length = n := by
  rcases read_cases h with ⟨hzero, _, _, hbs, _⟩ | ⟨_, _, hlen, hbs, _⟩
  · rw [hbs, hzero, List.length_nil]
  · rw [hbs, List.length_take, Nat.min_eq_left hlen]

end Lpi.Verified.Channel
