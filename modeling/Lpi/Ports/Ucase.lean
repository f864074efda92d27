import Lpi.Verified.CString
import Lpi.Verified.Pieces

/-!
# Upper case in a small buffer

What the two upper-case services (`sockets/ud_case_*.c` over UNIX sockets,
`sockets/i6d_ucase_*.c` over UDP) have in common.  A datagram is received
into a buffer of ten bytes, of which those behind the datagram keep what an
earlier one left there; the server changes the bytes it received in place and
sends them back, the client prints what it received.

`response` is what should come back for a message, and `take_upcase_fill` and
`text_fill` say that neither the server nor the client reads anything that
was left in the buffer.
-/

namespace Lpi.Ports.Ucase

open Lpi.Verified.CString
open Lpi.Verified.Pieces

/-- `BUFFER_SIZE`, the same in all four programs. -/
def bufferSize : Nat := 10

/-- `toupper` in the C locale. -/
def toupper (b : UInt8) : UInt8 := if 97 ≤ b ∧ b ≤ 122 then b - 32 else b

/-- A buffer of zero bytes. -/
def zeroBuffer : Buffer bufferSize := ⟨List.replicate bufferSize 0, rfl⟩

/-- What `recvfrom` returns for a datagram; the rest of a longer one is
lost. -/
def numBytes (datagram : List UInt8) : Nat := (datagram.take bufferSize).length

/-- The server's loop over the bytes it has received. -/
def upcase (b : Buffer bufferSize) (n : Nat) : Buffer bufferSize where
  bytes := (b.bytes.take n).map toupper ++ b.bytes.drop n
  length_eq := by
    have hlen := b.length_eq
    simp only [List.length_append, List.length_map, List.length_take,
      List.length_drop]
    omega

/-- The text `%.*s` prints of `n` bytes of the buffer. -/
def text (b : Buffer bufferSize) (n : Nat) : List UInt8 :=
  cString (b.bytes.take n)

/-- The first `BUFFER_SIZE` bytes of a message in upper case. -/
def response (msg : List UInt8) : List UInt8 :=
  (msg.take bufferSize).map toupper

/-- The answers to a client's messages, with their numbers. -/
def responses (msgs : List CStr) : List (Nat × List UInt8) :=
  msgs.mapIdx fun i m => (i + 1, response m.bytes)

theorem toupper_ne_zero {b : UInt8} (h : b ≠ 0) : toupper b ≠ 0 := by
  unfold toupper
  split
  · rename_i hletter
    intro hzero
    have hlow : 97 ≤ b.toNat := hletter.1
    have hhigh : b.toNat ≤ 122 := hletter.2
    have hsub := congrArg UInt8.toNat hzero
    have hthirtyTwo : (32 : UInt8) ≤ b := by
      show 32 ≤ b.toNat
      omega
    rw [UInt8.toNat_sub_of_le _ _ hthirtyTwo] at hsub
    have h32 : (32 : UInt8).toNat = 32 := rfl
    have h0 : (0 : UInt8).toNat = 0 := rfl
    omega
  · exact h

theorem zero_notMem_response {msg : List UInt8} (h : 0 ∉ msg) :
    0 ∉ response msg := by
  intro hmem
  obtain ⟨b, hb, hzero⟩ := List.mem_map.1 hmem
  have hne : b ≠ 0 := by
    rintro rfl
    exact h (List.mem_of_mem_take hb)
  exact toupper_ne_zero hne hzero

theorem numBytes_le (datagram : List UInt8) : numBytes datagram ≤ bufferSize := by
  unfold numBytes
  rw [List.length_take]
  omega

/-- A response is never cut. -/
theorem take_response (msg : List UInt8) :
    (response msg).take bufferSize = response msg := by
  apply List.take_of_length_le
  rw [response, List.length_map]
  exact numBytes_le msg

theorem length_responses (msgs : List CStr) :
    (responses msgs).length = msgs.length :=
  List.length_mapIdx

theorem take_responses_succ {msgs : List CStr} {i : Nat} {m : CStr}
    (hm : msgs[i]? = some m) :
    (responses msgs).take (i + 1) =
      (responses msgs).take i ++ [(i + 1, response m.bytes)] := by
  rw [List.take_add_one, responses, List.getElem?_mapIdx, hm]
  rfl

/-- What the server sends back. -/
theorem take_upcase {b : Buffer bufferSize} {n : Nat} (hn : n ≤ bufferSize) :
    (upcase b n).bytes.take n = (b.bytes.take n).map toupper := by
  have hlen : ((b.bytes.take n).map toupper).length = n := by
    rw [List.length_map, List.length_take, b.length_eq, Nat.min_eq_left hn]
  unfold upcase
  rw [List.take_append_of_le_length (by omega), List.take_of_length_le (by omega)]

theorem take_upcase_fill (b : Buffer bufferSize) (datagram : List UInt8) :
    (upcase (b.fill datagram) (numBytes datagram)).bytes.take
      (numBytes datagram) = response datagram := by
  rw [take_upcase (numBytes_le datagram)]
  unfold numBytes
  rw [b.take_fill]
  rfl

/-- What the client prints. -/
theorem text_fill (b : Buffer bufferSize) {datagram : List UInt8}
    (h : 0 ∉ datagram) :
    text (b.fill datagram) (numBytes datagram) = datagram.take bufferSize := by
  unfold text numBytes
  rw [b.take_fill]
  apply List.takeWhile_eq_self_iff.2
  intro x hx
  rw [decide_eq_true_iff]
  rintro rfl
  exact h (List.mem_of_mem_take hx)

end Lpi.Ports.Ucase
