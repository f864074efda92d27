import Lpi.Ports.NumericArgs
import Lpi.Verified.CData
import Lpi.Verified.Getopt

/-!
# Messages from the command line (`svipc/svmsg_send.c`, `svipc/svmsg_receive.c`)

One program sends a text with its NUL as a message, the other one receives a
message and prints it.  The receiver may ask for fewer bytes than were sent,
and with `MSG_NOERROR` it gets the first of them; then there is no NUL behind
them but what the buffer held before.  `round_trip_iff` says when this goes
well.
-/

namespace Lpi.Ports.SvmsgText

open Lpi.Verified.CData
open Lpi.Verified.CInt
open Lpi.Verified.CString
open Lpi.Verified.Getopt

/-- `MAX_MSG_TEXT_LENGTH`. -/
def maxMsgTextLength : Nat := 1024

/-! ## The queue -/

/-- A message; `text` is the part behind its type. -/
structure Message where
  type : Int
  text : List UInt8
  deriving DecidableEq, Repr

/-- The message that `msgrcv` takes for a type: the first one for 0, the first
one of the type or, with `MSG_EXCEPT`, of another type if it is positive, and
the first one of the lowest type up to its absolute value if it is negative. -/
def select (type : Int) (except : Bool) (queue : List Message) : Option Message :=
  if type = 0 then queue.head?
  else if 0 < type then
    queue.find? fun m => if except then m.type ≠ type else m.type = type
  else
    let few := queue.filter fun m => m.type ≤ -type
    few.find? fun m => few.all fun m' => m.type ≤ m'.type

/-- The system, apart from the queue: the text of `errno` if a call on the queue
with this identifier fails for other reasons than those below. -/
structure Kernel where
  error : Int → Option (List UInt8)

/-- The arguments of `msgrcv`. -/
structure Request where
  msqid : Int
  maxBytes : Int
  type : Int
  noerror : Bool
  nowait : Bool
  except : Bool
  deriving DecidableEq, Repr

/-- What `msgrcv` does: it takes a message, waits, or fails with the text of
`errno`. -/
inductive Delivery where
  | message (m : Message)
  | waiting
  | error (text : List UInt8)
  deriving DecidableEq, Repr

def msgrcv (k : Kernel) (r : Request) (queue : List Message) : Delivery :=
  match k.error r.msqid with
  | some e => .error e
  | none =>
      if 2 ^ 63 ≤ r.maxBytes then .error (ascii "Invalid argument")
      else match select r.type r.except queue with
        | none =>
            if r.nowait then .error (ascii "No message of desired type") else .waiting
        | some m =>
            if r.maxBytes < m.text.length ∧ r.noerror = false then
              .error (ascii "Argument list too long")
            else .message m

/-- `msgsnd`, unless it has to wait. -/
def msgsnd (k : Kernel) (msqid : Int) (m : Message) (queue : List Message) :
    Except (List UInt8) (List Message) :=
  match k.error msqid with
  | some e => .error e
  | none => if m.type < 1 then .error (ascii "Invalid argument") else .ok (queue ++ [m])

/-! ## `svmsg_send.c` -/

namespace Send

def usage (program : CStr) : List UInt8 :=
  ascii "Usage: " ++ program.bytes ++ ascii " [-n] msqid msg-type [msg-text]\n" ++
    ascii "    -n - Use IPC_NOWAIT flag\n"

def tooLong : List UInt8 :=
  ascii "msg-text too long (max: " ++ decimal maxMsgTextLength ++ ascii " chars)\n"

/-- The part of the message behind its type. -/
def body (text : Option CStr) : Except (List UInt8) (List UInt8) :=
  match text with
  | none => .ok []
  | some text =>
      if maxMsgTextLength < text.bytes.length + 1 then .error tooLong
      else .ok (text.bytes ++ [0])

/-- From the conversion of the arguments on. -/
def send (k : Kernel) (queue : List Message) (msqid type : CStr) (text : Option CStr) :
    Except (List UInt8) (List Message) :=
  match NumericArgs.SvmsgSend.getLong msqid with
  | .error e => .error e
  | .ok msqid =>
      match NumericArgs.SvmsgSend.getLong type with
      | .error e => .error e
      | .ok type =>
          match body text with
          | .error e => .error e
          | .ok bytes =>
              match msgsnd k (IntType.int.wrap msqid) ⟨type, bytes⟩ queue with
              | .error e => .error (ascii "msgsnd() failed - " ++ e ++ ascii "\n")
              | .ok queue => .ok queue

/-- The string of the options. -/
def optstring : List UInt8 := ascii "nh"

/-- One turn of the loop over the options, for the flag `IPC_NOWAIT`.  There is no `h`
among the cases. -/
def turn (program : CStr) : Bool → Found → Except (List UInt8) Bool
  | _, .flag 110 => .ok true
  | _, found => .error (found.diagnostic program ++ usage program)

/-- `argv[optind]` and so on. -/
def operands (argv : List CStr) : List CStr := (getopt optstring argv).2

/-- `main`: the queue after it, or a message with which the program fails.  The flag
matters only for a `msgsnd` that has to wait. -/
def main (k : Kernel) (program : CStr) (argv : List CStr) (queue : List Message) :
    Except (List UInt8) (List Message) :=
  match loop (turn program) (getopt optstring argv).1 false with
  | .error e => .error e
  | .ok _ =>
    match operands argv with
    | [msqid, type] => send k queue msqid type none
    | [msqid, type, text] => send k queue msqid type (some text)
    | _ => .error (ascii "Wrong number of arguments\n")

/-- The text on the command line. -/
def text (argv : List CStr) : List UInt8 := ((operands argv)[2]?.map CStr.bytes).getD []

end Send

/-! ## `svmsg_receive.c` -/

namespace Receive

/-- `printUsage`. -/
def usage (program : CStr) : List UInt8 :=
  ascii "Usage: " ++ program.bytes ++ ascii " [<options>] <msqid> [<max-bytes>]\n" ++
    ascii "Permitted options are:\n" ++
    ascii "    -e        - Use MSG_NOERROR flag\n" ++
    ascii "    -t <type> - Select msg of given type\n" ++
    ascii "    -n        - Use IPC_NOWAIT flag\n" ++
    ascii "    -x        - Use MSG_EXCEPT flag\n"

/-- The string of the options. -/
def optstring : List UInt8 := ascii "het:nx"

/-- One turn of the loop over the options; the request still lacks its arguments. -/
def turn (program : CStr) (r : Request) : Found → Except (List UInt8) Request
  | .flag 101 => .ok { r with noerror := true }
  | .value 116 optarg =>
      (NumericArgs.SvmsgReceive.getLong optarg).map fun type => { r with type := type }
  | .flag 110 => .ok { r with nowait := true }
  | .flag 120 => .ok { r with except := true }
  | found => .error (found.diagnostic program ++ usage program)

/-- The command line, up to the call of `msgrcv`.  `maxBytes` is a `size_t`. -/
def request (program : CStr) (argv : List CStr) : Except (List UInt8) Request :=
  match loop (turn program) (getopt optstring argv).1
      ⟨0, maxMsgTextLength, 0, false, false, false⟩ with
  | .error e => .error e
  | .ok r =>
      match (getopt optstring argv).2 with
      | [msqid] =>
          match NumericArgs.SvmsgReceive.getLong msqid with
          | .error e => .error e
          | .ok msqid => .ok { r with msqid := IntType.int.wrap msqid }
      | [msqid, maxBytes] =>
          match NumericArgs.SvmsgReceive.getLong msqid with
          | .error e => .error e
          | .ok msqid =>
              match NumericArgs.SvmsgReceive.getLong maxBytes with
              | .error e => .error e
              | .ok maxBytes =>
                  .ok { r with msqid := IntType.int.wrap msqid
                               maxBytes := IntType.ulong.wrap maxBytes }
      | _ => .error (ascii "Wrong number of arguments\n" ++ usage program)

/-- A run: how it ends (`none` while it waits), what it prints, the sizes it
gives to `msgrcv`, and the length and the body that it prints. -/
structure Result where
  exit : Option Exit
  stdout : List UInt8
  stderr : List UInt8
  sizes : List Int
  bodies : List (Nat × List UInt8)
  deriving DecidableEq

/-- What is printed of a message; `text` is what the buffer holds then. -/
def print (type : Int) (bytesReceived : Nat) (text : List UInt8) : List UInt8 :=
  ascii "Received: type=" ++ decimal type ++ ascii "; length=" ++ decimal bytesReceived ++
    (if 0 < bytesReceived then ascii "; body=" ++ cString text else []) ++ ascii "\n"

/-- The call of `msgrcv` and what follows; `old` is what `msg.text` holds
before. -/
def receive (k : Kernel) (queue : List Message) (old : List UInt8) (r : Request) : Result :=
  match msgrcv k r queue with
  | .error e =>
      ⟨some .failure, [], ascii "msgrcv() failed - " ++ e ++ ascii "\n", [r.maxBytes], []⟩
  | .waiting => ⟨none, [], [], [r.maxBytes], []⟩
  | .message m =>
      let received := m.text.take r.maxBytes.toNat
      let text := overlay received old
      ⟨some .success, print m.type received.length text, [], [r.maxBytes],
        if 0 < received.length then [(received.length, cString text)] else []⟩

def main (k : Kernel) (program : CStr) (argv : List CStr) (queue : List Message)
    (old : List UInt8) : Result :=
  match request program argv with
  | .error e => ⟨some .failure, [], e, [], []⟩
  | .ok r => receive k queue old r

end Receive

/-! ## What is sent -/

/-- Nothing, or the text with its NUL. -/
def IsSent (text bytes : List UInt8) : Prop :=
  0 ∉ text ∧ text.length < maxMsgTextLength ∧
    ((text = [] ∧ bytes = []) ∨ bytes = text ++ [0])

theorem send_spec {k : Kernel} {queue queue' : List Message} {msqid type : CStr}
    {text : Option CStr} (h : Send.send k queue msqid type text = .ok queue') :
    ∃ t bytes, Send.body text = .ok bytes ∧ queue' = queue ++ [⟨t, bytes⟩] := by
  unfold Send.send at h
  split at h
  · cases h
  · split at h
    · cases h
    · split at h
      · cases h
      · rename_i bytes hbody
        split at h
        · cases h
        · rename_i sent hsent
          obtain rfl := Except.ok.inj h
          unfold msgsnd at hsent
          split at hsent
          · cases hsent
          · split at hsent
            · cases hsent
            · exact ⟨_, bytes, hbody, (Except.ok.inj hsent).symm⟩

/-- The message is the text on the command line, with its NUL. -/
theorem isSent_of_send {k : Kernel} {program : CStr} {argv : List CStr} {m : Message}
    (h : Send.main k program argv [] = .ok [m]) : IsSent (Send.text argv) m.text := by
  unfold Send.main at h
  unfold Send.text
  generalize Send.operands argv = args at h ⊢
  split at h
  · cases h
  · split at h
    · obtain ⟨t, bytes, hbody, hqueue⟩ := send_spec h
      obtain rfl : bytes = [] := (Except.ok.inj hbody).symm
      obtain rfl : m = ⟨t, []⟩ := by simpa using hqueue
      exact ⟨by simp, by simp [maxMsgTextLength], Or.inl ⟨rfl, rfl⟩⟩
    · rename_i msqid type text
      obtain ⟨t, bytes, hbody, hqueue⟩ := send_spec h
      obtain rfl : m = ⟨t, bytes⟩ := by simpa using hqueue
      unfold Send.body at hbody
      simp only at hbody
      split at hbody
      · cases hbody
      · rename_i hlength
        refine ⟨text.nulFree, ?_, Or.inr (Except.ok.inj hbody).symm⟩
        exact Nat.lt_of_succ_le (Nat.not_lt.1 hlength)
    · cases h

/-! ## What is received -/

theorem mem_of_select {type : Int} {except : Bool} {queue : List Message} {m : Message}
    (h : select type except queue = some m) : m ∈ queue := by
  unfold select at h
  split at h
  · exact List.mem_of_head? h
  · split at h
    · exact List.mem_of_find?_eq_some h
    · exact List.mem_of_mem_filter (List.mem_of_find?_eq_some h)

/-- The options say nothing about the size. -/
theorem maxBytes_turn {program : CStr} {r r' : Request} {found : Found}
    (h : Receive.turn program r found = .ok r') : r'.maxBytes = r.maxBytes := by
  unfold Receive.turn at h
  split at h
  · obtain rfl := Except.ok.inj h
    rfl
  · rename_i optarg
    cases htype : NumericArgs.SvmsgReceive.getLong optarg with
    | error e => simp [htype, Except.map] at h
    | ok type =>
        rw [htype] at h
        obtain rfl := Except.ok.inj h
        rfl
  · obtain rfl := Except.ok.inj h
    rfl
  · obtain rfl := Except.ok.inj h
    rfl
  · cases h

theorem maxBytes_options {program : CStr} {found : List Found} {r r' : Request}
    (h : loop (Receive.turn program) found r = .ok r') : r'.maxBytes = r.maxBytes :=
  loop_invariant (I := fun v => v.maxBytes = r.maxBytes)
    (fun _ _ _ hv hturn => (maxBytes_turn hturn).trans hv) rfl h

/-- A `size_t` is not negative. -/
theorem maxBytes_nonneg {program : CStr} {argv : List CStr} {r : Request}
    (h : Receive.request program argv = .ok r) : 0 ≤ r.maxBytes := by
  unfold Receive.request at h
  split at h
  · cases h
  · rename_i o hoptions
    have hmax := maxBytes_options hoptions
    split at h
    · split at h
      · cases h
      · obtain rfl := Except.ok.inj h
        rw [hmax, maxMsgTextLength]
        decide
    · split at h
      · cases h
      · split at h
        · cases h
        · obtain rfl := Except.ok.inj h
          exact (IntType.wrap_fits .ulong _).1
    · cases h

/-- The message is taken, as a whole or cut. -/
def Taken (k : Kernel) (r : Request) (m : Message) : Prop :=
  k.error r.msqid = none ∧ select r.type r.except [m] = some m ∧
    (m.text.length ≤ r.maxBytes ∨ r.noerror = true)

/-- The message is taken and cut inside the text, and the byte that the buffer
held behind what is stored is not a NUL. -/
def Stale (k : Kernel) (r : Request) (m : Message) (text old : List UInt8) : Prop :=
  Taken k r m ∧ 0 < r.maxBytes ∧ r.maxBytes ≤ text.length ∧
    old[r.maxBytes.toNat]? ≠ some 0

/-- No size is larger than the buffer, and a body that is printed is the text,
cut to the length that was received. -/
def RoundTrips (text : List UInt8) (result : Receive.Result) : Prop :=
  (∀ size ∈ result.sizes, size ≤ maxMsgTextLength) ∧
    ∀ length body, (length, body) ∈ result.bodies → body = text.take length

section RoundTrip

variable {k : Kernel} {r : Request} {m : Message} {text old : List UInt8}

theorem msgrcv_of_taken (h : Taken k r m) (hsize : r.maxBytes < 2 ^ 63) :
    msgrcv k r [m] = .message m := by
  obtain ⟨herror, hselect, hfits⟩ := h
  have hbig : ¬ (r.maxBytes < m.text.length ∧ r.noerror = false) := by
    rw [not_and_or, Int.not_lt, Bool.not_eq_false]
    exact hfits
  simp only [msgrcv, herror, hselect, if_neg hbig, if_neg (Int.not_le.2 hsize)]

theorem msgrcv_of_not_taken (h : ¬ Taken k r m) (m' : Message) :
    msgrcv k r [m] ≠ .message m' := by
  intro hmessage
  unfold msgrcv at hmessage
  split at hmessage
  · cases hmessage
  · rename_i herror
    split at hmessage
    · cases hmessage
    · split at hmessage
      · split at hmessage <;> cases hmessage
      · rename_i m₁ hselect
        split at hmessage
        · cases hmessage
        · rename_i hbig
          obtain rfl := List.mem_singleton.1 (mem_of_select hselect)
          rw [not_and_or, Int.not_lt, Bool.not_eq_false] at hbig
          exact h ⟨herror, hselect, hbig⟩

theorem sizes_receive : (Receive.receive k [m] old r).sizes = [r.maxBytes] := by
  unfold Receive.receive
  split <;> rfl

/-- Without a message, there is no body. -/
theorem bodies_of_not_taken (h : ¬ Taken k r m) :
    (Receive.receive k [m] old r).bodies = [] := by
  unfold Receive.receive
  split
  · rfl
  · rfl
  · rename_i m' hmessage
    exact absurd hmessage (msgrcv_of_not_taken h m')

theorem bodies_of_taken (h : Taken k r m) (hsize : r.maxBytes < 2 ^ 63) :
    (Receive.receive k [m] old r).bodies =
      if 0 < (m.text.take r.maxBytes.toNat).length then
        [((m.text.take r.maxBytes.toNat).length,
          cString (overlay (m.text.take r.maxBytes.toNat) old))]
      else [] := by
  simp only [Receive.receive, msgrcv_of_taken h hsize]

/-- A message that was not cut is printed up to its own NUL. -/
theorem body_of_whole (hsent : IsSent text m.text) (hlength : text.length < r.maxBytes)
    (hpos : 0 < (m.text.take r.maxBytes.toNat).length) :
    cString (overlay (m.text.take r.maxBytes.toNat) old) =
      text.take (m.text.take r.maxBytes.toNat).length := by
  obtain ⟨hnul, _, ⟨_, hbytes⟩ | hbytes⟩ := hsent
  · rw [hbytes, List.take_nil] at hpos
    exact absurd hpos (Nat.lt_irrefl 0)
  · have hwhole : (text ++ [0]).take r.maxBytes.toNat = text ++ [0] := by
      apply List.take_of_length_le
      rw [List.length_append, List.length_singleton]
      omega
    rw [hbytes, hwhole, overlay, List.append_assoc, List.singleton_append,
      cString_append_zero hnul, List.take_of_length_le (by simp)]

/-- A message that was cut is printed up to the next NUL in the buffer. -/
theorem body_of_cut (hsent : IsSent text m.text) (hpos : 0 < r.maxBytes)
    (hcut : r.maxBytes ≤ text.length) (old : List UInt8) :
    m.text.take r.maxBytes.toNat = text.take r.maxBytes.toNat ∧
      cString (overlay (text.take r.maxBytes.toNat) old) =
        text.take r.maxBytes.toNat ++ cString (old.drop r.maxBytes.toNat) := by
  obtain ⟨hnul, _, ⟨hempty, _⟩ | hbytes⟩ := hsent
  · rw [hempty, List.length_nil] at hcut
    omega
  · have hle : r.maxBytes.toNat ≤ text.length := by omega
    refine ⟨by rw [hbytes, List.take_append_of_le_length hle], ?_⟩
    rw [overlay, List.length_take, Nat.min_eq_left hle]
    exact cString_append (fun h => hnul (List.mem_of_mem_take h)) _

/-- There is nothing between a place and the next NUL if the NUL is there. -/
theorem cString_drop_eq_nil {i : Nat} (h : i < old.length) :
    cString (old.drop i) = [] ↔ old[i]? = some 0 := by
  rw [List.drop_eq_getElem_cons h, List.getElem?_eq_getElem h, Option.some.injEq]
  by_cases hzero : old[i] = 0
  · simp [cString, hzero]
  · simp [cString, hzero, h]

/-- A body is right if nothing of the old bytes is printed. -/
theorem bodies_iff_of_cut (hsent : IsSent text m.text) (hold : old.length = maxMsgTextLength)
    (hpos : 0 < r.maxBytes) (hcut : r.maxBytes ≤ text.length) (htaken : Taken k r m)
    (hsize : r.maxBytes < 2 ^ 63) :
    (∀ length body, (length, body) ∈ (Receive.receive k [m] old r).bodies →
        body = text.take length) ↔
      old[r.maxBytes.toNat]? = some 0 := by
  obtain ⟨htake, hbody⟩ := body_of_cut (r := r) (m := m) hsent hpos hcut old
  have hlength : (text.take r.maxBytes.toNat).length = r.maxBytes.toNat := by
    rw [List.length_take]
    omega
  have hinside : r.maxBytes.toNat < old.length := by
    have hshort := hsent.2.1
    omega
  rw [bodies_of_taken htaken hsize, htake, hlength, if_pos (by omega), hbody,
    ← cString_drop_eq_nil hinside]
  constructor
  · intro hall
    exact List.append_right_eq_self.1 (hall _ _ List.mem_cons_self)
  · intro hnil length body hmem
    obtain ⟨rfl, rfl⟩ := Prod.mk.inj (List.mem_singleton.1 hmem)
    rw [hnil, List.append_nil]

/-- A message that is not cut inside its text is printed as it was sent. -/
theorem bodies_of_whole (hsent : IsSent text m.text)
    (hwhole : r.maxBytes = 0 ∨ text.length < r.maxBytes) (htaken : Taken k r m)
    (hsize : r.maxBytes < 2 ^ 63) (length : Nat) (body : List UInt8)
    (hmem : (length, body) ∈ (Receive.receive k [m] old r).bodies) :
    body = text.take length := by
  rw [bodies_of_taken htaken hsize] at hmem
  split at hmem
  · rename_i hpos
    obtain ⟨rfl, rfl⟩ := Prod.mk.inj (List.mem_singleton.1 hmem)
    rcases hwhole with hzero | hlength
    · rw [hzero] at hpos
      exact absurd hpos (by simp)
    · exact body_of_whole hsent hlength hpos
  · exact absurd hmem List.not_mem_nil

end RoundTrip

/-- **When the text comes back.**  For every text that is sent to an empty queue,
every command line of the receiver and all that its buffer may hold before: no
size is larger than the buffer and a body is the text, cut to the length that
was received, if and only if `max-bytes` is at most 1024 and the message is not
cut in front of a byte that is not a NUL. -/
theorem round_trip_iff (k : Kernel) (sender receiver : CStr) (sendArgv : List CStr)
    (m : Message) (argv : List CStr) (r : Request) (old : List UInt8)
    (hsend : Send.main k sender sendArgv [] = .ok [m])
    (hrequest : Receive.request receiver argv = .ok r)
    (hold : old.length = maxMsgTextLength) :
    RoundTrips (Send.text sendArgv) (Receive.main k receiver argv [m] old) ↔
      r.maxBytes ≤ maxMsgTextLength ∧ ¬ Stale k r m (Send.text sendArgv) old := by
  have hsent := isSent_of_send hsend
  have hnonneg := maxBytes_nonneg hrequest
  simp only [RoundTrips, Receive.main, hrequest, sizes_receive, List.mem_singleton,
    forall_eq]
  apply and_congr_right
  intro hsize
  have hsmall : r.maxBytes < 2 ^ 63 := by
    rw [maxMsgTextLength] at hsize
    omega
  by_cases htaken : Taken k r m
  · by_cases hcut : 0 < r.maxBytes ∧ r.maxBytes ≤ (Send.text sendArgv).length
    · rw [bodies_iff_of_cut hsent hold hcut.1 hcut.2 htaken hsmall]
      constructor
      · intro hzero hstale
        exact hstale.2.2.2 hzero
      · intro hnot
        by_contra hne
        exact hnot ⟨htaken, hcut.1, hcut.2, hne⟩
    · constructor
      · intro _ hstale
        exact hcut ⟨hstale.2.1, hstale.2.2.1⟩
      · intro _
        exact bodies_of_whole hsent (by omega) htaken hsmall
  · rw [bodies_of_not_taken htaken]
    constructor
    · intro _ hstale
      exact htaken hstale.1
    · intro _ length body hmem
      exact absurd hmem List.not_mem_nil

def svmsgSendName : CStr := ⟨ascii "svmsg_send", by decide⟩
def svmsgReceiveName : CStr := ⟨ascii "svmsg_receive", by decide⟩
def queueFive : CStr := ⟨ascii "5", by decide⟩
def typeOne : CStr := ⟨ascii "0x1", by decide⟩
def helloText : CStr := ⟨ascii "hello", by decide⟩
def twoBytes : CStr := ⟨ascii "0x2", by decide⟩

/-- A system on which no call fails. -/
def ready : Kernel := ⟨fun _ => none⟩

def dashE : CStr := ⟨ascii "-e", by decide⟩

/-- The first two bytes of a text, in a buffer of zeros. -/
theorem round_trip_zeros :
    RoundTrips (ascii "hello") (Receive.main ready svmsgReceiveName [dashE, queueFive, twoBytes]
      [⟨1, ascii "hello" ++ [0]⟩] (List.replicate maxMsgTextLength 0)) :=
  (round_trip_iff ready svmsgSendName svmsgReceiveName [queueFive, typeOne, helloText]
    ⟨1, ascii "hello" ++ [0]⟩ [dashE, queueFive, twoBytes] ⟨5, 2, 0, true, false, false⟩
    (List.replicate maxMsgTextLength 0) (by decide +kernel) (by decide +kernel)
    List.length_replicate).2 (by
      refine ⟨by decide, ?_⟩
      rintro ⟨_, _, _, hstale⟩
      exact hstale (by rw [List.getElem?_replicate]; rfl))

def manyBytes : CStr := ⟨ascii "2000", by decide⟩

/-- The first two bytes of a text, in front of an older one; and a size that is
larger than the buffer. -/
theorem stale_bytes_printed :
    Send.main ready svmsgSendName [queueFive, typeOne, helloText] [] =
        .ok [⟨1, ascii "hello" ++ [0]⟩] ∧
      (Receive.main ready svmsgReceiveName [dashE, queueFive, twoBytes]
        [⟨1, ascii "hello" ++ [0]⟩] (ascii "secret" ++ List.replicate 1018 0)).stdout =
        ascii "Received: type=1; length=2; body=hecret\n" ∧
      ¬ RoundTrips (ascii "hello") (Receive.main ready svmsgReceiveName
        [dashE, queueFive, twoBytes] [⟨1, ascii "hello" ++ [0]⟩]
        (ascii "secret" ++ List.replicate 1018 0)) ∧
      (Receive.main ready svmsgReceiveName [queueFive, manyBytes]
        [⟨1, ascii "hello" ++ [0]⟩] []).sizes = [2000] := by
  refine ⟨by decide +kernel, by decide +kernel, ?_, by decide +kernel⟩
  rintro ⟨_, hbodies⟩
  have hbody := hbodies 2 (ascii "hecret") (by decide +kernel)
  exact absurd hbody (by decide)

end Lpi.Ports.SvmsgText
