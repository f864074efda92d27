import Lpi.Verified.CData
import Lpi.Verified.CString
import Lpi.Verified.RecordWalk

/-!
# Displaying inotify events (`inotify/src/demo_inotify.c`)

The program watches files and reads events, several of them with one `read()`.
An event is a header of 16 bytes, the last four of which are the number of
bytes of the name that follows.  The loop over the events of a buffer advances
by the size of the header and this number.

`events_printed` says that the loop is the inverse of the encoding of the
events, whatever the buffer held before.
-/

namespace Lpi.Ports.DemoInotify

open Lpi.Verified.CData
open Lpi.Verified.CString
open Lpi.Verified.RecordWalk

/-! ## The program -/

/-- `sizeof(struct inotify_event)`. -/
def sizeofInotifyEvent : Nat := 16

/-- `NAME_MAX`. -/
def nameMax : Nat := 255

/-- `BUFFER_LENGTH`. -/
def bufferLength : Nat := 10 * (sizeofInotifyEvent + nameMax + 1)

/-- The fixed part of a `struct inotify_event`. -/
structure Header where
  wd : Int32
  mask : UInt32
  cookie : UInt32
  len : UInt32
  deriving DecidableEq

/-- The `uint32_t` with the given object representation. -/
def uint32OfBytes (bs : List UInt8) : UInt32 := (intOfBytes bs).toUInt32

/-- The header at a pointer, of the bytes from there on. -/
def header (event : List UInt8) : Header where
  wd := intOfBytes (event.take 4)
  mask := uint32OfBytes ((event.drop 4).take 4)
  cookie := uint32OfBytes ((event.drop 8).take 4)
  len := uint32OfBytes ((event.drop 12).take 4)

/-- `event->name`. -/
def namePart (event : List UInt8) : List UInt8 := event.drop sizeofInotifyEvent

/-- The bits of the mask and their texts, in the order they are printed. -/
def maskTexts : List (UInt32 × String) :=
  [(0x1, "IN_ACCESS "), (0x4, "IN_ATTRIB "), (0x10, "IN_CLOSE_NOWRITE "),
    (0x8, "IN_CLOSE_WRITE "), (0x100, "IN_CREATE "), (0x200, "IN_DELETE "),
    (0x400, "IN_DELETE_SELF "), (0x8000, "IN_IGNORED "), (0x40000000, "IN_ISDIR "),
    (0x2, "IN_MODIFY "), (0x800, "IN_MOVE_SELF "), (0x40, "IN_MOVED_FROM "),
    (0x80, "IN_MOVED_TO "), (0x20, "IN_OPEN "), (0x4000, "IN_Q_OVERFLOW "),
    (0x2000, "IN_UNMOUNT ")]

/-- The text for an event with the given header, and `name` being what `%s`
finds. -/
def eventText (h : Header) (name : List UInt8) : List UInt8 :=
  ascii "    wd = " ++ decimal h.wd.toInt ++ ascii "; " ++
    (if 0 < h.len then ascii "name = " ++ name ++ ascii "; " else []) ++
    (if 0 < h.cookie then ascii "cookie = " ++ decimal h.cookie.toInt32.toInt ++ ascii "; "
      else []) ++
    (maskTexts.flatMap fun m => if h.mask &&& m.1 ≠ 0 then ascii m.2 else []) ++
    ascii "\n"

/-- What is printed for the event at a pointer. -/
def printInotifyEvent (event : List UInt8) : List UInt8 :=
  eventText (header event) (cString (namePart event))

/-- One call of `printInotifyEvent`: the event that the pointer points to, the
places of its header, and those of the bytes that `%s` reads. -/
structure Call where
  header : Header
  name : List UInt8
  headerReads : List Nat
  nameReads : List Nat
  deriving DecidableEq

/-- The call with the pointer at place `p`. -/
def callAt (buffer : List UInt8) (p : Nat) : Call :=
  let event := buffer.drop p
  { header := header event
    name := (namePart event).take (header event).len.toNat
    headerReads := (List.range sizeofInotifyEvent).map (p + ·)
    nameReads :=
      if 0 < (header event).len then
        (List.range ((cString (namePart event)).length + 1)).map
          (p + sizeofInotifyEvent + ·)
      else [] }

/-- `sizeof(struct inotify_event) + ((struct inotify_event *) p)->len`. -/
def stride (event : List UInt8) : Nat := sizeofInotifyEvent + (header event).len.toNat

structure State where
  buffer : List UInt8
  calls : List Call
  stdout : List UInt8
  stderr : List UInt8
  deriving DecidableEq

/-- The body of the loop over the events. -/
def State.event (buffer : List UInt8) (s : State) (p : Nat) : State :=
  { s with calls := s.calls ++ [callAt buffer p]
           stdout := s.stdout ++ printInotifyEvent (buffer.drop p) }

/-- `read()` has stored these bytes, and their number is printed. -/
def State.received (s : State) (bytes : List UInt8) : State :=
  { s with buffer := overlay bytes s.buffer
           stdout := s.stdout ++ ascii "Read " ++ decimal bytes.length ++
             ascii " bytes from inotify fd\n" }

/-- What follows a successful `read()`, with at most `fuel` tests of the
condition of the loop. -/
def State.events (fuel : Nat) (s : State) (bytes : List UInt8) : Option State :=
  loop stride (State.event (s.received bytes).buffer) (s.received bytes).buffer
    bytes.length fuel 0 (s.received bytes)

/-- The calls of the program.  An error is the text of `errno`; `errno i` is
this text after the `i`-th `read()`, which gets the size of the buffer. -/
structure Kernel where
  inotifyInit : Except (List UInt8) Int32
  inotifyAddWatch : CStr → Except (List UInt8) Int32
  read : Nat → Nat → Option (List UInt8)
  errno : Nat → List UInt8

/-- A state of the run: the program has ended, or it reads again. -/
structure Result where
  exit : Option Exit
  state : State
  deriving DecidableEq

def readFailed (inotifyFd : Int32) (e : List UInt8) : List UInt8 :=
  ascii "Failed to read() inotify fd " ++ decimal inotifyFd.toInt ++ ascii " - " ++ e ++
    ascii "\n"

/-- The given number of rounds of the endless loop, from the `i`-th on. -/
def rounds (k : Kernel) (fuel : Nat) (inotifyFd : Int32) :
    Nat → Nat → State → Option Result
  | 0, _, s => some ⟨none, s⟩
  | n + 1, i, s =>
      match k.read i bufferLength with
      | none | some [] => some ⟨some .failure,
          { s with stderr := s.stderr ++ readFailed inotifyFd (k.errno i) }⟩
      | some (b :: bs) =>
          (s.events fuel (b :: bs)).bind (rounds k fuel inotifyFd n (i + 1))

def watchFailed (filepath : CStr) (e : List UInt8) : List UInt8 :=
  ascii "Failed to add inotify watch to file " ++ filepath.bytes ++ ascii " - " ++ e ++
    ascii "\n"

/-- The loop that adds the watches; its text, or its text and a message. -/
def addWatches (k : Kernel) :
    List CStr → List UInt8 → Except (List UInt8 × List UInt8) (List UInt8)
  | [], out => .ok out
  | filepath :: rest, out =>
      match k.inotifyAddWatch filepath with
      | .error e => .error (out, watchFailed filepath e)
      | .ok wd => addWatches k rest
          (out ++ ascii "Watching " ++ filepath.bytes ++ ascii " using wd " ++
            decimal wd.toInt ++ ascii "\n")

/-- `main` up to the given number of rounds, with what is in the buffer at
first. -/
def main (k : Kernel) (fuel n : Nat) (program : CStr) (args : List CStr)
    (buffer : List UInt8) : Option Result :=
  if args = [] ∨ (args.head?.map CStr.bytes = some (ascii "-h")) then
    some ⟨some .failure, ⟨buffer, [], [],
      ascii "Usage: " ++ program.bytes ++ ascii " <file>...\n"⟩⟩
  else match k.inotifyInit with
    | .error e => some ⟨some .failure, ⟨buffer, [], [],
        ascii "Failed to initialize inotify instance - " ++ e ++ ascii "\n"⟩⟩
    | .ok inotifyFd =>
      match addWatches k args [] with
      | .error (out, message) => some ⟨some .failure, ⟨buffer, [], out, message⟩⟩
      | .ok out => rounds k fuel inotifyFd n 0 ⟨buffer, [], out, []⟩

/-! ## Events and their encoding -/

/-- An event; the number of bytes of its name is a `uint32_t`. -/
structure Event where
  wd : Int32
  mask : UInt32
  cookie : UInt32
  name : List UInt8
  lenFits : name.length < 2 ^ 32

def Event.header (e : Event) : Header :=
  ⟨e.wd, e.mask, e.cookie, UInt32.ofNat e.name.length⟩

def bytesOfUint32 (x : UInt32) : List UInt8 := bytesOfInt x.toInt32

/-- The header and the name. -/
def Event.encode (e : Event) : List UInt8 :=
  bytesOfInt e.wd ++ (bytesOfUint32 e.mask ++ (bytesOfUint32 e.cookie ++
    (bytesOfUint32 (UInt32.ofNat e.name.length) ++ e.name)))

/-- A name that is there ends with a NUL, as the kernel writes it. -/
def Event.Terminated (e : Event) : Prop := e.name = [] ∨ 0 ∈ e.name

instance (e : Event) : Decidable e.Terminated := inferInstanceAs (Decidable (_ ∨ _))

@[simp] theorem uint32OfBytes_bytesOfUint32 (x : UInt32) :
    uint32OfBytes (bytesOfUint32 x) = x := by
  rw [uint32OfBytes, bytesOfUint32, intOfBytes_bytesOfInt]
  rfl

@[simp] theorem length_bytesOfUint32 (x : UInt32) : (bytesOfUint32 x).length = 4 :=
  length_bytesOfInt x.toInt32

theorem length_encode (e : Event) :
    e.encode.length = sizeofInotifyEvent + e.name.length := by
  simp only [Event.encode, List.length_append, length_bytesOfInt, length_bytesOfUint32,
    sizeofInotifyEvent]
  omega

theorem header_encode (e : Event) (rest : List UInt8) :
    header (e.encode ++ rest) = e.header := by
  simp [header, Event.header, Event.encode, List.drop_append,
    List.drop_eq_nil_of_le]

theorem namePart_encode (e : Event) (rest : List UInt8) :
    namePart (e.encode ++ rest) = e.name ++ rest := by
  simp [namePart, Event.encode, sizeofInotifyEvent, List.drop_append,
    List.drop_eq_nil_of_le]

theorem Event.toNat_len (e : Event) : e.header.len.toNat = e.name.length := by
  rw [Event.header, UInt32.toNat_ofNat_of_lt' e.lenFits]

theorem delimits : Delimits stride Event.encode where
  stride_eq := by
    intro e rest
    rw [stride, header_encode, e.toNat_len, length_encode]
  pos := by
    intro e
    rw [length_encode, sizeofInotifyEvent]
    omega

/-- There are bytes if there are events. -/
theorem flatMap_encode_ne_nil {events : List Event} (h : events ≠ []) :
    events.flatMap Event.encode ≠ [] := by
  cases events with
  | nil => exact absurd rfl h
  | cons e events =>
      intro hnil
      have hlength := congrArg List.length hnil
      rw [List.flatMap_cons, List.length_append, length_encode, sizeofInotifyEvent,
        List.length_nil] at hlength
      omega

/-! ## The walk -/

section Walk

variable {events : List Event} {p : Nat} {e : Event}

/-- The call for the event at a place gets this event. -/
theorem callAt_placed (rest : List UInt8) (h : (p, e) ∈ placed Event.encode 0 events) :
    (callAt (events.flatMap Event.encode ++ rest) p).header = e.header ∧
    (callAt (events.flatMap Event.encode ++ rest) p).name = e.name ∧
    ∀ i ∈ (callAt (events.flatMap Event.encode ++ rest) p).headerReads,
      i < (events.flatMap Event.encode).length := by
  obtain ⟨more, hmore⟩ := drop_placed_zero rest h
  have hle := placed_le h
  rw [length_encode] at hle
  simp only [callAt, hmore, header_encode, namePart_encode, e.toNat_len, List.take_left',
    List.mem_map, List.mem_range, true_and]
  rintro i ⟨j, hj, rfl⟩
  omega

/-- A name with a NUL is printed, and nothing behind it is read. -/
theorem callAt_terminated (rest : List UInt8)
    (h : (p, e) ∈ placed Event.encode 0 events) (hnul : e.Terminated) :
    (∀ i ∈ (callAt (events.flatMap Event.encode ++ rest) p).nameReads,
      i < (events.flatMap Event.encode).length) ∧
    printInotifyEvent ((events.flatMap Event.encode ++ rest).drop p) =
      eventText e.header (cString e.name) := by
  obtain ⟨more, hmore⟩ := drop_placed_zero rest h
  have hle := placed_le h
  rw [length_encode] at hle
  simp only [callAt, printInotifyEvent, hmore, header_encode, namePart_encode]
  rcases hnul with hempty | hnul
  · -- Without a name, `%s` is not reached.
    have hlen : ¬ 0 < e.header.len := by
      rw [UInt32.lt_iff_toNat_lt, e.toNat_len, hempty]
      decide
    simp [hlen, eventText]
  · rw [cString_append_of_mem hnul]
    refine ⟨?_, rfl⟩
    have hshort := length_cString_lt hnul
    intro i hi
    split at hi
    · obtain ⟨j, hj, rfl⟩ := List.mem_map.1 hi
      rw [List.mem_range] at hj
      omega
    · exact absurd hi List.not_mem_nil

end Walk

section Events

variable (events : List Event) (s : State)

/-- What the buffer holds after the events have been read into it. -/
def State.filled : List UInt8 :=
  overlay (events.flatMap Event.encode) s.buffer

/-- The state after a call for each event. -/
def State.walked : State :=
  (placed Event.encode 0 events).foldl (fun t pr => t.event (s.filled events) pr.1)
    (s.received (events.flatMap Event.encode))

/-- The calls, at the places of the events. -/
def State.newCalls : List Call :=
  (placed Event.encode 0 events).flatMap fun pr => [callAt (s.filled events) pr.1]

theorem events_eq_walked {fuel : Nat} (hfuel : events.length < fuel) :
    s.events fuel (events.flatMap Event.encode) = some (s.walked events) :=
  loop_records delimits events _ _ hfuel

theorem calls_walked : (s.walked events).calls = s.calls ++ s.newCalls events := by
  have hstep : ∀ (t : State) p, True → True ∧
      (t.event (s.filled events) p).calls = t.calls ++ [callAt (s.filled events) p] :=
    fun t p _ => ⟨trivial, rfl⟩
  exact foldl_log hstep _ trivial

theorem map_newCalls : ((s.newCalls events).map fun c => (c.header, c.name)) =
    events.map fun e => (e.header, e.name) := by
  rw [State.newCalls, List.map_flatMap, List.map_eq_flatMap]
  apply flatMap_placed fun p =>
    [((callAt (s.filled events) p).header, (callAt (s.filled events) p).name)]
  intro p e hp
  obtain ⟨hheader, hname, _⟩ := callAt_placed _ hp
  exact congrArg (fun c => [c]) (Prod.ext hheader hname)

theorem stdout_walked (hnul : ∀ e ∈ events, e.Terminated) :
    (s.walked events).stdout = (s.received (events.flatMap Event.encode)).stdout ++
      events.flatMap fun e => eventText e.header (cString e.name) := by
  have hstep : ∀ (t : State) p, True → True ∧ (t.event (s.filled events) p).stdout =
      t.stdout ++ printInotifyEvent ((s.filled events).drop p) :=
    fun t p _ => ⟨trivial, rfl⟩
  rw [State.walked, foldl_log hstep _ trivial]
  congr 1
  apply flatMap_placed fun p => printInotifyEvent ((s.filled events).drop p)
  intro p e hp
  exact (callAt_terminated _ hp (hnul e (mem_of_mem_placed hp))).2

/-- Each call is the one at the place of an event. -/
theorem exists_placed_of_mem_newCalls {c : Call} (hc : c ∈ s.newCalls events) :
    ∃ p e, (p, e) ∈ placed Event.encode 0 events ∧ c = callAt (s.filled events) p := by
  obtain ⟨⟨p, e⟩, hp, hc⟩ := List.mem_flatMap.1 hc
  exact ⟨p, e, hp, List.mem_singleton.1 hc⟩

end Events

/-- **The walk is the inverse of the encoding.**  For all events in the buffer,
whatever is behind them: the loop ends and calls `printInotifyEvent` once for
each of them, in their order, with its header and its name, and reads the
headers inside the bytes that were read.  If the names end with a NUL, `%s`
stays inside them too, and the texts are those of the events. -/
theorem events_printed (events : List Event) (s : State) (fuel : Nat)
    (hfuel : events.length < fuel) :
    ∃ t calls, s.events fuel (events.flatMap Event.encode) = some t ∧
      t.calls = s.calls ++ calls ∧
      (calls.map fun c => (c.header, c.name)) =
        (events.map fun e => (e.header, e.name)) ∧
      (∀ c ∈ calls, ∀ i ∈ c.headerReads, i < (events.flatMap Event.encode).length) ∧
      ((∀ e ∈ events, e.Terminated) →
        (∀ c ∈ calls, ∀ i ∈ c.nameReads, i < (events.flatMap Event.encode).length) ∧
        t.stdout = (s.received (events.flatMap Event.encode)).stdout ++
          events.flatMap fun e => eventText e.header (cString e.name)) := by
  refine ⟨s.walked events, s.newCalls events, events_eq_walked events s hfuel,
    calls_walked events s, map_newCalls events s, ?_, ?_⟩
  · intro c hc
    obtain ⟨p, e, hp, rfl⟩ := exists_placed_of_mem_newCalls events s hc
    exact (callAt_placed _ hp).2.2
  · intro hnul
    refine ⟨?_, stdout_walked events s hnul⟩
    intro c hc
    obtain ⟨p, e, hp, rfl⟩ := exists_placed_of_mem_newCalls events s hc
    exact (callAt_terminated _ hp (hnul e (mem_of_mem_placed hp))).1

def created : Event := ⟨1, 0x100, 0, ascii "new" ++ [0], by decide⟩
def moved : Event := ⟨2, 0x40000080, 7, [], by decide⟩

/-- Two events, one of them with a name, over the bytes of an earlier read. -/
theorem events_printed_two :
    ∃ t calls, State.events 3 ⟨List.replicate 40 255, [], [], []⟩
        ([created, moved].flatMap Event.encode) = some t ∧
      t.calls = [] ++ calls ∧
      (calls.map fun c => (c.header, c.name)) =
        [(⟨1, 0x100, 0, 4⟩, [110, 101, 119, 0]), (⟨2, 0x40000080, 7, 0⟩, [])] ∧
      (∀ c ∈ calls, ∀ i ∈ c.headerReads, i < 36) ∧
      (∀ c ∈ calls, ∀ i ∈ c.nameReads, i < 36) ∧
      t.stdout = ascii "Read 36 bytes from inotify fd\n" ++
        (ascii "    wd = 1; name = new; IN_CREATE \n" ++
          (ascii "    wd = 2; cookie = 7; IN_ISDIR IN_MOVED_TO \n" ++ [])) := by
  obtain ⟨t, calls, hevents, hcalls, hmap, hheader, hterminated⟩ :=
    events_printed [created, moved] ⟨List.replicate 40 255, [], [], []⟩ 3 (by decide)
  obtain ⟨hname, hstdout⟩ := hterminated (by decide)
  exact ⟨t, calls, hevents, hcalls, hmap, hheader, hname, hstdout⟩

/-! ## Runs of the program -/

section Runs

variable {k : Kernel} {fuel : Nat} {events : Nat → List Event}

/-- As long as each `read()` returns whole events, the calls of any number of
rounds are those for the events of the rounds. -/
theorem rounds_printed {inotifyFd : Int32} (n i : Nat) (s : State)
    (hread : ∀ j, i ≤ j → j < i + n → events j ≠ [] ∧ (events j).length < fuel ∧
      k.read j bufferLength = some ((events j).flatMap Event.encode)) :
    ∃ t, rounds k fuel inotifyFd n i s = some ⟨none, t⟩ ∧
      (t.calls.map fun c => (c.header, c.name)) =
        (s.calls.map fun c => (c.header, c.name)) ++
          (List.range' i n).flatMap fun j => (events j).map fun e => (e.header, e.name) := by
  induction n generalizing i s with
  | zero => exact ⟨s, rfl, by simp⟩
  | succ n ih =>
      obtain ⟨hne, hfuel, hbytes⟩ := hread i (Nat.le_refl i) (by omega)
      obtain ⟨t, hrounds, hcalls⟩ := ih (i + 1) (s.walked (events i))
        (fun j hj hjn => hread j (by omega) (by omega))
      refine ⟨t, ?_, ?_⟩
      · have hevents := events_eq_walked (events i) s hfuel
        cases hcons : (events i).flatMap Event.encode with
        | nil => exact absurd hcons (flatMap_encode_ne_nil hne)
        | cons b bs =>
            rw [hcons] at hbytes hevents
            rw [rounds, hbytes]
            simp only [hevents, Option.bind_some, hrounds]
      · rw [hcalls, calls_walked, List.map_append, map_newCalls, List.range'_succ,
          List.flatMap_cons, List.append_assoc]

theorem addWatches_ok {args : List CStr}
    (hwatch : ∀ filepath ∈ args, ∃ wd, k.inotifyAddWatch filepath = .ok wd)
    (out : List UInt8) : ∃ out', addWatches k args out = .ok out' := by
  induction args generalizing out with
  | nil => exact ⟨out, rfl⟩
  | cons filepath rest ih =>
      rw [List.forall_mem_cons] at hwatch
      obtain ⟨⟨wd, hwd⟩, hrest⟩ := hwatch
      rw [addWatches, hwd]
      exact ih hrest _

/-- **Every event of every read is printed.**  If the watches can be added and
each `read()` returns whole events, the program calls `printInotifyEvent` for
the events of all reads, in their order. -/
theorem main_printed {inotifyFd : Int32} {args : List CStr} (program : CStr)
    (buffer : List UInt8) (n : Nat) (hargs : args ≠ [])
    (hhelp : args.head?.map CStr.bytes ≠ some (ascii "-h"))
    (hinit : k.inotifyInit = .ok inotifyFd)
    (hwatch : ∀ filepath ∈ args, ∃ wd, k.inotifyAddWatch filepath = .ok wd)
    (hread : ∀ j < n, events j ≠ [] ∧ (events j).length < fuel ∧
      k.read j bufferLength = some ((events j).flatMap Event.encode)) :
    ∃ t, main k fuel n program args buffer = some ⟨none, t⟩ ∧
      (t.calls.map fun c => (c.header, c.name)) =
        (List.range n).flatMap fun j => (events j).map fun e => (e.header, e.name) := by
  obtain ⟨out, hout⟩ := addWatches_ok hwatch []
  obtain ⟨t, hrounds, hcalls⟩ := rounds_printed n 0 ⟨buffer, [], out, []⟩
    (fun j _ hj => hread j (by omega))
  refine ⟨t, ?_, ?_⟩
  · rw [main, if_neg (not_or.2 ⟨hargs, hhelp⟩)]
    simp only [hinit, hout]
    exact hrounds
  · rw [hcalls, List.range_eq_range']
    rfl

end Runs

end Lpi.Ports.DemoInotify
