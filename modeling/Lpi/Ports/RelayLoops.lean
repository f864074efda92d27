import Lpi.Ports.Copy
import Lpi.Ports.SimplePipe
import Lpi.Ports.UsXfr
import Lpi.Verified.CString
import Lpi.Verified.Relay
import Lpi.Verified.Simulation

/-!
# Three relay loops

`fileio/src/copy.c`, the server of `sockets/us_xfr_sv.c` with one connection, and
the child of `pipes/simple_pipe.c` read a source into a buffer and write it.  They
differ in the size of the buffer and in what they do behind the loop: only the
child writes something there, a newline, and it does not look at the result.

The first two relay their source in every run.  The child does not in those in
which it loses the newline and nothing else goes wrong (`loops_end_and_relay`).

The child is also one of the two processes of `Lpi.Ports.SimplePipe`, where its source
is what the parent sends.  Each run of the two is a run of the loop as well, with the
same output (`child_runs_loop`).
-/

namespace Lpi.Ports.RelayLoops

open Lpi.Verified.CString
open Lpi.Verified.Pieces
open Lpi.Verified.Relay
open Lpi.Verified.Run
open Lpi.Verified.Simulation
open Lpi.Ports.SimplePipe (argument ParentStep ChildStep ChildPc)

/-! ## The programs -/

/-- `copy.c`: the file is read, and then both are closed. -/
def copy : Program where
  bufferSize := Copy.bufferSize
  after := [.testRead, .close, .close]
  pos := by decide
  tested := by decide

/-- `us_xfr_sv.c`, a connection. -/
def usXfrSv : Program where
  bufferSize := UsXfr.bufferSize
  after := [.testRead, .close]
  pos := by decide
  tested := by decide

/-- `simple_pipe.c`, the child.  The newline is written before the test of the
read, after an error of it too. -/
def simplePipe : Program where
  bufferSize := SimplePipe.bufferSize
  after := [.write (ascii "\n"), .testRead, .close]
  pos := by decide
  tested := by decide

/-! ## Their runs -/

/-- The loop ends in every run: their lengths have a bound, and none is stuck. -/
def Ends (p : Program) (source : List UInt8) : Prop :=
  ∀ buffer numRead answers t,
    exec (step p) (start p source buffer numRead) answers = some t →
      answers.length ≤ 2 * source.length + p.after.length + 1 ∧
        ∃ answers' u, exec (step p) t answers' = some u ∧ u.Ended

/-- **`copy` and the server relay every source**, and the child does unless it
loses the newline without an error elsewhere. -/
theorem loops_end_and_relay (source : List UInt8) :
    (Ends copy source ∧ Ends usXfrSv source ∧ Ends simplePipe source) ∧
      (∀ r : Complete copy source, r.Relays) ∧
      (∀ r : Complete usXfrSv source, r.Relays) ∧
      ∀ r : Complete simplePipe source,
        r.Relays ↔ (r.Occurs LosesText → r.Occurs Fails) := by
  refine ⟨⟨?_, ?_, ?_⟩, ?_, ?_, ?_⟩
  · exact fun _ _ _ _ => exec_ends
  · exact fun _ _ _ _ => exec_ends
  · exact fun _ _ _ _ => exec_ends
  · exact fun r => r.relays_of_texts rfl
  · exact fun r => r.relays_of_texts rfl
  · exact fun r => r.relays_iff

/-- A run of the child that gets "Hi" and an error for the newline. -/
def newlineLost : Complete simplePipe (ascii "Hi") where
  buffer := ⟨List.replicate 10 0, rfl⟩
  numRead := 0
  answers := [.count 2, .count 2, .count 0, .err, .ok, .ok]
  final := ⟨.after, [], 0, ⟨ascii "Hi" ++ List.replicate 8 0, rfl⟩, [], ascii "Hi", []⟩
  run := rfl
  ended := Or.inr ⟨rfl, rfl⟩

/-- It ends without a failure and without the newline. -/
theorem newlineLost_not_relays :
    newlineLost.final.pc ≠ .failed ∧ newlineLost.final.output = ascii "Hi" ∧
      ¬ newlineLost.Relays := by
  refine ⟨by decide, by decide, ?_⟩
  intro hrelays
  have hwhole := hrelays.whole (by decide)
  revert hwhole
  decide

/-! ## The child of the pipe -/

variable {cap total : Nat} {args : List CStr} {arg : CStr} {bs : List UInt8}
  {s t : SimplePipe.State} {u : State simplePipe}

/-- Where the loop is when the child is there.  It has not begun as long as the child
has the write end open, and does not begin if it cannot close it. -/
def Position : ChildPc → State simplePipe → Prop
  | .notForked, u | .closeWrite, u | .read, u =>
      u.pc = .read ∧ u.rest = simplePipe.after ∧ u.trailer = []
  | .write, u => u.pc = .write ∧ u.rest = simplePipe.after ∧ u.trailer = []
  | .newline, u => u.pc = .after ∧ u.rest = simplePipe.after ∧ u.trailer = []
  | .testRead, u => u.pc = .after ∧ u.rest = [.testRead, .close]
  | .closeRead, u => u.pc = .after ∧ u.rest = [.close]
  | .exit, u | .exited .success, u => u.pc = .after ∧ u.rest = []
  | .exited .failure, u => u.pc = .failed ∨ u.pc = .read ∧ u.trailer = []

/-- The loop stands where the child does, with the same variables and the same output.
It has still to read what is in the pipe and what the parent will send until it has sent
`total` bytes. -/
structure Matches (bs : List UInt8) (total : Nat) (s : SimplePipe.State)
    (u : State simplePipe) : Prop where
  position : Position s.child u
  numRead : u.numRead = s.numRead
  buffer : u.buffer = s.buffer
  unread : u.unread = s.pipe ++ (bs.take total).drop s.sent
  output : u.output = s.stdout

theorem start_matches (bs : List UInt8) (total : Nat) (buffer : Buffer SimplePipe.bufferSize)
    (numRead : Int) : Matches bs total (SimplePipe.start buffer numRead)
      (start simplePipe (bs.take total) buffer numRead) :=
  ⟨⟨rfl, rfl, rfl⟩, rfl, rfl, rfl, rfl⟩

/-- What is sent leaves what is to be sent. -/
theorem drop_take_split {sent n : Nat} (h : sent + n ≤ total) :
    (bs.take total).drop sent = (bs.drop sent).take n ++ (bs.take total).drop (sent + n) := by
  have hsplit : total - sent = n + (total - (sent + n)) := by omega
  rw [List.drop_take, hsplit, List.take_add, List.drop_drop, List.drop_take]

/-- The loop does nothing when the parent moves. -/
theorem Matches.parent {a : SimplePipe.ParentAnswer} (hinv : SimplePipe.Inv bs s)
    (h : Matches bs total s u) (hstep : ParentStep cap bs s a t) (hle : t.sent ≤ total) :
    Matches bs total t u := by
  cases hstep with
  | forked hpc =>
      have hparent := hinv.parent
      simp only [SimplePipe.ParentInv, hpc] at hparent
      have hposition := h.position
      rw [hparent.1] at hposition
      exact ⟨hposition, h.numRead, h.buffer, h.unread, h.output⟩
  | @copied n hpc hn hsent hcap =>
      refine ⟨h.position, h.numRead, h.buffer, ?_, h.output⟩
      rw [h.unread, drop_take_split hle, List.append_assoc]
  | checked | piped | closedRead | written | closedWrite | waited | failed | killed =>
      exact ⟨h.position, h.numRead, h.buffer, h.unread, h.output⟩

/-- The loop takes the step of the child.  Once nobody can write to the pipe any more, all
has been sent. -/
theorem Matches.child {a : SimplePipe.ChildAnswer} (h : Matches bs total s u)
    (hend : s.writeHeld = false → s.sent = total) (hstep : ChildStep s a t) :
    ∃ u', Reachable (step simplePipe) u u' ∧ Matches bs total t u' := by
  have hposition := h.position
  have houtput := h.output
  have hunread := h.unread
  rw [State.output] at houtput
  cases hstep with
  | closedWrite hpc =>
      rw [hpc] at hposition
      exact ⟨u, reachable_refl u, hposition, h.numRead, h.buffer, hunread, h.output⟩
  | @readSome n hpc hn hcap hlen =>
      rw [hpc] at hposition
      have htake : u.unread.take n = s.pipe.take n := by
        rw [hunread, List.take_append_of_le_length hlen]
      have hlength : n ≤ u.unread.length := by
        rw [hunread, List.length_append]
        omega
      refine ⟨_, reachable_step (step_iff.2 (.readCount hposition.1 hcap hlength
        fun hzero => absurd hzero (by omega))), ⟨if_pos hn, hposition.2⟩, rfl, ?_, ?_, h.output⟩
      · show u.buffer.fill (u.unread.take n) = s.buffer.fill (s.pipe.take n)
        rw [htake, h.buffer]
        rfl
      · show u.unread.drop n = s.pipe.drop n ++ (bs.take total).drop s.sent
        rw [hunread, List.drop_append_of_le_length hlen]
  | readEnd hpc hpipe hheld =>
      rw [hpc] at hposition
      have hnil : u.unread = [] := by
        rw [hunread, hpipe, hend hheld, List.nil_append]
        exact List.drop_eq_nil_of_le (by simp)
      refine ⟨_, reachable_step (step_iff.2 (.readCount hposition.1 (Nat.zero_le _)
        (Nat.zero_le _) fun _ => hnil)), ⟨rfl, hposition.2⟩, rfl, ?_, hunread, h.output⟩
      show u.buffer.fill (u.unread.take 0) = s.buffer.fill []
      rw [List.take_zero, h.buffer]
      rfl
  | readFailed hpc =>
      rw [hpc] at hposition
      exact ⟨_, reachable_step (step_iff.2 (.readErr hposition.1)), ⟨rfl, hposition.2⟩, rfl,
        h.buffer, hunread, h.output⟩
  | @wrote n hpc hn =>
      rw [hpc] at hposition
      have hread : (n : Int) = u.numRead := hn.trans h.numRead.symm
      refine ⟨_, reachable_step (step_iff.2 (.writeCount hposition.1 (le_of_eq hread))),
        ⟨if_neg (not_not.2 hread), hposition.2⟩, h.numRead, h.buffer, hunread, ?_⟩
      show u.written ++ u.buffer.bytes.take n ++ u.trailer = s.stdout ++ s.buffer.bytes.take n
      rw [hposition.2.2, List.append_nil] at houtput ⊢
      rw [houtput, h.buffer]
  | @wroteLess n hpc hn =>
      rw [hpc] at hposition
      have hread : (n : Int) < u.numRead := h.numRead.symm ▸ hn
      refine ⟨_, reachable_step (step_iff.2 (.writeCount hposition.1 (le_of_lt hread))),
        Or.inl (if_pos (ne_of_lt hread)), h.numRead, h.buffer, hunread, ?_⟩
      show u.written ++ u.buffer.bytes.take n ++ u.trailer = s.stdout ++ s.buffer.bytes.take n
      rw [hposition.2.2, List.append_nil] at houtput ⊢
      rw [houtput, h.buffer]
  | @ended n hpc hn =>
      rw [hpc] at hposition
      refine ⟨_, reachable_step (step_iff.2 (.textCount hposition.1 hposition.2.1 hn)),
        ⟨hposition.1, rfl⟩, h.numRead, h.buffer, hunread, ?_⟩
      show u.written ++ (u.trailer ++ (ascii "\n").take n) = s.stdout ++ (ascii "\n").take n
      rw [← List.append_assoc, houtput]
  | notEnded hpc =>
      rw [hpc] at hposition
      exact ⟨_, reachable_step (step_iff.2 (.textErr hposition.1 hposition.2.1)),
        ⟨hposition.1, rfl⟩, h.numRead, h.buffer, hunread, h.output⟩
  | wasRead hpc hread =>
      rw [hpc] at hposition
      exact ⟨_, reachable_step (step_iff.2 (.testRead hposition.1 hposition.2)),
        ⟨if_neg (h.numRead.symm ▸ hread), rfl⟩, h.numRead, h.buffer, hunread, h.output⟩
  | wasNotRead hpc hread =>
      rw [hpc] at hposition
      exact ⟨_, reachable_step (step_iff.2 (.testRead hposition.1 hposition.2)),
        Or.inl (if_pos (h.numRead.trans hread)), h.numRead, h.buffer, hunread, h.output⟩
  | closedRead hpc =>
      rw [hpc] at hposition
      exact ⟨_, reachable_step (step_iff.2 (.closeOk hposition.1 hposition.2)),
        ⟨hposition.1, rfl⟩, h.numRead, h.buffer, hunread, h.output⟩
  | exited hpc =>
      rw [hpc] at hposition
      exact ⟨u, reachable_refl u, hposition, h.numRead, h.buffer, hunread, h.output⟩
  | failed hpc =>
      simp only [List.mem_cons, List.not_mem_nil, or_false] at hpc
      rcases hpc with hpc | hpc | hpc
      · rw [hpc] at hposition
        exact ⟨u, reachable_refl u, Or.inr ⟨hposition.1, hposition.2.2⟩, h.numRead, h.buffer,
          hunread, h.output⟩
      · rw [hpc] at hposition
        exact ⟨_, reachable_step (step_iff.2 (.writeErr hposition.1)), Or.inl rfl, h.numRead,
          h.buffer, hunread, h.output⟩
      · rw [hpc] at hposition
        exact ⟨_, reachable_step (step_iff.2 (.closeErr hposition.1 hposition.2)), Or.inl rfl,
          h.numRead, h.buffer, hunread, h.output⟩

/-- There is a child, and the parent has closed the write end. -/
def Closed (s : SimplePipe.State) : Prop := s.child ≠ .notForked ∧ s.fds.writeEnd = false

/-- Nobody takes back what is sent, and a parent that has closed the write end sends no
more. -/
theorem sent_step {l : SimplePipe.Label} (hargs : argument args = some arg)
    (hinv : SimplePipe.Inv arg.bytes s) (hstep : SimplePipe.step cap args s l = some t) :
    s.sent ≤ t.sent ∧ (Closed s → Closed t ∧ s.sent = t.sent) := by
  cases l with
  | parent a =>
      have hparent := hinv.parent
      cases hinv.parentStep_cases hargs hstep with
      | checked hpc | piped hpc | forked hpc =>
          simp only [SimplePipe.ParentInv, hpc] at hparent
          exact ⟨le_refl _, fun hclosed => absurd hparent.1 hclosed.1⟩
      | closedRead hpc | written hpc =>
          simp only [SimplePipe.ParentInv, hpc] at hparent
          have hopen : s.fds.writeEnd = true := by simp [hparent.2, PipeSync.Fds.both]
          exact ⟨le_refl _, fun hclosed => absurd hclosed.2 (by simp [hopen])⟩
      | copied hpc =>
          simp only [SimplePipe.ParentInv, hpc] at hparent
          have hopen : s.fds.writeEnd = true := by simp [hparent.2]
          exact ⟨Nat.le_add_right _ _, fun hclosed => absurd hclosed.2 (by simp [hopen])⟩
      | closedWrite | waited | failed | killed =>
          exact ⟨le_refl _, fun hclosed => ⟨⟨hclosed.1, rfl⟩, rfl⟩⟩
  | child a =>
      rcases (hinv.childStep_cases hstep).same with ⟨_, _, ⟨_, hfds, hsent⟩, hthere⟩
      exact ⟨le_of_eq hsent.symm, fun hclosed => ⟨⟨hthere, hfds ▸ hclosed.2⟩, hsent.symm⟩⟩

theorem sent_of_exec {ls : List SimplePipe.Label} (hargs : argument args = some arg)
    (hinv : SimplePipe.Inv arg.bytes s) (h : exec (SimplePipe.step cap args) s ls = some t) :
    s.sent ≤ t.sent ∧ (Closed s → s.sent = t.sent) := by
  have hkeep : ∀ v l w, (SimplePipe.Inv arg.bytes v ∧ s.sent ≤ v.sent ∧
        (Closed s → Closed v ∧ s.sent = v.sent)) → SimplePipe.step cap args v l = some w →
      SimplePipe.Inv arg.bytes w ∧ s.sent ≤ w.sent ∧ (Closed s → Closed w ∧ s.sent = w.sent) := by
    rintro v l w ⟨hv, hle, hclosed⟩ hstep
    have hsent := sent_step hargs hv hstep
    refine ⟨hv.next hargs hstep, le_trans hle hsent.1, fun hs => ?_⟩
    have hto := hsent.2 (hclosed hs).1
    exact ⟨hto.1, (hclosed hs).2.trans hto.2⟩
  have hend := Reachable.invariant hkeep ⟨hinv, le_refl _, fun hs => ⟨hs, rfl⟩⟩ ⟨ls, h⟩
  exact ⟨hend.2.1, fun hs => (hend.2.2 hs).2⟩

theorem Matches.exec {ls : List SimplePipe.Label} (hargs : argument args = some arg)
    (hinv : SimplePipe.Inv arg.bytes s) (hmatches : Matches arg.bytes t.sent s u)
    (h : exec (SimplePipe.step cap args) s ls = some t) :
    ∃ u', Reachable (step simplePipe) u u' ∧ Matches arg.bytes t.sent t u' := by
  induction ls generalizing s u with
  | nil =>
      rw [exec_nil, Option.some.injEq] at h
      subst h
      exact ⟨u, reachable_refl u, hmatches⟩
  | cons l ls ih =>
      have hwhole := h
      rcases exec_cons_eq_some.1 h with ⟨m, hm, hrest⟩
      have hnext := hinv.next hargs hm
      have hfirst : ∃ u', Reachable (step simplePipe) u u' ∧ Matches arg.bytes t.sent m u' := by
        cases l with
        | parent a =>
            exact ⟨u, reachable_refl u, hmatches.parent hinv (hinv.parentStep_cases hargs hm)
              (sent_of_exec hargs hnext hrest).1⟩
        | child a =>
            have hstep := hinv.childStep_cases hm
            refine hmatches.child (fun hheld => ?_) hstep
            exact (sent_of_exec hargs hinv hwhole).2
              ⟨hstep.same.1, (Bool.or_eq_false_iff.1 hheld).1⟩
      rcases hfirst with ⟨u', hu', hm'⟩
      rcases ih hnext hm' hrest with ⟨v, hv, ht⟩
      exact ⟨v, reachable_trans hu' hv, ht⟩

/-- **The child runs the loop**: in each run of the two processes it makes a run of the loop
over what the parent has sent, and gets to the same place with the same output. -/
theorem child_runs_loop {buffer : Buffer SimplePipe.bufferSize} {numRead : Int}
    {ls : List SimplePipe.Label} (hargs : argument args = some arg)
    (h : exec (SimplePipe.step cap args) (SimplePipe.start buffer numRead) ls = some t) :
    ∃ u, Reachable (step simplePipe)
        (start simplePipe (arg.bytes.take t.sent) buffer numRead) u ∧
      Matches arg.bytes t.sent t u :=
  (start_matches arg.bytes t.sent buffer numRead).exec hargs
    (SimplePipe.start_inv arg.bytes buffer numRead) h

end Lpi.Ports.RelayLoops
