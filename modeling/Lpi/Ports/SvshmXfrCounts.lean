import Lpi.Ports.SvshmXfrShutdown

/-!
# The transfer counts of the shared-memory transfer

The writer finds the end of its input in the segment when it tests the size for
the next turn of its loop, after it has counted the empty piece; the reader
leaves its loop before it counts it.  So for an input of `k` pieces the writer
prints `k + 1` and the reader `k`, in every interleaving that runs to completion
(`xfrs_differ`).
-/

namespace Lpi.Ports.SvshmXfr

open Lpi.Ports.BinarySems
open Lpi.Verified.CData
open Lpi.Verified.Pieces
open Lpi.Verified.Run

/-! ## The rounds to come -/

/-- Whether the size is that of a piece. -/
def pieces (size : Int32) : Nat := if size = 0 then 0 else 1

/-- The rounds that begin with a test of the size. -/
def roundsAfter (size : Int32) (k : Nat) : Nat := if size = 0 then 0 else k + 1

/-- How often the writer has yet to count. -/
def writerRounds (s : State) : Nat :=
  match s.writerPc with
  | .storeBufSize | .reserveWrite | .readStdin => s.stdin.length + 1
  | .testSize => roundsAfter s.shm.bufferSize s.stdin.length
  | .storeSize n => roundsAfter n s.stdin.length + 1
  | .checkSize | .releaseRead | .increment =>
      roundsAfter s.shm.bufferSize s.stdin.length + 1
  | .reserveFinal | .shmdt | .rmShm | .rmSem | .report | .exited _ => 0

/-- The pieces in the hand of the writer. -/
def inHand (s : State) : Nat :=
  match s.writerPc with
  | .storeSize n => pieces n
  | .checkSize | .releaseRead => pieces s.shm.bufferSize
  | _ => 0

/-- The pieces that the reader has taken and not counted. -/
def taken (s : State) : Nat :=
  match s.readerPc with
  | .testSize => pieces s.shm.bufferSize
  | .loadCount | .writeStdout _ | .checkCount _ | .releaseWrite | .increment => 1
  | .reserveRead | .shmdt | .releaseFinal | .report | .exited _ => 0

/-- How often the reader has yet to count: the pieces that are not read, in the
hand of the writer, handed over, or taken. -/
def readerRounds (s : State) : Nat :=
  s.stdin.length + inHand s + s.readSem * pieces s.shm.bufferSize + taken s

/-! ## Steps -/

/-- A step leaves the count alone, or it counts a round. -/
def Counts (xfrs xfrs' : Int32) (rounds rounds' : Nat) : Prop :=
  xfrs' = xfrs ∧ rounds' = rounds ∨ xfrs' = xfrs + 1 ∧ rounds = rounds' + 1

theorem Counts.sum {xfrs xfrs' : Int32} {rounds rounds' : Nat}
    (h : Counts xfrs xfrs' rounds rounds') :
    xfrs' + Int32.ofNat rounds' = xfrs + Int32.ofNat rounds := by
  rcases h with ⟨rfl, rfl⟩ | ⟨rfl, rfl⟩
  · rfl
  · rw [Int32.ofNat_add, Int32.add_assoc, Int32.add_comm (Int32.ofNat rounds')]
    rfl

variable {input : List UInt8} {s t : State}

theorem writer_counts (hinv : Inv input s) (hstep : writerStep s .ok = some t) :
    Counts s.writerXfrs t.writerXfrs (writerRounds s) (writerRounds t) := by
  cases hpc : s.writerPc with
  | storeBufSize =>
      simp only [writerStep, hpc, Option.some.injEq] at hstep
      subst hstep
      exact .inl ⟨rfl, by simp [writerRounds, hpc, roundsAfter, bufSize]⟩
  | testSize =>
      simp only [writerStep, hpc, Option.some.injEq] at hstep
      subst hstep
      refine .inl ⟨rfl, ?_⟩
      by_cases hz : s.shm.bufferSize = 0
      · simp [writerRounds, hpc, roundsAfter, hz]
      · simp [writerRounds, hpc, roundsAfter, hz]
  | reserveWrite | releaseRead | reserveFinal =>
      simp only [writerStep, hpc, Option.map_eq_some_iff] at hstep
      obtain ⟨v, _, rfl⟩ := hstep
      exact .inl ⟨rfl, by simp only [writerRounds, hpc]⟩
  | readStdin =>
      cases hin : s.stdin with
      | nil =>
          simp only [writerStep, hpc, hin, Option.some.injEq] at hstep
          subst hstep
          exact .inl ⟨rfl, by simp [writerRounds, hpc, hin, roundsAfter]⟩
      | cons c cs =>
          simp only [writerStep, hpc, hin, Option.some.injEq] at hstep
          subst hstep
          exact .inl ⟨rfl, by simp [writerRounds, hpc, hin, roundsAfter, size_ne_zero c]⟩
  | checkSize =>
      simp only [Inv, hpc] at hinv
      have hne := hinv.2.2.size_ne_neg_one
      simp only [writerStep, hpc, if_neg hne, Option.some.injEq] at hstep
      subst hstep
      exact .inl ⟨rfl, by simp only [writerRounds, hpc]⟩
  | increment =>
      simp only [writerStep, hpc, Option.some.injEq] at hstep
      subst hstep
      exact .inr ⟨rfl, by simp only [writerRounds, hpc]⟩
  | storeSize n | shmdt | rmShm | rmSem | report =>
      simp only [writerStep, hpc, Option.some.injEq] at hstep
      subst hstep
      exact .inl ⟨rfl, by simp only [writerRounds, hpc]⟩
  | exited status => simp [writerStep, hpc] at hstep

/-- The writer hands pieces on, and loses none. -/
theorem writer_keeps (hinv : Inv input s) (hstep : writerStep s .ok = some t) :
    readerRounds t = readerRounds s := by
  cases hpc : s.writerPc with
  | storeBufSize =>
      simp only [Inv, hpc] at hinv
      simp only [writerStep, hpc, Option.some.injEq] at hstep
      subst hstep
      simp [readerRounds, inHand, taken, hpc, hinv.2.1, hinv.2.2.1]
  | readStdin =>
      cases hin : s.stdin with
      | nil =>
          simp only [writerStep, hpc, hin, Option.some.injEq] at hstep
          subst hstep
          simp [readerRounds, inHand, taken, hpc, hin, pieces]
      | cons c cs =>
          simp only [writerStep, hpc, hin, Option.some.injEq] at hstep
          subst hstep
          simp [readerRounds, inHand, taken, hpc, hin, pieces, size_ne_zero c]
  | storeSize n =>
      simp only [Inv, hpc] at hinv
      obtain ⟨⟨-, hr⟩, hidle, -⟩ := hinv
      simp only [writerStep, hpc, Option.some.injEq] at hstep
      subst hstep
      -- the reader does not look at the size now
      rcases hidle with hidle | hidle
      · simp [readerRounds, inHand, taken, hpc, hr, hidle]
      · simp [readerRounds, inHand, taken, hpc, hr, hidle]
  | releaseRead =>
      simp only [Inv, hpc] at hinv
      simp only [writerStep, hpc, release_eq, Option.map_some, Option.some.injEq] at hstep
      subst hstep
      simp [readerRounds, inHand, taken, hpc, hinv.1.2]
  | checkSize =>
      simp only [Inv, hpc] at hinv
      have hne := hinv.2.2.size_ne_neg_one
      simp only [writerStep, hpc, if_neg hne, Option.some.injEq] at hstep
      subst hstep
      simp [readerRounds, inHand, taken, hpc]
  | reserveWrite | reserveFinal =>
      simp only [writerStep, hpc, Option.map_eq_some_iff] at hstep
      obtain ⟨v, _, rfl⟩ := hstep
      simp [readerRounds, inHand, taken, hpc]
  | testSize =>
      simp only [writerStep, hpc, Option.some.injEq] at hstep
      subst hstep
      split <;> simp [readerRounds, inHand, taken, hpc]
  | increment | shmdt | rmShm | rmSem | report =>
      simp only [writerStep, hpc, Option.some.injEq] at hstep
      subst hstep
      simp [readerRounds, inHand, taken, hpc]
  | exited status => simp [writerStep, hpc] at hstep

theorem inHand_congr (h : SameWriter s t) : inHand t = inHand s := by
  unfold inHand
  rw [h.pc, h.shm]

theorem writerRounds_congr (h : SameWriter s t) : writerRounds t = writerRounds s := by
  unfold writerRounds
  rw [h.pc, h.shm, h.stdin]

theorem reader_counts (hinv : Inv input s) (hstep : readerStep s .ok = some t) :
    Counts s.readerXfrs t.readerXfrs (readerRounds s) (readerRounds t) := by
  have hhand := inHand_congr (readerStep_frame hstep)
  cases hpc : s.readerPc with
  | reserveRead =>
      simp only [readerStep, hpc, Option.map_eq_some_iff] at hstep
      obtain ⟨v, hv, rfl⟩ := hstep
      rw [reserve_eq_some] at hv
      refine .inl ⟨rfl, ?_⟩
      simp only [readerRounds, hhand, taken, hpc, hv, Nat.add_mul]
      omega
  | testSize =>
      by_cases hz : s.shm.bufferSize = 0
      · simp only [readerStep, hpc, hz, if_true, Option.some.injEq] at hstep
        subst hstep
        exact .inl ⟨rfl, by simp only [readerRounds, hhand, taken, hpc, hz, pieces, if_true]⟩
      · simp only [readerStep, hpc, hz, if_false, Option.some.injEq] at hstep
        subst hstep
        exact .inl ⟨rfl, by simp only [readerRounds, hhand, taken, hpc, hz, pieces, if_false]⟩
  | checkCount r =>
      have hposted := hinv.posted_of_holds (by simp [hpc, ReaderPc.holds])
      simp only [Posted, hpc] at hposted
      obtain ⟨-, -, rfl, -⟩ := hposted
      simp only [readerStep, hpc, ne_eq, not_true_eq_false, if_false,
        Option.some.injEq] at hstep
      subst hstep
      exact .inl ⟨rfl, by simp only [readerRounds, hhand, taken, hpc]⟩
  | releaseWrite | releaseFinal =>
      simp only [readerStep, hpc, Option.map_eq_some_iff] at hstep
      obtain ⟨v, _, rfl⟩ := hstep
      exact .inl ⟨rfl, by simp only [readerRounds, hhand, taken, hpc]⟩
  | increment =>
      simp only [readerStep, hpc, Option.some.injEq] at hstep
      subst hstep
      exact .inr ⟨rfl, by simp only [readerRounds, hhand, taken, hpc, Nat.add_zero]⟩
  | loadCount | writeStdout n | shmdt | report =>
      simp only [readerStep, hpc, Option.some.injEq] at hstep
      subst hstep
      exact .inl ⟨rfl, by simp only [readerRounds, hhand, taken, hpc]⟩
  | exited status => simp [readerStep, hpc] at hstep

/-- A writer that has terminated has printed its count. -/
def SentPrinted (s : State) : Prop :=
  s.writerPc = .exited .success → s.sent.map Prod.snd = some s.writerXfrs

def ReceivedPrinted (s : State) : Prop :=
  s.readerPc = .exited .success → s.received.map Prod.snd = some s.readerXfrs

theorem SentPrinted.writer_step (hstep : writerStep s .ok = some t) : SentPrinted t := by
  intro hexit
  cases hpc : s.writerPc with
  | report =>
      simp only [writerStep, hpc, Option.some.injEq] at hstep
      subst hstep
      rfl
  | reserveWrite | releaseRead | reserveFinal =>
      simp only [writerStep, hpc, Option.map_eq_some_iff] at hstep
      obtain ⟨v, _, rfl⟩ := hstep
      simp at hexit
  | readStdin =>
      cases hin : s.stdin <;>
        simp only [writerStep, hpc, hin, Option.some.injEq] at hstep
      all_goals
        subst hstep
        simp at hexit
  | testSize | checkSize =>
      simp only [writerStep, hpc, Option.some.injEq] at hstep
      subst hstep
      split at hexit <;> simp at hexit
  | storeBufSize | storeSize n | increment | shmdt | rmShm | rmSem =>
      simp only [writerStep, hpc, Option.some.injEq] at hstep
      subst hstep
      simp at hexit
  | exited status => simp [writerStep, hpc] at hstep

theorem ReceivedPrinted.reader_step (hstep : readerStep s .ok = some t) :
    ReceivedPrinted t := by
  intro hexit
  cases hpc : s.readerPc with
  | report =>
      simp only [readerStep, hpc, Option.some.injEq] at hstep
      subst hstep
      rfl
  | reserveRead | releaseWrite | releaseFinal =>
      simp only [readerStep, hpc, Option.map_eq_some_iff] at hstep
      obtain ⟨v, _, rfl⟩ := hstep
      simp at hexit
  | testSize | checkCount r =>
      simp only [readerStep, hpc, Option.some.injEq] at hstep
      subst hstep
      split at hexit <;> simp at hexit
  | loadCount | writeStdout n | increment | shmdt =>
      simp only [readerStep, hpc, Option.some.injEq] at hstep
      subst hstep
      simp at hexit
  | exited status => simp [readerStep, hpc] at hstep

/-! ## Whole runs -/

/-- What has been counted and what is still to be counted, for an input of `k`
pieces. -/
structure XfrsCounted (input : List UInt8) (k : Nat) (s : State) : Prop where
  inv : Inv input s
  writer : s.writerXfrs + Int32.ofNat (writerRounds s) = Int32.ofNat (k + 1)
  reader : s.readerXfrs + Int32.ofNat (readerRounds s) = Int32.ofNat k
  sent : SentPrinted s
  received : ReceivedPrinted s

theorem start_xfrsCounted (shm : Shmseg) (chunks : List (Chunk bufSize)) :
    XfrsCounted (join chunks) chunks.length (start shm chunks) where
  inv := start_inv shm chunks
  writer := by simp [writerRounds, start]
  reader := by simp [readerRounds, inHand, taken, start, initSemInUse]
  sent := by simp [SentPrinted, start]
  received := by simp [ReceivedPrinted, start]

theorem XfrsCounted.step_ok {k : Nat} {p : Proc} (h : XfrsCounted input k s)
    (hstep : stepOk s p = some t) : XfrsCounted input k t := by
  have hinv := h.inv.step_ok hstep
  cases p with
  | writer =>
      have hstep' : writerStep s .ok = some t := hstep
      have hframe := writerStep_frame hstep'
      exact
        { inv := hinv
          writer := (writer_counts h.inv hstep').sum.trans h.writer
          reader := by rw [hframe.xfrs, writer_keeps h.inv hstep', h.reader]
          sent := SentPrinted.writer_step hstep'
          received := by
            rw [ReceivedPrinted, hframe.pc, hframe.received, hframe.xfrs]
            exact h.received }
  | reader =>
      have hstep' : readerStep s .ok = some t := hstep
      have hframe := readerStep_frame hstep'
      exact
        { inv := hinv
          writer := by rw [writerRounds_congr hframe, hframe.xfrs, h.writer]
          reader := (reader_counts h.inv hstep').sum.trans h.reader
          sent := by
            rw [SentPrinted, hframe.pc, hframe.sent, hframe.xfrs]
            exact h.sent
          received := ReceivedPrinted.reader_step hstep' }

/-- What the two programs print when both are done. -/
theorem XfrsCounted.printed {k : Nat} (h : XfrsCounted input k s) (hend : BothTerminated s) :
    s.sent.map Prod.snd = some (Int32.ofNat (k + 1)) ∧
      s.received.map Prod.snd = some (Int32.ofNat k) := by
  obtain ⟨hwriter, hreader⟩ := hend
  have hinv := h.inv
  simp only [Inv, hwriter] at hinv
  obtain ⟨⟨-, hread⟩, -, -, hstdin⟩ := hinv
  have hsent := h.writer
  have hreceived := h.reader
  simp only [writerRounds, hwriter] at hsent
  simp only [readerRounds, inHand, taken, hwriter, hreader, hread, hstdin] at hreceived
  rw [h.sent hwriter, h.received hreader, ← hsent, ← hreceived]
  simp

/-- Every input, however it is cut up, has a run that gets it across. -/
theorem exists_completed (shm : Shmseg) (chunks : List (Chunk bufSize)) :
    ∃ ls t, exec stepOk (start shm chunks) ls = some t ∧ BothTerminated t :=
  exists_exec_done (fun _ _ _ hI hstep => Inv.step_ok hI hstep)
    (fun _ _ _ _ hstep => work_lt_of_stepOk hstep)
    (fun _ hI hnot => hI.progress hnot) (start_inv shm chunks)

/-! ## Main result -/

/-- Both programs print `k` transfers, as an `int`. -/
def XfrsAgree (k : Nat) (s : State) : Prop :=
  s.sent.map Prod.snd = some (Int32.ofNat k) ∧
    s.received.map Prod.snd = some (Int32.ofNat k)

instance (k : Nat) (s : State) : Decidable (XfrsAgree k s) :=
  inferInstanceAs (Decidable (_ ∧ _))

theorem ofNat_succ_ne (k : Nat) : Int32.ofNat (k + 1) ≠ Int32.ofNat k := by
  intro h
  rw [Int32.ofNat_add] at h
  have hsum : Int32.ofNat k + Int32.ofNat 1 = Int32.ofNat k + 0 := by
    rw [h, Int32.add_zero]
  rw [Int32.add_right_inj] at hsum
  exact absurd hsum (by decide)

/-- **Transfer counts.**  For every input, every way `read()` cuts it up and
every interleaving that gets all of it across, the writer prints one transfer
more than there are pieces and the reader as many as there are pieces.  There
is such an interleaving for every input, so for none do both programs print the
number of pieces throughout. -/
theorem xfrs_differ (shm : Shmseg) (chunks : List (Chunk bufSize)) :
    (∀ ls s, exec stepOk (start shm chunks) ls = some s → BothTerminated s →
      s.sent.map Prod.snd = some (Int32.ofNat (chunks.length + 1)) ∧
      s.received.map Prod.snd = some (Int32.ofNat chunks.length) ∧
      ¬ XfrsAgree chunks.length s) ∧
    (∃ ls s, exec stepOk (start shm chunks) ls = some s ∧ BothTerminated s) ∧
    ¬ ∀ ls s, exec stepOk (start shm chunks) ls = some s → BothTerminated s →
      XfrsAgree chunks.length s := by
  have hprinted : ∀ ls s, exec stepOk (start shm chunks) ls = some s →
      BothTerminated s →
      s.sent.map Prod.snd = some (Int32.ofNat (chunks.length + 1)) ∧
      s.received.map Prod.snd = some (Int32.ofNat chunks.length) ∧
      ¬ XfrsAgree chunks.length s := by
    intro ls s hrun hend
    have hreach : Reachable stepOk (start shm chunks) s := ⟨ls, hrun⟩
    have hcounted : XfrsCounted (join chunks) chunks.length s :=
      hreach.invariant (fun _ _ _ hI hstep => hI.step_ok hstep)
        (start_xfrsCounted shm chunks)
    obtain ⟨hsent, hreceived⟩ := hcounted.printed hend
    refine ⟨hsent, hreceived, ?_⟩
    rintro ⟨hagree, -⟩
    rw [hsent, Option.some.injEq] at hagree
    exact ofNat_succ_ne _ hagree
  obtain ⟨ls, s, hrun, hend⟩ := exists_completed shm chunks
  refine ⟨hprinted, ⟨ls, s, hrun, hend⟩, ?_⟩
  intro hall
  exact (hprinted ls s hrun hend).2.2 (hall ls s hrun hend)

/-- Two bytes in one piece: two transfers are sent and one is received. -/
theorem one_piece_two_xfrs :
    ∃ ls s, exec stepOk (start ⟨0, []⟩ [⟨[72, 105], by decide, by decide⟩]) ls =
        some s ∧ BothTerminated s ∧ s.stdout = [72, 105] ∧
      s.sent = some (2, 2) ∧ s.received = some (2, 1) ∧ ¬ XfrsAgree 1 s := by
  let ls :=
    List.replicate 9 Proc.writer ++ List.replicate 7 Proc.reader ++
      List.replicate 7 Proc.writer ++ List.replicate 5 Proc.reader ++
      List.replicate 5 Proc.writer
  obtain ⟨s, hs, hend⟩ := exists_exec stepOk
    (fun s => BothTerminated s ∧ s.stdout = [72, 105] ∧
      s.sent = some (2, 2) ∧ s.received = some (2, 1) ∧ ¬ XfrsAgree 1 s)
    (start ⟨0, []⟩ [⟨[72, 105], by decide, by decide⟩]) ls (by decide)
  exact ⟨ls, s, hs, hend⟩

end Lpi.Ports.SvshmXfr
