import Lpi.Ports.SvshmXfrHandoff

/-!
# The byte totals of the shared-memory transfer

Both programs add `shmp->bufferSize` to their total in the increment of the
`for` loop, when they no longer own the segment.  For the writer this is
harmless: nobody else stores the size.  The reader, however, may find the
size of the *next* piece there, or the zero of the end marker, because
`WRITE_SEM` is already released.

`totals_agree_of_undisturbed` gives the condition under which the totals are
right: no step of the run changes the size while the reader still has to add
it.  `last_piece_not_counted` is a run that breaks it.
-/

namespace Lpi.Ports.SvshmXfr

open Lpi.Ports.BinarySems
open Lpi.Verified.CData
open Lpi.Verified.Pieces
open Lpi.Verified.Run

/-! ## What each process still has to add -/

/-- Bytes taken from standard input that the writer has not added yet. -/
def writerOwes (s : State) : Int32 :=
  match s.writerPc with
  | .storeSize n => n
  | .checkSize | .releaseRead | .increment => s.shm.bufferSize
  | _ => 0

/-- Bytes the reader has written but not added yet, as it will read them. -/
def readerOwes (s : State) : Int32 :=
  match s.readerPc with
  | .checkCount _ | .releaseWrite | .increment => s.shm.bufferSize
  | _ => 0

/-- The writer's total accounts for everything that has left its standard
input. -/
structure WriterCounted (input : List UInt8) (s : State) : Prop where
  total : s.writerBytes + writerOwes s + Int32.ofNat (join s.stdin).length =
    Int32.ofNat input.length
  printed : s.writerPc = .exited .success →
    s.sent = some (s.writerBytes, s.writerXfrs)

/-- The reader's total accounts for everything it has written. -/
structure ReaderCounted (s : State) : Prop where
  total : s.readerBytes + readerOwes s = Int32.ofNat s.stdout.length
  printed : s.readerPc = .exited .success →
    s.received = some (s.readerBytes, s.readerXfrs)

/-- The value the writer is about to store into `shmp->bufferSize`. -/
def WriterPc.stores : WriterPc → Option Int32
  | .storeBufSize => some (Int32.ofNat bufSize)
  | .storeSize n => some n
  | _ => none

/-- The step does not store a size other than the one the reader still has
to add. -/
def Undisturbed (s : State) (p : Proc) : Prop :=
  p = .writer → s.readerPc = .increment →
    ∀ n ∈ s.writerPc.stores, n = s.shm.bufferSize

instance (s : State) (p : Proc) : Decidable (Undisturbed s p) :=
  inferInstanceAs (Decidable (p = .writer → s.readerPc = .increment →
    ∀ n ∈ s.writerPc.stores, n = s.shm.bufferSize))

/-! ## Steps -/

theorem WriterCounted.writer_step {input : List UInt8} {s t : State}
    (hinv : Inv input s) (h : WriterCounted input s)
    (hstep : writerStep s .ok = some t) : WriterCounted input t := by
  have htotal := h.total
  cases hpc : s.writerPc with
  | storeBufSize =>
      simp only [writerOwes, hpc] at htotal
      simp only [writerStep, hpc, Option.some.injEq] at hstep
      subst hstep
      exact ⟨htotal, by simp⟩
  | testSize =>
      simp only [writerOwes, hpc] at htotal
      simp only [writerStep, hpc, Option.some.injEq] at hstep
      subst hstep
      by_cases hz : s.shm.bufferSize = 0
      · refine ⟨?_, by simp [hz]⟩
        simpa [writerOwes, hz] using htotal
      · refine ⟨?_, by simp [hz]⟩
        simpa [writerOwes, hz] using htotal
  | reserveWrite | reserveFinal =>
      simp only [writerOwes, hpc] at htotal
      simp only [writerStep, hpc, Option.map_eq_some_iff] at hstep
      obtain ⟨v, _, rfl⟩ := hstep
      exact ⟨htotal, by simp⟩
  | readStdin =>
      simp only [writerOwes, hpc] at htotal
      cases hin : s.stdin with
      | nil =>
          simp only [writerStep, hpc, hin, Option.some.injEq] at hstep
          subst hstep
          rw [hin] at htotal
          exact ⟨htotal, by simp⟩
      | cons c cs =>
          simp only [writerStep, hpc, hin, Option.some.injEq] at hstep
          subst hstep
          rw [hin, join_cons, List.length_append, Int32.ofNat_add] at htotal
          refine ⟨?_, by simp⟩
          calc s.writerBytes + Int32.ofNat c.bytes.length +
                Int32.ofNat (join cs).length
              = s.writerBytes + 0 + (Int32.ofNat c.bytes.length +
                  Int32.ofNat (join cs).length) := by
                rw [Int32.add_zero, Int32.add_assoc]
            _ = Int32.ofNat input.length := htotal
  | storeSize n =>
      simp only [writerOwes, hpc] at htotal
      simp only [writerStep, hpc, Option.some.injEq] at hstep
      subst hstep
      exact ⟨htotal, by simp⟩
  | checkSize =>
      simp only [writerOwes, hpc] at htotal
      simp only [writerStep, hpc, Option.some.injEq] at hstep
      subst hstep
      simp only [Inv, hpc] at hinv
      have hne := hinv.2.2.size_ne_neg_one
      refine ⟨?_, by simp [hne]⟩
      simpa [writerOwes, hne] using htotal
  | releaseRead =>
      simp only [writerOwes, hpc] at htotal
      simp only [writerStep, hpc, release_eq, Option.map_some,
        Option.some.injEq] at hstep
      subst hstep
      exact ⟨htotal, by simp⟩
  | increment =>
      simp only [writerOwes, hpc] at htotal
      simp only [writerStep, hpc, Option.some.injEq] at hstep
      subst hstep
      refine ⟨?_, by simp⟩
      simpa [writerOwes] using htotal
  | shmdt | rmShm | rmSem | report =>
      simp only [writerOwes, hpc] at htotal
      simp only [writerStep, hpc, Option.some.injEq] at hstep
      subst hstep
      exact ⟨htotal, by simp⟩
  | exited status => simp [writerStep, hpc] at hstep

/-- The reader does not touch what the writer's total is about. -/
theorem WriterCounted.reader_step {input : List UInt8} {s t : State}
    (h : WriterCounted input s) (hstep : readerStep s .ok = some t) :
    WriterCounted input t := by
  have hframe := readerStep_frame hstep
  have howes : writerOwes t = writerOwes s := by
    unfold writerOwes
    rw [hframe.pc, hframe.shm]
  refine ⟨?_, ?_⟩
  · rw [hframe.bytes, howes, hframe.stdin]
    exact h.total
  · rw [hframe.pc, hframe.sent, hframe.bytes, hframe.xfrs]
    exact h.printed

/-- A `write()` of the reader moves a whole piece to standard output and
leaves its size to be added. -/
theorem ReaderCounted.writeStdout {input : List UInt8} {s : State} {n : Int32}
    (hinv : Posted input s) (h : ReaderCounted s)
    (hpc : s.readerPc = .writeStdout n) :
    ReaderCounted
      { s with stdout := s.stdout ++ s.shm.buffer.take n.toNatClampNeg
               readerPc := .checkCount n } := by
  simp only [Posted, hpc] at hinv
  obtain ⟨_, _, rfl, c, hsize, hc⟩ := hinv
  have htotal := h.total
  simp only [readerOwes, hpc, Int32.add_zero] at htotal
  have hwritten : s.shm.buffer.take s.shm.bufferSize.toNatClampNeg = c := by
    rw [hsize, Int32.toNatClampNeg_ofNat_of_lt hc.length_lt]
    exact hc.buffer
  refine ⟨?_, by simp⟩
  simp only [readerOwes]
  rw [hwritten, List.length_append, Int32.ofNat_add, htotal, hsize]

theorem ReaderCounted.reader_step {input : List UInt8} {s t : State}
    (hinv : Inv input s) (h : ReaderCounted s)
    (hstep : readerStep s .ok = some t) : ReaderCounted t := by
  have htotal := h.total
  cases hpc : s.readerPc with
  | reserveRead =>
      simp only [readerOwes, hpc] at htotal
      simp only [readerStep, hpc, Option.map_eq_some_iff] at hstep
      obtain ⟨v, _, rfl⟩ := hstep
      exact ⟨htotal, by simp⟩
  | testSize =>
      simp only [readerOwes, hpc] at htotal
      simp only [readerStep, hpc, Option.some.injEq] at hstep
      subst hstep
      by_cases hz : s.shm.bufferSize = 0
      · refine ⟨?_, by simp [hz]⟩
        simpa [readerOwes, hz] using htotal
      · refine ⟨?_, by simp [hz]⟩
        simpa [readerOwes, hz] using htotal
  | loadCount | shmdt | report =>
      simp only [readerOwes, hpc] at htotal
      simp only [readerStep, hpc, Option.some.injEq] at hstep
      subst hstep
      exact ⟨htotal, by simp⟩
  | writeStdout n =>
      simp only [readerStep, hpc, Option.some.injEq] at hstep
      subst hstep
      exact h.writeStdout (hinv.posted_of_holds (by simp [hpc, ReaderPc.holds])) hpc
  | checkCount r =>
      simp only [readerOwes, hpc] at htotal
      simp only [readerStep, hpc, Option.some.injEq] at hstep
      subst hstep
      have hp := hinv.posted_of_holds (by simp [hpc, ReaderPc.holds])
      simp only [Posted, hpc] at hp
      obtain ⟨_, _, rfl, _⟩ := hp
      refine ⟨?_, by simp⟩
      simpa [readerOwes] using htotal
  | releaseWrite =>
      simp only [readerOwes, hpc] at htotal
      simp only [readerStep, hpc, release_eq, Option.map_some,
        Option.some.injEq] at hstep
      subst hstep
      exact ⟨htotal, by simp⟩
  | increment =>
      simp only [readerOwes, hpc] at htotal
      simp only [readerStep, hpc, Option.some.injEq] at hstep
      subst hstep
      refine ⟨?_, by simp⟩
      simpa [readerOwes] using htotal
  | releaseFinal =>
      simp only [readerOwes, hpc] at htotal
      simp only [readerStep, hpc, release_eq, Option.map_some,
        Option.some.injEq] at hstep
      subst hstep
      exact ⟨htotal, by simp⟩
  | exited status => simp [readerStep, hpc] at hstep

/-- A step of the writer changes neither side of the reader's account if it
leaves alone the size the reader still has to add. -/
theorem ReaderCounted.writer_step {input : List UInt8} {s t : State}
    (hinv : Inv input s) (h : ReaderCounted s) (hquiet : Undisturbed s .writer)
    (hstep : writerStep s .ok = some t) : ReaderCounted t := by
  -- A store meets an idle reader; only its pending increment reads the size.
  have hstore : ∀ n, (s.writerPc = .storeBufSize ∧ s.readerPc = .reserveRead) ∨
      (s.writerPc = .storeSize n ∧ ReaderIdle s) →
      ReaderCounted { s with shm := { s.shm with bufferSize := n } } := by
    intro n hcase
    refine ⟨?_, h.printed⟩
    have htotal := h.total
    rcases hcase with ⟨_, hidle⟩ | ⟨hw, hidle | hidle⟩
    · simpa only [readerOwes, hidle] using htotal
    · simpa only [readerOwes, hidle] using htotal
    · have hn := hquiet rfl hidle n (by rw [hw]; rfl)
      simpa only [readerOwes, hidle, hn] using htotal
  cases hpc : s.writerPc with
  | storeBufSize =>
      simp only [Inv, hpc] at hinv
      simp only [writerStep, hpc, Option.some.injEq] at hstep
      subst hstep
      have ht := hstore (Int32.ofNat bufSize) (Or.inl ⟨hpc, hinv.2.2.1⟩)
      exact ⟨ht.total, ht.printed⟩
  | storeSize n =>
      simp only [Inv, hpc] at hinv
      simp only [writerStep, hpc, Option.some.injEq] at hstep
      subst hstep
      have ht := hstore n (Or.inr ⟨hpc, hinv.2.1⟩)
      exact ⟨ht.total, ht.printed⟩
  | readStdin =>
      cases hin : s.stdin <;>
        simp only [writerStep, hpc, hin, Option.some.injEq] at hstep
      all_goals
        subst hstep
        exact ⟨h.total, h.printed⟩
  | reserveWrite | releaseRead | reserveFinal =>
      simp only [writerStep, hpc, Option.map_eq_some_iff] at hstep
      obtain ⟨v, _, rfl⟩ := hstep
      exact ⟨h.total, h.printed⟩
  | testSize | checkSize | increment | shmdt | rmShm | rmSem | report =>
      simp only [writerStep, hpc, Option.some.injEq] at hstep
      subst hstep
      exact ⟨h.total, h.printed⟩
  | exited status => simp [writerStep, hpc] at hstep

/-! ## Whole runs -/

/-- Hand-off and both accounts together. -/
structure Counted (input : List UInt8) (s : State) : Prop where
  inv : Inv input s
  writer : WriterCounted input s
  reader : ReaderCounted s

theorem start_counted (shm : Shmseg) (chunks : List (Chunk bufSize)) :
    Counted (join chunks) (start shm chunks) where
  inv := start_inv shm chunks
  writer := ⟨by simp [writerOwes, start], nofun⟩
  reader := ⟨by simp [readerOwes, start], nofun⟩

theorem Counted.step_ok {input : List UInt8} {s t : State} {p : Proc}
    (h : Counted input s) (hquiet : Undisturbed s p)
    (hstep : stepOk s p = some t) : Counted input t := by
  cases p with
  | writer =>
      exact
        { inv := h.inv.writer_step hstep
          writer := h.writer.writer_step h.inv hstep
          reader := h.reader.writer_step h.inv hquiet hstep }
  | reader =>
      exact
        { inv := h.inv.reader_step hstep
          writer := h.writer.reader_step hstep
          reader := h.reader.reader_step h.inv hstep }

theorem counted_of_undisturbed {shm : Shmseg} {chunks : List (Chunk bufSize)}
    {ls : List Proc} {s : State}
    (hquiet : Along stepOk Undisturbed (start shm chunks) ls)
    (hrun : exec stepOk (start shm chunks) ls = some s) :
    Counted (join chunks) s :=
  invariant_along (fun _ _ _ hI hC hstep => Counted.step_ok hI hC hstep)
    (start_counted shm chunks) hquiet hrun

/-- Both processes have printed, and the two byte totals, the bytes the
reader wrote and the length of the input are one number. -/
def TotalsAgree (input : List UInt8) (s : State) : Prop :=
  ∃ sentBytes sentXfrs receivedBytes receivedXfrs,
    s.sent = some (sentBytes, sentXfrs) ∧
    s.received = some (receivedBytes, receivedXfrs) ∧
    receivedBytes.toInt = s.stdout.length ∧
    receivedBytes = sentBytes ∧
    sentBytes.toInt = input.length

/-- **Byte totals.**  In every run in which the writer stores no other size
while the reader still has to add the last one, the totals agree once both
processes have terminated. -/
theorem totals_agree_of_undisturbed (shm : Shmseg)
    (chunks : List (Chunk bufSize)) (hlen : (join chunks).length < 2 ^ 31)
    (ls : List Proc) (s : State)
    (hquiet : Along stepOk Undisturbed (start shm chunks) ls)
    (hrun : exec stepOk (start shm chunks) ls = some s)
    (hwriter : s.writerPc = .exited .success)
    (hreader : s.readerPc = .exited .success) :
    TotalsAgree (join chunks) s := by
  have hc := counted_of_undisturbed hquiet hrun
  have hdrained : Drained (join chunks) s := by
    have hinv := hc.inv
    simp only [Inv, hwriter] at hinv
    exact hinv.2.2
  have hsent : s.writerBytes = Int32.ofNat (join chunks).length := by
    have htotal := hc.writer.total
    simpa [writerOwes, hwriter, hdrained.2] using htotal
  have hreceived : s.readerBytes = Int32.ofNat (join chunks).length := by
    have htotal := hc.reader.total
    simpa [readerOwes, hreader, hdrained.1] using htotal
  refine ⟨s.writerBytes, s.writerXfrs, s.readerBytes, s.readerXfrs,
    hc.writer.printed hwriter, hc.reader.printed hreader, ?_, ?_, ?_⟩
  · rw [hreceived, hdrained.1, Int32.toInt_ofNat_of_lt hlen]
  · rw [hreceived, hsent]
  · rw [hsent, Int32.toInt_ofNat_of_lt hlen]

/-- One piece transferred with the processes taking turns, the reader adding
its size before the writer goes on. -/
def turnByTurn : List Proc :=
  List.replicate 9 .writer ++ List.replicate 7 .reader ++
    List.replicate 7 .writer ++ List.replicate 5 .reader ++
    List.replicate 5 .writer

theorem totals_agree_turn_by_turn :
    ∃ s, exec stepOk (start ⟨0, []⟩ [⟨[72, 105], by decide, by decide⟩])
        turnByTurn = some s ∧ TotalsAgree [72, 105] s := by
  obtain ⟨s, hs, hpcs⟩ := exists_exec stepOk
    (fun s => s.writerPc = .exited .success ∧ s.readerPc = .exited .success)
    (start ⟨0, []⟩ [⟨[72, 105], by decide, by decide⟩]) turnByTurn (by decide)
  exact ⟨s, hs, totals_agree_of_undisturbed ⟨0, []⟩
    [⟨[72, 105], by decide, by decide⟩] (by decide) turnByTurn s
    (by decide) hs hpcs.1 hpcs.2⟩

/-- The same piece, but after the reader's release the writer runs on to its
end marker before the reader adds the size. -/
def writerOvertakes : List Proc :=
  List.replicate 9 .writer ++ List.replicate 6 .reader ++
    List.replicate 7 .writer ++ List.replicate 6 .reader ++
    List.replicate 5 .writer

/-- The reader has written two bytes and reports none. -/
theorem last_piece_not_counted :
    ∃ s, exec stepOk (start ⟨0, []⟩ [⟨[72, 105], by decide, by decide⟩])
        writerOvertakes = some s ∧
      s.writerPc = .exited .success ∧ s.readerPc = .exited .success ∧
      s.stdout = [72, 105] ∧ s.sent = some (2, 2) ∧
      s.received = some (0, 1) ∧ ¬ TotalsAgree [72, 105] s := by
  obtain ⟨s, hs, hwriter, hreader, hout, hsent, hreceived⟩ := exists_exec stepOk
    (fun s => s.writerPc = .exited .success ∧ s.readerPc = .exited .success ∧
      s.stdout = [72, 105] ∧ s.sent = some (2, 2) ∧ s.received = some (0, 1))
    (start ⟨0, []⟩ [⟨[72, 105], by decide, by decide⟩]) writerOvertakes
    (by decide)
  refine ⟨s, hs, hwriter, hreader, hout, hsent, hreceived, ?_⟩
  rintro ⟨_, _, receivedBytes, _, _, hr, hbytes, _⟩
  rw [hreceived, Option.some.injEq, Prod.mk.injEq] at hr
  rw [← hr.1, hout] at hbytes
  exact absurd hbytes (by decide)

end Lpi.Ports.SvshmXfr
