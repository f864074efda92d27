import Lpi.Ports.SvshmXfr

/-!
# The segment is handed over whole

The invariant of the shared-memory transfer follows the writer.  While the
writer is inside its critical section the reader is idle (`ReaderIdle`);
while the writer is outside, what holds depends on how far the reader is with
the last posted contents (`Posted`); once the writer is past its final
reserve the reader is done.

In each of these situations exactly one of `writeSem`, `readSem`, the writer
and the reader owns the segment, and what has been written to standard
output, what the segment still holds and what has not been read yet make up
the input (`Loaded`, `Emptied`).
-/

namespace Lpi.Ports.SvshmXfr

open Lpi.Ports.BinarySems
open Lpi.Verified.CData
open Lpi.Verified.Pieces
open Lpi.Verified.Run

/-! ## The invariant -/

/-- `buffer` starts with `c`, which comes after what has been written and
before what has not been read; `c` is empty only at the end of the input. -/
structure Holding (input buffer stdout : List UInt8)
    (stdin : List (Chunk bufSize)) (c : List UInt8) : Prop where
  length_le : c.length ≤ bufSize
  buffer : buffer.take c.length = c
  split : stdout ++ (c ++ join stdin) = input
  atEnd : c = [] → stdin = []

/-- The segment holds bytes nobody has written yet; `n` says how many. -/
def Filled (input : List UInt8) (s : State) (n : Int32) : Prop :=
  ∃ c, n = Int32.ofNat c.length ∧
    Holding input s.shm.buffer s.stdout s.stdin c

/-- The segment is filled and its own `bufferSize` says so. -/
def Loaded (input : List UInt8) (s : State) : Prop :=
  Filled input s s.shm.bufferSize

/-- Everything that was read has been written. -/
def Emptied (input : List UInt8) (s : State) : Prop :=
  s.stdout ++ join s.stdin = input

/-- The end marker has been seen: everything is read and written. -/
def Drained (input : List UInt8) (s : State) : Prop :=
  s.stdout = input ∧ s.stdin = []

/-- Neither semaphore is available: a process owns the segment. -/
def Taken (s : State) : Prop := s.writeSem = 0 ∧ s.readSem = 0

/-- The reader is outside its critical section and will come back. -/
def ReaderIdle (s : State) : Prop :=
  s.readerPc = .reserveRead ∨ s.readerPc = .increment

/-- The reader has released `WRITE_SEM` for the last time. -/
def ReaderDone (s : State) : Prop :=
  s.readerPc = .report ∨ s.readerPc = .exited .success

/-- How far the reader is with the contents the writer posted last.  Before
the first post the segment counts as posted and consumed. -/
def Posted (input : List UInt8) (s : State) : Prop :=
  match s.readerPc with
  | .reserveRead | .increment =>
      (s.writeSem = 0 ∧ s.readSem = 1 ∧ Loaded input s) ∨
      (s.writeSem = 1 ∧ s.readSem = 0 ∧ s.shm.bufferSize ≠ 0 ∧ Emptied input s)
  | .testSize => Taken s ∧ Loaded input s
  | .loadCount => Taken s ∧ s.shm.bufferSize ≠ 0 ∧ Loaded input s
  | .writeStdout n =>
      Taken s ∧ s.shm.bufferSize ≠ 0 ∧ n = s.shm.bufferSize ∧ Loaded input s
  | .checkCount r =>
      Taken s ∧ s.shm.bufferSize ≠ 0 ∧ r = s.shm.bufferSize ∧ Emptied input s
  | .releaseWrite => Taken s ∧ s.shm.bufferSize ≠ 0 ∧ Emptied input s
  | .shmdt | .releaseFinal =>
      Taken s ∧ s.shm.bufferSize = 0 ∧ Drained input s
  | .report | .exited .success =>
      s.writeSem = 1 ∧ s.readSem = 0 ∧ s.shm.bufferSize = 0 ∧ Drained input s
  | .exited .failure => False

/-- The invariant of the transfer, by the position of the writer. -/
def Inv (input : List UInt8) (s : State) : Prop :=
  match s.writerPc with
  | .storeBufSize =>
      s.writeSem = 1 ∧ s.readSem = 0 ∧ s.readerPc = .reserveRead ∧
        Emptied input s
  | .testSize | .increment => Posted input s
  | .reserveWrite => Posted input s ∧ s.shm.bufferSize ≠ 0
  | .readStdin => Taken s ∧ ReaderIdle s ∧ Emptied input s
  | .storeSize n => Taken s ∧ ReaderIdle s ∧ Filled input s n
  | .checkSize | .releaseRead => Taken s ∧ ReaderIdle s ∧ Loaded input s
  | .reserveFinal => Posted input s ∧ s.shm.bufferSize = 0
  | .shmdt | .rmShm | .rmSem | .report | .exited .success =>
      Taken s ∧ ReaderDone s ∧ Drained input s
  | .exited .failure => False

theorem start_inv (shm : Shmseg) (chunks : List (Chunk bufSize)) :
    Inv (join chunks) (start shm chunks) := by
  refine ⟨rfl, rfl, rfl, ?_⟩
  simp [Emptied, start]

/-! ## Facts about full and empty segments -/

private theorem bufSize_lt : bufSize < 2 ^ 31 := by decide

theorem Holding.length_lt {input buffer stdout c : List UInt8}
    {stdin : List (Chunk bufSize)}
    (h : Holding input buffer stdout stdin c) : c.length < 2 ^ 31 :=
  Nat.lt_of_le_of_lt h.length_le bufSize_lt

/-- A non-zero `bufferSize` counts a non-empty chunk, a zero one the end. -/
theorem Loaded.size_eq_zero {input : List UInt8} {s : State}
    (h : Loaded input s) (hz : s.shm.bufferSize = 0) : Drained input s := by
  obtain ⟨c, hsize, hc⟩ := h
  rw [hsize, ofNat_eq_zero hc.length_lt, List.length_eq_zero_iff] at hz
  have hend := hc.atEnd hz
  have hsplit := hc.split
  rw [hz, hend] at hsplit
  exact ⟨by simpa using hsplit, hend⟩

/-- The size of a loaded segment is never taken for a failed `read()`. -/
theorem Loaded.size_ne_neg_one {input : List UInt8} {s : State}
    (h : Loaded input s) : s.shm.bufferSize ≠ -1 := by
  obtain ⟨c, hsize, hc⟩ := h
  rw [hsize]
  exact ofNat_ne_neg_one hc.length_lt

/-- The bytes the reader's `write()` takes out of a loaded segment are the
ones that come next in the input. -/
theorem Loaded.write {input : List UInt8} {s : State} (h : Loaded input s) :
    s.stdout ++ s.shm.buffer.take s.shm.bufferSize.toNatClampNeg ++
      join s.stdin = input := by
  obtain ⟨c, hsize, hc⟩ := h
  rw [hsize, Int32.toNatClampNeg_ofNat_of_lt hc.length_lt, hc.buffer,
    List.append_assoc]
  exact hc.split

/-! ## Steps of the reader -/

theorem Posted.reader_step {input : List UInt8} {s t : State}
    (h : Posted input s) (hstep : readerStep s .ok = some t) :
    Posted input t := by
  cases hpc : s.readerPc with
  | reserveRead =>
      simp only [Posted, hpc] at h
      simp only [readerStep, hpc, Option.map_eq_some_iff] at hstep
      obtain ⟨v, hv, rfl⟩ := hstep
      rw [reserve_eq_some] at hv
      -- A successful reserve rules out the consumed segment.
      rcases h with ⟨hw, hr, hl⟩ | ⟨_, hr, _, _⟩
      · have hv0 : v = 0 := by omega
        exact ⟨⟨hw, hv0⟩, hl⟩
      · omega
  | testSize =>
      simp only [Posted, hpc] at h
      simp only [readerStep, hpc, Option.some.injEq] at hstep
      subst hstep
      by_cases hz : s.shm.bufferSize = 0
      · simp only [Posted, hz, if_true]
        exact ⟨h.1, trivial, h.2.size_eq_zero hz⟩
      · simp only [Posted, hz, if_false]
        exact ⟨h.1, hz, h.2⟩
  | loadCount =>
      simp only [Posted, hpc] at h
      simp only [readerStep, hpc, Option.some.injEq] at hstep
      subst hstep
      exact ⟨h.1, h.2.1, rfl, h.2.2⟩
  | writeStdout n =>
      simp only [Posted, hpc] at h
      simp only [readerStep, hpc, Option.some.injEq] at hstep
      subst hstep
      obtain ⟨htaken, hne, rfl, hl⟩ := h
      exact ⟨htaken, hne, rfl, hl.write⟩
  | checkCount r =>
      simp only [Posted, hpc] at h
      simp only [readerStep, hpc, Option.some.injEq] at hstep
      subst hstep
      obtain ⟨htaken, hne, rfl, he⟩ := h
      simp only [Posted, ne_eq, not_true_eq_false, if_false]
      exact ⟨htaken, hne, he⟩
  | releaseWrite =>
      simp only [Posted, hpc] at h
      simp only [readerStep, hpc, release_eq, Option.map_some,
        Option.some.injEq] at hstep
      subst hstep
      obtain ⟨⟨hw, hr⟩, hne, he⟩ := h
      refine Or.inr ⟨?_, hr, hne, he⟩
      simp [hw]
  | increment =>
      simp only [Posted, hpc] at h
      simp only [readerStep, hpc, Option.some.injEq] at hstep
      subst hstep
      exact h
  | shmdt =>
      simp only [Posted, hpc] at h
      simp only [readerStep, hpc, Option.some.injEq] at hstep
      subst hstep
      exact h
  | releaseFinal =>
      simp only [Posted, hpc] at h
      simp only [readerStep, hpc, release_eq, Option.map_some,
        Option.some.injEq] at hstep
      subst hstep
      obtain ⟨⟨hw, hr⟩, hz, hout⟩ := h
      exact ⟨by simp [hw], hr, hz, hout⟩
  | report =>
      simp only [Posted, hpc] at h
      simp only [readerStep, hpc, Option.some.injEq] at hstep
      subst hstep
      exact h
  | exited status => simp [readerStep, hpc] at hstep

/-- While the writer owns the segment the reader can only finish its loop
increment, which reads the segment but changes nothing shared. -/
theorem ReaderIdle.reader_step {s t : State} (h : ReaderIdle s)
    (hr : s.readSem = 0) (hstep : readerStep s .ok = some t) :
    t = { s with readerXfrs := s.readerXfrs + 1
                 readerBytes := s.readerBytes + s.shm.bufferSize
                 readerPc := .reserveRead } := by
  rcases h with hpc | hpc
  · simp [readerStep, hpc, hr] at hstep
  · simp only [readerStep, hpc, Option.some.injEq] at hstep
    exact hstep.symm

/-- After its final release the reader only prints its totals. -/
theorem ReaderDone.reader_step {s t : State} (h : ReaderDone s)
    (hstep : readerStep s .ok = some t) :
    t = { s with received := some (s.readerBytes, s.readerXfrs)
                 readerPc := .exited .success } := by
  rcases h with hpc | hpc
  · simp only [readerStep, hpc, Option.some.injEq] at hstep
    exact hstep.symm
  · simp [readerStep, hpc] at hstep

/-- What belongs to the writer is the same in both states. -/
structure SameWriter (s t : State) : Prop where
  pc : t.writerPc = s.writerPc
  shm : t.shm = s.shm
  stdin : t.stdin = s.stdin
  xfrs : t.writerXfrs = s.writerXfrs
  bytes : t.writerBytes = s.writerBytes
  sent : t.sent = s.sent

/-- The reader has the segment attached read-only. -/
theorem readerStep_frame {s t : State} (hstep : readerStep s .ok = some t) :
    SameWriter s t := by
  cases hpc : s.readerPc with
  | reserveRead | releaseWrite | releaseFinal =>
      simp only [readerStep, hpc, Option.map_eq_some_iff] at hstep
      obtain ⟨v, _, rfl⟩ := hstep
      exact ⟨rfl, rfl, rfl, rfl, rfl, rfl⟩
  | testSize | loadCount | writeStdout n | checkCount r | increment | shmdt
  | report =>
      simp only [readerStep, hpc, Option.some.injEq] at hstep
      subst hstep
      exact ⟨rfl, rfl, rfl, rfl, rfl, rfl⟩
  | exited status => simp [readerStep, hpc] at hstep

theorem Inv.reader_step {input : List UInt8} {s t : State} (h : Inv input s)
    (hstep : readerStep s .ok = some t) : Inv input t := by
  have hframe := readerStep_frame hstep
  cases hpc : s.writerPc with
  | storeBufSize =>
      simp only [Inv, hpc] at h
      simp [readerStep, h.2.2.1, h.2.1] at hstep
  | testSize | increment =>
      simp only [Inv, hpc] at h
      simp only [Inv, hframe.pc, hpc]
      exact h.reader_step hstep
  | reserveWrite | reserveFinal =>
      simp only [Inv, hpc] at h
      simp only [Inv, hframe.pc, hpc, hframe.shm]
      exact ⟨h.1.reader_step hstep, h.2⟩
  | readStdin | storeSize n | checkSize | releaseRead =>
      simp only [Inv, hpc] at h
      obtain ⟨htaken, hidle, hrest⟩ := h
      have ht := hidle.reader_step htaken.2 hstep
      subst ht
      simp only [Inv, hpc]
      exact ⟨htaken, Or.inl rfl, hrest⟩
  | shmdt | rmShm | rmSem | report =>
      simp only [Inv, hpc] at h
      obtain ⟨htaken, hdone, hout⟩ := h
      have ht := hdone.reader_step hstep
      subst ht
      simp only [Inv, hpc]
      exact ⟨htaken, Or.inr rfl, hout⟩
  | exited status =>
      cases status with
      | failure => simp [Inv, hpc] at h
      | success =>
          simp only [Inv, hpc] at h
          obtain ⟨htaken, hdone, hout⟩ := h
          have ht := hdone.reader_step hstep
          subst ht
          simp only [Inv, hpc]
          exact ⟨htaken, Or.inr rfl, hout⟩

/-! ## Steps of the writer -/

/-- `WRITE_SEM` is available to a writer outside its critical section only
once the reader has consumed what was posted, or has seen the end marker and
left. -/
theorem Posted.of_writeSem_pos {input : List UInt8} {s : State}
    (h : Posted input s) (hpos : 0 < s.writeSem) :
    s.writeSem = 1 ∧ s.readSem = 0 ∧
      ((ReaderIdle s ∧ s.shm.bufferSize ≠ 0 ∧ Emptied input s) ∨
       (ReaderDone s ∧ s.shm.bufferSize = 0 ∧ Drained input s)) := by
  cases hpc : s.readerPc with
  | reserveRead | increment =>
      simp only [Posted, hpc] at h
      rcases h with ⟨hw, _, _⟩ | ⟨hw, hr, hne, he⟩
      · omega
      · exact ⟨hw, hr, Or.inl ⟨by simp [ReaderIdle, hpc], hne, he⟩⟩
  | testSize | loadCount | writeStdout n | checkCount r | releaseWrite
  | shmdt | releaseFinal =>
      simp only [Posted, hpc, Taken] at h
      omega
  | report =>
      simp only [Posted, hpc] at h
      exact ⟨h.1, h.2.1, Or.inr ⟨Or.inl hpc, h.2.2⟩⟩
  | exited status =>
      cases status with
      | failure => simp [Posted, hpc] at h
      | success =>
          simp only [Posted, hpc] at h
          exact ⟨h.1, h.2.1, Or.inr ⟨Or.inr hpc, h.2.2⟩⟩

/-- What a `read()` of the writer leaves behind: the next piece of the
input at the start of the buffer, or the empty end marker. -/
theorem Inv.readStdin {input : List UInt8} {s t : State}
    (h : Taken s ∧ ReaderIdle s ∧ Emptied input s)
    (hpc : s.writerPc = .readStdin) (hstep : writerStep s .ok = some t) :
    Inv input t := by
  obtain ⟨htaken, hidle, he⟩ := h
  unfold Emptied at he
  cases hin : s.stdin with
  | nil =>
      simp only [writerStep, hpc, hin, Option.some.injEq] at hstep
      subst hstep
      refine ⟨htaken, hidle, [], rfl, ?_⟩
      rw [hin] at he
      exact { length_le := by simp
              buffer := rfl
              split := by simpa [hin] using he
              atEnd := fun _ => rfl }
  | cons c cs =>
      simp only [writerStep, hpc, hin, Option.some.injEq] at hstep
      subst hstep
      refine ⟨htaken, hidle, c.bytes, rfl, ?_⟩
      rw [hin, join_cons] at he
      exact { length_le := c.length_le
              buffer := take_overlay c.bytes s.shm.buffer
              split := he
              atEnd := fun hnil => absurd hnil c.ne_nil }

theorem Inv.writer_step {input : List UInt8} {s t : State} (h : Inv input s)
    (hstep : writerStep s .ok = some t) : Inv input t := by
  cases hpc : s.writerPc with
  | storeBufSize =>
      simp only [Inv, hpc] at h
      simp only [writerStep, hpc, Option.some.injEq] at hstep
      subst hstep
      obtain ⟨hw, hr, hidle, he⟩ := h
      simp only [Inv, Posted, hidle]
      exact Or.inr ⟨hw, hr, by decide, he⟩
  | testSize =>
      simp only [Inv, hpc] at h
      simp only [writerStep, hpc, Option.some.injEq] at hstep
      subst hstep
      by_cases hz : s.shm.bufferSize = 0
      · simp only [Inv, hz, ne_eq, not_true_eq_false, if_false]
        exact ⟨h, trivial⟩
      · simp only [Inv, ne_eq, hz, not_false_eq_true, if_true]
        exact ⟨h, trivial⟩
  | reserveWrite =>
      simp only [Inv, hpc] at h
      simp only [writerStep, hpc, Option.map_eq_some_iff] at hstep
      obtain ⟨v, hv, rfl⟩ := hstep
      rw [reserve_eq_some] at hv
      obtain ⟨hw, hr, ⟨hidle, _, he⟩ | ⟨_, hz, _⟩⟩ :=
        h.1.of_writeSem_pos (by omega)
      · have hv0 : v = 0 := by omega
        exact ⟨⟨hv0, hr⟩, hidle, he⟩
      · exact absurd hz h.2
  | readStdin =>
      simp only [Inv, hpc] at h
      exact Inv.readStdin h hpc hstep
  | storeSize n =>
      simp only [Inv, hpc] at h
      simp only [writerStep, hpc, Option.some.injEq] at hstep
      subst hstep
      exact h
  | checkSize =>
      simp only [Inv, hpc] at h
      simp only [writerStep, hpc, Option.some.injEq] at hstep
      subst hstep
      have hne := h.2.2.size_ne_neg_one
      simp only [Inv, hne, if_false]
      exact h
  | releaseRead =>
      simp only [Inv, hpc] at h
      simp only [writerStep, hpc, release_eq, Option.map_some,
        Option.some.injEq] at hstep
      subst hstep
      obtain ⟨⟨hw, hr⟩, hidle | hidle, hl⟩ := h
      all_goals
        simp only [Inv, Posted, hidle, hr]
        exact Or.inl ⟨hw, trivial, hl⟩
  | increment =>
      simp only [Inv, hpc] at h
      simp only [writerStep, hpc, Option.some.injEq] at hstep
      subst hstep
      exact h
  | reserveFinal =>
      simp only [Inv, hpc] at h
      simp only [writerStep, hpc, Option.map_eq_some_iff] at hstep
      obtain ⟨v, hv, rfl⟩ := hstep
      rw [reserve_eq_some] at hv
      obtain ⟨hw, hr, ⟨_, hne, _⟩ | ⟨hdone, _, hout⟩⟩ :=
        h.1.of_writeSem_pos (by omega)
      · exact absurd h.2 hne
      · have hv0 : v = 0 := by omega
        exact ⟨⟨hv0, hr⟩, hdone, hout⟩
  | shmdt | rmShm | rmSem | report =>
      simp only [Inv, hpc] at h
      simp only [writerStep, hpc, Option.some.injEq] at hstep
      subst hstep
      exact h
  | exited status => simp [writerStep, hpc] at hstep

/-! ## Whole runs -/

theorem Inv.step_ok {input : List UInt8} {s t : State} {p : Proc}
    (h : Inv input s) (hstep : stepOk s p = some t) : Inv input t := by
  cases p with
  | writer => exact h.writer_step hstep
  | reader => exact h.reader_step hstep

/-- Every state of every interleaving satisfies the invariant. -/
theorem inv_of_reachable {shm : Shmseg} {chunks : List (Chunk bufSize)}
    {s : State} (h : Reachable stepOk (start shm chunks) s) :
    Inv (join chunks) s :=
  h.invariant (fun _ _ _ hI hstep => hI.step_ok hstep) (start_inv shm chunks)

/-! ## Consequences -/

/-- A reader inside its critical section is working on posted contents. -/
theorem Inv.posted_of_holds {input : List UInt8} {s : State} (h : Inv input s)
    (hholds : s.readerPc.holds = true) : Posted input s := by
  have hidle : ¬ ReaderIdle s := by
    rintro (hpc | hpc) <;> simp [hpc, ReaderPc.holds] at hholds
  have hdone : ¬ ReaderDone s := by
    rintro (hpc | hpc) <;> simp [hpc, ReaderPc.holds] at hholds
  unfold Inv at h
  cases hpc : s.writerPc with
  | storeBufSize =>
      simp only [hpc] at h
      exact absurd (Or.inl h.2.2.1) hidle
  | testSize | increment =>
      simp only [hpc] at h
      exact h
  | reserveWrite | reserveFinal =>
      simp only [hpc] at h
      exact h.1
  | readStdin | storeSize n | checkSize | releaseRead =>
      simp only [hpc] at h
      exact absurd h.2.1 hidle
  | shmdt | rmShm | rmSem | report =>
      simp only [hpc] at h
      exact absurd h.2.1 hdone
  | exited status =>
      cases status with
      | failure => simp [hpc] at h
      | success =>
          simp only [hpc] at h
          exact absurd h.2.1 hdone

/-- Exactly one of the two semaphores and the two processes owns the
segment, until the reader's final release. -/
theorem Inv.one_owner {input : List UInt8} {s : State} (h : Inv input s) :
    (s.readSem = 0 ∨ s.readSem = 1) ∧ (s.writeSem = 0 ∨ s.writeSem = 1) ∧
      (s.readerPc.finished = false →
        s.readSem + s.writeSem + s.holders = 1) := by
  -- Outside the writer's critical section only the reader can hold.
  have hposted : Posted input s → s.writerPc.holds = false →
      (s.readSem = 0 ∨ s.readSem = 1) ∧ (s.writeSem = 0 ∨ s.writeSem = 1) ∧
        (s.readerPc.finished = false →
          s.readSem + s.writeSem + s.holders = 1) := by
    intro hp hw
    unfold Posted at hp
    unfold State.holders
    rw [hw]
    cases hpc : s.readerPc with
    | exited status =>
        cases status <;> simp_all [ReaderPc.finished]
    | _ =>
        simp only [hpc, Taken] at hp
        simp only [ReaderPc.holds, ReaderPc.finished, Bool.toNat_false,
          Bool.toNat_true]
        omega
  cases hpc : s.writerPc with
  | testSize | increment =>
      simp only [Inv, hpc] at h
      exact hposted h (by simp [hpc, WriterPc.holds])
  | reserveWrite | reserveFinal =>
      simp only [Inv, hpc] at h
      exact hposted h.1 (by simp [hpc, WriterPc.holds])
  | storeBufSize =>
      simp only [Inv, hpc] at h
      simp [State.holders, hpc, h, WriterPc.holds, ReaderPc.holds]
  | readStdin | storeSize n | checkSize | releaseRead =>
      simp only [Inv, hpc] at h
      obtain ⟨⟨hw, hr⟩, hidle | hidle, _⟩ := h <;>
        simp [State.holders, hpc, hw, hr, hidle, WriterPc.holds, ReaderPc.holds]
  | shmdt | rmShm | rmSem | report =>
      simp only [Inv, hpc] at h
      obtain ⟨⟨hw, hr⟩, hdone | hdone, _⟩ := h <;>
        simp [hw, hr, hdone, ReaderPc.finished]
  | exited status =>
      cases status with
      | failure => simp [Inv, hpc] at h
      | success =>
          simp only [Inv, hpc] at h
          obtain ⟨⟨hw, hr⟩, hdone | hdone, _⟩ := h <;>
            simp [hw, hr, hdone, ReaderPc.finished]

/-- A reader inside its critical section keeps the writer out of the
segment. -/
theorem Inv.no_store {input : List UInt8} {s t : State} (h : Inv input s)
    (hholds : s.readerPc.holds = true)
    (hstep : stepOk s .writer = some t) : t.shm = s.shm := by
  have hstep' : writerStep s .ok = some t := hstep
  cases hpc : s.writerPc with
  | storeBufSize =>
      simp only [Inv, hpc] at h
      simp [h.2.2.1, ReaderPc.holds] at hholds
  | readStdin | storeSize n =>
      simp only [Inv, hpc] at h
      rcases h.2.1 with hidle | hidle <;>
        simp [hidle, ReaderPc.holds] at hholds
  | reserveWrite | releaseRead | reserveFinal =>
      simp only [writerStep, hpc, Option.map_eq_some_iff] at hstep'
      obtain ⟨v, _, rfl⟩ := hstep'
      rfl
  | testSize | checkSize | increment | shmdt | rmShm | rmSem | report =>
      simp only [writerStep, hpc, Option.some.injEq] at hstep'
      subst hstep'
      rfl
  | exited status => simp [writerStep, hpc] at hstep'

/-- What the reader has written is an initial part of the input, and all of
it once the reader has seen the end marker. -/
theorem Inv.output {input : List UInt8} {s : State} (h : Inv input s) :
    s.stdout <+: input ∧ (s.readerPc.finished = true → s.stdout = input) := by
  have hemptied : Emptied input s → s.stdout <+: input := fun he => ⟨_, he⟩
  have hfilled : ∀ n, Filled input s n → s.stdout <+: input := by
    rintro n ⟨c, _, hc⟩
    exact ⟨_, hc.split⟩
  have hposted : Posted input s →
      s.stdout <+: input ∧ (s.readerPc.finished = true → s.stdout = input) := by
    intro hp
    unfold Posted at hp
    cases hpc : s.readerPc with
    | reserveRead | increment =>
        simp only [hpc] at hp
        rcases hp with ⟨_, _, hl⟩ | ⟨_, _, _, he⟩
        · exact ⟨hfilled _ hl, by simp [ReaderPc.finished]⟩
        · exact ⟨hemptied he, by simp [ReaderPc.finished]⟩
    | testSize =>
        simp only [hpc] at hp
        exact ⟨hfilled _ hp.2, by simp [ReaderPc.finished]⟩
    | loadCount =>
        simp only [hpc] at hp
        exact ⟨hfilled _ hp.2.2, by simp [ReaderPc.finished]⟩
    | writeStdout n =>
        simp only [hpc] at hp
        exact ⟨hfilled _ hp.2.2.2, by simp [ReaderPc.finished]⟩
    | checkCount r =>
        simp only [hpc] at hp
        exact ⟨hemptied hp.2.2.2, by simp [ReaderPc.finished]⟩
    | releaseWrite =>
        simp only [hpc] at hp
        exact ⟨hemptied hp.2.2, by simp [ReaderPc.finished]⟩
    | shmdt | releaseFinal =>
        simp only [hpc] at hp
        simp [hp.2.2.1]
    | report =>
        simp only [hpc] at hp
        simp [hp.2.2.2.1]
    | exited status =>
        cases status with
        | failure => simp [hpc] at hp
        | success =>
            simp only [hpc] at hp
            simp [hp.2.2.2.1]
  have hidle : ReaderIdle s → s.readerPc.finished = true → s.stdout = input := by
    rintro (hpc | hpc) hfin <;> simp [hpc, ReaderPc.finished] at hfin
  cases hpc : s.writerPc with
  | storeBufSize =>
      simp only [Inv, hpc] at h
      exact ⟨hemptied h.2.2.2, hidle (Or.inl h.2.2.1)⟩
  | testSize | increment =>
      simp only [Inv, hpc] at h
      exact hposted h
  | reserveWrite | reserveFinal =>
      simp only [Inv, hpc] at h
      exact hposted h.1
  | readStdin =>
      simp only [Inv, hpc] at h
      exact ⟨hemptied h.2.2, hidle h.2.1⟩
  | storeSize n =>
      simp only [Inv, hpc] at h
      exact ⟨hfilled _ h.2.2, hidle h.2.1⟩
  | checkSize | releaseRead =>
      simp only [Inv, hpc] at h
      exact ⟨hfilled _ h.2.2, hidle h.2.1⟩
  | shmdt | rmShm | rmSem | report =>
      simp only [Inv, hpc] at h
      simp [h.2.2.1]
  | exited status =>
      cases status with
      | failure => simp [Inv, hpc] at h
      | success =>
          simp only [Inv, hpc] at h
          simp [h.2.2.1]

/-- **Data integrity and exclusion.**  For every input, every way `read()`
cuts it up and every interleaving: the segment has exactly one owner until
the reader's final release, the writer never stores into it while the reader
is inside its critical section, and the output is an initial part of the
input, and the whole of it at the end. -/
theorem transfer_exclusive_and_intact (shm : Shmseg)
    (chunks : List (Chunk bufSize)) (s : State)
    (h : Reachable stepOk (start shm chunks) s) :
    ((s.readSem = 0 ∨ s.readSem = 1) ∧ (s.writeSem = 0 ∨ s.writeSem = 1) ∧
      (s.readerPc.finished = false →
        s.readSem + s.writeSem + s.holders = 1)) ∧
    (s.readerPc.holds = true →
      ∀ t, stepOk s .writer = some t → t.shm = s.shm) ∧
    s.stdout <+: join chunks ∧
    (s.readerPc.finished = true → s.stdout = join chunks) := by
  have hinv := inv_of_reachable h
  exact ⟨hinv.one_owner, fun hholds t => hinv.no_store hholds,
    hinv.output.1, hinv.output.2⟩

/-- Two bytes in one piece, the writer and the reader taking turns: the
reader is about to write them. -/
theorem transfer_exclusive_and_intact_two_bytes :
    ∃ s, Reachable stepOk
        (start ⟨0, []⟩ [⟨[72, 105], by decide, by decide⟩]) s ∧
      s.readerPc = .writeStdout 2 ∧
      s.readSem + s.writeSem + s.holders = 1 ∧
      (∀ t, stepOk s .writer = some t → t.shm = s.shm) ∧
      s.stdout <+: [72, 105] := by
  obtain ⟨s, hs, hpc⟩ := exists_exec stepOk (fun s => s.readerPc = .writeStdout 2)
    (start ⟨0, []⟩ [⟨[72, 105], by decide, by decide⟩])
    (List.replicate 9 .writer ++ List.replicate 3 .reader) (by decide)
  obtain ⟨⟨_, _, hone⟩, hstore, hout, _⟩ := transfer_exclusive_and_intact
    ⟨0, []⟩ [⟨[72, 105], by decide, by decide⟩] s ⟨_, hs⟩
  exact ⟨s, ⟨_, hs⟩, hpc, hone (by rw [hpc]; rfl),
    hstore (by rw [hpc]; rfl), hout⟩

end Lpi.Ports.SvshmXfr
