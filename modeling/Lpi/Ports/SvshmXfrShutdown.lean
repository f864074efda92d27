import Lpi.Ports.SvshmXfrHandoff

/-!
# Shutdown and progress of the shared-memory transfer

At the end of the input the two data semaphores serve for a handshake: the
writer reserves `WRITE_SEM` one more time than it has pieces to store, and
the reader releases it one more time, after it has detached.  What the writer
removes after that is no longer in use (`shutdown_ordered_and_bounded`).

The handshake cannot get stuck: as long as one of the processes has not
terminated, one of them can move (`Inv.progress`).  Neither can the transfer
go on for ever: a piece costs the two processes fourteen steps, and `work`
counts what is left.
-/

namespace Lpi.Ports.SvshmXfr

open Lpi.Ports.BinarySems
open Lpi.Verified.CData
open Lpi.Verified.Pieces
open Lpi.Verified.Run

/-! ## Events -/

/-- A step of the writer's cleanup: `shmdt`, `shmctl(IPC_RMID)` or
`semctl(IPC_RMID)`. -/
def WriterRemoves (s : State) (p : Proc) : Prop :=
  p = .writer ∧
    (s.writerPc = .shmdt ∨ s.writerPc = .rmShm ∨ s.writerPc = .rmSem)

instance (s : State) (p : Proc) : Decidable (WriterRemoves s p) :=
  inferInstanceAs (Decidable (_ ∧ _))

/-- The reader's own `shmdt`. -/
def ReaderDetaches (s : State) (p : Proc) : Prop :=
  p = .reader ∧ s.readerPc = .shmdt

/-- The reader's `releaseSem` after its loop. -/
def ReaderReleasesFinal (s : State) (p : Proc) : Prop :=
  p = .reader ∧ s.readerPc = .releaseFinal

/-- The next step of the reader is an access to the segment or an operation
on the semaphore set. -/
def ReaderPc.accesses : ReaderPc → Bool
  | .reserveRead | .testSize | .loadCount | .writeStdout _ | .checkCount _
  | .releaseWrite | .increment | .shmdt | .releaseFinal => true
  | .report | .exited _ => false

/-- Both programs have returned from `main`. -/
def BothTerminated (s : State) : Prop :=
  s.writerPc = .exited .success ∧ s.readerPc = .exited .success

instance (s : State) : Decidable (BothTerminated s) :=
  inferInstanceAs (Decidable (_ ∧ _))

/-! ## The order of the shutdown -/

/-- The writer has made at least one call of its cleanup. -/
def WriterPc.removing : WriterPc → Bool
  | .rmShm | .rmSem | .report | .exited _ => true
  | .storeBufSize | .testSize | .reserveWrite | .readStdin | .storeSize _
  | .checkSize | .releaseRead | .increment | .reserveFinal | .shmdt => false

/-- The reader is past its `shmdt`. -/
def ReaderPc.detached : ReaderPc → Bool
  | .releaseFinal | .report | .exited _ => true
  | .reserveRead | .testSize | .loadCount | .writeStdout _ | .checkCount _
  | .releaseWrite | .increment | .shmdt => false

/-- Cleanup is behind the final reserve, which only a finished reader
allows. -/
theorem Inv.done_of_removing {input : List UInt8} {s : State}
    (h : Inv input s) (hrem : s.writerPc.removing = true) : ReaderDone s := by
  cases hpc : s.writerPc with
  | storeBufSize | testSize | reserveWrite | readStdin | storeSize n
  | checkSize | releaseRead | increment | reserveFinal | shmdt =>
      simp [hpc, WriterPc.removing] at hrem
  | rmShm | rmSem | report =>
      simp only [Inv, hpc] at h
      exact h.2.1
  | exited status =>
      cases status with
      | failure => simp [Inv, hpc] at h
      | success =>
          simp only [Inv, hpc] at h
          exact h.2.1

theorem removing_of_step {s t : State} {p : Proc}
    (hstep : stepOk s p = some t) (h : s.writerPc.removing = true) :
    t.writerPc.removing = true := by
  cases p with
  | reader =>
      have hframe := readerStep_frame hstep
      rw [hframe.pc]
      exact h
  | writer =>
      have hstep' : writerStep s .ok = some t := hstep
      cases hpc : s.writerPc with
      | rmShm | rmSem | report =>
          simp only [writerStep, hpc, Option.some.injEq] at hstep'
          subst hstep'
          rfl
      | exited status => simp [writerStep, hpc] at hstep'
      | storeBufSize | testSize | reserveWrite | readStdin | storeSize n
      | checkSize | releaseRead | increment | reserveFinal | shmdt =>
          simp [hpc, WriterPc.removing] at h

theorem removing_of_removes {s t : State} {p : Proc}
    (hstep : stepOk s p = some t) (h : WriterRemoves s p) :
    t.writerPc.removing = true := by
  obtain ⟨rfl, hpc | hpc | hpc⟩ := h
  all_goals
    simp only [stepOk, step, writerStep, hpc, Option.some.injEq] at hstep
    subst hstep
    rfl

/-- The reader stands where it stood, with the same count and what it has
printed. -/
structure SameReader (s t : State) : Prop where
  pc : t.readerPc = s.readerPc
  xfrs : t.readerXfrs = s.readerXfrs
  received : t.received = s.received

/-- The writer does not move the reader. -/
theorem writerStep_frame {s t : State} (hstep : writerStep s .ok = some t) :
    SameReader s t := by
  cases hpc : s.writerPc with
  | reserveWrite | releaseRead | reserveFinal =>
      simp only [writerStep, hpc, Option.map_eq_some_iff] at hstep
      obtain ⟨v, _, rfl⟩ := hstep
      exact ⟨rfl, rfl, rfl⟩
  | readStdin =>
      cases hin : s.stdin <;>
        simp only [writerStep, hpc, hin, Option.some.injEq] at hstep
      all_goals
        subst hstep
        exact ⟨rfl, rfl, rfl⟩
  | storeBufSize | testSize | storeSize n | checkSize | increment | shmdt
  | rmShm | rmSem | report =>
      simp only [writerStep, hpc, Option.some.injEq] at hstep
      subst hstep
      exact ⟨rfl, rfl, rfl⟩
  | exited status => simp [writerStep, hpc] at hstep

/-- A reader that has just become detached has called `shmdt`. -/
theorem Inv.detaches {input : List UInt8} {s t : State} {p : Proc}
    (h : Inv input s) (hstep : stepOk s p = some t)
    (hdet : t.readerPc.detached = true) :
    s.readerPc.detached = true ∨ ReaderDetaches s p := by
  cases p with
  | writer =>
      rw [(writerStep_frame hstep).pc] at hdet
      exact Or.inl hdet
  | reader =>
      have hstep' : readerStep s .ok = some t := hstep
      cases hpc : s.readerPc with
      | releaseFinal | report => exact Or.inl rfl
      | exited status => simp [readerStep, hpc] at hstep'
      | shmdt => exact Or.inr ⟨rfl, hpc⟩
      | reserveRead | releaseWrite =>
          simp only [readerStep, hpc, Option.map_eq_some_iff] at hstep'
          obtain ⟨v, _, rfl⟩ := hstep'
          simp [ReaderPc.detached] at hdet
      | testSize =>
          simp only [readerStep, hpc, Option.some.injEq] at hstep'
          subst hstep'
          by_cases hz : s.shm.bufferSize = 0 <;>
            simp [hz, ReaderPc.detached] at hdet
      | checkCount r =>
          -- A count that does not match would end the reader early.
          simp only [readerStep, hpc, Option.some.injEq] at hstep'
          subst hstep'
          have hp := h.posted_of_holds (by simp [hpc, ReaderPc.holds])
          simp only [Posted, hpc] at hp
          obtain ⟨_, _, rfl, _⟩ := hp
          simp [ReaderPc.detached] at hdet
      | loadCount | writeStdout n | increment =>
          simp only [readerStep, hpc, Option.some.injEq] at hstep'
          subst hstep'
          simp [ReaderPc.detached] at hdet

/-- A reader that has just finished has performed its final release. -/
theorem Inv.releases_final {input : List UInt8} {s t : State} {p : Proc}
    (h : Inv input s) (hstep : stepOk s p = some t)
    (hfin : t.readerPc.finished = true) :
    s.readerPc.finished = true ∨ ReaderReleasesFinal s p := by
  cases p with
  | writer =>
      rw [(writerStep_frame hstep).pc] at hfin
      exact Or.inl hfin
  | reader =>
      have hstep' : readerStep s .ok = some t := hstep
      cases hpc : s.readerPc with
      | releaseFinal => exact Or.inr ⟨rfl, hpc⟩
      | report => exact Or.inl rfl
      | exited status => simp [readerStep, hpc] at hstep'
      | shmdt =>
          simp only [readerStep, hpc, Option.some.injEq] at hstep'
          subst hstep'
          simp [ReaderPc.finished] at hfin
      | reserveRead | testSize | loadCount | writeStdout n | checkCount r
      | releaseWrite | increment =>
          -- Before its `shmdt` the reader is not even detached.
          have hdet : t.readerPc.detached = true := by
            cases htpc : t.readerPc <;>
              simp_all [ReaderPc.finished, ReaderPc.detached]
          rcases h.detaches hstep hdet with hd | hd
          · simp [hpc, ReaderPc.detached] at hd
          · simp [ReaderDetaches, hpc] at hd

theorem ReaderDone.step_ok {s t : State} {p : Proc} (h : ReaderDone s)
    (hstep : stepOk s p = some t) : ReaderDone t := by
  cases p with
  | writer =>
      unfold ReaderDone
      rw [(writerStep_frame hstep).pc]
      exact h
  | reader =>
      have ht := h.reader_step hstep
      subst ht
      exact Or.inr rfl

theorem ReaderDone.no_access {s t : State} (h : ReaderDone s)
    (hreach : Reachable stepOk s t) : t.readerPc.accesses = false := by
  have hdone : ReaderDone t :=
    hreach.invariant (fun _ _ _ hI hstep => ReaderDone.step_ok hI hstep) h
  rcases hdone with hpc | hpc <;> simp [hpc, ReaderPc.accesses]

/-! ## Some process can move -/

/-- While the writer is outside its critical section, `WRITE_SEM` is
available or the reader can move. -/
theorem Posted.can_move {input : List UInt8} {s : State}
    (h : Posted input s) (hw : s.writeSem = 0) : Enabled stepOk s .reader := by
  rw [enabled_iff]
  cases hpc : s.readerPc with
  | reserveRead =>
      simp only [Posted, hpc] at h
      have hr : s.readSem = 1 := by omega
      simp [stepOk, step, readerStep, hpc, hr]
  | testSize | loadCount | writeStdout n | checkCount r | releaseWrite
  | increment | shmdt | releaseFinal | report =>
      simp [stepOk, step, readerStep, hpc]
  | exited status =>
      cases status with
      | failure => simp [Posted, hpc] at h
      | success =>
          simp only [Posted, hpc] at h
          omega

theorem Inv.progress {input : List UInt8} {s : State} (h : Inv input s)
    (hnot : ¬ BothTerminated s) : ∃ p, Enabled stepOk s p := by
  cases hpc : s.writerPc with
  | storeBufSize | testSize | storeSize n | checkSize | releaseRead | increment
  | shmdt | rmShm | rmSem | report =>
      refine ⟨.writer, ?_⟩
      rw [enabled_iff]
      simp [stepOk, step, writerStep, hpc]
  | readStdin =>
      refine ⟨.writer, ?_⟩
      rw [enabled_iff]
      cases hin : s.stdin <;> simp [stepOk, step, writerStep, hpc, hin]
  | reserveWrite | reserveFinal =>
      simp only [Inv, hpc] at h
      cases hw : s.writeSem with
      | zero => exact ⟨.reader, h.1.can_move hw⟩
      | succ v =>
          refine ⟨.writer, ?_⟩
          rw [enabled_iff]
          simp [stepOk, step, writerStep, hpc, hw]
  | exited status =>
      cases status with
      | failure => simp [Inv, hpc] at h
      | success =>
          simp only [Inv, hpc] at h
          rcases h.2.1 with hr | hr
          · refine ⟨.reader, ?_⟩
            rw [enabled_iff]
            simp [stepOk, step, readerStep, hr]
          · exact absurd ⟨hpc, hr⟩ hnot

/-! ## The number of steps -/

/-- Steps left when the writer tests a size `n` with `k` pieces to come. -/
def roundsLeft (n : Int32) (k : Nat) : Nat :=
  if n = 0 then 6 else 14 * (k + 1) + 6

theorem roundsLeft_le (n : Int32) (k : Nat) :
    roundsLeft n k ≤ 14 * (k + 1) + 6 := by
  unfold roundsLeft
  split <;> omega

/-- Steps the writer has left, `size` being what the segment says and `k` the
number of pieces to come.  A `releaseSem(READ_SEM)` counts for the seven steps
it lets the reader take as well. -/
def writerWork (size : Int32) (k : Nat) : WriterPc → Nat
  | .storeBufSize => 14 * (k + 1) + 7
  | .testSize => roundsLeft size k
  | .reserveWrite => 14 * (k + 1) + 5
  | .readStdin => 14 * (k + 1) + 4
  | .storeSize n => roundsLeft n k + 11
  | .checkSize => roundsLeft size k + 10
  | .releaseRead => roundsLeft size k + 9
  | .increment => roundsLeft size k + 1
  | .reserveFinal => 5
  | .shmdt => 4
  | .rmShm => 3
  | .rmSem => 2
  | .report => 1
  | .exited _ => 0

/-- Steps the reader has left before it waits for `READ_SEM` again or
ends. -/
def readerWork : ReaderPc → Nat
  | .testSize => 6
  | .loadCount => 5
  | .writeStdout _ => 4
  | .checkCount _ | .shmdt => 3
  | .releaseWrite | .releaseFinal => 2
  | .increment | .report => 1
  | .reserveRead | .exited _ => 0

/-- Steps left in the transfer. -/
def work (s : State) : Nat :=
  writerWork s.shm.bufferSize s.stdin.length s.writerPc + 7 * s.readSem +
    readerWork s.readerPc

theorem work_start (shm : Shmseg) (chunks : List (Chunk bufSize)) :
    work (start shm chunks) = 14 * chunks.length + 21 := by
  simp only [work, writerWork, readerWork, start, initSemInUse]
  omega

theorem readerStep_work_lt {s t : State} (hstep : readerStep s .ok = some t) :
    work t < work s := by
  unfold work
  cases hpc : s.readerPc with
  | reserveRead =>
      simp only [readerStep, hpc, Option.map_eq_some_iff] at hstep
      obtain ⟨v, hv, rfl⟩ := hstep
      rw [reserve_eq_some] at hv
      simp only [readerWork]
      omega
  | releaseWrite | releaseFinal =>
      simp only [readerStep, hpc, Option.map_eq_some_iff] at hstep
      obtain ⟨v, _, rfl⟩ := hstep
      simp only [readerWork]
      omega
  | testSize | checkCount r =>
      simp only [readerStep, hpc, Option.some.injEq] at hstep
      subst hstep
      split <;> simp only [readerWork] <;> omega
  | loadCount | writeStdout n | increment | shmdt | report =>
      simp only [readerStep, hpc, Option.some.injEq] at hstep
      subst hstep
      simp only [readerWork]
      omega
  | exited status => simp [readerStep, hpc] at hstep

/-- A piece that was read is not taken for the end marker. -/
theorem size_ne_zero (c : Chunk bufSize) : Int32.ofNat c.bytes.length ≠ 0 := by
  have hlt : c.bytes.length < 2 ^ 31 :=
    Nat.lt_of_le_of_lt c.length_le (by decide)
  rw [ne_eq, ofNat_eq_zero hlt, List.length_eq_zero_iff]
  exact c.ne_nil

theorem writerStep_work_lt {s t : State} (hstep : writerStep s .ok = some t) :
    work t < work s := by
  unfold work
  cases hpc : s.writerPc with
  | reserveWrite | reserveFinal =>
      simp only [writerStep, hpc, Option.map_eq_some_iff] at hstep
      obtain ⟨v, _, rfl⟩ := hstep
      simp only [writerWork]
      omega
  | releaseRead =>
      simp only [writerStep, hpc, release_eq, Option.map_some,
        Option.some.injEq] at hstep
      subst hstep
      simp only [writerWork]
      omega
  | readStdin =>
      cases hin : s.stdin with
      | nil =>
          simp only [writerStep, hpc, hin, Option.some.injEq] at hstep
          subst hstep
          simp only [writerWork, roundsLeft, if_true]
          simp
      | cons c cs =>
          simp only [writerStep, hpc, hin, Option.some.injEq] at hstep
          subst hstep
          have hne := size_ne_zero c
          simp only [writerWork, roundsLeft, hne, if_false,
            List.length_cons]
          omega
  | testSize =>
      simp only [writerStep, hpc, Option.some.injEq] at hstep
      subst hstep
      by_cases hz : s.shm.bufferSize = 0
      · simp [writerWork, roundsLeft, hz]
      · simp [writerWork, roundsLeft, hz]
  | checkSize =>
      simp only [writerStep, hpc, Option.some.injEq] at hstep
      subst hstep
      split <;> simp only [writerWork] <;> omega
  | storeBufSize =>
      simp only [writerStep, hpc, Option.some.injEq] at hstep
      subst hstep
      have hle := roundsLeft_le (Int32.ofNat bufSize) s.stdin.length
      simp only [writerWork]
      omega
  | storeSize n | increment | shmdt | rmShm | rmSem | report =>
      simp only [writerStep, hpc, Option.some.injEq] at hstep
      subst hstep
      simp only [writerWork]
      omega
  | exited status => simp [writerStep, hpc] at hstep

theorem work_lt_of_stepOk {s t : State} {p : Proc}
    (hstep : stepOk s p = some t) : work t < work s := by
  cases p with
  | writer => exact writerStep_work_lt hstep
  | reader => exact readerStep_work_lt hstep

/-! ## Main result -/

/-- **Shutdown order and progress.**  For every input, every way `read()`
cuts it up and every interleaving: once the writer has detached the segment
or removed one of the objects, the reader has detached and performed its
final release, and touches neither object again; until both processes have
terminated one of them can move; and the run is at most `14 n + 21` steps
long for an input of `n` pieces. -/
theorem shutdown_ordered_and_bounded (shm : Shmseg)
    (chunks : List (Chunk bufSize)) (ls : List Proc) (s : State)
    (hrun : exec stepOk (start shm chunks) ls = some s) :
    (Occurs stepOk WriterRemoves (start shm chunks) ls →
      Occurs stepOk ReaderDetaches (start shm chunks) ls ∧
      Occurs stepOk ReaderReleasesFinal (start shm chunks) ls ∧
      ∀ t, Reachable stepOk s t → t.readerPc.accesses = false) ∧
    (¬ BothTerminated s → ∃ p, Enabled stepOk s p) ∧
    ls.length ≤ 14 * chunks.length + 21 := by
  have hkeep : ∀ s p t, Inv (join chunks) s → stepOk s p = some t →
      Inv (join chunks) t := fun _ _ _ hI hstep => hI.step_ok hstep
  have hstart := start_inv shm chunks
  have hinv := inv_of_reachable ⟨ls, hrun⟩
  refine ⟨?_, hinv.progress, ?_⟩
  · intro hocc
    have hrem := latch_of_occurs (L := fun s => s.writerPc.removing = true)
      (fun _ _ _ hstep h => removing_of_step hstep h)
      (fun _ _ _ hstep h => removing_of_removes hstep h) hrun hocc
    have hdone := hinv.done_of_removing hrem
    have hdet : s.readerPc.detached = true := by
      rcases hdone with hpc | hpc <;> simp [hpc, ReaderPc.detached]
    have hfin : s.readerPc.finished = true := by
      rcases hdone with hpc | hpc <;> simp [hpc, ReaderPc.finished]
    refine ⟨?_, ?_, fun t => hdone.no_access⟩
    · exact occurs_of_latch (L := fun s => s.readerPc.detached = true) hkeep
        (fun _ _ _ hI hstep h => hI.detaches hstep h) hstart
        (by simp [start, ReaderPc.detached]) hrun hdet
    · exact occurs_of_latch (L := fun s => s.readerPc.finished = true) hkeep
        (fun _ _ _ hI hstep h => hI.releases_final hstep h) hstart
        (by simp [start, ReaderPc.finished]) hrun hfin
  · have hle := exec_length_add_le hkeep
      (fun _ _ _ _ hstep => work_lt_of_stepOk hstep) hstart hrun
    rw [work_start] at hle
    omega

/-- One piece handed over and the shutdown after it, both processes run to
their end. -/
theorem shutdown_ordered_and_bounded_one_piece :
    ∃ ls s, exec stepOk (start ⟨0, []⟩ [⟨[72, 105], by decide, by decide⟩]) ls =
        some s ∧ BothTerminated s ∧ ls.length = 33 ∧
      Occurs stepOk ReaderDetaches
        (start ⟨0, []⟩ [⟨[72, 105], by decide, by decide⟩]) ls ∧
      ls.length ≤ 14 * 1 + 21 := by
  let ls :=
    List.replicate 9 Proc.writer ++ List.replicate 7 Proc.reader ++
      List.replicate 7 Proc.writer ++ List.replicate 5 Proc.reader ++
      List.replicate 5 Proc.writer
  obtain ⟨s, hs, hend⟩ := exists_exec stepOk BothTerminated
    (start ⟨0, []⟩ [⟨[72, 105], by decide, by decide⟩]) ls (by decide)
  obtain ⟨horder, _, hle⟩ := shutdown_ordered_and_bounded ⟨0, []⟩
    [⟨[72, 105], by decide, by decide⟩] ls s hs
  exact ⟨ls, s, hs, hend, rfl, (horder (by decide)).1, hle⟩

end Lpi.Ports.SvshmXfr
