import Mathlib.Data.List.Infix
import Mathlib.Logic.Function.Basic
import Lpi.Ports.BinarySems
import Lpi.Verified.Flags

/-!
# `reserveSem` and its interruptions (`svshm/binary_sems.c`)

`reserveSem` calls `semop` again after a signal handler has interrupted it, if
`bsRetryOnEintr` is set.  The port takes the results of the calls as a script,
each with what other processes make of the semaphores while the call waits.
`loop_eq_some` says which calls a run of the loop has made; that the semaphore
is taken at most once, by the last of them, follows from it.
-/

namespace Lpi.Ports.ReserveSem

open Lpi.Verified.Flags

/-! ## The program -/

def EINTR : Int32 := 4

def SEM_UNDO : BitVec 16 := 0x1000#16

structure Sembuf where
  sem_num : UInt16
  sem_op : Int16
  sem_flg : BitVec 16

/-- The values of the semaphores of the set, what the kernel adds to them when
the process ends, and `errno`; `calls` counts the calls of `semop`. -/
structure State where
  semval : UInt16 → Nat
  semadj : UInt16 → Int
  errno : Int32
  calls : Nat

inductive Result where
  | success
  | error (errno : Int32)
deriving DecidableEq

/-- A call of `semop`: what the other processes have made of the values by the
time it returns, and how it returns. -/
structure Call where
  others : (UInt16 → Nat) → UInt16 → Nat
  result : Result

/-- The state when the call returns, before the effects of its own. -/
def Call.wait (c : Call) (s : State) : State :=
  { s with semval := c.others s.semval, calls := s.calls + 1 }

/-- `semop(semId, sop, 1)`; `none` for a success while the operation has to
wait. -/
def semop (sop : Sembuf) (c : Call) (s : State) : Option (Int × State) :=
  match c.result with
  | .error errno => some (-1, { c.wait s with errno := errno })
  | .success =>
      (BinarySems.semop ((c.wait s).semval sop.sem_num) sop.sem_op.toInt).map fun val =>
        (0, { c.wait s with
          semval := Function.update (c.wait s).semval sop.sem_num val
          semadj := if Has sop.sem_flg SEM_UNDO then
              Function.update s.semadj sop.sem_num (s.semadj sop.sem_num - sop.sem_op.toInt)
            else s.semadj })

/-- The `while` of `reserveSem`; `none` when the calls have run out. -/
def loop (bsRetryOnEintr : Bool) (sop : Sembuf) : List Call → State → Option (Int × State)
  | [], _ => none
  | c :: calls, s =>
      match semop sop c s with
      | none => none
      | some (ret, s) =>
          if ret = -1 then
            if s.errno ≠ EINTR ∨ !bsRetryOnEintr then some (-1, s)
            else loop bsRetryOnEintr sop calls s
          else some (0, s)

def reserveSem (bsUseSemUndo bsRetryOnEintr : Bool) (semNum : Int32) :
    List Call → State → Option (Int × State) :=
  loop bsRetryOnEintr
    { sem_num := semNum.toUInt32.toUInt16
      sem_op := -1
      sem_flg := if bsUseSemUndo then SEM_UNDO else 0 }

/-! ## Interruptions -/

/-- The state after calls that have been interrupted. -/
def interrupt (s : State) (calls : List Call) : State :=
  calls.foldl (fun s c => { c.wait s with errno := EINTR }) s

/-- What other processes have made of the values during the calls. -/
def waited (calls : List Call) (semval : UInt16 → Nat) : UInt16 → Nat :=
  calls.foldl (fun semval c => c.others semval) semval

@[simp] theorem waited_append (calls calls' : List Call) (semval : UInt16 → Nat) :
    waited (calls ++ calls') semval = waited calls' (waited calls semval) :=
  List.foldl_append

private theorem interrupt_eq (calls : List Call) (s : State) :
    (interrupt s calls).semval = waited calls s.semval ∧
      (interrupt s calls).semadj = s.semadj ∧
      (interrupt s calls).calls = s.calls + calls.length := by
  induction calls generalizing s with
  | nil => exact ⟨rfl, rfl, rfl⟩
  | cons c calls ih =>
      have hrest := ih { c.wait s with errno := EINTR }
      refine ⟨hrest.1, hrest.2.1, hrest.2.2.trans ?_⟩
      rw [List.length_cons]
      show s.calls + 1 + calls.length = s.calls + (calls.length + 1)
      omega

private theorem loop_cons (bsRetryOnEintr : Bool) (sop : Sembuf) (c : Call) (calls : List Call)
    (s : State) :
    loop bsRetryOnEintr sop (c :: calls) s =
      if c.result = .error EINTR ∧ bsRetryOnEintr then
        loop bsRetryOnEintr sop calls (interrupt s [c])
      else semop sop c s := by
  cases hresult : c.result with
  | success =>
      rw [if_neg (by simp), loop, semop, hresult]
      cases BinarySems.semop ((c.wait s).semval sop.sem_num) sop.sem_op.toInt with
      | none => rfl
      | some val => rfl
  | error errno =>
      simp only [loop, semop, hresult, if_true, Result.error.injEq]
      by_cases heintr : errno = EINTR
      · subst heintr
        cases bsRetryOnEintr with
        | true => rfl
        | false => rfl
      · rw [if_pos (Or.inl heintr), if_neg (by simp [heintr])]

/-- **The calls that the loop has made**: interrupted ones, and one that it does
not make again. -/
theorem loop_eq_some {bsRetryOnEintr : Bool} {sop : Sembuf} {calls : List Call} {s s' : State}
    {ret : Int} (h : loop bsRetryOnEintr sop calls s = some (ret, s')) :
    ∃ interrupted last rest, calls = interrupted ++ last :: rest ∧
      (∀ c ∈ interrupted, c.result = .error EINTR ∧ bsRetryOnEintr) ∧
      ¬ (last.result = .error EINTR ∧ bsRetryOnEintr) ∧
      semop sop last (interrupt s interrupted) = some (ret, s') := by
  induction calls generalizing s with
  | nil => simp [loop] at h
  | cons c calls ih =>
      rw [loop_cons] at h
      by_cases hagain : c.result = .error EINTR ∧ bsRetryOnEintr
      · rw [if_pos hagain] at h
        have hrest := ih h
        rcases hrest with ⟨interrupted, last, rest, hcalls, hinterrupted, hlast, hsemop⟩
        refine ⟨c :: interrupted, last, rest, by rw [hcalls]; rfl, ?_, hlast, hsemop⟩
        intro c' hc'
        rcases List.mem_cons.1 hc' with rfl | hmem
        · exact hagain
        · exact hinterrupted c' hmem
      · rw [if_neg hagain] at h
        exact ⟨[], c, calls, rfl, by simp, hagain, h⟩

private theorem loop_append (sop : Sembuf) {interrupted : List Call}
    (heintr : ∀ c ∈ interrupted, c.result = .error EINTR) (calls : List Call) (s : State) :
    loop true sop (interrupted ++ calls) s = loop true sop calls (interrupt s interrupted) := by
  induction interrupted generalizing s with
  | nil => rfl
  | cons c interrupted ih =>
      rw [List.cons_append, loop_cons, if_pos ⟨heintr c (by simp), rfl⟩]
      exact ih (fun c' hc' => heintr c' (by simp [hc'])) (interrupt s [c])

private theorem loop_eq_none {bsRetryOnEintr : Bool} {sop : Sembuf} {interrupted : List Call}
    {last : Call} {s : State} (heintr : ∀ c ∈ interrupted, c.result = .error EINTR)
    (hlast : last.result ≠ .error EINTR)
    (h : loop bsRetryOnEintr sop (interrupted ++ [last]) s = none) :
    semop sop last (interrupt s interrupted) = none := by
  have hnot : ¬ (last.result = .error EINTR ∧ bsRetryOnEintr) := fun hagain => hlast hagain.1
  cases bsRetryOnEintr with
  | true =>
      rw [loop_append sop heintr, loop_cons, if_neg hnot] at h
      exact h
  | false =>
      cases interrupted with
      | nil =>
          rw [List.nil_append, loop_cons, if_neg hnot] at h
          exact h
      | cons c interrupted =>
          -- a call that is not made again has failed
          have hc : c.result = .error EINTR := heintr c (by simp)
          rw [List.cons_append, loop_cons] at h
          simp [semop, hc] at h

/-! ## What a reservation has done -/

/-- After the calls `made` the semaphore is one lower than the other processes have
made it, or it is not and `errno` is that of the last call. -/
structure Reserves (num : UInt16) (made : List Call) (s : State) (ret : Int) (s' : State) :
    Prop where
  returns : ret = 0 ∨ ret = -1
  count : s'.calls = s.calls + made.length
  reserved : ret = 0 → 0 < waited made s.semval num ∧
    s'.semval = Function.update (waited made s.semval) num (waited made s.semval num - 1)
  unchanged : ret = -1 → s'.semval = waited made s.semval ∧ s'.semadj = s.semadj ∧
    ∃ last, made.getLast? = some last ∧ last.result = .error s'.errno

private theorem semop_eq_some {sop : Sembuf} (hop : sop.sem_op = -1) {interrupted : List Call}
    {last : Call} {s s' : State} {ret : Int}
    (h : semop sop last (interrupt s interrupted) = some (ret, s')) :
    Reserves sop.sem_num (interrupted ++ [last]) s ret s' := by
  have hinterrupt := interrupt_eq interrupted s
  have hvalues : (last.wait (interrupt s interrupted)).semval =
      waited (interrupted ++ [last]) s.semval := by
    rw [waited_append, ← hinterrupt.1]
    rfl
  have hcount : (last.wait (interrupt s interrupted)).calls =
      s.calls + (interrupted ++ [last]).length := by
    rw [List.length_append, ← Nat.add_assoc, ← hinterrupt.2.2]
    rfl
  cases hresult : last.result with
  | success =>
      simp only [semop, hresult, Option.map_eq_some_iff, Prod.mk.injEq] at h
      rcases h with ⟨val, hval, rfl, rfl⟩
      rw [hop, hvalues] at hval
      have hone : waited (interrupted ++ [last]) s.semval sop.sem_num = val + 1 :=
        BinarySems.reserve_eq_some.1 hval
      refine ⟨Or.inl rfl, hcount, fun _ => ⟨by omega, ?_⟩, by simp⟩
      show Function.update (last.wait (interrupt s interrupted)).semval sop.sem_num val = _
      rw [hvalues, hone, Nat.add_sub_cancel]
  | error errno =>
      simp only [semop, hresult, Option.some.injEq, Prod.mk.injEq] at h
      rcases h with ⟨rfl, rfl⟩
      exact ⟨Or.inr rfl, hcount, by simp,
        fun _ => ⟨hvalues, hinterrupt.2.1, last, by simp, hresult⟩⟩

private theorem semop_of_success (sop : Sembuf) {c : Call} (hresult : c.result = .success)
    (s : State) :
    (semop sop c s).map (fun r => r.2.semval sop.sem_num) =
      BinarySems.semop (c.others s.semval sop.sem_num) sop.sem_op.toInt := by
  simp only [semop, hresult]
  show Option.map _ (Option.map _ (BinarySems.semop (c.others s.semval sop.sem_num) _)) = _
  cases BinarySems.semop (c.others s.semval sop.sem_num) sop.sem_op.toInt with
  | none => rfl
  | some val => simp

private theorem semop_eq_none {sop : Sembuf} (hop : sop.sem_op = -1) {interrupted : List Call}
    {last : Call} {s : State} (h : semop sop last (interrupt s interrupted) = none) :
    last.result = .success ∧ waited (interrupted ++ [last]) s.semval sop.sem_num = 0 := by
  cases hresult : last.result with
  | success =>
      have hwaits : BinarySems.reserve
          (last.others (interrupt s interrupted).semval sop.sem_num) = none := by
        have hvalue := semop_of_success sop hresult (interrupt s interrupted)
        rw [h, hop] at hvalue
        exact hvalue.symm
      refine ⟨rfl, ?_⟩
      rw [waited_append, ← (interrupt_eq interrupted s).1]
      show last.others (interrupt s interrupted).semval sop.sem_num = 0
      cases hval : last.others (interrupt s interrupted).semval sop.sem_num with
      | zero => rfl
      | succ val => simp [hval] at hwaits
  | error errno => simp [semop, hresult] at h

private theorem last_made {interrupted again rest : List Call} {last final : Call}
    (heintr : ∀ c ∈ interrupted, c.result = .error EINTR) (hfinal : final.result ≠ .error EINTR)
    (h : interrupted ++ [last] = again ++ final :: rest) : rest = [] := by
  cases List.eq_nil_or_concat rest with
  | inl hnil => exact hnil
  | inr hconcat =>
      rcases hconcat with ⟨init, c, rfl⟩
      have hsplit : interrupted ++ [last] = again ++ final :: init ++ [c] := by simpa using h
      have hinterrupted := (List.append_inj' hsplit rfl).1
      exact absurd (heintr final (by simp [hinterrupted])) hfinal

/-- **`reserveSem` acts once.**  After interruptions and one other result, it has
taken the semaphore once or failed without an effect; it has not returned only
if its last operation waits still. -/
theorem reserveSem_once (bsUseSemUndo bsRetryOnEintr : Bool) (semNum : Int32)
    (interrupted : List Call) (last : Call) (s : State)
    (heintr : ∀ c ∈ interrupted, c.result = .error EINTR)
    (hlast : last.result ≠ .error EINTR) :
    (∀ ret s', reserveSem bsUseSemUndo bsRetryOnEintr semNum (interrupted ++ [last]) s =
        some (ret, s') →
      ∃ made, made <+: interrupted ++ [last] ∧
        Reserves semNum.toUInt32.toUInt16 made s ret s' ∧
        (bsRetryOnEintr = true → made = interrupted ++ [last] ∧ ¬ (ret = -1 ∧ s'.errno = EINTR)) ∧
        (bsRetryOnEintr = false → s'.calls = s.calls + 1)) ∧
      (reserveSem bsUseSemUndo bsRetryOnEintr semNum (interrupted ++ [last]) s = none →
        last.result = .success ∧
          waited (interrupted ++ [last]) s.semval semNum.toUInt32.toUInt16 = 0) := by
  constructor
  · intro ret s' h
    have hloop := loop_eq_some h
    rcases hloop with ⟨again, final, rest, hcalls, hagain, hfinal, hsemop⟩
    have hreserves := semop_eq_some rfl hsemop
    refine ⟨again ++ [final], ⟨rest, by rw [hcalls]; simp⟩, hreserves, ?_, ?_⟩
    · intro hretry
      have hfinal : final.result ≠ .error EINTR := fun heq => hfinal ⟨heq, hretry⟩
      refine ⟨?_, ?_⟩
      · rw [hcalls, last_made heintr hfinal hcalls]
      · intro hfail
        rcases (hreserves.unchanged hfail.1).2.2 with ⟨c, hc, herror⟩
        have hsame : final = c := by simpa using hc
        rw [hsame, herror, hfail.2] at hfinal
        exact hfinal rfl
    · intro hretry
      have hnone : again = [] := by
        cases again with
        | nil => rfl
        | cons c again => exact absurd (hagain c (by simp)).2 (by simp [hretry])
      rw [hreserves.count, hnone]
      rfl
  · intro h
    exact semop_eq_none rfl (loop_eq_none heintr hlast h)

/-- The semaphore is taken while its value is 0, but for the process that makes
it available during the second call. -/
theorem reserveSem_once_released :
    ∃ s' made, reserveSem false true 3
        [⟨id, .error EINTR⟩, ⟨fun semval => Function.update semval 3 1, .success⟩]
        ⟨fun _ => 0, fun _ => 0, 0, 0⟩ = some (0, s') ∧
      Reserves 3 made ⟨fun _ => 0, fun _ => 0, 0, 0⟩ 0 s' := by
  have hreserves := (reserveSem_once false true 3 [⟨id, .error EINTR⟩]
    ⟨fun semval => Function.update semval 3 1, .success⟩ ⟨fun _ => 0, fun _ => 0, 0, 0⟩
    (by simp) (by simp)).1 0 _ rfl
  rcases hreserves with ⟨made, _, hreserves, _⟩
  exact ⟨_, made, rfl, hreserves⟩

/-! ## The transfer programs -/

/-- With `bsRetryOnEintr` interruptions do not count, and what is left is the
operation that the transfer programs are stated with. -/
theorem reserveSem_eq_reserve (bsUseSemUndo : Bool) (semNum : Int32) {interrupted : List Call}
    {last : Call} (heintr : ∀ c ∈ interrupted, c.result = .error EINTR)
    (hlast : last.result = .success) (s : State) :
    (reserveSem bsUseSemUndo true semNum (interrupted ++ [last]) s).map
        (fun r => r.2.semval semNum.toUInt32.toUInt16) =
      BinarySems.reserve (waited (interrupted ++ [last]) s.semval semNum.toUInt32.toUInt16) := by
  rw [reserveSem, loop_append _ heintr, loop_cons, if_neg (by simp [hlast]), waited_append,
    ← (interrupt_eq interrupted s).1]
  exact semop_of_success _ hlast (interrupt s interrupted)

end Lpi.Ports.ReserveSem
