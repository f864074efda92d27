import Lpi.Ports.NumericArgs

/-!
# Freeing every n-th block (`memalloc/src/free_and_sbrk.c`)

The program allocates blocks and frees some of them again: from the block
`freeMin` up to the block `freeMax`, in steps of `freeStep`, where the first
block has number 1.  The number of blocks and `freeMax` are checked;
`freeStep` and `freeMin` may be any `unsigned long`, and the loop variable
wraps.

`frees_announced_iff` says for which of them the loop does what the program
announces.  With a step of 0 it does not end (`freeLoop_zero`), and with a
step that wraps at once it frees a block before the first one
(`second_mem`).
-/

namespace Lpi.Ports.FreeAndSbrk

open Lpi.Verified.CString

/-! ## The command line -/

/-- `MAX_ALLOCS`. -/
def maxAllocs : UInt64 := 1000000

/-- The options of a run, after the checks. -/
structure Options where
  numAllocs : UInt64
  blockSize : UInt64
  freeStep : UInt64
  freeMin : UInt64
  freeMax : UInt64
  numAllocs_le : numAllocs ≤ maxAllocs
  freeMax_le : freeMax ≤ numAllocs
  deriving DecidableEq

def usage (name : CStr) : List UInt8 :=
  ascii "Usage: " ++ name.bytes ++
    ascii " <num-allocs> <block-size> [<step> [<min> [<max>]]]\n"

def tooManyAllocs : List UInt8 :=
  ascii "ERROR: Num allocs > MAX_ALLOCS (" ++ decimal maxAllocs.toNat ++ ascii ")\n"

def freeMaxTooLarge (freeMax numAllocs : UInt64) : List UInt8 :=
  ascii "ERROR: freeMax (" ++ decimal freeMax.toNat ++ ascii ") > numAllocs (" ++
    decimal numAllocs.toNat ++ ascii ")\n"

def getUnsignedLong (str : CStr) : Except (List UInt8) UInt64 :=
  (NumericArgs.FreeAndSbrk.getUnsignedLong str).map UInt64.ofInt

/-- `argc > i ? getUnsignedLong(argv[i]) : otherwise`. -/
def optional (arg : Option CStr) (otherwise : UInt64) : Except (List UInt8) UInt64 :=
  match arg with
  | some str => getUnsignedLong str
  | none => .ok otherwise

/-- The check of the last option. -/
def checked (numAllocs blockSize freeStep freeMin freeMax : UInt64)
    (hallocs : numAllocs ≤ maxAllocs) : Except (List UInt8) Options :=
  if hmax : freeMax ≤ numAllocs then
    .ok ⟨numAllocs, blockSize, freeStep, freeMin, freeMax, hallocs, hmax⟩
  else .error (freeMaxTooLarge freeMax numAllocs)

def options (name : CStr) (args : List CStr) : Except (List UInt8) Options :=
  match args with
  | numAllocsArg :: blockSizeArg :: rest =>
      if numAllocsArg.bytes = ascii "-h" then .error (usage name)
      else do
        let numAllocs ← getUnsignedLong numAllocsArg
        if hallocs : numAllocs ≤ maxAllocs then
          let blockSize ← getUnsignedLong blockSizeArg
          let freeStep ← optional rest[0]? 1
          let freeMin ← optional rest[1]? 1
          let freeMax ← optional rest[2]? numAllocs
          checked numAllocs blockSize freeStep freeMin freeMax hallocs
        else .error tooManyAllocs
  | _ => .error (usage name)

/-! ## The loops -/

def allocFailed (blockSize : UInt64) (e : List UInt8) : List UInt8 :=
  ascii "Failed to allocate " ++ decimal blockSize.toNat ++ ascii " bytes - " ++ e ++
    ascii "\n"

/-- Allocate the blocks.  `mallocError i` is the text of `errno` if the call
for block `i` fails. -/
def allocate (o : Options) (mallocError : Nat → Option (List UInt8)) :
    Except (List UInt8) Unit :=
  match (List.range o.numAllocs.toNat).findSome? mallocError with
  | some e => .error (allocFailed o.blockSize e)
  | none => .ok ()

/-- The freeing loop from index `i` on: the indices that are freed, if it ends
within the given number of tests of its condition. -/
def freeLoop (freeMax freeStep : UInt64) : Nat → UInt64 → Option (List UInt64)
  | 0, _ => none
  | fuel + 1, i =>
      if i < freeMax then (freeLoop freeMax freeStep fuel (i + freeStep)).map (i :: ·)
      else some []

/-- The message of a failure, or what the freeing loop frees, if it ends. -/
def main (fuel : Nat) (name : CStr) (args : List CStr)
    (mallocError : Nat → Option (List UInt8)) :
    Except (List UInt8) (Option (List UInt64)) := do
  let o ← options name args
  allocate o mallocError
  pure (freeLoop o.freeMax o.freeStep fuel (o.freeMin - 1))

/-! ## What is announced -/

/-- The index is one of those from `freeMin - 1` in steps of `freeStep`,
computed without wrapping. -/
def Options.Announced (o : Options) (j : Nat) : Prop :=
  ∃ k, j = o.freeMin.toNat - 1 + k * o.freeStep.toNat ∧ j < o.freeMax.toNat

/-- What is freed is allocated, freed once, and what was announced. -/
structure Options.Frees (o : Options) (freed : List UInt64) : Prop where
  allocated : ∀ i ∈ freed, i < o.numAllocs
  once : freed.Nodup
  announced : 1 ≤ o.freeMin →
    ∀ j : Nat, j ∈ freed.map UInt64.toNat ↔ o.Announced j

/-- Either no block is to be freed, or the loop gets past the first one
without wrapping to it or before it. -/
def Options.Safe (o : Options) : Prop :=
  o.freeMin = 0 ∨ o.freeMax < o.freeMin ∨
    (1 ≤ o.freeStep ∧ o.freeMin.toNat - 1 + o.freeStep.toNat < 2 ^ 64)

instance (o : Options) : Decidable o.Safe :=
  inferInstanceAs (Decidable (_ ∨ _ ∨ _))

/-! ## The freeing loop -/

section Loop

variable {freeMax freeStep i : UInt64} {fuel : Nat} {freed : List UInt64}

theorem freeLoop_done (h : ¬ i < freeMax) :
    freeLoop freeMax freeStep (fuel + 1) i = some [] := by
  rw [freeLoop, if_neg h]

theorem freeLoop_next (h : i < freeMax) :
    freeLoop freeMax freeStep (fuel + 1) i =
      (freeLoop freeMax freeStep fuel (i + freeStep)).map (i :: ·) := by
  rw [freeLoop, if_pos h]

/-- With a step of 0 the condition stays true. -/
theorem freeLoop_zero (h : i < freeMax) (fuel : Nat) :
    freeLoop freeMax 0 fuel i = none := by
  induction fuel with
  | zero => rfl
  | succ fuel ih => rw [freeLoop_next h, UInt64.add_zero, ih, Option.map_none]

theorem head_mem (h : i < freeMax)
    (hfreed : freeLoop freeMax freeStep fuel i = some freed) : i ∈ freed := by
  cases fuel with
  | zero => simp [freeLoop] at hfreed
  | succ fuel =>
      rw [freeLoop_next h, Option.map_eq_some_iff] at hfreed
      obtain ⟨rest, _, rfl⟩ := hfreed
      exact List.mem_cons_self

/-- The second index is freed wherever it lies below `freeMax`, also if it is
there only because the addition wrapped. -/
theorem second_mem (h : i < freeMax) (hnext : i + freeStep < freeMax)
    (hfreed : freeLoop freeMax freeStep fuel i = some freed) :
    i + freeStep ∈ freed := by
  cases fuel with
  | zero => simp [freeLoop] at hfreed
  | succ fuel =>
      rw [freeLoop_next h, Option.map_eq_some_iff] at hfreed
      obtain ⟨rest, hrest, rfl⟩ := hfreed
      exact List.mem_cons_of_mem i (head_mem hnext hrest)

/-- The addition after index `i`, if it is reached, does not wrap. -/
def NoWrap (freeMax freeStep i : UInt64) : Prop :=
  i < freeMax → i.toNat + freeStep.toNat < 2 ^ 64

theorem NoWrap.toNat_add (h : NoWrap freeMax freeStep i) (hi : i < freeMax) :
    (i + freeStep).toNat = i.toNat + freeStep.toNat := by
  rw [UInt64.toNat_add, Nat.mod_eq_of_lt (h hi)]

/-- Below a bound of half the range, a step that is taken once without
wrapping can be taken again. -/
theorem NoWrap.next (hbound : freeMax.toNat ≤ 2 ^ 63) (h : NoWrap freeMax freeStep i)
    (hi : i < freeMax) : NoWrap freeMax freeStep (i + freeStep) := by
  intro hnext
  rw [UInt64.lt_iff_toNat_lt] at hnext
  rw [h.toNat_add hi] at hnext ⊢
  omega

/-- An index below `freeMax` on the way from `i` in natural numbers. -/
def OnWay (freeMax freeStep i : UInt64) (j : Nat) : Prop :=
  ∃ k, j = i.toNat + k * freeStep.toNat ∧ j < freeMax.toNat

theorem onWay_done (h : ¬ i < freeMax) (j : Nat) : ¬ OnWay freeMax freeStep i j := by
  rw [UInt64.lt_iff_toNat_lt] at h
  rintro ⟨k, hj, hlt⟩
  omega

theorem onWay_next (h : i < freeMax) (hwrap : NoWrap freeMax freeStep i) (j : Nat) :
    OnWay freeMax freeStep i j ↔
      j = i.toNat ∨ OnWay freeMax freeStep (i + freeStep) j := by
  unfold OnWay
  rw [hwrap.toNat_add h]
  rw [UInt64.lt_iff_toNat_lt] at h
  constructor
  · rintro ⟨k, hj, hlt⟩
    cases k with
    | zero =>
        left
        omega
    | succ k =>
        right
        refine ⟨k, ?_, hlt⟩
        rw [hj, Nat.add_mul]
        omega
  · rintro (hj | ⟨k, hj, hlt⟩)
    · exact ⟨0, by omega, by omega⟩
    · refine ⟨k + 1, ?_, hlt⟩
      rw [hj, Nat.add_mul]
      omega

/-- Without wrapping the loop ends, its indices grow, and they are those on
the way. -/
theorem freeLoop_noWrap (hbound : freeMax.toNat ≤ 2 ^ 63) (hstep : 1 ≤ freeStep)
    (hwrap : NoWrap freeMax freeStep i) (hfuel : freeMax.toNat - i.toNat < fuel) :
    ∃ freed, freeLoop freeMax freeStep fuel i = some freed ∧
      (∀ w ∈ freed, i ≤ w ∧ w < freeMax) ∧ freed.Nodup ∧
      ∀ j : Nat, j ∈ freed.map UInt64.toNat ↔ OnWay freeMax freeStep i j := by
  induction fuel generalizing i with
  | zero => omega
  | succ fuel ih =>
      by_cases hi : i < freeMax
      · have hadd := hwrap.toNat_add hi
        have hpos : 1 ≤ freeStep.toNat := by
          simpa [UInt64.le_iff_toNat_le] using hstep
        have hlt : i.toNat < freeMax.toNat := UInt64.lt_iff_toNat_lt.1 hi
        obtain ⟨rest, hrest, hrange, hnodup, hset⟩ :=
          ih (hwrap.next hbound hi) (by omega)
        refine ⟨i :: rest, ?_, ?_, ?_, ?_⟩
        · rw [freeLoop_next hi, hrest, Option.map_some]
        · intro w hw
          rcases List.mem_cons.1 hw with rfl | hw
          · exact ⟨UInt64.le_refl w, hi⟩
          · obtain ⟨hle, hwlt⟩ := hrange w hw
            rw [UInt64.le_iff_toNat_le] at hle ⊢
            exact ⟨by omega, hwlt⟩
        · refine List.nodup_cons.2 ⟨?_, hnodup⟩
          intro hmem
          have hle := UInt64.le_iff_toNat_le.1 (hrange i hmem).1
          omega
        · intro j
          rw [List.map_cons, List.mem_cons, hset, onWay_next hi hwrap]
      · refine ⟨[], freeLoop_done hi, by simp, List.nodup_nil, ?_⟩
        intro j
        simpa using onWay_done hi j

end Loop

/-! ## Whole runs -/

namespace Options

variable {o : Options}

theorem freeMax_small (o : Options) : o.freeMax.toNat ≤ 1000000 := by
  have hallocs := UInt64.le_iff_toNat_le.1 o.numAllocs_le
  have hmax := UInt64.le_iff_toNat_le.1 o.freeMax_le
  have hlimit : maxAllocs.toNat = 1000000 := rfl
  omega

/-- The first index, where `freeMin` is a block number. -/
theorem toNat_first (h : 1 ≤ o.freeMin) :
    (o.freeMin - 1).toNat = o.freeMin.toNat - 1 :=
  UInt64.toNat_sub_of_le _ _ h

/-- With `freeMin` 0 the first index is the greatest `unsigned long`. -/
theorem not_first_lt (h : o.freeMin = 0 ∨ o.freeMax < o.freeMin) :
    ¬ o.freeMin - 1 < o.freeMax := by
  rw [UInt64.lt_iff_toNat_lt]
  rcases h with hzero | hlt
  · have hfirst : (o.freeMin - 1).toNat = 2 ^ 64 - 1 := by
      rw [hzero]
      rfl
    have hsmall := o.freeMax_small
    omega
  · rw [UInt64.lt_iff_toNat_lt] at hlt
    have hone : 1 ≤ o.freeMin := by
      rw [UInt64.le_iff_toNat_le]
      exact Nat.lt_of_le_of_lt (Nat.zero_le _) hlt
    rw [toNat_first hone]
    omega

theorem announced_iff (h : 1 ≤ o.freeMin) (j : Nat) :
    o.Announced j ↔ OnWay o.freeMax o.freeStep (o.freeMin - 1) j := by
  rw [Announced, OnWay, toNat_first h]

theorem frees_nil (h : ¬ o.freeMin - 1 < o.freeMax) : o.Frees [] where
  allocated := by simp
  once := List.nodup_nil
  announced := by
    intro hone j
    rw [announced_iff hone]
    simpa using onWay_done h j

theorem Safe.ends (h : o.Safe) :
    ∃ fuel freed, freeLoop o.freeMax o.freeStep fuel (o.freeMin - 1) = some freed ∧
      o.Frees freed := by
  by_cases hfirst : o.freeMin - 1 < o.freeMax
  · have hnot : ¬ (o.freeMin = 0 ∨ o.freeMax < o.freeMin) :=
      fun hnone => not_first_lt hnone hfirst
    rw [not_or] at hnot
    obtain ⟨hstep, hadd⟩ := (h.resolve_left hnot.1).resolve_left hnot.2
    have hone : 1 ≤ o.freeMin := by
      have hne : o.freeMin.toNat ≠ 0 := fun hz => hnot.1 (UInt64.toNat_inj.1 hz)
      rw [UInt64.le_iff_toNat_le]
      exact Nat.one_le_iff_ne_zero.2 hne
    have hwrap : NoWrap o.freeMax o.freeStep (o.freeMin - 1) := by
      intro _
      rw [toNat_first hone]
      exact hadd
    have hbound : o.freeMax.toNat ≤ 2 ^ 63 := by
      have hsmall := o.freeMax_small
      omega
    obtain ⟨freed, hfreed, hrange, hnodup, hset⟩ :=
      freeLoop_noWrap hbound hstep hwrap (Nat.lt_succ_self _)
    refine ⟨_, freed, hfreed, ?_, hnodup, ?_⟩
    · intro i hi
      exact UInt64.lt_of_lt_of_le (hrange i hi).2 o.freeMax_le
    · intro _ j
      rw [hset, announced_iff hone]
  · exact ⟨1, [], freeLoop_done hfirst, frees_nil hfirst⟩

/-- Where the second index wraps, it lies before the first one. -/
theorem not_announced_of_wrap (hone : 1 ≤ o.freeMin)
    (hwrap : 2 ^ 64 ≤ o.freeMin.toNat - 1 + o.freeStep.toNat) :
    (o.freeMin - 1 + o.freeStep).toNat < o.freeMin.toNat - 1 ∧
    ¬ o.Announced (o.freeMin - 1 + o.freeStep).toNat := by
  have hstep := o.freeStep.toNat_lt
  have hmin := o.freeMin.toNat_lt
  have hback : (o.freeMin - 1 + o.freeStep).toNat < o.freeMin.toNat - 1 := by
    rw [UInt64.toNat_add, toNat_first hone]
    omega
  refine ⟨hback, ?_⟩
  rintro ⟨k, hk, _⟩
  omega

theorem safe_of_ends {fuel : Nat} {freed : List UInt64}
    (hfreed : freeLoop o.freeMax o.freeStep fuel (o.freeMin - 1) = some freed)
    (hfrees : o.Frees freed) : o.Safe := by
  by_contra hsafe
  simp only [Safe, not_or, not_and_or, UInt64.not_lt] at hsafe
  obtain ⟨hmin, hmax, hstep⟩ := hsafe
  have hpos : 1 ≤ o.freeMin.toNat :=
    Nat.one_le_iff_ne_zero.2 fun hz => hmin (UInt64.toNat_inj.1 hz)
  have hone : 1 ≤ o.freeMin := UInt64.le_iff_toNat_le.2 hpos
  have hfirst : o.freeMin - 1 < o.freeMax := by
    rw [UInt64.le_iff_toNat_le] at hmax
    rw [UInt64.lt_iff_toNat_lt, toNat_first hone]
    omega
  rcases hstep with hzero | hwrap
  · -- the loop does not end
    have hstep0 : o.freeStep = 0 := by
      rw [UInt64.le_iff_toNat_le] at hzero
      exact UInt64.toNat_inj.1 (Nat.lt_one_iff.1 (Nat.not_le.1 hzero))
    rw [hstep0, freeLoop_zero hfirst] at hfreed
    exact absurd hfreed (by simp)
  · -- an index before the first one is freed
    obtain ⟨hback, hnot⟩ := not_announced_of_wrap hone (Nat.not_lt.1 hwrap)
    have hnext : o.freeMin - 1 + o.freeStep < o.freeMax := by
      rw [UInt64.lt_iff_toNat_lt, toNat_first hone] at hfirst
      rw [UInt64.lt_iff_toNat_lt]
      omega
    have hmem := second_mem hfirst hnext hfreed
    exact hnot ((hfrees.announced hone _).1 (List.mem_map_of_mem hmem))

end Options

theorem allocate_ok {o : Options} {mallocError : Nat → Option (List UInt8)}
    (h : ∀ i < o.numAllocs.toNat, mallocError i = none) :
    allocate o mallocError = .ok () := by
  have hnone : (List.range o.numAllocs.toNat).findSome? mallocError = none := by
    rw [List.findSome?_eq_none_iff]
    intro i hi
    exact h i (List.mem_range.1 hi)
  rw [allocate, hnone]

theorem main_eq {name : CStr} {args : List CStr} {o : Options}
    {mallocError : Nat → Option (List UInt8)} (ho : options name args = .ok o)
    (hmalloc : ∀ i < o.numAllocs.toNat, mallocError i = none) (fuel : Nat) :
    main fuel name args mallocError =
      .ok (freeLoop o.freeMax o.freeStep fuel (o.freeMin - 1)) := by
  simp only [main, ho, allocate_ok hmalloc, bind, Except.bind, pure, Except.pure]

/-- **When the announced blocks are freed.**  For every command line the
program accepts, if the blocks can be allocated: the freeing loop ends, having
freed allocated blocks only, none of them twice, and where `freeMin` is a
block number exactly the announced ones, if and only if nothing is to be freed,
or the step is not 0 and does not wrap when it is added to the first index. -/
theorem frees_announced_iff (name : CStr) (args : List CStr) (o : Options)
    (mallocError : Nat → Option (List UInt8)) (ho : options name args = .ok o)
    (hmalloc : ∀ i < o.numAllocs.toNat, mallocError i = none) :
    (∃ fuel freed, main fuel name args mallocError = .ok (some freed) ∧
      o.Frees freed) ↔ o.Safe := by
  simp only [main_eq ho hmalloc, Except.ok.injEq]
  constructor
  · rintro ⟨fuel, freed, hfreed, hfrees⟩
    exact Options.safe_of_ends hfreed hfrees
  · exact Options.Safe.ends

def programName : CStr := ⟨ascii "free_and_sbrk", by decide⟩
def arg0 : CStr := ⟨ascii "0", by decide⟩
def arg2 : CStr := ⟨ascii "02", by decide⟩
def arg3 : CStr := ⟨ascii "3", by decide⟩
def arg9 : CStr := ⟨ascii "9", by decide⟩
def arg10 : CStr := ⟨ascii "10", by decide⟩
def arg100 : CStr := ⟨ascii "100", by decide⟩

/-- `free_and_sbrk 10 100 02 3 9`. -/
def everySecond : Options := ⟨10, 100, 2, 3, 9, by decide, by decide⟩

/-- `free_and_sbrk 10 100 0`. -/
def stepZero : Options := ⟨10, 100, 0, 1, 10, by decide, by decide⟩

theorem frees_announced_every_second :
    options programName [arg10, arg100, arg2, arg3, arg9] = .ok everySecond ∧
    ∃ fuel freed, main fuel programName [arg10, arg100, arg2, arg3, arg9]
      (fun _ => none) = .ok (some freed) ∧ everySecond.Frees freed := by
  have ho : options programName [arg10, arg100, arg2, arg3, arg9] = .ok everySecond := by
    decide
  exact ⟨ho, (frees_announced_iff programName _ everySecond (fun _ => none) ho
    (fun _ _ => rfl)).2 (by decide)⟩

/-- With a step of 0 the loop frees block 0 for ever. -/
theorem step_zero_never_ends :
    options programName [arg10, arg100, arg0] = .ok stepZero ∧
    (∀ fuel, main fuel programName [arg10, arg100, arg0] (fun _ => none) = .ok none) ∧
    ¬ ∃ fuel freed, main fuel programName [arg10, arg100, arg0] (fun _ => none) =
      .ok (some freed) ∧ stepZero.Frees freed := by
  have ho : options programName [arg10, arg100, arg0] = .ok stepZero := by
    decide
  have hnone : ∀ fuel,
      main fuel programName [arg10, arg100, arg0] (fun _ => none) = .ok none := by
    intro fuel
    rw [main_eq ho (fun _ _ => rfl)]
    exact congrArg Except.ok (freeLoop_zero (by decide) fuel)
  refine ⟨ho, hnone, ?_⟩
  rintro ⟨fuel, freed, hfreed, _⟩
  rw [hnone] at hfreed
  exact absurd hfreed (by simp)

end Lpi.Ports.FreeAndSbrk
