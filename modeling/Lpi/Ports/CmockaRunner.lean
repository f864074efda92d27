import Lpi.Ports.CmockaMock
import Lpi.Ports.CmockaStrmatch
import Lpi.Verified.CData
import Lpi.Verified.CInt
import Lpi.Verified.Latch

/-!
# The runner of a test group (`extern/cmocka/src/cmocka.c`)

`_cmocka_run_group_tests` selects the tests of a group by their names, runs the setup
of the group, each test with its own setup and teardown, and the teardown of the
group, and reports how each test has ended.  A test that does not return is left by
`exit_test()`, and whether it counts as failed or as skipped is told by
`global_skip_test`.  That variable is set by `skip()` and cleared only after a test
that did not pass.  So where a fixture calls `skip()` the variable stays set for a test
that comes later: the report is right exactly if no failed test is the next one not to
pass after that (`report_right_iff`).
-/

namespace Lpi.Ports.CmockaRunner

open Lpi.Ports.CmockaStrmatch
open Lpi.Verified.CInt
open Lpi.Verified.CString
open Lpi.Verified.Expectations
open Lpi.Verified.Latch

variable {ω : Type}

/-! ## State -/

/-- A block of `test_malloc()`: the address of its list node, and whether something
has been written around it. -/
structure Block where
  node : Nat
  corrupt : Bool
  deriving DecidableEq

/-- What a test can change: the allocated blocks, the oldest first, what is expected of
mocked functions and of the order of calls, and everything else. -/
structure World (ω : Type) where
  blocks : List Block
  mocks : CmockaMock.State
  callOrdering : Queue CStr
  rest : ω

/-- How a function ends: it returns, fails (also by a signal) or calls `skip()`. -/
inductive Finish where
  | returned (rc : Int32)
  | failed
  | skipped

/-- A test or a fixture, with the pointer it is given the address of. -/
abbrev Function (ω : Type) := World ω → UInt64 → World ω × UInt64 × Finish

inductive Kind where
  | groupSetup
  | setup
  | test
  | teardown
  | groupTeardown
  deriving DecidableEq

/-- How a call has ended, with the checks after it. -/
inductive Ending where
  | passed
  | failed
  | skipped
  deriving DecidableEq

structure Call where
  kind : Kind
  ending : Ending
  deriving DecidableEq

/-- The variable `global_skip_test`, and what the functions work on. -/
structure State (ω : Type) where
  world : World ω
  skipTest : Bool

/-- The process ends: by `abort()`, by `exit(-1)`, or anyhow, after a list node is read
that has been freed. -/
inductive Stop where
  | aborted
  | exited
  | undefined
  deriving DecidableEq

/-- `struct CMUnitTest`. -/
structure CMUnitTest (ω : Type) where
  name : Option CStr
  testFunc : Option (Function ω)
  setupFunc : Option (Function ω)
  teardownFunc : Option (Function ω)
  initialState : UInt64

/-- Whether `CMOCKA_TEST_ABORT` is 1 and whether there is memory for the states of the
tests, and the patterns that have been set. -/
structure Settings where
  testAbort : Bool
  memory : Bool
  testFilter : Option CStr
  skipFilter : Option CStr

/-! ## One function -/

/-- `check_point_allocated_blocks`: the last node, or the head of the list. -/
def checkPoint (blocks : List Block) : Option Nat := blocks.getLast?.map Block.node

/-- The blocks up to a check point and the ones behind it. -/
def splitAt : List Block → Option Nat → Option (List Block × List Block)
  | blocks, none => some ([], blocks)
  | [], some _ => none
  | b :: blocks, some node =>
      if b.node = node then some ([b], blocks)
      else (splitAt blocks (some node)).map fun (before, behind) => (b :: before, behind)

/-- `fail_if_blocks_allocated`: whether it fails, and what is left when it has freed the
blocks behind the check point, up to one that is corrupt. -/
def failIfBlocksAllocated (point : Option Nat) (w : World ω) : Option (Bool × World ω) :=
  (splitAt w.blocks point).map fun (before, behind) =>
    (!behind.isEmpty, { w with blocks := before ++ behind.dropWhile fun b => !b.corrupt })

/-- `initialize_testing`, and what `teardown_testing` leaves. -/
def World.initialized (w : World ω) : World ω :=
  { w with mocks := CmockaMock.initializeTesting, callOrdering := [] }

/-- `fail_if_leftover_values` fails. -/
def World.leftoverValues (w : World ω) : Bool :=
  !w.mocks.passes || !(w.callOrdering.filter fun (_, refcount) => ¬ refcount < -1).isEmpty

/-- What is checked when a function has returned, and whether that fails. -/
def afterReturn (kind : Kind) (point : Option Nat) (w : World ω) : Option (Bool × World ω) :=
  match kind with
  | .groupSetup | .setup => some (w.leftoverValues, w)
  | .test | .teardown | .groupTeardown =>
      (failIfBlocksAllocated point w).map fun (failed, w) => (failed || w.leftoverValues, w)

/-- `teardown_testing`, when the function has left the world `w`. -/
def State.ended (s : State ω) (w : World ω) : State ω := { s with world := w.initialized }

/-- `exit_test()` in a function, which is left for the `setjmp()` before it. -/
def exitTest (set : Settings) (w : World ω) (state : UInt64) (s : State ω) :
    Except Stop (Int32 × UInt64 × State ω) :=
  if !s.skipTest && set.testAbort then .error .aborted else .ok (-1, state, s.ended w)

/-- `cmocka_run_one_test_or_fixture`: the result, the pointer and the state.  Without a
function nothing is called, and the checks find nothing. -/
def runOneTestOrFixture (set : Settings) (kind : Kind) (function : Option (Function ω))
    (heapCheckPoint : Option (Option Nat)) (state : UInt64) (s : State ω) :
    Except Stop (Int32 × UInt64 × State ω) :=
  let point := heapCheckPoint.getD (checkPoint s.world.blocks)
  match function with
  | none => .ok (0, state, s.ended s.world)
  | some f =>
    match f s.world.initialized state with
    | (w, state, .failed) => exitTest set w state s
    | (w, state, .skipped) => exitTest set w state { s with skipTest := true }
    | (w, state, .returned rc) =>
      match afterReturn kind point w with
      | none => .error .undefined
      | some (true, w) => exitTest set w state s
      | some (false, w) =>
          .ok (if kind = .test then 0 else rc, state, s.ended w)

/-! ## One test -/

/-- `enum CMUnitTestStatus`, without `CM_TEST_NOT_STARTED`. -/
inductive Status where
  | passed
  | failed
  | error
  | skipped
  deriving DecidableEq

/-- A fixture of a test, if there is one. -/
def runFixture (set : Settings) (kind : Kind) (function : Option (Function ω))
    (heapCheckPoint : Option (Option Nat)) (state : UInt64) (s : State ω) :
    Except Stop (Int32 × UInt64 × State ω) :=
  match function with
  | none => .ok (0, state, s)
  | some f => runOneTestOrFixture set kind (some f) heapCheckPoint state s

/-- `check_point`, which is set only if there is a setup. -/
def CMUnitTest.checkPoint (test : CMUnitTest ω) (w : World ω) : Option (Option Nat) :=
  test.setupFunc.map fun _ => CmockaRunner.checkPoint w.blocks

/-- The status of a test by its result; a test that is skipped does not skip the next
one. -/
def testStatus (rc : Int32) (s : State ω) : Status × State ω :=
  if rc = 0 then (.passed, s)
  else if s.skipTest then (.skipped, { s with skipTest := false })
  else (.failed, s)

/-- `cmocka_run_one_tests`: the result, the status and the state. -/
def runOneTests (set : Settings) (test : CMUnitTest ω) (state : UInt64) (s : State ω) :
    Except Stop (Int32 × Status × State ω) :=
  match runFixture set .setup test.setupFunc (test.checkPoint s.world) state s with
  | .error stop => .error stop
  | .ok (rc, state, s₁) =>
    if rc ≠ 0 then .ok (rc, .error, s₁)
    else
      match runOneTestOrFixture set .test test.testFunc none state s₁ with
      | .error stop => .error stop
      | .ok (rc, state, s₂) =>
        let (status, s₃) := testStatus rc s₂
        match runFixture set .teardown test.teardownFunc (test.checkPoint s.world) state s₃ with
        | .error stop => .error stop
        | .ok (rc, _, s₄) => .ok (rc, if rc ≠ 0 then .error else status, s₄)

/-! ## The group -/

structure Totals where
  executed : Nat
  passed : Nat
  failed : Nat
  errors : Nat
  skipped : Nat
  deriving DecidableEq

/-- What is printed, but for the messages of failures and the times. -/
inductive Line where
  | groupStart (total : Nat)
  | start (number : Nat) (name : CStr)
  | result (status : Status) (number : Nat) (name : CStr)
  | groupSetupFailed
  | groupTeardownFailed
  | groupFinish (totals : Totals)

/-- The tests with a name and a function that the patterns let through. -/
def selected (set : Settings) (tests : List (CMUnitTest ω)) : List (CStr × CMUnitTest ω) :=
  tests.filterMap fun test =>
    match test.name with
    | none => none
    | some name =>
      if test.testFunc.isNone && test.setupFunc.isNone && test.teardownFunc.isNone then none
      else if set.testFilter.any fun p => cStrmatch (some name) (some p) = 0 then none
      else if set.skipFilter.any fun p => cStrmatch (some name) (some p) ≠ 0 then none
      else some (name, test)

def Totals.count (t : Totals) : Status → Totals
  | .passed => { t with executed := t.executed + 1, passed := t.passed + 1 }
  | .failed => { t with executed := t.executed + 1, failed := t.failed + 1 }
  | .error => { t with executed := t.executed + 1, errors := t.errors + 1 }
  | .skipped => { t with executed := t.executed + 1, skipped := t.skipped + 1 }

/-- The loop over the selected tests, from the one with this index on. -/
def runTests (set : Settings) (groupState : UInt64) :
    Nat → List (CStr × CMUnitTest ω) → Totals → State ω →
    Except Stop (List Line × Totals × State ω)
  | _, [], totals, s => .ok ([], totals, s)
  | i, (name, test) :: rest, totals, s =>
    match runOneTests set test (if groupState ≠ 0 then groupState else test.initialState) s with
    | .error stop => .error stop
    | .ok (rc, status, s) =>
      -- the result of a fixture goes before the status
      let reported := if rc = 0 then status else .error
      match runTests set groupState (i + 1) rest (totals.count reported) s with
      | .error stop => .error stop
      | .ok (lines, totals, s) =>
          .ok (.start (i + 1) name :: .result reported (i + 1) name :: lines, totals, s)

/-- What a call of the runner has printed, the state after it, and what it returns, if it
does. -/
structure Result (ω : Type) where
  lines : List Line
  state : State ω
  value : Except Stop Int

/-- The last check, with no test running, and the return value. -/
def finish (set : Settings) (point : Option Nat) (totals : Totals) (lines : List Line)
    (s : State ω) : Except Stop (Result ω) :=
  match failIfBlocksAllocated point s.world with
  | none => .error .undefined
  | some (false, w) => .ok ⟨lines ++ [.groupFinish totals], { s with world := w },
      .ok (IntType.int.wrap (totals.failed + totals.errors))⟩
  | some (true, w) => .ok ⟨lines ++ [.groupFinish totals], { s with world := w },
      .error (if !s.skipTest && set.testAbort then .aborted else .exited)⟩

/-- `_cmocka_run_group_tests`. -/
def runGroupTests (set : Settings) (tests : List (CMUnitTest ω))
    (groupSetup groupTeardown : Option (Function ω)) (s : State ω) : Except Stop (Result ω) :=
  let point := checkPoint s.world.blocks
  let cmTests := selected set tests
  if !set.memory then .ok ⟨[], s, .ok (-1)⟩
  else
    match runFixture set .groupSetup groupSetup (some point) 0 s with
    | .error stop => .error stop
    | .ok (rc, groupState, s) =>
      match (if rc = 0 then runTests set groupState 0 cmTests ⟨0, 0, 0, 0, 0⟩ s
          else .ok ([.groupSetupFailed], ⟨0, 0, 0, 1, 0⟩, s)) with
      | .error stop => .error stop
      | .ok (lines, totals, s) =>
        match runFixture set .groupTeardown groupTeardown (some point) groupState s with
        | .error stop => .error stop
        | .ok (rc, _, s) =>
            finish set point totals (.groupStart cmTests.length :: lines ++
              if rc = 0 then [] else [.groupTeardownFailed]) s

/-! ## How functions end -/

/-- **How a call ends**, by what the function does in the world `w`: it passes if it
returns, nothing is left over and, for a fixture, it returns 0, and it is skipped if it
calls `skip()`.  `point` is the check point of the blocks, and behind the ending is what the
call leaves.  Without a function nothing happens. -/
inductive Ends (kind : Kind) (point : Option Nat) :
    Option (Function ω) → World ω → UInt64 → Ending → World ω → UInt64 → Prop where
  | nothing (w : World ω) (state : UInt64) :
      Ends kind point none w state .passed w.initialized state
  | passed {f : Function ω} {w w₁ w₂ : World ω} {state state' : UInt64} {rc : Int32}
      (hcall : f w.initialized state = (w₁, state', .returned rc))
      (hchecks : afterReturn kind point w₁ = some (false, w₂)) (hrc : kind = .test ∨ rc = 0) :
      Ends kind point (some f) w state .passed w₂.initialized state'
  | wrong {f : Function ω} {w w₁ w₂ : World ω} {state state' : UInt64} {rc : Int32}
      (hcall : f w.initialized state = (w₁, state', .returned rc))
      (hchecks : afterReturn kind point w₁ = some (false, w₂)) (hkind : kind ≠ .test)
      (hrc : rc ≠ 0) : Ends kind point (some f) w state .failed w₂.initialized state'
  | leftover {f : Function ω} {w w₁ w₂ : World ω} {state state' : UInt64} {rc : Int32}
      (hcall : f w.initialized state = (w₁, state', .returned rc))
      (hchecks : afterReturn kind point w₁ = some (true, w₂)) :
      Ends kind point (some f) w state .failed w₂.initialized state'
  | failed {f : Function ω} {w w₁ : World ω} {state state' : UInt64}
      (hcall : f w.initialized state = (w₁, state', .failed)) :
      Ends kind point (some f) w state .failed w₁.initialized state'
  | skipped {f : Function ω} {w w₁ : World ω} {state state' : UInt64}
      (hcall : f w.initialized state = (w₁, state', .skipped)) :
      Ends kind point (some f) w state .skipped w₁.initialized state'

/-- How a fixture ends, if there is one. -/
inductive FixtureEnds (kind : Kind) (heapCheckPoint : Option (Option Nat)) :
    Option (Function ω) → World ω → UInt64 → Option Ending → World ω → UInt64 → Prop where
  | nothing (w : World ω) (state : UInt64) :
      FixtureEnds kind heapCheckPoint none w state none w state
  | called {f : Function ω} {w w' : World ω} {state state' : UInt64} {e : Ending}
      (h : Ends kind (heapCheckPoint.getD (checkPoint w.blocks)) (some f) w state e w' state') :
      FixtureEnds kind heapCheckPoint (some f) w state (some e) w' state'

/-! ## What the calls tell -/

def Call.skips (c : Call) : Bool := c.ending = .skipped

/-- `global_skip_test` is cleared after a test that has not passed. -/
def Call.clears (c : Call) : Bool := c.kind = .test ∧ c.ending ≠ .passed

/-- `global_skip_test` after some calls. -/
abbrev skipAfter (flag : Bool) (calls : List Call) : Bool :=
  latch Call.skips Call.clears flag calls

/-- How the functions of a test have ended that were called. -/
structure Trial where
  setup : Option Ending
  test : Option Ending
  teardown : Option Ending

def callOf (kind : Kind) (e : Option Ending) : List Call := e.toList.map fun e => ⟨kind, e⟩

def Trial.calls (t : Trial) : List Call :=
  callOf .setup t.setup ++ callOf .test t.test ++ callOf .teardown t.teardown

/-- There is no such fixture, or it has passed. -/
def Good (e : Option Ending) : Prop := e = none ∨ e = some .passed

instance (e : Option Ending) : Decidable (Good e) := inferInstanceAs (Decidable (_ ∨ _))

/-- The calls that are made for a test: the test only after a good setup, and the
teardown only after the test. -/
structure Trial.Of (cmTest : CMUnitTest ω) (t : Trial) : Prop where
  setup : t.setup.isSome = cmTest.setupFunc.isSome
  test : t.test.isSome = decide (Good t.setup)
  teardown : t.teardown.isSome = (t.test.isSome && cmTest.teardownFunc.isSome)

/-- **How a test is tried** in the world `w`: its setup first, then, unless the setup was
bad, the test and its teardown, each in the world that the one before has left. -/
inductive Tried (cmTest : CMUnitTest ω) (w : World ω) (state : UInt64) :
    Trial → World ω → Prop where
  | badSetup {e : Option Ending} {w₁ : World ω} {state₁ : UInt64}
      (hsetup : FixtureEnds .setup (cmTest.checkPoint w) cmTest.setupFunc w state e w₁ state₁)
      (hbad : ¬ Good e) : Tried cmTest w state ⟨e, none, none⟩ w₁
  | ran {e₁ e₃ : Option Ending} {e₂ : Ending} {w₁ w₂ w₃ : World ω}
      {state₁ state₂ state₃ : UInt64}
      (hsetup : FixtureEnds .setup (cmTest.checkPoint w) cmTest.setupFunc w state e₁ w₁ state₁)
      (hgood : Good e₁)
      (htest : Ends .test (checkPoint w₁.blocks) cmTest.testFunc w₁ state₁ e₂ w₂ state₂)
      (hteardown : FixtureEnds .teardown (cmTest.checkPoint w) cmTest.teardownFunc w₂ state₂ e₃
        w₃ state₃) : Tried cmTest w state ⟨e₁, some e₂, e₃⟩ w₃

/-- One test after the other. -/
inductive TriedAll (groupState : UInt64) :
    List (CStr × CMUnitTest ω) → World ω → List Trial → World ω → Prop where
  | nil (w : World ω) : TriedAll groupState [] w [] w
  | cons {name : CStr} {cmTest : CMUnitTest ω} {rest : List (CStr × CMUnitTest ω)}
      {w w₁ w₂ : World ω} {t : Trial} {trials : List Trial}
      (h : Tried cmTest w (if groupState ≠ 0 then groupState else cmTest.initialState) t w₁)
      (hrest : TriedAll groupState rest w₁ trials w₂) :
      TriedAll groupState ((name, cmTest) :: rest) w (t :: trials) w₂

def Ending.status : Ending → Status
  | .passed => .passed
  | .failed => .failed
  | .skipped => .skipped

/-- How a test has ended, which is an error if a fixture of it is not good. -/
def Trial.verdict (t : Trial) : Status :=
  match t.test with
  | none => .error
  | some e => if Good t.teardown then e.status else .error

/-- How it is reported. -/
def Trial.reported (flag : Bool) (t : Trial) : Status :=
  if t.verdict = .failed ∧ flag then .skipped else t.verdict

def Status.Ok (status : Status) : Prop := status = .passed ∨ status = .skipped

/-- The reports for some tests. -/
def statuses : Bool → List Trial → List Status
  | _, [] => []
  | flag, t :: trials => t.reported flag :: statuses (skipAfter flag t.calls) trials

/-- What is printed for them. -/
def linesFrom : Nat → List CStr → List Status → List Line
  | i, name :: names, status :: rest =>
      .start (i + 1) name :: .result status (i + 1) name :: linesFrom (i + 1) names rest
  | _, _, _ => []

section Calls

variable {set : Settings} {kind : Kind} {function : Option (Function ω)}
  {point : Option (Option Nat)} {state state' : UInt64} {s s' : State ω} {rc : Int32}
  {test : CMUnitTest ω} {status : Status}

theorem exitTest_spec {w : World ω} (h : exitTest set w state s = .ok (rc, state', s')) :
    rc = -1 ∧ state' = state ∧ s' = s.ended w := by
  rw [exitTest] at h
  split at h
  · cases h
  · simp only [Except.ok.injEq, Prod.mk.injEq] at h
    exact ⟨h.1.symm, h.2.1.symm, h.2.2.symm⟩

/-- **What a call of a function does** to the variables of the runner. -/
theorem runOneTestOrFixture_spec
    (h : runOneTestOrFixture set kind function point state s = .ok (rc, state', s')) :
    ∃ e, Ends kind (point.getD (checkPoint s.world.blocks)) function s.world state e s'.world
        state' ∧ (rc = 0 ↔ e = .passed) ∧
      s'.skipTest = (s.skipTest || Call.skips ⟨kind, e⟩) := by
  have hkept : s.skipTest = (s.skipTest || Call.skips ⟨kind, .failed⟩) := by simp [Call.skips]
  have hpassed : s.skipTest = (s.skipTest || Call.skips ⟨kind, .passed⟩) := by
    simp [Call.skips]
  cases function with
  | none =>
      simp only [runOneTestOrFixture, Except.ok.injEq, Prod.mk.injEq] at h
      rcases h with ⟨rfl, rfl, rfl⟩
      exact ⟨.passed, .nothing s.world state, by simp, hpassed⟩
  | some f =>
      simp only [runOneTestOrFixture] at h
      split at h
      · rename_i w state₁ hcall
        rcases exitTest_spec h with ⟨rfl, rfl, rfl⟩
        exact ⟨.failed, .failed hcall, by decide, hkept⟩
      · rename_i w state₁ hcall
        rcases exitTest_spec h with ⟨rfl, rfl, rfl⟩
        exact ⟨.skipped, .skipped hcall, by decide, by simp [State.ended, Call.skips]⟩
      · rename_i w state₁ rc₁ hcall
        split at h
        · cases h
        · rename_i w₂ hchecks
          rcases exitTest_spec h with ⟨rfl, rfl, rfl⟩
          exact ⟨.failed, .leftover hcall hchecks, by decide, hkept⟩
        · rename_i w₂ hchecks
          simp only [Except.ok.injEq, Prod.mk.injEq] at h
          rcases h with ⟨rfl, rfl, rfl⟩
          by_cases hkind : kind = .test
          · rw [if_pos hkind]
            exact ⟨.passed, .passed hcall hchecks (Or.inl hkind), by simp, hpassed⟩
          · rw [if_neg hkind]
            by_cases hrc : rc₁ = 0
            · exact ⟨.passed, .passed hcall hchecks (Or.inr hrc), by simp [hrc], hpassed⟩
            · exact ⟨.failed, .wrong hcall hchecks hkind hrc, by simp [hrc], hkept⟩

theorem runFixture_spec
    (h : runFixture set kind function point state s = .ok (rc, state', s')) :
    ∃ e : Option Ending, FixtureEnds kind point function s.world state e s'.world state' ∧
      (rc = 0 ↔ Good e) ∧ s'.skipTest = (s.skipTest || (callOf kind e).any Call.skips) := by
  cases function with
  | none =>
      simp only [runFixture, Except.ok.injEq, Prod.mk.injEq] at h
      rcases h with ⟨rfl, rfl, rfl⟩
      exact ⟨none, .nothing s.world state, by simp [Good], by simp [callOf]⟩
  | some f =>
      rw [runFixture] at h
      rcases runOneTestOrFixture_spec h with ⟨e, hends, hrc, hskip⟩
      exact ⟨some e, .called hends, by simp [hrc, Good], by simp [hskip, callOf]⟩

theorem FixtureEnds.isSome_eq {w w' : World ω} {e : Option Ending}
    (h : FixtureEnds kind point function w state e w' state') :
    e.isSome = function.isSome := by
  cases h with
  | nothing => rfl
  | called => rfl

theorem Tried.of {w w' : World ω} {t : Trial} (h : Tried test w state t w') : t.Of test := by
  cases h with
  | badSetup hsetup hbad => exact ⟨hsetup.isSome_eq, by simp [hbad], rfl⟩
  | ran hsetup hgood htest hteardown =>
      exact ⟨hsetup.isSome_eq, by simp [hgood], by simpa using hteardown.isSome_eq⟩

theorem skipAfter_append (flag : Bool) (calls calls' : List Call) :
    skipAfter flag (calls ++ calls') = skipAfter (skipAfter flag calls) calls' :=
  latch_append

/-- A fixture sets `global_skip_test` and does not clear it. -/
theorem skipAfter_callOf (hkind : kind ≠ .test) (flag : Bool) (e : Option Ending) :
    skipAfter flag (callOf kind e) = (flag || (callOf kind e).any Call.skips) := by
  cases e with
  | none => simp [callOf]
  | some e => simp [callOf, latch, Lpi.Verified.Latch.next, Call.clears, hkind]

theorem skipAfter_of_good (hkind : kind ≠ .test) (flag : Bool) {e : Option Ending} (h : Good e) :
    skipAfter flag (callOf kind e) = flag := by
  rw [skipAfter_callOf hkind]
  rcases h with rfl | rfl <;> simp [callOf, Call.skips]

theorem testStatus_spec {e : Ending} {flag : Bool} (hrc : rc = 0 ↔ e = .passed)
    (hskip : s.skipTest = (flag || Call.skips ⟨.test, e⟩)) :
    (testStatus rc s).1 = (if e.status = .failed ∧ flag then .skipped else e.status) ∧
      (testStatus rc s).2.world = s.world ∧
      (testStatus rc s).2.skipTest = skipAfter flag [⟨.test, e⟩] := by
  by_cases hpassed : e = .passed
  · subst hpassed
    have hzero : rc = 0 := hrc.2 rfl
    simp [testStatus, hzero, hskip, Ending.status, Call.skips, Call.clears, latch,
      Lpi.Verified.Latch.next]
  · have hne : rc ≠ 0 := fun hzero => hpassed (hrc.1 hzero)
    cases e with
    | passed => exact absurd rfl hpassed
    | failed =>
        cases flag <;>
          simp_all [testStatus, Ending.status, Call.skips, Call.clears, latch,
            Lpi.Verified.Latch.next]
    | skipped =>
        simp_all [testStatus, Ending.status, Call.skips, Call.clears, latch,
          Lpi.Verified.Latch.next]

/-- **What a test is reported as.** -/
theorem runOneTests_spec (h : runOneTests set test state s = .ok (rc, status, s')) :
    ∃ t : Trial, Tried test s.world state t s'.world ∧
      (if rc = 0 then status else .error) = t.reported s.skipTest ∧
      s'.skipTest = skipAfter s.skipTest t.calls := by
  simp only [runOneTests] at h
  split at h
  · cases h
  rename_i rc₁ state₁ s₁ hsetup
  rcases runFixture_spec hsetup with ⟨e₁, hends₁, hrc₁, hskip₁⟩
  rw [← skipAfter_callOf (by decide)] at hskip₁
  split at h
  · rename_i hne
    simp only [Except.ok.injEq, Prod.mk.injEq] at h
    rcases h with ⟨rfl, rfl, rfl⟩
    refine ⟨⟨e₁, none, none⟩, .badSetup hends₁ (fun hgood => hne (hrc₁.2 hgood)), ?_, ?_⟩
    · simp [Trial.reported, Trial.verdict]
    · simpa [Trial.calls, callOf] using hskip₁
  · rename_i hzero
    rw [not_not] at hzero
    have hgood : Good e₁ := hrc₁.1 hzero
    split at h
    · cases h
    rename_i rc₂ state₂ s₂ htest
    rcases runOneTestOrFixture_spec htest with ⟨e₂, hends₂, hrc₂, hskip₂⟩
    rcases testStatus_spec hrc₂ hskip₂ with ⟨hstatus, hworld, hskip₃⟩
    split at h
    · cases h
    rename_i rc₃ state₃ s₄ hteardown
    rcases runFixture_spec hteardown with ⟨e₃, hends₃, hrc₃, hskip₄⟩
    rw [← skipAfter_callOf (by decide)] at hskip₄
    rw [hworld] at hends₃
    simp only [Except.ok.injEq, Prod.mk.injEq] at h
    rcases h with ⟨rfl, rfl, rfl⟩
    refine ⟨⟨e₁, some e₂, e₃⟩, .ran hends₁ hgood hends₂ hends₃, ?_, ?_⟩
    · rw [hskip₁, skipAfter_of_good (by decide) _ hgood] at hstatus
      by_cases hgood₃ : Good e₃
      · rw [if_pos (hrc₃.2 hgood₃), if_neg (not_not.2 (hrc₃.2 hgood₃)), hstatus]
        simp only [Trial.reported, Trial.verdict, if_pos hgood₃]
      · rw [if_neg (fun hzero => hgood₃ (hrc₃.1 hzero))]
        simp [Trial.reported, Trial.verdict, hgood₃]
    · rw [hskip₄, hskip₃, hskip₁, ← skipAfter_append, ← skipAfter_append, ← List.append_assoc]
      rfl

end Calls

/-! ## The loop -/

section Loop

variable {set : Settings} {groupState : UInt64} {tests : List (CStr × CMUnitTest ω)}
  {s s' : State ω} {totals totals' : Totals} {lines : List Line} {i : Nat} {flag : Bool}

/-- Trials of some tests, one for each. -/
def TrialsOf (tests : List (CStr × CMUnitTest ω)) (trials : List Trial) : Prop :=
  List.Forall₂ (fun test t => t.Of test.2) tests trials

theorem TriedAll.trialsOf {w w' : World ω} {trials : List Trial}
    (h : TriedAll groupState tests w trials w') : TrialsOf tests trials := by
  induction h with
  | nil => exact List.Forall₂.nil
  | cons h _ ih => exact List.Forall₂.cons h.of ih

theorem runTests_spec
    (h : runTests set groupState i tests totals s = .ok (lines, totals', s')) :
    ∃ trials, TriedAll groupState tests s.world trials s'.world ∧
      lines = linesFrom i (tests.map Prod.fst) (statuses s.skipTest trials) ∧
      totals' = (statuses s.skipTest trials).foldl Totals.count totals := by
  induction tests generalizing i totals totals' s s' lines with
  | nil =>
      simp only [runTests, Except.ok.injEq, Prod.mk.injEq] at h
      rcases h with ⟨rfl, rfl, rfl⟩
      exact ⟨[], .nil s.world, rfl, rfl⟩
  | cons test tests ih =>
      rcases test with ⟨name, test⟩
      rw [runTests] at h
      split at h
      · cases h
      rename_i rc status s₁ htest
      rcases runOneTests_spec htest with ⟨t, htried, hreported, hskip⟩
      simp only [hreported] at h
      split at h
      · cases h
      rename_i lines₁ totals₁ s₂ hrest
      rcases ih hrest with ⟨trials, htrials, hlines, htotals⟩
      simp only [Except.ok.injEq, Prod.mk.injEq] at h
      rcases h with ⟨rfl, rfl, rfl⟩
      refine ⟨t :: trials, .cons htried htrials, ?_, ?_⟩
      · rw [hlines, hskip]
        rfl
      · rw [htotals, hskip]
        rfl

/-- A test counts in one of the totals. -/
theorem foldl_count (l : List Status) (totals : Totals) :
    l.foldl Totals.count totals = ⟨totals.executed + l.length, totals.passed + l.count .passed,
      totals.failed + l.count .failed, totals.errors + l.count .error,
      totals.skipped + l.count .skipped⟩ := by
  induction l generalizing totals with
  | nil => rfl
  | cons status l ih =>
      rw [List.foldl_cons, ih]
      cases status <;> simp [Totals.count] <;> omega

end Loop

/-! ## Hidden failures -/

/-- A failed test, if no teardown of it makes it an error. -/
def Fails (c : Call) (after : List Call) : Prop :=
  c = ⟨.test, .failed⟩ ∧ ∀ e, after.head? = some ⟨.teardown, e⟩ → e = .passed

/-- A failed test is called while `global_skip_test` is set. -/
abbrev Hides (flag : Bool) (calls : List Call) : Prop :=
  Meets Call.skips Call.clears Fails flag calls

section Hides

variable {flag : Bool} {t : Trial} {trials : List Trial} {kind : Kind} {e : Option Ending}
  {calls calls' : List Call} {cmTest : CMUnitTest ω} {tests : List (CStr × CMUnitTest ω)}

theorem hides_append (h : ∀ e, calls'.head? ≠ some ⟨.teardown, e⟩) :
    Hides flag (calls ++ calls') ↔ Hides flag calls ∨ Hides (skipAfter flag calls) calls' := by
  refine meets_append ?_
  intro before c after _
  cases after with
  | nil => simp [Fails, h]
  | cons b after => rfl

theorem hides_callOf (hkind : kind ≠ .test) : ¬ Hides flag (callOf kind e) := by
  cases e with
  | none => exact id
  | some e => simp [callOf, Hides, Meets, Fails, hkind]

theorem verdict_some {setup teardown : Option Ending} {e : Ending} :
    (⟨setup, some e, teardown⟩ : Trial).verdict =
      if Good teardown then e.status else .error := rfl

theorem fails_test_iff {e : Ending} {teardown : Option Ending} :
    Fails ⟨.test, e⟩ (callOf .teardown teardown) ↔ e = .failed ∧ Good teardown := by
  cases teardown with
  | none => simp [Fails, callOf, Good]
  | some e' => simp [Fails, callOf, Good, eq_comm]

theorem Ending.status_eq_failed {e : Ending} : e.status = .failed ↔ e = .failed := by
  cases e <;> decide

/-- A test that is called hides its failure if the variable is set. -/
theorem Trial.Of.hides_iff (h : t.Of cmTest) :
    Hides flag t.calls ↔ t.verdict = .failed ∧ flag = true := by
  rcases t with ⟨setup, test, teardown⟩
  have htest := h.test
  have hteardown := h.teardown
  cases test with
  | none =>
      have hnone : teardown = none := by simpa using hteardown
      have hcalls : (⟨setup, none, teardown⟩ : Trial).calls = callOf .setup setup := by
        simp [Trial.calls, hnone, callOf]
      rw [hcalls]
      exact iff_of_false (hides_callOf (by decide)) (by simp [Trial.verdict])
  | some e =>
      have hgood : Good setup := by simpa using htest.symm
      have hcalls : (⟨setup, some e, teardown⟩ : Trial).calls =
          callOf .setup setup ++ ⟨.test, e⟩ :: callOf .teardown teardown := by
        simp [Trial.calls, callOf]
      have hverdict : (⟨setup, some e, teardown⟩ : Trial).verdict = .failed ↔
          e = .failed ∧ Good teardown := by
        rw [verdict_some]
        split
        · rename_i hgood'
          rw [Ending.status_eq_failed, and_iff_left hgood']
        · rename_i hbad
          exact iff_of_false (by decide) (fun h => hbad h.2)
      rw [hcalls, hides_append (by simp), or_iff_right (hides_callOf (by decide)),
        skipAfter_of_good (by decide) flag hgood, Hides, Meets, fails_test_iff,
        or_iff_left (hides_callOf (by decide)), hverdict, and_comm]

theorem Trial.Of.head_ne (h : t.Of cmTest) (e : Ending) :
    (t.calls ++ calls).head? ≠ some ⟨.teardown, e⟩ := by
  rcases t with ⟨setup, test, teardown⟩
  have htest := h.test
  cases setup with
  | some e' => simp [Trial.calls, callOf]
  | none =>
      cases test with
      | none => simp [Good] at htest
      | some e' => simp [Trial.calls, callOf]

theorem reported_eq_verdict : t.reported flag = t.verdict ↔ ¬ (t.verdict = .failed ∧ flag) := by
  rw [Trial.reported]
  split
  · rename_i h
    exact iff_of_false (by rw [h.1]; decide) (not_not.2 h)
  · rename_i h
    exact iff_of_true rfl h

theorem head_trials_ne (h : TrialsOf tests trials)
    (hcalls : ∀ e, calls.head? ≠ some ⟨.teardown, e⟩) (e : Ending) :
    (trials.flatMap Trial.calls ++ calls).head? ≠ some ⟨.teardown, e⟩ := by
  cases h with
  | nil => exact hcalls e
  | cons hof _ =>
      rw [List.flatMap_cons, List.append_assoc]
      exact hof.head_ne e

/-- A test with good fixtures leaves `global_skip_test` clear. -/
theorem Trial.Of.skipAfter_eq_false (h : t.Of cmTest) (hverdict : t.verdict ≠ .error) :
    skipAfter false t.calls = false := by
  rcases t with ⟨setup, test, teardown⟩
  have htest := h.test
  cases test with
  | none => exact absurd rfl hverdict
  | some e =>
      have hgood : Good setup := by simpa using htest.symm
      have hgood' : Good teardown := by
        by_contra hbad
        exact hverdict (by rw [verdict_some, if_neg hbad])
      rw [Trial.calls, skipAfter_append, skipAfter_append, skipAfter_of_good (by decide) _ hgood,
        skipAfter_of_good (by decide) _ hgood']
      cases e <;> rfl

/-- Where the variable is clear at first, an error is reported before a failure is
hidden. -/
theorem statuses_ok_iff (h : TrialsOf tests trials) :
    (∀ status ∈ statuses false trials, status.Ok) ↔ ∀ t ∈ trials, t.verdict.Ok := by
  induction h with
  | nil => exact iff_of_true (by simp [statuses]) (by simp)
  | cons hof _ ih =>
      rename_i t tests trials
      rw [statuses, List.forall_mem_cons, List.forall_mem_cons,
        reported_eq_verdict.2 (by simp)]
      refine and_congr_right fun hok => ?_
      rw [hof.skipAfter_eq_false (by intro herror; simp [herror, Status.Ok] at hok), ih]

/-- **Tests are reported as they have ended** exactly if no failure is hidden. -/
theorem statuses_eq_iff (h : TrialsOf tests trials)
    (hcalls : ∀ e, calls.head? ≠ some ⟨.teardown, e⟩) (hnone : ∀ flag, ¬ Hides flag calls) :
    statuses flag trials = trials.map Trial.verdict ↔
      ¬ Hides flag (trials.flatMap Trial.calls ++ calls) := by
  induction h generalizing flag with
  | nil => exact iff_of_true rfl (hnone flag)
  | cons hof hrest ih =>
      rw [statuses, List.map_cons, List.cons.injEq, reported_eq_verdict, ih, List.flatMap_cons,
        List.append_assoc, hides_append (head_trials_ne hrest hcalls), hof.hides_iff, not_or]

end Hides

/-! ## Groups -/

section Groups

variable {set : Settings} {tests : List (CMUnitTest ω)}
  {groupSetup groupTeardown : Option (Function ω)} {s : State ω} {r : Result ω}
  {setup teardown : Option Ending} {trials : List Trial}

/-- The totals for some reports; a bad setup of the group is one error. -/
def totalsOf (setup : Option Ending) (l : List Status) : Totals :=
  if Good setup then
    ⟨l.length, l.count .passed, l.count .failed, l.count .error, l.count .skipped⟩
  else ⟨0, 0, 0, 1, 0⟩

/-- The calls of a group. -/
def groupCalls (setup : Option Ending) (trials : List Trial) (teardown : Option Ending) :
    List Call :=
  callOf .groupSetup setup ++ trials.flatMap Trial.calls ++ callOf .groupTeardown teardown

/-- **How a group is run** in the world `w`: its setup, the selected tests in their order
unless the setup was bad, and its teardown anyhow. -/
inductive GroupRan (set : Settings) (tests : List (CMUnitTest ω))
    (groupSetup groupTeardown : Option (Function ω)) (w : World ω) :
    Option Ending → List Trial → Option Ending → World ω → Prop where
  | ran {setup teardown : Option Ending} {trials : List Trial} {w₁ w₂ w₃ : World ω}
      {groupState state : UInt64}
      (hsetup : FixtureEnds .groupSetup (some (checkPoint w.blocks)) groupSetup w 0 setup w₁
        groupState)
      (hgood : Good setup) (htests : TriedAll groupState (selected set tests) w₁ trials w₂)
      (hteardown : FixtureEnds .groupTeardown (some (checkPoint w.blocks)) groupTeardown w₂
        groupState teardown w₃ state) :
      GroupRan set tests groupSetup groupTeardown w setup trials teardown w₃
  | badSetup {setup teardown : Option Ending} {w₁ w₂ : World ω} {groupState state : UInt64}
      (hsetup : FixtureEnds .groupSetup (some (checkPoint w.blocks)) groupSetup w 0 setup w₁
        groupState)
      (hbad : ¬ Good setup)
      (hteardown : FixtureEnds .groupTeardown (some (checkPoint w.blocks)) groupTeardown w₁
        groupState teardown w₂ state) :
      GroupRan set tests groupSetup groupTeardown w setup [] teardown w₂

/-- What a group has done and printed.  It returns if no block is left in the end that was
not there before. -/
structure Account (set : Settings) (tests : List (CMUnitTest ω))
    (groupSetup groupTeardown : Option (Function ω)) (s : State ω) (r : Result ω)
    (setup : Option Ending) (trials : List Trial) (teardown : Option Ending) : Prop where
  ran : ∃ w leaked, GroupRan set tests groupSetup groupTeardown s.world setup trials teardown w ∧
    failIfBlocksAllocated (checkPoint s.world.blocks) w = some (leaked, r.state.world) ∧
    (r.value.toOption.isSome ↔ leaked = false)
  lines : r.lines = .groupStart (selected set tests).length ::
    ((if Good setup then
        linesFrom 0 ((selected set tests).map Prod.fst) (statuses s.skipTest trials)
      else [.groupSetupFailed]) ++ (if Good teardown then [] else [.groupTeardownFailed]) ++
    [.groupFinish (totalsOf setup (statuses s.skipTest trials))])
  value : ∀ v, r.value = .ok v → v = IntType.int.wrap
    ((totalsOf setup (statuses s.skipTest trials)).failed +
      (totalsOf setup (statuses s.skipTest trials)).errors)

/-- After a good setup there is a trial of each selected test. -/
theorem GroupRan.trialsOf {w w' : World ω}
    (h : GroupRan set tests groupSetup groupTeardown w setup trials teardown w') :
    if Good setup then TrialsOf (selected set tests) trials else trials = [] := by
  cases h with
  | ran _ hgood htests => rw [if_pos hgood]; exact htests.trialsOf
  | badSetup _ hbad => rw [if_neg hbad]

theorem Account.trialsOf
    (h : Account set tests groupSetup groupTeardown s r setup trials teardown) :
    if Good setup then TrialsOf (selected set tests) trials else trials = [] := by
  rcases h.ran with ⟨w, leaked, hran, _⟩
  exact hran.trialsOf

theorem finish_spec {point : Option Nat} {totals : Totals} {lines : List Line}
    (h : finish set point totals lines s = .ok r) : r.lines = lines ++ [.groupFinish totals] ∧
      (∃ leaked, failIfBlocksAllocated point s.world = some (leaked, r.state.world) ∧
        (r.value.toOption.isSome ↔ leaked = false)) ∧
      ∀ v, r.value = .ok v → v = IntType.int.wrap (totals.failed + totals.errors) := by
  rw [finish] at h
  split at h
  · cases h
  · rename_i w hchecks
    rw [Except.ok.injEq] at h
    subst h
    refine ⟨rfl, ⟨false, hchecks, by simp [Except.toOption]⟩, fun v hv => ?_⟩
    simpa using hv.symm
  · rename_i w hchecks
    rw [Except.ok.injEq] at h
    subst h
    exact ⟨rfl, ⟨true, hchecks, by simp [Except.toOption]⟩, fun v hv => by cases hv⟩

theorem account_of_ok (hmem : set.memory = true)
    (h : runGroupTests set tests groupSetup groupTeardown s = .ok r) :
    ∃ setup trials teardown,
      Account set tests groupSetup groupTeardown s r setup trials teardown := by
  simp only [runGroupTests, hmem] at h
  simp only [Bool.not_true, Bool.false_eq_true, if_false] at h
  split at h
  · cases h
  rename_i rc groupState s₁ hsetup
  rcases runFixture_spec hsetup with ⟨e, hends, hrc, hskip⟩
  rw [← skipAfter_callOf (by decide)] at hskip
  split at h
  · cases h
  rename_i lines totals s₂ htests
  split at h
  · cases h
  rename_i rc' groupState' s₃ hteardown
  rcases runFixture_spec hteardown with ⟨e', hends', hrc', _⟩
  rcases finish_spec h with ⟨hlines, ⟨leaked, hchecks, hreturns⟩, hvalue⟩
  have hend : (if rc' = 0 then [] else [Line.groupTeardownFailed]) =
      if Good e' then [] else [.groupTeardownFailed] := by simp only [hrc']
  by_cases hgood : Good e
  · rw [if_pos (hrc.2 hgood)] at htests
    rcases runTests_spec htests with ⟨trials, htrials, hprinted, htotals⟩
    rw [hskip, skipAfter_of_good (by decide) _ hgood] at hprinted htotals
    rw [foldl_count] at htotals
    simp only [Nat.zero_add] at htotals
    refine ⟨e, trials, e', ⟨s₃.world, leaked, .ran hends hgood htrials hends', hchecks,
      hreturns⟩, ?_, ?_⟩
    · rw [hlines, hend, hprinted, htotals, if_pos hgood, totalsOf, if_pos hgood]
      simp only [List.cons_append, List.append_assoc]
    · rw [totalsOf, if_pos hgood, ← htotals]
      exact hvalue
  · rw [if_neg (fun hzero => hgood (hrc.1 hzero)), Except.ok.injEq, Prod.mk.injEq,
      Prod.mk.injEq] at htests
    rcases htests with ⟨rfl, rfl, rfl⟩
    refine ⟨e, [], e', ⟨s₃.world, leaked, .badSetup hends hgood hends', hchecks, hreturns⟩,
      ?_, ?_⟩
    · rw [hlines, hend, if_neg hgood, totalsOf, if_neg hgood]
      rfl
    · rw [totalsOf, if_neg hgood]
      exact hvalue

theorem length_statuses (flag : Bool) (trials : List Trial) :
    (statuses flag trials).length = trials.length := by
  induction trials generalizing flag with
  | nil => rfl
  | cons t trials ih => rw [statuses, List.length_cons, ih, List.length_cons]

theorem count_add_count_le (l : List Status) :
    l.count .failed + l.count .error ≤ l.length := by
  induction l with
  | nil => exact le_refl _
  | cons status l ih =>
      cases status <;> simp <;> omega

theorem Account.length_le
    (h : Account set tests groupSetup groupTeardown s r setup trials teardown) :
    trials.length ≤ tests.length := by
  have hran := h.trialsOf
  by_cases hgood : Good setup
  · rw [if_pos hgood] at hran
    rw [← hran.length_eq]
    exact List.length_filterMap_le _ _
  · rw [if_neg hgood] at hran
    simp [hran]

theorem Account.value_eq_zero_iff
    (h : Account set tests groupSetup groupTeardown s r setup trials teardown)
    (hfew : tests.length < 2 ^ 31) {v : Int} (hv : r.value = .ok v) :
    v = 0 ↔ Good setup ∧ ∀ status ∈ statuses s.skipTest trials, status.Ok := by
  have hvalue := h.value v hv
  have hlength := h.length_le
  rw [← length_statuses s.skipTest trials] at hlength
  have hbound := count_add_count_le (statuses s.skipTest trials)
  by_cases hgood : Good setup
  · simp only [totalsOf, if_pos hgood] at hvalue
    have hfits : IntType.int.Fits (((statuses s.skipTest trials).count .failed : Int) +
        (statuses s.skipTest trials).count .error) := by
      simp only [IntType.Fits, IntType.low, IntType.int]
      omega
    rw [IntType.wrap_of_fits hfits] at hvalue
    rw [and_iff_right hgood, hvalue]
    constructor
    · intro hzero status hmem
      have hfailed : Status.failed ∉ statuses s.skipTest trials := by
        rw [← List.count_eq_zero]
        omega
      have herror : Status.error ∉ statuses s.skipTest trials := by
        rw [← List.count_eq_zero]
        omega
      cases status with
      | passed => exact Or.inl rfl
      | skipped => exact Or.inr rfl
      | failed => exact absurd hmem hfailed
      | error => exact absurd hmem herror
    · intro hall
      have hfailed : (statuses s.skipTest trials).count .failed = 0 :=
        List.count_eq_zero.2 fun hmem => absurd (hall _ hmem) (by simp [Status.Ok])
      have herror : (statuses s.skipTest trials).count .error = 0 :=
        List.count_eq_zero.2 fun hmem => absurd (hall _ hmem) (by simp [Status.Ok])
      omega
  · simp only [totalsOf, if_neg hgood] at hvalue
    exact iff_of_false (by rw [hvalue]; decide) (fun h => hgood h.1)

/-- **What a group returns.**  It is tried as its `Account` says, and if
`global_skip_test` is clear at first, a group that returns gives 0 exactly if its setup was
good and each test has passed or was skipped.  Its teardown does not matter. -/
theorem runGroupTests_value (hmem : set.memory = true) (hfew : tests.length < 2 ^ 31)
    (hclear : s.skipTest = false)
    (h : runGroupTests set tests groupSetup groupTeardown s = .ok r) :
    ∃ setup trials teardown,
      Account set tests groupSetup groupTeardown s r setup trials teardown ∧
      ∀ v, r.value = .ok v → (v = 0 ↔ Good setup ∧ ∀ t ∈ trials, t.verdict.Ok) := by
  rcases account_of_ok hmem h with ⟨setup, trials, teardown, haccount⟩
  refine ⟨setup, trials, teardown, haccount, fun v hv => ?_⟩
  rw [haccount.value_eq_zero_iff hfew hv, hclear]
  refine and_congr_right fun hgood => ?_
  have hran := haccount.trialsOf
  rw [if_pos hgood] at hran
  exact statuses_ok_iff hran

/-- `skip()` has been called by a fixture, or before the group, and each test since has
passed. -/
def StillSkipping (flag : Bool) (calls : List Call) : Prop :=
  (flag = true ∧ ∀ c ∈ calls, c.kind = .test → c.ending = .passed) ∨
    ∃ before kind after, calls = before ++ ⟨kind, .skipped⟩ :: after ∧ kind ≠ .test ∧
      ∀ c ∈ after, c.kind = .test → c.ending = .passed

theorem Call.clears_eq_false {c : Call} :
    c.clears = false ↔ (c.kind = .test → c.ending = .passed) := by
  simp [Call.clears]

theorem skipAfter_iff {flag : Bool} {calls : List Call} :
    skipAfter flag calls = true ↔ StillSkipping flag calls := by
  rw [latch_iff]
  simp only [Call.clears_eq_false, StillSkipping]
  refine or_congr_right ?_
  constructor
  · rintro ⟨before, ⟨kind, ending⟩, after, rfl, hskips, hall⟩
    rw [List.forall_mem_cons] at hall
    have hending : ending = .skipped := by simpa [Call.skips] using hskips
    subst hending
    exact ⟨before, kind, after, rfl, fun htest => by simpa using hall.1 htest, hall.2⟩
  · rintro ⟨before, kind, after, rfl, hkind, hall⟩
    refine ⟨before, ⟨kind, .skipped⟩, after, rfl, rfl, ?_⟩
    exact List.forall_mem_cons.2 ⟨fun htest => absurd htest hkind, hall⟩

/-- **When the report of a group is right.**  Each test is reported as it has ended
exactly if no failure comes while `global_skip_test` is still set from a fixture. -/
theorem report_right_iff (hmem : set.memory = true)
    (h : runGroupTests set tests groupSetup groupTeardown s = .ok r) :
    ∃ setup trials teardown,
      Account set tests groupSetup groupTeardown s r setup trials teardown ∧
      (statuses s.skipTest trials = trials.map Trial.verdict ↔
        ∀ before after, groupCalls setup trials teardown = before ++ ⟨.test, .failed⟩ :: after →
          StillSkipping s.skipTest before →
          ∃ e, after.head? = some ⟨.teardown, e⟩ ∧ e ≠ .passed) := by
  rcases account_of_ok hmem h with ⟨setup, trials, teardown, haccount⟩
  refine ⟨setup, trials, teardown, haccount, ?_⟩
  have hhead : ∀ e, (callOf .groupTeardown teardown).head? ≠ some ⟨.teardown, e⟩ := by
    cases teardown <;> simp [callOf]
  have hteardown : ∀ flag, ¬ Hides flag (callOf .groupTeardown teardown) :=
    fun flag => hides_callOf (by decide)
  have hiff : statuses s.skipTest trials = trials.map Trial.verdict ↔
      ¬ Hides s.skipTest (groupCalls setup trials teardown) := by
    have hran := haccount.trialsOf
    by_cases hgood : Good setup
    · rw [if_pos hgood] at hran
      rw [groupCalls, List.append_assoc, hides_append (head_trials_ne hran hhead),
        or_iff_right (hides_callOf (by decide)), skipAfter_of_good (by decide) _ hgood]
      exact statuses_eq_iff hran hhead hteardown
    · rw [if_neg hgood] at hran
      rw [hran, groupCalls, List.flatMap_nil, List.append_nil, hides_append hhead, not_or]
      exact iff_of_true rfl ⟨hides_callOf (by decide), hteardown _⟩
  rw [hiff, Hides, meets_iff]
  constructor
  · intro hnone before after heq hskipping
    by_contra hpassed
    simp only [not_exists, not_and, not_not] at hpassed
    exact hnone ⟨before, _, after, heq, skipAfter_iff.2 hskipping, rfl, hpassed⟩
  · rintro hall ⟨before, c, after, heq, hset, rfl, hpassed⟩
    rcases hall before after heq (skipAfter_iff.1 hset) with ⟨e, he, hne⟩
    exact hne (hpassed e he)

end Groups

/-! ## A hidden failure -/

def plain : Settings := ⟨false, true, none, none⟩

def fresh : State Unit := ⟨⟨[], CmockaMock.initializeTesting, [], ()⟩, false⟩

/-- A test whose teardown calls `skip()`. -/
def skipsBehind : CMUnitTest Unit :=
  ⟨some ⟨ascii "skips", by decide⟩, some fun w state => (w, state, .returned 0), none,
    some fun w state => (w, state, .skipped), 0⟩

/-- A test that fails. -/
def fails : CMUnitTest Unit :=
  ⟨some ⟨ascii "fails", by decide⟩, some fun w state => (w, state, .failed), none, none, 0⟩

/-- The calls of the two tests. -/
def pairCalls : List Call := [⟨.test, .passed⟩, ⟨.teardown, .skipped⟩, ⟨.test, .failed⟩]

theorem tried_skipsBehind {t : Trial} {w : World Unit}
    (h : Tried skipsBehind fresh.world 0 t w) : t = ⟨none, some .passed, some .skipped⟩ := by
  cases h with
  | badSetup hsetup hbad =>
      cases hsetup
      exact absurd (Or.inl rfl) hbad
  | ran hsetup hgood htest hteardown =>
      cases hsetup
      cases hteardown with
      | called hends =>
          cases hends with
          | skipped =>
              cases htest with
              | passed => rfl
              | wrong _ _ hkind => exact absurd rfl hkind
              | leftover hcall hchecks =>
                  have hpasses : CmockaMock.initializeTesting.passes = true := by decide
                  cases hcall
                  simp [afterReturn, failIfBlocksAllocated, splitAt, checkPoint, fresh,
                    World.initialized, World.leftoverValues, hpasses] at hchecks
              | failed hcall | skipped hcall => cases hcall
          | passed hcall | wrong hcall | leftover hcall | failed hcall => cases hcall

theorem tried_fails {t : Trial} {w w' : World Unit} {state : UInt64}
    (h : Tried fails w state t w') : t = ⟨none, some .failed, none⟩ := by
  cases h with
  | badSetup hsetup hbad =>
      cases hsetup
      exact absurd (Or.inl rfl) hbad
  | ran hsetup hgood htest hteardown =>
      cases hsetup
      cases hteardown
      cases htest with
      | failed => rfl
      | passed hcall | wrong hcall | leftover hcall | skipped hcall => cases hcall

theorem ran_pair {setup teardown : Option Ending} {trials : List Trial} {w : World Unit}
    (h : GroupRan plain [skipsBehind, fails] none none fresh.world setup trials teardown w) :
    setup = none ∧ groupCalls setup trials teardown = pairCalls := by
  cases h with
  | badSetup hsetup hbad _ =>
      cases hsetup
      exact absurd (Or.inl rfl) hbad
  | ran hsetup hgood htests hteardown =>
      cases hsetup
      cases hteardown
      generalize hsel : selected plain [skipsBehind, fails] = tests at htests
      rw [show selected plain [skipsBehind, fails] = _ from rfl] at hsel
      subst hsel
      cases htests with
      | cons hskips hrest =>
          cases hrest with
          | cons hfails hnil =>
              cases hnil
              rw [tried_skipsBehind hskips, tried_fails hfails]
              exact ⟨rfl, rfl⟩

theorem exists_result {c : Except Stop (Result ω)} (P : Result ω → Bool)
    (h : c.toOption.any P = true) : ∃ r, c = .ok r ∧ P r = true := by
  cases c with
  | error stop => cases h
  | ok r => exact ⟨r, rfl, h⟩

theorem exists_pair : ∃ r, runGroupTests plain [skipsBehind, fails] none none fresh = .ok r ∧
    r.value = .ok 1 := by
  rcases exists_result (c := runGroupTests plain [skipsBehind, fails] none none fresh)
    (fun r => r.value.toOption = some 1) (by decide) with ⟨r, hr, hP⟩
  refine ⟨r, hr, ?_⟩
  cases hcase : r.value with
  | error stop => simp [hcase, Except.toOption] at hP
  | ok v => simpa [hcase, Except.toOption] using hP

theorem runGroupTests_value_pair :
    ∃ r, runGroupTests plain [skipsBehind, fails] none none fresh = .ok r ∧
      ∃ setup trials teardown,
        Account plain [skipsBehind, fails] none none fresh r setup trials teardown ∧
        ∃ t ∈ trials, ¬ t.verdict.Ok := by
  rcases exists_pair with ⟨r, hr, hvalue⟩
  rcases runGroupTests_value rfl (by decide) rfl hr with ⟨setup, trials, teardown, h, hiff⟩
  rcases h.ran with ⟨w, leaked, hran, _⟩
  refine ⟨r, hr, setup, trials, teardown, h, ?_⟩
  by_contra hnone
  simp only [not_exists, not_and, not_not] at hnone
  exact absurd ((hiff 1 hvalue).2 ⟨Or.inl (ran_pair hran).1, hnone⟩) (by decide)

/-- The second test has failed and is reported as skipped. -/
theorem report_right_iff_pair :
    ∃ r, runGroupTests plain [skipsBehind, fails] none none fresh = .ok r ∧
      ∃ setup trials teardown,
        Account plain [skipsBehind, fails] none none fresh r setup trials teardown ∧
        groupCalls setup trials teardown = pairCalls ∧
        statuses false trials ≠ trials.map Trial.verdict := by
  rcases exists_pair with ⟨r, hr, _⟩
  rcases report_right_iff rfl hr with ⟨setup, trials, teardown, h, hiff⟩
  rcases h.ran with ⟨w, leaked, hran, _⟩
  have hcalls := (ran_pair hran).2
  refine ⟨r, hr, setup, trials, teardown, h, hcalls, fun hright => ?_⟩
  have hskipping : StillSkipping fresh.skipTest [⟨.test, .passed⟩, ⟨.teardown, .skipped⟩] :=
    Or.inr ⟨[⟨.test, .passed⟩], .teardown, [], rfl, by decide, by simp⟩
  rcases hiff.1 hright [⟨.test, .passed⟩, ⟨.teardown, .skipped⟩] [] hcalls hskipping with ⟨e, he, _⟩
  cases he

end Lpi.Ports.CmockaRunner
