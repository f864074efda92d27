import Lpi.Ports.NumericArgs
import Lpi.Ports.PipeSync
import Lpi.Verified.CData
import Lpi.Verified.Family
import Lpi.Verified.Flags
import Lpi.Verified.Getopt
import Lpi.Verified.NamedObjects
import Lpi.Verified.Run
import Mathlib.Algebra.Order.BigOperators.Group.Finset
import Mathlib.Data.Fintype.Defs

/-!
# Named semaphores (`psem/*.c`)

One program makes a semaphore (`psem_create`), others wait for it, post to it, show its
value and remove its name.  Any number of processes `κ` run them at the same time, each
with its own arguments; each system call is one step, and the order of the steps is
arbitrary.

A semaphore counts what has been posted and not been waited for.  It outlives its name
for the processes that have opened it, and a semaphore that is made anew under the same
name is another one.  So a waiter on a removed semaphore gets through only if the value
or a poster that is already there lets it.
-/

namespace Lpi.Ports.Psem

open Lpi.Ports.PipeSync (helpOption)
open Lpi.Verified.CData
open Lpi.Verified.CInt
open Lpi.Verified.CString
open Lpi.Verified.Family
open Lpi.Verified.Flags
open Lpi.Verified.Getopt
open Lpi.Verified.NamedObjects
open Lpi.Verified.Run
open Lpi.Ports.NumericArgs (PsemCreate.getLong)

/-! ## State -/

/-- What a program does with a semaphore it has opened. -/
inductive Op where
  | wait
  | post
  | getvalue
  deriving DecidableEq, Repr

/-- The program that a process runs. -/
inductive Program where
  | create
  | use (op : Op)
  | unlink
  deriving DecidableEq, Repr

/-- Where a process is. -/
inductive Pc where
  | start
  /-- At `sem_open()`, or at `sem_unlink()`. -/
  | call
  /-- Behind `sem_open()`, with the semaphore. -/
  | operate (id : Nat)
  | exited (status : Exit)
  deriving DecidableEq, Repr

/-- What a process has done to a semaphore. -/
inductive Done where
  | waited (id : Nat)
  | posted (id : Nat)
  deriving DecidableEq, Repr

structure Proc where
  pc : Pc
  done : Option Done
  stdout : List UInt8
  stderr : List UInt8
  deriving DecidableEq, Repr

/-- A semaphore, with the value it was made with. -/
structure Sem where
  value : Nat
  init : Nat
  deriving DecidableEq, Repr

structure State (κ : Type) where
  table : Table CStr Sem
  proc : κ → Proc

/-- What the processes are started with, the address of `getpid()` in each, and the texts
of the errors. -/
structure System (κ : Type) where
  program : κ → Program
  name : κ → CStr
  argv : κ → List CStr
  getpid : κ → Int
  strerror : Nat → List UInt8

/-- The result of a call. -/
inductive Answer where
  | ok
  | err (errno : Nat)
  deriving DecidableEq, Repr

variable {κ : Type}

/-! ## The arguments -/

def O_CREAT : BitVec 32 := 0x40#32
def O_EXCL : BitVec 32 := 0x80#32

/-- `SEM_VALUE_MAX`. -/
def semValueMax : Nat := 2147483647

def ENOENT : Nat := 2
def EEXIST : Nat := 17
def EINVAL : Nat := 22
def EOVERFLOW : Nat := 75

/-- The string of the options of `psem_create`. -/
def optstring : List UInt8 := ascii "cx"

def printUsage (program : CStr) : List UInt8 :=
  ascii "Usage: " ++ program.bytes ++ ascii " [-cx] <sem_name> [<octal-perms> [<value>]]\n" ++
    ascii "    -c - Create semaphore (O_CREAT)\n" ++
    ascii "    -x - Create exclusively (O_EXCL)\n"

/-- The usage of the other programs. -/
def usage (program : CStr) : List UInt8 :=
  ascii "Usage: " ++ program.bytes ++ ascii " <sem_name>\n"

/-- The first call that a process makes. -/
inductive Request where
  | create (name : CStr) (oflag : BitVec 32) (value : Nat)
  | use (op : Op) (name : CStr)
  | unlink (name : CStr)
  deriving DecidableEq

/-- The program that makes the request. -/
def Request.program : Request → Program
  | .create _ _ _ => .create
  | .use op _ => .use op
  | .unlink _ => .unlink

def Request.name : Request → CStr
  | .create name _ _ | .use _ name | .unlink name => name

/-- One turn of the loop over the options. -/
def turn (program : CStr) (oflag : BitVec 32) : Found → Except (List UInt8) (BitVec 32)
  | .flag 99 => .ok (oflag ||| O_CREAT)
  | .flag 120 => .ok (oflag ||| O_EXCL)
  | found => .error (found.diagnostic program ++ printUsage program)

/-- `psem_create` up to the call of `sem_open()`.  The value is converted to `unsigned
int`. -/
def createRequest (program : CStr) (argv : List CStr) : Except (List UInt8) Request :=
  match loop (turn program) (getopt optstring argv).1 0#32 with
  | .error e => .error e
  | .ok oflag =>
    match (getopt optstring argv).2 with
    | [] => .error (printUsage program)
    | [name] => .ok (.create name oflag 0)
    | name :: perms :: more =>
      match PsemCreate.getLong perms .octal, more with
      | .error e, _ => .error e
      | .ok _, [] => .ok (.create name oflag 0)
      | .ok _, value :: _ =>
          (PsemCreate.getLong value .auto).map fun v =>
            .create name oflag (IntType.uint.wrap v).toNat

/-- The other programs take a name, which must not be `-h`. -/
def nameArgument (argv : List CStr) : Option CStr :=
  match argv with
  | [name] => if name.bytes = helpOption then none else some name
  | _ => none

/-- The first call of a process, or what it prints instead. -/
def System.request (sys : System κ) (k : κ) : Except (List UInt8) Request :=
  match sys.program k with
  | .create => createRequest (sys.name k) (sys.argv k)
  | .use op =>
    match nameArgument (sys.argv k) with
    | none => .error (usage (sys.name k))
    | some name => .ok (.use op name)
  | .unlink =>
    match nameArgument (sys.argv k) with
    | none => .error (usage (sys.name k))
    | some name => .ok (.unlink name)

/-! ## Steps -/

/-- What a failed call is reported as. -/
def failure (sys : System κ) (pc : Pc) (r : Request) (errno : Nat) : List UInt8 :=
  (match pc, r with
  | .operate _, .use .wait name => ascii "Failed to sem_wait() on " ++ name.bytes ++ ascii " - "
  | .operate _, .use .post name => ascii "Failed to sem_post() to " ++ name.bytes ++ ascii " - "
  | .operate _, .use .getvalue name =>
      ascii "Failed to sem_getvalue() on " ++ name.bytes ++ ascii "- "
  | _, .unlink name => ascii "Failed to sem_unlink " ++ name.bytes ++ ascii " - "
  | _, r => ascii "Failed to sem_open() " ++ r.name.bytes ++ ascii " - ") ++
    sys.strerror errno ++ ascii "\n"

def Proc.goto (p : Proc) (pc : Pc) : Proc := { p with pc := pc }

def Proc.fail (p : Proc) (text : List UInt8) : Proc :=
  { p with pc := .exited .failure, stderr := p.stderr ++ text }

/-- A process ends after its call. -/
def Proc.succeed (p : Proc) (done : Option Done) (text : List UInt8) : Proc :=
  { p with pc := .exited .success, done := done, stdout := p.stdout ++ text }

/-- `sem_open()` with `O_CREAT` or without: the table, or `errno`. -/
def semOpen (t : Table CStr Sem) (name : CStr) (oflag : BitVec 32) (value : Nat) :
    Except Nat (Table CStr Sem) :=
  if ¬ Has oflag O_CREAT then
    match t.lookup name with
    | none => .error ENOENT
    | some _ => .ok t
  else if Has oflag O_EXCL then
    if semValueMax < value then .error EINVAL
    else
      match t.lookup name with
      | none => .ok (t.create name ⟨value, value⟩)
      | some _ => .error EEXIST
  else
    match t.lookup name with
    | none => if semValueMax < value then .error EINVAL else .ok (t.create name ⟨value, value⟩)
    | some _ => .ok t

variable [DecidableEq κ]

/-- Process `k` becomes `p`. -/
def State.set (s : State κ) (k : κ) (p : Proc) : State κ :=
  { s with proc := Function.update s.proc k p }

def State.fail (sys : System κ) (s : State κ) (k : κ) (r : Request) (errno : Nat) : State κ :=
  s.set k ((s.proc k).fail (failure sys (s.proc k).pc r errno))

/-- The first call of process `k`. -/
def callStep (sys : System κ) (s : State κ) (k : κ) : Request → State κ
  | .create name oflag value =>
    match semOpen s.table name oflag value with
    | .error e => s.fail sys k (.create name oflag value) e
    | .ok table => { s.set k ((s.proc k).succeed none []) with table := table }
  | .use op name =>
    match s.table.lookup name with
    | none => s.fail sys k (.use op name) ENOENT
    | some id => s.set k ((s.proc k).goto (.operate id))
  | .unlink name =>
    match s.table.lookup name with
    | none => s.fail sys k (.unlink name) ENOENT
    | some _ => { s.set k ((s.proc k).succeed none []) with table := s.table.unlink name }

/-- What a process prints behind `sem_wait()`. -/
def waitedLine (sys : System κ) (k : κ) (name : CStr) : List UInt8 :=
  decimal (sys.getpid k) ++ ascii " sem_wait() on " ++ name.bytes ++ ascii " succeeeded\n"

/-- What process `k` does with the semaphore it has opened; `sem_wait()` waits for a
value that is not 0. -/
def operateStep (sys : System κ) (s : State κ) (k : κ) (r : Request) (id : Nat) :
    Option (State κ) :=
  match r, s.table.get id with
  | .use .wait name, some sem =>
      if sem.value = 0 then none
      else some { s.set k ((s.proc k).succeed (some (.waited id)) (waitedLine sys k name)) with
        table := s.table.set id { sem with value := sem.value - 1 } }
  | .use .post name, some sem => some
      (if sem.value = semValueMax then s.fail sys k (.use .post name) EOVERFLOW
      else { s.set k ((s.proc k).succeed (some (.posted id)) []) with
        table := s.table.set id { sem with value := sem.value + 1 } })
  | .use .getvalue _, some sem =>
      some (s.set k ((s.proc k).succeed none (decimal sem.value ++ ascii "\n")))
  | _, _ => none

/-- The next step of process `k`. -/
def step (sys : System κ) (s : State κ) : κ × Answer → Option (State κ)
  | (k, a) =>
    match sys.request k, (s.proc k).pc, a with
    | .error text, .start, .ok => some (s.set k ((s.proc k).fail text))
    | .ok _, .start, .ok => some (s.set k ((s.proc k).goto .call))
    | .ok r, .call, .ok => some (callStep sys s k r)
    | .ok r, .operate id, .ok => operateStep sys s k r id
    | .ok r, .call, .err e => some (s.fail sys k r e)
    | .ok r, .operate _, .err e => some (s.fail sys k r e)
    | _, _, _ => none

/-- There are no semaphores, and no process has begun. -/
def start : State κ where
  table := Table.empty
  proc := fun _ => ⟨.start, none, [], []⟩

/-! ## Where a process is -/

/-- A process by where it is, when there are `n` semaphores. -/
def ProcInv (sys : System κ) (n : Nat) (k : κ) (p : Proc) : Prop :=
  match p.pc with
  | .start => p.done = none
  | .call => p.done = none ∧ ∃ r, sys.request k = .ok r
  | .operate id => p.done = none ∧ id < n ∧ ∃ op name, sys.request k = .ok (.use op name)
  | .exited _ => True

/-- How many steps are still to be taken. -/
def Pc.work : Pc → Nat
  | .start => 3
  | .call => 2
  | .operate _ => 1
  | .exited _ => 0

/-- What a step of process `k`, which becomes `p`, does to the semaphores. -/
inductive Moves (sys : System κ) (s : State κ) (k : κ) (p : Proc) : Table CStr Sem → Prop where
  | stays (hdone : p.done = none)
      (hopened : ∀ id, p.pc = .operate id → ∃ name, s.table.lookup name = some id) :
      Moves sys s k p s.table
  | creates {name : CStr} {value : Nat} (hdone : p.done = none) (hpc : p.pc = .exited .success)
      (hvalue : value ≤ semValueMax) : Moves sys s k p (s.table.create name ⟨value, value⟩)
  | unlinks {name : CStr} (hdone : p.done = none) (hpc : p.pc = .exited .success) :
      Moves sys s k p (s.table.unlink name)
  | waits {id : Nat} {sem : Sem} (hget : s.table.get id = some sem) (hpos : 0 < sem.value)
      (hprogram : sys.program k = .use .wait) (hdone : p.done = some (.waited id))
      (hpc : p.pc = .exited .success) :
      Moves sys s k p (s.table.set id { sem with value := sem.value - 1 })
  | posts {id : Nat} {sem : Sem} (hget : s.table.get id = some sem)
      (hne : sem.value ≠ semValueMax) (hprogram : sys.program k = .use .post)
      (hold : (s.proc k).pc = .operate id) (hdone : p.done = some (.posted id))
      (hpc : p.pc = .exited .success) :
      Moves sys s k p (s.table.set id { sem with value := sem.value + 1 })

variable {sys : System κ} {s t : State κ} {k : κ} {a : Answer} {r : Request}

theorem createRequest_ok {program : CStr} {argv : List CStr}
    (h : createRequest program argv = .ok r) :
    ∃ name oflag value, r = .create name oflag value := by
  rw [createRequest] at h
  split at h
  · cases h
  split at h
  · cases h
  · exact ⟨_, _, _, (Except.ok.inj h).symm⟩
  split at h
  · cases h
  · exact ⟨_, _, _, (Except.ok.inj h).symm⟩
  · simp only [Except.map] at h
    split at h
    · cases h
    · exact ⟨_, _, _, (Except.ok.inj h).symm⟩

omit [DecidableEq κ] in
theorem program_of_request (h : sys.request k = .ok r) : sys.program k = r.program := by
  rw [System.request] at h
  split at h
  · rename_i hprogram
    rcases createRequest_ok h with ⟨name, oflag, value, rfl⟩
    exact hprogram
  · split at h
    · cases h
    · rw [Except.ok.injEq] at h
      subst h
      assumption
  · split at h
    · cases h
    · rw [Except.ok.injEq] at h
      subst h
      assumption

/-- Process `k` has one step less to take and is where it ought to be. -/
def Advances (sys : System κ) (s : State κ) (k : κ) (t : State κ) : Prop :=
  ∃ p, t.proc = Function.update s.proc k p ∧ p.pc.work < (s.proc k).pc.work ∧
    ProcInv sys s.table.objects.length k p ∧ Moves sys s k p t.table

theorem advances_fail (hnow : 0 < (s.proc k).pc.work) (hdone : (s.proc k).done = none)
    {text : List UInt8} : Advances sys s k (s.set k ((s.proc k).fail text)) :=
  ⟨_, rfl, hnow, trivial, .stays hdone (by simp [Proc.fail])⟩

/-- A semaphore is found under the name, or made. -/
theorem semOpen_ok {table table' : Table CStr Sem} {name : CStr} {oflag : BitVec 32}
    {value : Nat} (h : semOpen table name oflag value = .ok table') :
    (∃ id, table'.lookup name = some id) ∧
    (table' = table ∨ table.lookup name = none ∧ Has oflag O_CREAT ∧ value ≤ semValueMax ∧
      table' = table.create name ⟨value, value⟩) := by
  have hmade : ∃ id, (table.create name ⟨value, value⟩).lookup name = some id :=
    ⟨_, lookup_create.trans (if_pos rfl)⟩
  rw [semOpen] at h
  split at h
  · split at h
    · cases h
    · rename_i id hlookup
      obtain rfl := Except.ok.inj h
      exact ⟨⟨id, hlookup⟩, Or.inl rfl⟩
  · rename_i hcreat
    rw [not_not] at hcreat
    split at h
    · split at h
      · cases h
      · rename_i hvalue
        split at h
        · rename_i hlookup
          obtain rfl := Except.ok.inj h
          exact ⟨hmade, Or.inr ⟨hlookup, hcreat, Nat.le_of_not_lt hvalue, rfl⟩⟩
        · cases h
    · split at h
      · rename_i hlookup
        split at h
        · cases h
        · rename_i hvalue
          obtain rfl := Except.ok.inj h
          exact ⟨hmade, Or.inr ⟨hlookup, hcreat, Nat.le_of_not_lt hvalue, rfl⟩⟩
      · rename_i id hlookup
        obtain rfl := Except.ok.inj h
        exact ⟨⟨id, hlookup⟩, Or.inl rfl⟩

theorem advances_call (hpc : (s.proc k).pc = .call) (hdone : (s.proc k).done = none)
    (hr : sys.request k = .ok r) (hvalid : Valid s.table) :
    Advances sys s k (callStep sys s k r) := by
  have hnow : 0 < (s.proc k).pc.work := by simp [hpc, Pc.work]
  cases r with
  | create name oflag value =>
      rw [callStep]
      cases hopen : semOpen s.table name oflag value with
      | error e => exact advances_fail hnow hdone
      | ok table =>
          refine ⟨_, rfl, hnow, trivial, ?_⟩
          rcases (semOpen_ok hopen).2 with rfl | ⟨_, _, hvalue, rfl⟩
          · exact .stays rfl (by simp [Proc.succeed])
          · exact .creates rfl rfl hvalue
  | use op name =>
      rw [callStep]
      cases hlookup : s.table.lookup name with
      | none => exact advances_fail hnow hdone
      | some id =>
          refine ⟨_, rfl, by simp [hpc, Pc.work, Proc.goto], ?_, .stays hdone ?_⟩
          · exact ⟨hdone, hvalid.lt name id hlookup, op, name, hr⟩
          · intro id' hid
            rw [Proc.goto, Pc.operate.injEq] at hid
            exact ⟨name, hid ▸ hlookup⟩
  | unlink name =>
      rw [callStep]
      cases hlookup : s.table.lookup name with
      | none => exact advances_fail hnow hdone
      | some id =>
          exact ⟨_, rfl, hnow, trivial, .unlinks rfl rfl⟩

theorem advances_operate {id : Nat} {op : Op} {name : CStr} (hpc : (s.proc k).pc = .operate id)
    (hdone : (s.proc k).done = none) (hr : sys.request k = .ok (.use op name))
    (h : operateStep sys s k (.use op name) id = some t) : Advances sys s k t := by
  have hnow : 0 < (s.proc k).pc.work := by simp [hpc, Pc.work]
  have hprogram : sys.program k = .use op := program_of_request hr
  cases hget : s.table.get id with
  | none => cases op <;> simp [operateStep, hget] at h
  | some sem =>
      cases op with
      | wait =>
          simp only [operateStep, hget, Option.ite_none_left_eq_some, Option.some.injEq] at h
          rcases h with ⟨hpos, rfl⟩
          exact ⟨_, rfl, hnow, trivial,
            .waits hget (Nat.pos_of_ne_zero hpos) hprogram rfl rfl⟩
      | post =>
          simp only [operateStep, hget, Option.some.injEq] at h
          split at h
          · exact h ▸ advances_fail hnow hdone
          · rename_i hne
            subst h
            exact ⟨_, rfl, hnow, trivial, .posts hget hne hprogram hpc rfl rfl⟩
      | getvalue =>
          simp only [operateStep, hget, Option.some.injEq] at h
          subst h
          exact ⟨_, rfl, hnow, trivial, .stays rfl (by simp [Proc.succeed])⟩

/-- **What every step does.** -/
theorem advances_step (hinv : ProcInv sys s.table.objects.length k (s.proc k))
    (hvalid : Valid s.table) (h : step sys s (k, a) = some t) : Advances sys s k t := by
  cases hpc : (s.proc k).pc with
  | start =>
      simp only [ProcInv, hpc] at hinv
      cases a with
      | err e => cases hr : sys.request k <;> simp [step, hr, hpc] at h
      | ok =>
          cases hr : sys.request k with
          | error text =>
              simp only [step, hr, hpc, Option.some.injEq] at h
              exact h ▸ advances_fail (by simp [hpc, Pc.work]) hinv
          | ok r =>
              simp only [step, hr, hpc, Option.some.injEq] at h
              subst h
              exact ⟨_, rfl, by simp [hpc, Pc.work, Proc.goto], ⟨hinv, r, hr⟩,
                .stays hinv (by simp [Proc.goto])⟩
  | call =>
      simp only [ProcInv, hpc] at hinv
      rcases hinv with ⟨hdone, r, hr⟩
      cases a with
      | ok =>
          simp only [step, hr, hpc, Option.some.injEq] at h
          exact h ▸ advances_call hpc hdone hr hvalid
      | err e =>
          simp only [step, hr, hpc, Option.some.injEq] at h
          exact h ▸ advances_fail (by simp [hpc, Pc.work]) hdone
  | operate id =>
      simp only [ProcInv, hpc] at hinv
      rcases hinv with ⟨hdone, _, op, name, hr⟩
      cases a with
      | ok =>
          simp only [step, hr, hpc] at h
          exact advances_operate hpc hdone hr h
      | err e =>
          simp only [step, hr, hpc, Option.some.injEq] at h
          exact h ▸ advances_fail (by simp [hpc, Pc.work]) hdone
  | exited status => cases a <;> cases hr : sys.request k <;> simp [step, hr, hpc] at h

/-! ## The account -/

section Runs

variable [Fintype κ]

/-- The processes that have got through `sem_wait()`. -/
def waits (s : State κ) (id : Nat) : Nat :=
  ∑ k, if (s.proc k).done = some (.waited id) then 1 else 0

/-- The processes that have posted. -/
def posts (s : State κ) (id : Nat) : Nat :=
  ∑ k, if (s.proc k).done = some (.posted id) then 1 else 0

/-- The processes that have opened the semaphore and are about to post. -/
def posters (sys : System κ) (s : State κ) (id : Nat) : Nat :=
  ∑ k, if sys.program k = .use .post ∧ (s.proc k).pc = .operate id then 1 else 0

structure Inv (sys : System κ) (s : State κ) : Prop where
  valid : Valid s.table
  proc : ∀ k, ProcInv sys s.table.objects.length k (s.proc k)
  made : ∀ k id, (s.proc k).done = some (.waited id) ∨ (s.proc k).done = some (.posted id) →
    id < s.table.objects.length
  account : ∀ id sem, s.table.get id = some sem →
    sem.value + waits s id = sem.init + posts s id ∧ sem.value ≤ semValueMax

omit [DecidableEq κ] in
theorem start_inv (sys : System κ) : Inv sys start where
  valid := Valid.empty
  proc := fun k => rfl
  made := by intro k id h; rcases h with h | h <;> cases h
  account := by intro id sem h; cases h

omit [DecidableEq κ] [Fintype κ] in
theorem ProcInv.mono {n n' : Nat} {p : Proc} (h : ProcInv sys n k p) (hle : n ≤ n') :
    ProcInv sys n' k p := by
  cases hpc : p.pc with
  | operate id =>
      simp only [ProcInv, hpc] at h ⊢
      exact ⟨h.1, Nat.lt_of_lt_of_le h.2.1 hle, h.2.2⟩
  | start | call => simpa only [ProcInv, hpc] using h
  | exited status => simp only [ProcInv, hpc]

omit [DecidableEq κ] [Fintype κ] in
theorem ProcInv.done_eq_none {n : Nat} {p : Proc} (h : ProcInv sys n k p) (hwork : 0 < p.pc.work) :
    p.done = none := by
  cases hpc : p.pc with
  | start => simpa only [ProcInv, hpc] using h
  | call | operate id =>
      simp only [ProcInv, hpc] at h
      exact h.1
  | exited status => simp [hpc, Pc.work] at hwork

/-- A sum over the processes when `k` has become `p`. -/
theorem sum_indicator {p : Proc} (P : κ → Proc → Prop) [∀ j q, Decidable (P j q)]
    (hproc : t.proc = Function.update s.proc k p) :
    (∑ j, if P j (t.proc j) then 1 else 0) + (if P k (s.proc k) then 1 else 0) =
      (∑ j, if P j (s.proc j) then 1 else 0) + if P k p then 1 else 0 := by
  rw [hproc]
  exact sum_update_add (fun j q => if P j q then 1 else 0) s.proc k p

theorem waits_update {p : Proc} (hproc : t.proc = Function.update s.proc k p)
    (hnone : (s.proc k).done = none) (id : Nat) :
    waits t id = waits s id + if p.done = some (.waited id) then 1 else 0 := by
  have h := sum_indicator (fun _ q => q.done = some (.waited id)) hproc
  rw [hnone, if_neg (by simp), Nat.add_zero] at h
  exact h

theorem posts_update {p : Proc} (hproc : t.proc = Function.update s.proc k p)
    (hnone : (s.proc k).done = none) (id : Nat) :
    posts t id = posts s id + if p.done = some (.posted id) then 1 else 0 := by
  have h := sum_indicator (fun _ q => q.done = some (.posted id)) hproc
  rw [hnone, if_neg (by simp), Nat.add_zero] at h
  exact h

omit [DecidableEq κ] [Fintype κ] in
theorem Moves.length_le {p : Proc} {table : Table CStr Sem} (h : Moves sys s k p table) :
    s.table.objects.length ≤ table.objects.length := by
  cases h with
  | creates => rw [length_create]; exact Nat.le_succ _
  | stays | unlinks | waits | posts => simp [Table.unlink, Table.set]

omit [DecidableEq κ] in
theorem Inv.waits_new (hs : Inv sys s) {id : Nat} (hnew : s.table.objects.length ≤ id) :
    waits s id = 0 ∧ posts s id = 0 := by
  constructor
  · refine Finset.sum_eq_zero fun k _ => if_neg fun hdone => ?_
    exact Nat.not_lt.2 hnew (hs.made k id (Or.inl hdone))
  · refine Finset.sum_eq_zero fun k _ => if_neg fun hdone => ?_
    exact Nat.not_lt.2 hnew (hs.made k id (Or.inr hdone))

/-- **A semaphore has what was posted and not waited for.** -/
theorem account_step (hs : Inv sys s) (hnone : (s.proc k).done = none) {p : Proc}
    (hproc : t.proc = Function.update s.proc k p) (hmoves : Moves sys s k p t.table) (id : Nat)
    (sem : Sem) (hget : t.table.get id = some sem) :
    sem.value + waits t id = sem.init + posts t id ∧ sem.value ≤ semValueMax := by
  have hwaits := waits_update hproc hnone id
  have hposts := posts_update hproc hnone id
  generalize htable : t.table = table at hmoves hget
  cases hmoves with
  | stays hdone =>
      rw [hdone, if_neg (by simp)] at hwaits hposts
      have h := hs.account id sem hget
      omega
  | unlinks hdone hpc =>
      rw [hdone, if_neg (by simp)] at hwaits hposts
      have h := hs.account id sem hget
      omega
  | @creates name value hdone hpc hvalue =>
      rw [hdone, if_neg (by simp)] at hwaits hposts
      rw [get_create] at hget
      split at hget
      · rename_i hid
        rw [Option.some.injEq] at hget
        subst hget
        have hnew := hs.waits_new (Nat.le_of_eq hid.symm)
        exact ⟨by rw [hwaits, hposts, hnew.1, hnew.2], hvalue⟩
      · have h := hs.account id sem hget
        omega
  | @waits id' sem' hget' hpos hprogram hdone hpc =>
      rw [hdone] at hwaits hposts
      rw [if_neg (by simp)] at hposts
      rw [get_set hget'] at hget
      have h' := hs.account id' sem' hget'
      by_cases hid : id = id'
      · subst hid
        rw [if_pos rfl, Option.some.injEq] at hget
        subst hget
        rw [if_pos rfl] at hwaits
        exact ⟨by simp only; omega, by simp only; omega⟩
      · rw [if_neg hid] at hget
        rw [if_neg (by simpa using fun heq => hid heq.symm)] at hwaits
        have h := hs.account id sem hget
        omega
  | @posts id' sem' hget' hne hprogram hold hdone hpc =>
      rw [hdone] at hwaits hposts
      rw [if_neg (by simp)] at hwaits
      rw [get_set hget'] at hget
      have h' := hs.account id' sem' hget'
      by_cases hid : id = id'
      · subst hid
        rw [if_pos rfl, Option.some.injEq] at hget
        subst hget
        rw [if_pos rfl] at hposts
        exact ⟨by simp only; omega, by simp only; omega⟩
      · rw [if_neg hid] at hget
        rw [if_neg (by simpa using fun heq => hid heq.symm)] at hposts
        have h := hs.account id sem hget
        omega

omit [DecidableEq κ] [Fintype κ] in
theorem Moves.valid {p : Proc} {table : Table CStr Sem} (h : Moves sys s k p table)
    (hvalid : Valid s.table) : Valid table := by
  cases h with
  | stays => exact hvalid
  | creates => exact hvalid.create
  | unlinks => exact hvalid.unlink
  | waits | posts => exact hvalid.set

omit [DecidableEq κ] [Fintype κ] in
theorem Moves.made {p : Proc} {table : Table CStr Sem} (h : Moves sys s k p table) {id : Nat}
    (hdone : p.done = some (.waited id) ∨ p.done = some (.posted id)) :
    id < s.table.objects.length := by
  cases h with
  | stays hnone | creates hnone | unlinks hnone => simp [hnone] at hdone
  | waits hget _ _ hdone' =>
      simp only [hdone', Option.some.injEq, Done.waited.injEq, reduceCtorEq, or_false] at hdone
      exact hdone ▸ lt_of_get hget
  | posts hget _ _ _ hdone' =>
      simp only [hdone', Option.some.injEq, Done.posted.injEq, reduceCtorEq, false_or] at hdone
      exact hdone ▸ lt_of_get hget

theorem inv_step (hs : Inv sys s) (h : step sys s (k, a) = some t) : Inv sys t := by
  rcases advances_step (hs.proc k) hs.valid h with ⟨p, hproc, hwork, hp, hmoves⟩
  have hnone := (hs.proc k).done_eq_none (Nat.zero_lt_of_lt hwork)
  refine ⟨hmoves.valid hs.valid, ?_, ?_, account_step hs hnone hproc hmoves⟩
  · intro j
    rw [hproc]
    by_cases hj : j = k
    · rw [hj, Function.update_self]
      exact hp.mono hmoves.length_le
    · rw [Function.update_of_ne hj]
      exact (hs.proc j).mono hmoves.length_le
  · intro j id hdone
    rw [hproc] at hdone
    refine Nat.lt_of_lt_of_le ?_ hmoves.length_le
    by_cases hj : j = k
    · rw [hj, Function.update_self] at hdone
      exact hmoves.made hdone
    · rw [Function.update_of_ne hj] at hdone
      exact hs.made j id hdone

def State.work (s : State κ) : Nat := ∑ k, (s.proc k).pc.work

theorem step_work (hs : Inv sys s) (h : step sys s (k, a) = some t) : t.work < s.work := by
  rcases advances_step (hs.proc k) hs.valid h with ⟨p, hproc, hwork, _, _⟩
  have hsum : ∑ j, (Function.update s.proc k p j).pc.work + (s.proc k).pc.work =
      ∑ j, (s.proc j).pc.work + p.pc.work :=
    sum_update_add (fun _ (v : Proc) => v.pc.work) s.proc k p
  unfold State.work
  rw [hproc]
  omega

/-- A process waits for a semaphore whose value is 0. -/
def Waits (sys : System κ) (s : State κ) (k : κ) : Prop :=
  ∃ id sem, (s.proc k).pc = .operate id ∧ sys.program k = .use .wait ∧
    s.table.get id = some sem ∧ sem.value = 0

/-- A process cannot go on if it has ended or waits. -/
theorem stuck_iff (hs : Inv sys s) :
    step sys s (k, .ok) = none ↔ (∃ status, (s.proc k).pc = .exited status) ∨ Waits sys s k := by
  have hinv := hs.proc k
  cases hpc : (s.proc k).pc with
  | exited status =>
      refine iff_of_true ?_ (Or.inl ⟨status, rfl⟩)
      cases hr : sys.request k <;> simp [step, hr, hpc]
  | start =>
      refine iff_of_false ?_ (by simp [Waits, hpc])
      cases hr : sys.request k <;> simp [step, hr, hpc]
  | call =>
      simp only [ProcInv, hpc] at hinv
      rcases hinv with ⟨_, r, hr⟩
      exact iff_of_false (by simp [step, hr, hpc]) (by simp [Waits, hpc])
  | operate id =>
      simp only [ProcInv, hpc] at hinv
      rcases hinv with ⟨_, hlt, op, name, hr⟩
      rcases exists_get hlt with ⟨sem, hget⟩
      have hprogram : sys.program k = .use op := program_of_request hr
      cases op <;> simp [step, hr, hpc, operateStep, hget, Waits, hprogram]

omit [DecidableEq κ] in
theorem work_start : (start : State κ).work = 3 * Fintype.card κ := by
  simp [State.work, start, Pc.work, Nat.mul_comm]

theorem inv_of_exec {ls : List (κ × Answer)} (h : exec (step sys) start ls = some t) :
    Inv sys t :=
  Reachable.invariant (fun _ ⟨_, _⟩ _ hs hstep => inv_step hs hstep) (start_inv sys) ⟨ls, h⟩

/-! ## What a process does -/

/-- `sem_open()` of process `k` has found semaphore `id` under the name. -/
def Opened (sys : System κ) (k : κ) (before : List (κ × Answer)) (id : Nat) (name : CStr) : Prop :=
  Occurs (step sys) (fun v l => l = (k, .ok) ∧ (v.proc k).pc = .call ∧
    v.table.lookup name = some id) start before

/-- What process `k` has done when it ends with success, with the step from `u` to `u'` behind
the steps `before`: the semaphore is there under its name, or made; the name is removed;
or the semaphore that was found under the name has been waited for, posted to or shown. -/
def Did (sys : System κ) (k : κ) (before : List (κ × Answer)) (u u' : State κ) : Request → Prop
  | .create name oflag value => (∃ id, u'.table.lookup name = some id) ∧
      (u'.table = u.table ∨ u.table.lookup name = none ∧ Has oflag O_CREAT ∧
        value ≤ semValueMax ∧ u'.table = u.table.create name ⟨value, value⟩)
  | .unlink name => (∃ id, u.table.lookup name = some id) ∧ u'.table = u.table.unlink name
  | .use op name => ∃ id sem, Opened sys k before id name ∧ u.table.get id = some sem ∧
      match op with
      | .wait => 0 < sem.value ∧ (u'.proc k).done = some (.waited id) ∧
          u'.table = u.table.set id { sem with value := sem.value - 1 } ∧
          (u'.proc k).stdout = (u.proc k).stdout ++ waitedLine sys k name
      | .post => sem.value ≠ semValueMax ∧ (u'.proc k).done = some (.posted id) ∧
          u'.table = u.table.set id { sem with value := sem.value + 1 }
      | .getvalue => u'.table = u.table ∧
          (u'.proc k).stdout = (u.proc k).stdout ++ decimal sem.value ++ ascii "\n"

omit [Fintype κ] in
theorem did_of_operate {before : List (κ × Answer)} {id : Nat} {op : Op} {name : CStr}
    (hopened : Opened sys k before id name) (hpc : (t.proc k).pc = .exited .success)
    (h : operateStep sys s k (.use op name) id = some t) :
    Did sys k before s t (.use op name) := by
  cases hget : s.table.get id with
  | none => cases op <;> simp [operateStep, hget] at h
  | some sem =>
      refine ⟨id, sem, hopened, hget, ?_⟩
      cases op with
      | wait =>
          simp only [operateStep, hget, Option.ite_none_left_eq_some, Option.some.injEq] at h
          rcases h with ⟨hpos, rfl⟩
          exact ⟨Nat.pos_of_ne_zero hpos, by simp [State.set, Proc.succeed], rfl,
            by simp [State.set, Proc.succeed]⟩
      | post =>
          simp only [operateStep, hget, Option.some.injEq] at h
          split at h
          · subst h
            simp [State.fail, State.set, Proc.fail] at hpc
          · rename_i hne
            subst h
            exact ⟨hne, by simp [State.set, Proc.succeed], rfl⟩
      | getvalue =>
          simp only [operateStep, hget, Option.some.injEq] at h
          subst h
          exact ⟨rfl, by simp [State.set, Proc.succeed]⟩

omit [Fintype κ] in
theorem did_of_call {before : List (κ × Answer)}
    (hpc' : ((callStep sys s k r).proc k).pc = .exited .success) :
    Did sys k before s (callStep sys s k r) r := by
  cases r with
  | create name oflag value =>
      rw [callStep] at hpc' ⊢
      cases hopen : semOpen s.table name oflag value with
      | error e => simp [hopen, State.fail, State.set, Proc.fail] at hpc'
      | ok table => exact semOpen_ok hopen
  | use op name =>
      rw [callStep] at hpc'
      cases hlookup : s.table.lookup name with
      | none => simp [hlookup, State.fail, State.set, Proc.fail] at hpc'
      | some id => simp [hlookup, State.set, Proc.goto] at hpc'
  | unlink name =>
      rw [callStep] at hpc' ⊢
      cases hlookup : s.table.lookup name with
      | none => simp [hlookup, State.fail, State.set, Proc.fail] at hpc'
      | some id => exact ⟨⟨id, hlookup⟩, rfl⟩

omit [Fintype κ] in
/-- A process comes to a semaphore only by opening it. -/
theorem opens_step {l : κ × Answer} {id : Nat} {op : Op} {name : CStr}
    (hinv : ∀ j, ProcInv sys s.table.objects.length j (s.proc j)) (hvalid : Valid s.table)
    (hr : sys.request k = .ok (.use op name)) (h : step sys s l = some t)
    (hpc : (t.proc k).pc = .operate id) :
    (s.proc k).pc = .operate id ∨
      (l = (k, .ok) ∧ (s.proc k).pc = .call ∧ s.table.lookup name = some id) := by
  rcases l with ⟨j, a⟩
  by_cases hj : j = k
  · subst hj
    cases hnow : (s.proc j).pc with
    | start => cases a <;> simp [step, hr, hnow] at h; simp [← h, State.set, Proc.goto] at hpc
    | call =>
        cases a with
        | err e =>
            simp only [step, hr, hnow, Option.some.injEq] at h
            simp [← h, State.fail, State.set, Proc.fail] at hpc
        | ok =>
            simp only [step, hr, hnow, Option.some.injEq] at h
            subst h
            refine Or.inr ⟨rfl, rfl, ?_⟩
            rw [callStep] at hpc
            cases hlookup : s.table.lookup name with
            | none => simp [hlookup, State.fail, State.set, Proc.fail] at hpc
            | some id' => simpa [hlookup, State.set, Proc.goto] using hpc
    | operate id' =>
        rcases advances_step (hinv j) hvalid h with ⟨p, hproc, hwork, _, _⟩
        rw [hproc, Function.update_self] at hpc
        simp [hpc, hnow, Pc.work] at hwork
    | exited status => cases a <;> simp [step, hr, hnow] at h
  · rcases advances_step (hinv j) hvalid h with ⟨p, hproc, _, _, _⟩
    rw [hproc, Function.update_of_ne (Ne.symm hj)] at hpc
    exact Or.inl hpc

theorem opened_of_exec {before : List (κ × Answer)} {id : Nat} {op : Op} {name : CStr}
    (hr : sys.request k = .ok (.use op name)) (h : exec (step sys) start before = some s)
    (hpc : (s.proc k).pc = .operate id) : Opened sys k before id name :=
  occurs_of_latch (I := Inv sys) (L := fun v => (v.proc k).pc = .operate id)
    (fun _ ⟨_, _⟩ _ hs hstep => inv_step hs hstep)
    (fun _ _ _ hs hstep hat => opens_step hs.proc hs.valid hr hstep hat)
    (start_inv sys) (by simp [start]) h hpc

/-- A process that ends with success has done what it is for. -/
theorem did_of_step {before : List (κ × Answer)} (hs : Inv sys s)
    (hbefore : exec (step sys) start before = some s) (h : step sys s (k, a) = some t)
    (hpc' : (t.proc k).pc = .exited .success) :
    ∃ r, sys.request k = .ok r ∧ Did sys k before s t r := by
  have hinv := hs.proc k
  cases hnow : (s.proc k).pc with
  | start =>
      cases hr : sys.request k <;> cases a <;> simp [step, hr, hnow] at h
      · simp [← h, State.set, Proc.fail] at hpc'
      · simp [← h, State.set, Proc.goto] at hpc'
  | call =>
      simp only [ProcInv, hnow] at hinv
      rcases hinv with ⟨_, r, hr⟩
      cases a with
      | ok =>
          simp only [step, hr, hnow, Option.some.injEq] at h
          subst h
          exact ⟨r, hr, did_of_call hpc'⟩
      | err e =>
          simp only [step, hr, hnow, Option.some.injEq] at h
          simp [← h, State.fail, State.set, Proc.fail] at hpc'
  | operate id =>
      simp only [ProcInv, hnow] at hinv
      rcases hinv with ⟨_, _, op, name, hr⟩
      cases a with
      | ok =>
          simp only [step, hr, hnow] at h
          exact ⟨_, hr, did_of_operate (opened_of_exec hr hbefore hnow) hpc' h⟩
      | err e =>
          simp only [step, hr, hnow, Option.some.injEq] at h
          simp [← h, State.fail, State.set, Proc.fail] at hpc'
  | exited status => cases a <;> cases hr : sys.request k <;> simp [step, hr, hnow] at h

/-- A process that has ended stays as it is. -/
theorem exited_run {ls : List (κ × Answer)} {status : Exit} (hs : Inv sys s)
    (hpc : (s.proc k).pc = .exited status) (h : exec (step sys) s ls = some t) :
    t.proc k = s.proc k := by
  refine (Reachable.invariant (I := fun v => Inv sys v ∧ v.proc k = s.proc k) ?_ ⟨hs, rfl⟩
    ⟨ls, h⟩).2
  rintro v ⟨j, a⟩ w ⟨hv, hsame⟩ hstep
  refine ⟨inv_step hv hstep, ?_⟩
  rcases advances_step (hv.proc j) hv.valid hstep with ⟨p, hproc, hwork, _, _⟩
  have hj : k ≠ j := by
    rintro rfl
    simp [hsame, hpc, Pc.work] at hwork
  rw [hproc, Function.update_of_ne hj, hsame]

/-- The step with which a process has ended with success. -/
theorem exists_did {ls : List (κ × Answer)} (h : exec (step sys) start ls = some t)
    (hpc : (t.proc k).pc = .exited .success) :
    ∃ r before a after u u', sys.request k = .ok r ∧ ls = before ++ (k, a) :: after ∧
      exec (step sys) start before = some u ∧ step sys u (k, a) = some u' ∧
      Did sys k before u u' r ∧ t.proc k = u'.proc k := by
  have hocc : Occurs (step sys) (fun v l => l.1 = k ∧ (v.proc k).pc ≠ .exited .success ∧
      (step sys v l).any fun w => (w.proc k).pc = .exited .success) start ls := by
    refine occurs_of_latch (I := Inv sys) (L := fun v => (v.proc k).pc = .exited .success)
      (fun _ ⟨_, _⟩ _ hs hstep => inv_step hs hstep) ?_ (start_inv sys) (by simp [start]) h hpc
    rintro v ⟨j, a⟩ w hv hstep hw
    by_cases hnow : (v.proc k).pc = .exited .success
    · exact Or.inl hnow
    · refine Or.inr ⟨?_, hnow, by simp [hstep, hw]⟩
      by_contra hj
      rcases advances_step (hv.proc j) hv.valid hstep with ⟨p, hproc, _, _, _⟩
      rw [hproc, Function.update_of_ne (Ne.symm hj)] at hw
      exact hnow hw
  rcases hocc.split h with ⟨before, ⟨j, a⟩, after, u, u', hls, hbefore, ⟨rfl, _, hany⟩,
    hstep, hafter⟩
  have hu := inv_of_exec hbefore
  have hend : (u'.proc j).pc = .exited .success := by simpa [hstep] using hany
  rcases did_of_step hu hbefore hstep hend with ⟨r, hr, hdid⟩
  exact ⟨r, before, a, after, u, u', hr, hls, hbefore, hstep, hdid,
    exited_run (inv_step hu hstep) hend hafter⟩

/-- A step after which its process has not ended with success changes no semaphore. -/
theorem table_eq_of_step (hs : Inv sys s) (h : step sys s (k, a) = some t)
    (hpc : (t.proc k).pc ≠ .exited .success) : t.table = s.table := by
  rcases advances_step (hs.proc k) hs.valid h with ⟨p, hproc, _, _, hmoves⟩
  rw [hproc, Function.update_self] at hpc
  generalize t.table = table at hmoves
  cases hmoves with
  | stays => rfl
  | creates _ hexited | unlinks _ hexited | waits _ _ _ _ hexited | posts _ _ _ _ _ hexited =>
      exact absurd hexited hpc

/-- **Semaphores count.**  In every run each semaphore has the value it was made with,
one more for each process that has posted to it and one less for each that has got
through a wait.  A process that has ended with success has done what it is for with its
last step, and no other step changes a semaphore.  A run has at most three steps for each
process, and stands still only where all that have not ended wait for a semaphore whose
value is 0. -/
theorem value_accounts_for_posts_and_waits {ls : List (κ × Answer)}
    (h : exec (step sys) start ls = some t) :
    (∀ id sem, t.table.get id = some sem →
      sem.value + waits t id = sem.init + posts t id ∧ sem.value ≤ semValueMax) ∧
    (∀ k, (t.proc k).pc = .exited .success →
      ∃ r before a after u u', sys.request k = .ok r ∧ ls = before ++ (k, a) :: after ∧
        exec (step sys) start before = some u ∧ step sys u (k, a) = some u' ∧
        Did sys k before u u' r ∧ t.proc k = u'.proc k) ∧
    (∀ k a u, step sys t (k, a) = some u → (u.proc k).pc ≠ .exited .success →
      u.table = t.table) ∧
    ls.length ≤ 3 * Fintype.card κ ∧
    ((∀ k, step sys t (k, .ok) = none) ↔
      ∀ k, (∃ status, (t.proc k).pc = .exited status) ∨ Waits sys t k) := by
  have hinv := inv_of_exec h
  refine ⟨hinv.account, fun k hpc => exists_did h hpc,
    fun k a u hstep hpc => table_eq_of_step hinv hstep hpc, ?_,
    forall_congr' fun k => stuck_iff hinv⟩
  · have hlength := exec_length_add_le (μ := State.work)
      (fun _ ⟨_, _⟩ _ hs hstep => inv_step hs hstep)
      (fun _ ⟨_, _⟩ _ hs hstep => step_work hs hstep) (start_inv sys) h
    rw [work_start] at hlength
    omega

/-! ## Semaphores without a name -/

theorem posters_update (sys : System κ) {p : Proc} (hproc : t.proc = Function.update s.proc k p)
    (id : Nat) :
    posters sys t id + (if sys.program k = .use .post ∧ (s.proc k).pc = .operate id then 1 else 0) =
      posters sys s id + if sys.program k = .use .post ∧ p.pc = .operate id then 1 else 0 :=
  sum_indicator (fun j q => sys.program j = .use .post ∧ q.pc = .operate id) hproc

/-- What a nameless semaphore can still give: its value, and what the processes that have
opened it will post. -/
structure Left (sys : System κ) (id n : Nat) (s : State κ) : Prop where
  inv : Inv sys s
  nameless : Nameless s.table id
  le : ∀ sem, s.table.get id = some sem → sem.value + waits s id + posters sys s id ≤ n

omit [DecidableEq κ] [Fintype κ] in
theorem Moves.nameless {p : Proc} {table : Table CStr Sem} {id : Nat}
    (h : Moves sys s k p table) (hnameless : Nameless s.table id) : Nameless table id := by
  cases h with
  | stays => exact hnameless
  | creates => exact hnameless.create
  | unlinks => exact hnameless.unlink
  | waits | posts => exact hnameless.set

/-- Nobody comes to post to it any more. -/
theorem Moves.posters_le {p : Proc} {id : Nat} (hproc : t.proc = Function.update s.proc k p)
    (h : Moves sys s k p t.table) (hnameless : Nameless s.table id) :
    posters sys t id +
        (if sys.program k = .use .post ∧ (s.proc k).pc = .operate id then 1 else 0) =
      posters sys s id := by
  have hnew : p.pc ≠ .operate id := by
    intro hpc
    generalize t.table = table at h
    cases h with
    | stays _ hopened =>
        rcases hopened id hpc with ⟨name, hname⟩
        exact hnameless.lookup name hname
    | creates _ hexited | unlinks _ hexited => simp [hexited] at hpc
    | waits _ _ _ _ hexited | posts _ _ _ _ _ hexited => simp [hexited] at hpc
  have hupdate := posters_update sys hproc id
  have hnot : ¬ (sys.program k = .use .post ∧ p.pc = .operate id) := fun h => hnew h.2
  rwa [if_neg hnot, Nat.add_zero] at hupdate

omit [Fintype κ] in
theorem nameless_step {id : Nat} (hproc : ∀ k, ProcInv sys s.table.objects.length k (s.proc k))
    (hvalid : Valid s.table) (hnameless : Nameless s.table id)
    (h : step sys s (k, a) = some t) : Nameless t.table id := by
  rcases advances_step (hproc k) hvalid h with ⟨_, _, _, _, hmoves⟩
  exact hmoves.nameless hnameless

theorem left_step {id n : Nat} (hs : Left sys id n s) (h : step sys s (k, a) = some t) :
    Left sys id n t := by
  rcases advances_step (hs.inv.proc k) hs.inv.valid h with ⟨p, hproc, hwork, hp, hmoves⟩
  have hnone := (hs.inv.proc k).done_eq_none (Nat.zero_lt_of_lt hwork)
  have hposters := hmoves.posters_le hproc hs.nameless
  have hwaits := waits_update hproc hnone id
  refine ⟨inv_step hs.inv h, hmoves.nameless hs.nameless, ?_⟩
  intro sem hget
  generalize htable : t.table = table at hmoves hget
  cases hmoves with
  | stays hdone | unlinks hdone =>
      rw [hdone, if_neg (by simp)] at hwaits
      have hle := hs.le sem hget
      omega
  | creates hdone =>
      rw [hdone, if_neg (by simp)] at hwaits
      rw [get_create, if_neg (Nat.ne_of_lt hs.nameless.lt)] at hget
      have hle := hs.le sem hget
      omega
  | @waits id' sem' hget' hpos hprogram hdone hpc =>
      rw [hdone] at hwaits
      rw [get_set hget'] at hget
      by_cases hid : id = id'
      · subst hid
        rw [if_pos rfl, Option.some.injEq] at hget
        rw [if_pos rfl] at hwaits
        have hle := hs.le sem' hget'
        simp only [← hget]
        omega
      · rw [if_neg hid] at hget
        rw [if_neg (by simpa using fun heq => hid heq.symm)] at hwaits
        have hle := hs.le sem hget
        omega
  | @posts id' sem' hget' hne hprogram hold hdone hpc =>
      rw [hdone, if_neg (by simp)] at hwaits
      rw [get_set hget'] at hget
      by_cases hid : id = id'
      · subst hid
        rw [if_pos rfl, Option.some.injEq] at hget
        rw [if_pos ⟨hprogram, hold⟩] at hposters
        have hle := hs.le sem' hget'
        simp only [← hget]
        omega
      · rw [if_neg hid] at hget
        have hle := hs.le sem hget
        omega

theorem done_step (hs : Inv sys s) (h : step sys s (k, a) = some t) {j : κ} {d : Done}
    (hj : (s.proc j).done = some d) : (t.proc j).done = some d := by
  rcases advances_step (hs.proc k) hs.valid h with ⟨p, hproc, hwork, _, _⟩
  have hnone := (hs.proc k).done_eq_none (Nat.zero_lt_of_lt hwork)
  have hne : j ≠ k := by
    rintro rfl
    rw [hnone] at hj
    cases hj
  rw [hproc, Function.update_of_ne hne]
  exact hj

/-- What a process has done stays done. -/
theorem done_run {ls : List (κ × Answer)} (hs : Inv sys s) (h : exec (step sys) s ls = some t)
    {j : κ} {d : Done} (hj : (s.proc j).done = some d) : (t.proc j).done = some d :=
  (Reachable.invariant (I := fun u => Inv sys u ∧ (u.proc j).done = some d)
    (fun _ ⟨_, _⟩ _ hu hstep => ⟨inv_step hu.1 hstep, done_step hu.1 hstep hu.2⟩)
    ⟨hs, hj⟩ ⟨ls, h⟩).2

omit [Fintype κ] in
/-- A process removes the name of a semaphore. -/
theorem nameless_of_unlink {name : CStr} {id : Nat} (hs : Valid s.table)
    (hr : sys.request k = .ok (.unlink name)) (hpc : (s.proc k).pc = .call)
    (hname : s.table.lookup name = some id) (h : step sys s (k, .ok) = some t) :
    Nameless t.table id := by
  simp only [step, hr, hpc, callStep, hname, Option.some.injEq] at h
  subst h
  exact hs.nameless_unlink hname

/-- **Waiters on a removed semaphore.**  When the name of a semaphore has been removed,
then from any state `s` on no more processes get through a wait for it than its value and
the posters that have opened it allow, whatever is made under the same name.  So without
a value and such a poster, those that wait for it never get through. -/
theorem removed_semaphore {ls₀ ls ls' : List (κ × Answer)} {u u' : State κ} {name : CStr}
    {id : Nat} {sem : Sem} (h₀ : exec (step sys) start ls₀ = some u)
    (hr : sys.request k = .ok (.unlink name)) (hpc : (u.proc k).pc = .call)
    (hname : u.table.lookup name = some id) (hunlink : step sys u (k, .ok) = some u')
    (h : exec (step sys) u' ls = some s) (hget : s.table.get id = some sem)
    (h' : exec (step sys) s ls' = some t) :
    waits t id ≤ waits s id + sem.value + posters sys s id ∧
    (sem.value = 0 → posters sys s id = 0 →
      ∀ k, (s.proc k).done = none → (t.proc k).done ≠ some (.waited id)) := by
  have hinv₀ := inv_of_exec h₀
  have hinv' : Inv sys u' ∧ Nameless u'.table id :=
    ⟨inv_step hinv₀ hunlink, nameless_of_unlink hinv₀.valid hr hpc hname hunlink⟩
  rcases Reachable.invariant (I := fun v => Inv sys v ∧ Nameless v.table id)
    (fun _ ⟨_, _⟩ _ hs hstep =>
      ⟨inv_step hs.1 hstep, nameless_step hs.1.proc hs.1.valid hs.2 hstep⟩)
    hinv' ⟨ls, h⟩ with ⟨hinv, hnameless⟩
  have hleft : Left sys id (sem.value + waits s id + posters sys s id) s := by
    refine ⟨hinv, hnameless, fun sem' hget' => ?_⟩
    rw [hget, Option.some.injEq] at hget'
    rw [hget']
  have hend : Left sys id (sem.value + waits s id + posters sys s id) t :=
    Reachable.invariant (fun _ ⟨_, _⟩ _ hs hstep => left_step hs hstep) hleft ⟨ls', h'⟩
  rcases exists_get hend.nameless.lt with ⟨sem', hget'⟩
  have hle := hend.le sem' hget'
  refine ⟨by omega, ?_⟩
  intro hvalue hposters k hnone hwaited
  have hlt : waits s id < waits t id := by
    refine Finset.sum_lt_sum (fun j _ => ?_) ⟨k, Finset.mem_univ k, ?_⟩
    · by_cases hj : (s.proc j).done = some (.waited id)
      · rw [if_pos hj, if_pos (done_run hinv h' hj)]
      · rw [if_neg hj]
        exact Nat.zero_le _
    · rw [if_pos hwaited, if_neg (by simp [hnone])]
      exact Nat.zero_lt_one
  omega

end Runs

/-- A process makes a semaphore, one waits for it, a third removes its name; then the
fourth makes a semaphore of that name again, and the fifth posts to it. -/
inductive Peer where
  | maker
  | sleeper
  | remover
  | remaker
  | poster
  deriving DecidableEq

instance : Fintype Peer where
  elems := {.maker, .sleeper, .remover, .remaker, .poster}
  complete := by intro k; cases k <;> decide

def semName : CStr := ⟨ascii "/sem", by decide⟩

def peers : System Peer where
  program
    | .maker | .remaker => .create
    | .sleeper => .use .wait
    | .remover => .unlink
    | .poster => .use .post
  name := fun _ => ⟨ascii "psem", by decide⟩
  argv
    | .maker | .remaker => [⟨ascii "-cx", by decide⟩, semName]
    | .sleeper | .remover | .poster => [semName]
  getpid := fun _ => 4194304
  strerror := fun _ => ascii "Error"

/-- The semaphore is made, opened, and about to be removed. -/
def opening : List (Peer × Answer) :=
  [(.maker, .ok), (.maker, .ok), (.sleeper, .ok), (.sleeper, .ok), (.remover, .ok)]

/-- There is a semaphore again, and it is posted to. -/
def remaking : List (Peer × Answer) :=
  [(.remaker, .ok), (.remaker, .ok), (.poster, .ok), (.poster, .ok), (.poster, .ok)]

theorem value_accounts_remaking :
    ∃ t : State Peer, exec (step peers) start (opening ++ (.remover, .ok) :: remaking) = some t ∧
      Waits peers t .sleeper ∧ (∀ k, step peers t (k, .ok) = none) ∧
      ∀ id sem, t.table.get id = some sem → sem.value + waits t id = sem.init + posts t id := by
  rcases exists_exec (step peers) (fun t : State Peer =>
    (t.proc .sleeper).pc = .operate 0 ∧ t.table.get 0 = some ⟨0, 0⟩ ∧
      ∀ k, k ≠ .sleeper → (t.proc k).pc = .exited .success)
    start (opening ++ (.remover, .ok) :: remaking) (by decide) with ⟨t, ht, hpc, hget, hexited⟩
  have hrun := value_accounts_for_posts_and_waits ht
  have hwaits : Waits peers t .sleeper := ⟨0, _, hpc, rfl, hget, rfl⟩
  refine ⟨t, ht, hwaits, hrun.2.2.2.2.2 fun k => ?_, fun id sem hid => (hrun.1 id sem hid).1⟩
  by_cases hk : k = .sleeper
  · exact Or.inr (hk ▸ hwaits)
  · exact Or.inl ⟨_, hexited k hk⟩

/-- The post goes to the other semaphore, and the waiter does not get through. -/
theorem removed_semaphore_remaking :
    ∃ u s t : State Peer, exec (step peers) start opening = some u ∧
      step peers u (.remover, .ok) = some s ∧ exec (step peers) s remaking = some t ∧
      t.table.get 1 = some ⟨1, 0⟩ ∧ (t.proc .sleeper).done ≠ some (.waited 0) := by
  rcases exists_exec (step peers) (fun u : State Peer =>
    (u.proc .remover).pc = .call ∧ u.table.lookup semName = some 0 ∧
      (step peers u (.remover, .ok)).any (fun s =>
        s.table.get 0 = some ⟨0, 0⟩ ∧ posters peers s 0 = 0 ∧ (s.proc .sleeper).done = none ∧
          (exec (step peers) s remaking).any fun t => t.table.get 1 = some ⟨1, 0⟩))
    start opening (by decide) with ⟨u, hu, hpc, hname, hany⟩
  rw [Option.any_eq_true] at hany
  rcases hany with ⟨s, hstep, hs⟩
  simp only [Option.any_eq_true, decide_eq_true_eq] at hs
  rcases hs with ⟨hget, hposters, hdone, t, ht, hone⟩
  have hend := removed_semaphore hu (by decide) hpc hname hstep (exec_nil s) hget ht
  exact ⟨u, s, t, hu, hstep, ht, hone, hend.2 rfl hposters .sleeper hdone⟩

end Lpi.Ports.Psem
