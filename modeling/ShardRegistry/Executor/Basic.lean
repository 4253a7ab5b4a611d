import ShardRegistry.Error

/-! Executors: they run jobs, at most a fixed number of them at once. A job needs a permit while it
runs; permits are granted in the order in which jobs asked for them, and a job that ends gives its
permit back, however it ends. -/
namespace ShardRegistry

/-- How a job ends. -/
inductive Ending (α : Type) where
  | value (x : α)
  | fails (e : Error)
  | panics

/-- A job: how often it pauses, and how it ends. -/
structure Job (α : Type) where
  pauses : Nat := 0
  ending : Ending α

inductive Phase where
  /-- The job has not asked for a permit yet. -/
  | submitted
  /-- The job waits for a permit. -/
  | queued
  /-- The job has a permit and has not gone on since. -/
  | granted
  /-- The job runs, with that many pauses left. -/
  | running (pauses : Nat)
  | over
  deriving DecidableEq, Repr

structure JobState (α : Type) where
  job : Job α
  phase : Phase := .submitted

/-- Why a batch of jobs has no result. -/
inductive BatchFault where
  | failed (e : Error)
  | panicked

/-- What is said of a job that panicked. The number of its task and the message of the panic, which would
follow after a colon, are left out. -/
def BatchFault.panicReason : String := "Executor task failed"

def BatchFault.error : BatchFault → Error
  | .failed e => e
  | .panicked => .internal panicReason

structure Executor (α : Type) where
  /-- The number of jobs that run at once; 0 is no limit. -/
  size : Nat
  /-- The permits that no job has. -/
  free : Nat := size
  /-- The jobs that wait for a permit, the next one first. -/
  waiting : List Nat := []
  /-- All jobs, by number. -/
  jobs : List (JobState α) := []
  /-- The jobs that are over, in the order in which they ended. -/
  ended : List Nat := []
  /-- The jobs that can go on, the next one first. -/
  queue : List Nat := []
  /-- The jobs that paused, the last one first. -/
  paused : List Nat := []
  /-- The greatest number of jobs that ran at once. -/
  peak : Nat := 0

namespace Executor
variable {α : Type}

/-- The greatest size of an executor. -/
def limit : Nat := Nat.pow 2 61 - 1

/-- A new executor of a size, which has no jobs. There is none above the limit. -/
def ofSize? (α : Type) (size : Nat) : Option (Executor α) :=
  if size > limit then none else some { size }

theorem ofSize?_eq_some_iff {size : Nat} {x : Executor α} :
    ofSize? α size = some x ↔ size ≤ limit ∧ x = { size } := by
  by_cases h : size ≤ limit
  · simp [ofSize?, h, Nat.not_lt.2 h, eq_comm]
  · simp [ofSize?, h, Nat.lt_of_not_le h]

@[simp] theorem isNone_ofSize? (size : Nat) : (ofSize? α size).isNone = decide (size > limit) := by
  simp only [ofSize?]
  split <;> simp [*]

def isRunning (s : JobState α) : Bool :=
  match s.phase with
  | .running _ => true
  | _ => false

/-- The number of jobs that run. -/
def running (x : Executor α) : Nat := x.jobs.countP isRunning

def setPhase (x : Executor α) (i : Nat) (phase : Phase) : Executor α :=
  { x with jobs := x.jobs.modify i fun s => { s with phase } }

/-- Adds a batch of jobs, which are numbered on from the last one. -/
def submit (x : Executor α) (jobs : List (Job α)) : Executor α :=
  { x with jobs := x.jobs ++ jobs.map fun job => { job },
           queue := x.queue ++ List.range' x.jobs.length jobs.length }

/-- Gives a permit back: the first job that waits gets it. -/
def release (x : Executor α) : Executor α :=
  if x.size = 0 then x
  else match x.waiting with
  | [] => { x with free := x.free + 1 }
  | i :: waiting => { x with waiting, queue := x.queue ++ [i] }.setPhase i .granted

/-- Ends a job. -/
def finish (x : Executor α) (i : Nat) : Executor α :=
  { x with ended := x.ended ++ [i] }.setPhase i .over |>.release

/-- Runs a job to its next pause, or to its end if it has none left. -/
def goOn (x : Executor α) (i : Nat) : Nat → Executor α
  | 0 => x.finish i
  | left + 1 => { x with paused := i :: x.paused }.setPhase i (.running left)

/-- Begins a job that has a permit. -/
def enter (x : Executor α) (i : Nat) (job : Job α) : Executor α :=
  let x := x.setPhase i (.running job.pauses)
  { x with peak := max x.peak x.running }.goOn i job.pauses

/-- Lets a job ask for a permit, and begin if there is one. -/
def ask (x : Executor α) (i : Nat) (job : Job α) : Executor α :=
  if x.size = 0 then x.enter i job
  else match x.free with
    | free + 1 => { x with free }.enter i job
    | 0 => { x with waiting := x.waiting ++ [i] }.setPhase i .queued

/-- Lets a job go on as far as it can without a pause. -/
def poll (x : Executor α) (i : Nat) : Executor α :=
  match x.jobs[i]? with
  | none => x
  | some s => match s.phase with
    | .submitted => x.ask i s.job
    | .granted => x.enter i s.job
    | .running left => x.goOn i left
    | .queued | .over => x

/-! ### Results -/

/-- The fault of a job that ended without a value. -/
def fault? (s : JobState α) : Option BatchFault :=
  match s.job.ending with
  | .value _ => none
  | .fails e => some (.failed e)
  | .panics => some .panicked

def value? (s : JobState α) : Option α :=
  match s.job.ending with
  | .value v => some v
  | _ => none

/-- The result of the batch of `count` jobs from number `first` on, once all of them are over: their
values in the order of their numbers, or the fault of the one that ended first among those without a
value. -/
def result? (x : Executor α) (first count : Nat) : Option (Except BatchFault (List α)) :=
  let ended := x.ended.filter fun i => first ≤ i && i < first + count
  if ended.length < count then none
  else match ended.findSome? fun i => (x.jobs[i]?).bind fault? with
    | some f => some (.error f)
    | none => some (.ok (((x.jobs.drop first).take count).filterMap value?))

end Executor

end ShardRegistry
