import ShardRegistry.Executor.Basic

/-! One order in which the jobs of an executor go on. Jobs are taken from a queue; those that paused
come back to its end when a round is over, the last one first. -/
namespace ShardRegistry.Executor
variable {α : Type}

/-- The length of a round. -/
def roundLimit : Nat := 61

/-- Lets the first jobs of the queue go on, at most the given number of them. -/
def round : Nat → Executor α → Executor α
  | 0, x => x
  | n + 1, x => match x.queue with
    | [] => x
    | i :: queue => round n ({ x with queue }.poll i)

def resumePaused (x : Executor α) : Executor α :=
  { x with queue := x.queue ++ x.paused, paused := [] }

/-- Runs rounds until no job can go on. -/
def rounds : Nat → Executor α → Executor α
  | 0, x => x
  | n + 1, x => if x.queue.isEmpty then x else rounds n (round roundLimit x).resumePaused

/-- A job goes on at most once for each of its pauses and twice besides. -/
def steps (x : Executor α) : Nat := x.jobs.foldl (fun n s => n + s.job.pauses + 2) 0

/-- Runs all jobs to their ends. -/
def run (x : Executor α) : Executor α := rounds x.steps x

/-- The number of jobs that ended with a value or a failure. -/
def finished (x : Executor α) : Nat :=
  x.jobs.countP fun s => s.phase = .over && match s.job.ending with
    | .panics => false
    | _ => true

/-- Runs a batch on an executor of its own. -/
def execute (size : Nat) (jobs : List (Job α)) : Executor α :=
  let x : Executor α := { size }
  (x.submit jobs).run

end ShardRegistry.Executor
