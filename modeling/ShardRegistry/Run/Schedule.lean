import ShardRegistry.Run.World

/-! The schedule of a run: a task runs until it waits or ends, and then the task that was granted
something longest ago goes on. A bound on the steps that are left makes every run finite. -/
namespace ShardRegistry

namespace SchemaConfiguration

/-- The loads that building the schema can take: one to begin and one for each backend. -/
def loads (c : SchemaConfiguration) : Nat := c.dataSources.size + 1

end SchemaConfiguration

def Change.loads : Change → Nat
  | .reset schemas _ _ _ => schemas.values.foldl (fun n c => n + c.loads) 0
  | .addSchema _ ps _ | .setDataSources _ ps => ps.size + 1
  | _ => 0

def Purpose.loads : Purpose → Nat
  | .reset _ _ _ rest _ => rest.foldl (fun n e => n + e.2.loads) 0
  | _ => 0

namespace TaskState

/-- How often a task can still go on. -/
def steps : TaskState → Nat
  | .lock _ _ a => 2 * a.count + 1
  | .acquiring _ (.pins _) a => 2 * (a.count - a.acquired.length)
  | .acquiring _ (.gate ..) a => 2 * (a.count - a.acquired.length)
  | .settling _ => 1
  | .turn change => change.loads + 1
  | .loading purpose pending none => purpose.loads + pending.dataSources.size + 1
  | .loading purpose _ (some q) => purpose.loads + q.rest.length + 1

end TaskState

namespace World

/-- Puts down what became of a task. -/
def settle (w : World) (t : TaskId) : Next → World
  | .waits s | .passes s => { w with tasks := w.tasks ++ [(t, s)] }
  | .ends o => { w with outcomes := w.outcomes ++ [(t, o)] }
  | .crashes => { w with crashed := true }

/-- Runs a task until it waits or ends. -/
def go (t : TaskId) : Nat → World × Next → World
  | fuel + 1, (w, .passes s) => go t fuel (w.advance t s)
  | _, (w, next) => w.settle t next

def Next.steps : Next → Nat
  | .passes s => s.steps
  | _ => 0

/-- Runs a task from a state that it need not wait in any more. -/
def run (t : TaskId) (begun : World × Next) : World := go t (Next.steps begun.2) begun

/-- Goes on with the task that was granted something first, if any was. -/
def resumeFirst (w : World) : Option World :=
  match w.resources.ready with
  | [] => none
  | t :: ready =>
    let w := w.owning { w.resources with ready }
    match w.tasks.lookup t with
    | none => some w
    | some s => some (run t ({ w with tasks := w.tasks.filter (·.1 ≠ t) }, .passes s))

/-- How many steps all tasks together can still make. -/
def steps (w : World) : Nat :=
  w.tasks.foldl (fun n e => n + e.2.steps + 1) w.resources.ready.length

def drainFor : Nat → World → World
  | 0, w => w
  | fuel + 1, w => match w.resumeFirst with
    | none => w
    | some w => drainFor fuel w

/-- Lets every task run until all of them wait. -/
def drain (w : World) : World := drainFor (2 * w.steps + 1) w

/-- Starts a task and lets everything run. -/
def start (w : World) (begin : World → TaskId → World × Next) : World × TaskId :=
  let t := w.started
  ((run t (begin { w with started := t + 1 } t)).drain, t)

/-! ### Results -/

/-- Takes the result of a task, if it has one. -/
def take (w : World) (t : TaskId) : World × Option Outcome :=
  ({ w with outcomes := w.outcomes.filter (·.1 ≠ t) }, w.outcomes.lookup t)

/-- Gives up what a task waits for and holds. -/
def withdraw (w : World) (t : TaskId) : TaskState → World
  | .lock _ l _ =>
    if w.holdsLock l t then w.releaseLock l else w.modifyLock l (·.leaveQueue t)
  | .acquiring held stage _ =>
    let r := match stage with
      | .pins transaction =>
        if w.resources.holdsPins transaction t then w.resources.releasePins transaction
        else w.resources.modifyPins transaction fun p => { p with mutex := p.mutex.leaveQueue t }
      | .gate p _ pins =>
        let r := w.resources.quitPool t p
        match pins with
        | some transaction => r.releasePins transaction
        | none => r
    (w.owning r).releaseHeld held
  | .settling transaction =>
    w.owning (if w.resources.holdsPins transaction t then w.resources.releasePins transaction
      else w.resources.modifyPins transaction fun p => { p with mutex := p.mutex.leaveQueue t })
  | .turn _ =>
    if w.writer.isHeldBy t then w.releaseWriter
    else { w with writer := w.writer.leaveQueue t }
  | .loading _ _ query =>
    (match query with
      | some q => w.owning (w.resources.quitPool t q.pool)
      | none => w).releaseWriter

/-- Ends a task that waits, as if it had never been started but for what it did so far. -/
def cancel (w : World) (t : TaskId) : World :=
  match w.tasks.lookup t with
  | none => w
  | some s => ({ w with tasks := w.tasks.filter (·.1 ≠ t) }.withdraw t s).drain

/-- Runs a task in the foreground: its result, or nothing if it would have had to wait. -/
def perform (w : World) (begin : World → TaskId → World × Next) : World × Option Outcome :=
  let (w, t) := w.start begin
  match w.take t with
  | (w, some o) => (w, some o)
  | (w, none) => (w.cancel t, none)

/-! ### Holds -/

/-- Keeps connections under a name, instead of those that were kept under it. -/
def hold (w : World) (name : String) (cs : List Connection) : World :=
  { w with holds := (name, cs) :: w.holds.filter (·.1 ≠ name) }

/-- Drops the connections kept under a name, and tells whether there was such a hold. -/
def release (w : World) (name : String) : World × Bool :=
  ({ w with holds := w.holds.filter (·.1 ≠ name) }, w.holds.any (·.1 = name))

/-! ### Gates -/

/-- Puts a gate without permits into a pool. -/
def addGate (w : World) (p : PoolId) : World :=
  w.owning (w.resources.modifyPool p fun x => { x with gate := some {} })

/-- Lets tasks through a gate: `n` of them, now or later. -/
def addPermits (w : World) (p : PoolId) (n : Nat) : World :=
  match (w.resources.pools[p]?).bind (·.gate) with
  | none => w
  | some gate =>
    let (woken, gate) := gate.add n
    (w.owning ((w.resources.modifyPool p fun x => { x with gate := some gate }).wake woken)).drain

/-- Takes the gate of a pool away; all tasks that wait there go on. -/
def removeGate (w : World) (p : PoolId) : World :=
  match (w.resources.pools[p]?).bind (·.gate) with
  | none => w
  | some gate =>
    (w.owning ((w.resources.modifyPool p fun x => { x with gate := none }).wake gate.waiting)).drain

/-- Marks the request of a number to be refused by a pool. -/
def refuse (w : World) (p : PoolId) (attempt : Nat) : World :=
  w.owning (w.resources.modifyPool p fun x => { x with refused := attempt :: x.refused })

end World

end ShardRegistry
