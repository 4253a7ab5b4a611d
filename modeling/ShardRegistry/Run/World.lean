import ShardRegistry.Registry.Acquisition
import ShardRegistry.Registry.Change

/-! Runs of a registry with many tasks. A task runs until it has to wait; what it waits for is granted
in the order of the requests. A world is a registry together with its tasks, the results that nobody
took yet, and the connections that callers hold. -/
namespace ShardRegistry

/-- Where the tables of a schema come from. -/
inductive TableSource where
  /-- They are known. -/
  | answering (answer : Dialect → DataSourceMap → Except Error (SortedMap Tables))
  /-- Every PostgreSQL backend is asked over a connection of its pool. -/
  | querying

/-- Questions to the backends of a schema: the one at hand and those that follow. -/
structure Query where
  backend : String
  pool : PoolId
  attempt : Nat
  rest : List (String × DataSource)
  loaded : SortedMap Tables

/-- What a task waits for, or was just granted. -/
inductive TaskState where
  /-- The lock of a backend, before a batch is acquired. -/
  | lock (q : AcquireRequest) (l : LockId) (a : Acquisition)
  /-- A place inside an acquisition, with the lock of the backend if it was taken. -/
  | acquiring (held : Option LockId) (stage : Stage) (a : Acquisition)
  /-- The pins of a transaction that ends. -/
  | settling (t : TransactionId)
  /-- Its turn to change the registry. -/
  | turn (change : Change)
  /-- The tables of a schema, at once or, with a query, from the pool of a backend. -/
  | loading (purpose : Purpose) (pending : PendingSchema) (query : Option Query)

/-- What comes of a task. -/
inductive Outcome where
  | connections (cs : List Connection)
  | settled
  | generation (n : Nat)
  | failed (e : Error)

inductive Next where
  | waits (s : TaskState)
  | passes (s : TaskState)
  | ends (o : Outcome)
  | crashes

structure World where
  registry : Registry := .empty
  factory : Factory := .immediate [] []
  tables : TableSource := .answering fun _ _ => .ok .empty
  server : Option Server := none
  driver : PoolDriver := .keeping 0
  /-- The lock under which the registry is changed. -/
  writer : Mutex := {}
  tasks : List (TaskId × TaskState) := []
  /-- Results that were not taken yet. -/
  outcomes : List (TaskId × Outcome) := []
  /-- The connections that callers hold, by the name of the hold. -/
  holds : List (String × List Connection) := []
  started : Nat := 0
  crashed : Bool := false

namespace World

def resources (w : World) : Resources := w.registry.resources

def owning (w : World) (r : Resources) : World := { w with registry := w.registry.owning r }

/-! ### Connections in use -/

def Outcome.connections : Outcome → List Connection
  | .connections cs => cs
  | _ => []

/-- The connections that a task has acquired so far. -/
def acquiredBy : TaskState → List Connection
  | .lock _ _ a | .acquiring _ _ a => a.acquired
  | _ => []

/-- The transaction whose pins a task waits for or holds. -/
def pinsOf : TaskState → Option TransactionId
  | .acquiring _ (.pins t) _ => some t
  | .acquiring _ (.gate _ _ pins) _ => pins
  | .settling t => some t
  | _ => none

/-- The transactions whose pins somebody can still reach: open ones and those a task deals with. -/
def reachable (w : World) : List TransactionId :=
  w.resources.managers.flatMap (·.active) ++ w.tasks.filterMap fun e => pinsOf e.2

def pinnedTo (w : World) (t : TransactionId) : List Connection :=
  ((w.resources.pins[t.serial]?).map fun p => p.connections.map (·.2)).getD []

/-- The connections that have not been dropped. -/
def connections (w : World) : List Connection :=
  (w.holds.flatMap (·.2) ++ w.outcomes.flatMap (fun e => Outcome.connections e.2) ++
    w.tasks.flatMap (fun e => acquiredBy e.2) ++ w.reachable.flatMap w.pinnedTo).eraseDups

/-- How many connections of a pool are in use. -/
def live (w : World) (p : PoolId) : Nat := (w.connections.filter (·.pool = p)).length

def environment (w : World) : Environment := ⟨w.factory, w.live, w.driver⟩

/-! ### Locks -/

def releaseWriter (w : World) : World :=
  let writer := w.writer.release
  { w with writer }.owning (w.resources.wake writer.holder.toList)

def modifyLock (w : World) (l : LockId) (f : Mutex → Mutex) : World :=
  w.owning { w.resources with locks := w.resources.locks.modify l f }

def holdsLock (w : World) (l : LockId) (t : TaskId) : Bool :=
  ((w.resources.locks[l]?).map (·.isHeldBy t)).getD false

def releaseLock (w : World) (l : LockId) : World :=
  match w.resources.locks[l]? with
  | none => w
  | some m =>
    let w := w.modifyLock l (·.release)
    w.owning (w.resources.wake m.release.holder.toList)

def releaseHeld (w : World) (held : Option LockId) : World :=
  match held with
  | some l => w.releaseLock l
  | none => w

/-! ### Acquisitions -/

/-- The world and the state of a task after a part of an acquisition. -/
def acquired (w : World) (held : Option LockId) : Resources × Progress → World × Next
  | (r, .waits stage a) => (w.owning r, .waits (.acquiring held stage a))
  | (r, .passes stage a) => (w.owning r, .passes (.acquiring held stage a))
  | (r, .done (.ok cs)) => ((w.owning r).releaseHeld held, .ends (.connections cs))
  | (r, .done (.error (.rejected e))) => ((w.owning r).releaseHeld held, .ends (.failed e))
  | (r, .done (.error .crashed)) => (w.owning r, .crashes)

/-- Begins a request for connections. An empty one asks for nothing. -/
def beginAcquire (w : World) (t : TaskId) (q : AcquireRequest) : World × Next :=
  match w.registry.admit q with
  | .error e => (w, .ends (.failed e))
  | .ok a =>
    if q.count = 0 then (w, .ends (.connections []))
    else match q.mode with
      | .strictPerConnection => w.acquired none (a.start w.resources t)
      | .sharedMemory =>
        let (g, l) := w.registry.lockFor q.schema q.backend
        let w := { w with registry := g }.modifyLock l (·.request t)
        (w, if w.holdsLock l t then .passes (.lock q l a) else .waits (.lock q l a))

/-- Goes on with the lock of a backend, if the backend is still published. -/
def afterLock (w : World) (t : TaskId) (q : AcquireRequest) (l : LockId) (a : Acquisition) :
    World × Next :=
  match Registry.resolve w.registry.current q.schema q.backend with
  | .error e =>
    ({ w with registry := w.registry.dropLock q.schema q.backend l }.releaseLock l,
      .ends (.failed e))
  | .ok _ => w.acquired (some l) (a.start w.resources t)

/-- Begins to take the connection that a transaction uses for a backend. -/
def beginPinned (w : World) (t : TaskId) (m : ManagerId) (transaction : TransactionId)
    (backend : String) : World × Next :=
  let a : Acquisition := { backend, count := 1, source := .transaction m transaction none }
  w.acquired none (a.start w.resources t)

/-! ### The end of transactions -/

/-- Drops the pins of a transaction that ends. -/
def afterSettling (w : World) (transaction : TransactionId) : World × Next :=
  (w.owning ((w.resources.clearPins transaction).releasePins transaction), .ends .settled)

/-- Begins to end a transaction: nobody finds it any more, and its pins are dropped when no other
task holds them. -/
def beginSettle (w : World) (t : TaskId) (m : ManagerId) (transaction : TransactionId) :
    World × Next :=
  match w.resources.dropTransaction m transaction with
  | .error e => (w, .ends (.failed e))
  | .ok r =>
    let r := r.requestPins transaction t
    (w.owning r, if r.holdsPins transaction t then .passes (.settling transaction)
      else .waits (.settling transaction))

/-! ### Changes -/

/-- Queues a change for its turn. -/
def beginChange (w : World) (t : TaskId) (change : Change) : World × Next :=
  let w := { w with writer := w.writer.request t }
  (w, if w.writer.isHeldBy t then .passes (.turn change) else .waits (.turn change))

def beginEvent (w : World) (t : TaskId) (event : Event) : World × Next :=
  match Change.ofEvent event with
  | .error e => (w, .ends (.failed e))
  | .ok change => w.beginChange t change

/-- The world and the state of a task after a part of a change. -/
def changed (w : World) : Registry × Step → World × Next
  | (g, .done (.ok n)) => ({ w with registry := g }.releaseWriter, .ends (.generation n))
  | (g, .done (.error (.rejected e))) => ({ w with registry := g }.releaseWriter, .ends (.failed e))
  | (g, .done (.error .crashed)) => ({ w with registry := g }, .crashes)
  | (g, .load purpose pending) =>
    ({ w with registry := g }, .passes (.loading purpose pending none))

def loaded (w : World) (purpose : Purpose) (pending : PendingSchema)
    (tables : Except Error (SortedMap Tables)) : World × Next :=
  w.changed (w.registry.resume w.environment purpose pending tables)

/-- Asks the next backend for its tables. -/
def askBackend (w : World) (t : TaskId) (purpose : Purpose) (pending : PendingSchema)
    (loaded : SortedMap Tables) : List (String × DataSource) → World × Next
  | [] => w.loaded purpose pending (.ok loaded)
  | (backend, d) :: rest =>
    let (r, attempt, passes) := w.resources.enterPool t d.pool
    let query : Query := ⟨backend, d.pool, attempt, rest, loaded⟩
    let state := TaskState.loading purpose pending (some query)
    (w.owning r, if passes then .passes state else .waits state)

/-- Goes on with a connection to the backend that is asked for its tables. -/
def afterQuery (w : World) (t : TaskId) (purpose : Purpose) (pending : PendingSchema) (q : Query) :
    World × Next :=
  let (r, connection) := w.resources.leavePool w.server q.pool q.attempt
  let w := w.owning r
  match connection >>= fun _ => queryTables w.server q.backend with
  | .error e => w.loaded purpose pending (.error (.build q.backend e))
  | .ok tables => w.askBackend t purpose pending (q.loaded.insert q.backend tables) q.rest

/-- Begins to load the tables of a schema. -/
def load (w : World) (t : TaskId) (purpose : Purpose) (pending : PendingSchema) : World × Next :=
  match w.tables with
  | .answering answer =>
    w.loaded purpose pending (answer pending.dialect pending.dataSources)
  | .querying =>
    if pending.dialect = .postgreSQL then
      w.askBackend t purpose pending .empty pending.dataSources.entries
    else w.loaded purpose pending (.ok .empty)

/-! ### Tasks -/

/-- Runs a task from what it was granted to the next place where it might wait. -/
def advance (w : World) (t : TaskId) : TaskState → World × Next
  | .lock q l a => w.afterLock t q l a
  | .acquiring held stage a => w.acquired held (a.resume w.resources w.server t stage)
  | .settling transaction => w.afterSettling transaction
  | .turn change => w.changed (w.registry.begin w.environment change)
  | .loading purpose pending none => w.load t purpose pending
  | .loading purpose pending (some q) => w.afterQuery t purpose pending q

end World

end ShardRegistry
