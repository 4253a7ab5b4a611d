import ShardRegistry.Pool.Server
import ShardRegistry.Registry.Basic

/-! Acquiring connections. A batch takes its connections one after the other and fails as a whole. A
task that acquires can wait at two places: for the pins of a transaction, and inside a pool. -/
namespace ShardRegistry

/-- How a batch of connections of one backend may be acquired. -/
inductive PoolingMode where
  /-- Independently of other batches. -/
  | strictPerConnection
  /-- One batch of a backend after the other. -/
  | sharedMemory
  deriving DecidableEq, Repr

namespace PoolingMode

def name : PoolingMode → String
  | .strictPerConnection => "STRICT_PER_CONNECTION"
  | .sharedMemory => "SHARED_MEMORY"

def all : List PoolingMode := [.strictPerConnection, .sharedMemory]

def decode : Json.Decoder PoolingMode := .choice (all.map fun m => (m.name, m))

end PoolingMode

/-- Where connections come from. -/
inductive Source where
  | pool (p : PoolId)
  /-- The pins of a transaction while it is open, and then the pool, if there is one. -/
  | transaction (m : ManagerId) (t : TransactionId) (otherwise : Option PoolId)
  deriving DecidableEq

structure Acquisition where
  backend : String
  /-- How many connections are asked for. -/
  count : Nat
  source : Source
  acquired : List Connection := []
  deriving DecidableEq

/-- Where a task waits, or might have waited, while it acquires. -/
inductive Stage where
  /-- For the pins of a transaction. -/
  | pins (t : TransactionId)
  /-- Inside a pool, with a request of that number, and with pins to add the connection to. -/
  | gate (p : PoolId) (attempt : Nat) (pins : Option TransactionId)
  deriving DecidableEq

inductive Progress where
  /-- The task waits. -/
  | waits (stage : Stage) (a : Acquisition)
  /-- The task need not wait. -/
  | passes (stage : Stage) (a : Acquisition)
  | done (outcome : Except Stop (List Connection))

/-- The least size of a batch that no memory holds. -/
def batchLimit : Nat := Nat.pow 2 59

namespace Resources

/-- Comes into a pool: the number of the request, and whether it need not wait. -/
def enterPool (r : Resources) (task : TaskId) (p : PoolId) : Resources × Nat × Bool :=
  match r.pools[p]? with
  | none => (r, 0, true)
  | some pool =>
    let entered := pool.enter
    match pool.gate with
    | none => (r.modifyPool p fun _ => entered, entered.attempts, true)
    | some gate =>
      let (gate, passes) := gate.request task
      (r.modifyPool p fun _ => { entered with gate := some gate }, entered.attempts, passes)

/-- Leaves a pool, with a new connection if nothing is in its way. -/
def leavePool (r : Resources) (server : Option Server) (p : PoolId) (attempt : Nat) :
    Resources × Except Error Connection :=
  match r.pools[p]? with
  | none => (r, .error (.internal "no such pool"))
  | some pool =>
    match pool.fault? attempt <|> server.bind fun s => s.connectFault? pool.name with
    | some e => (r.modifyPool p (·.leave), .error e)
    | none =>
      let number := pool.issued + 1
      (r.modifyPool p fun x => { x.leave with issued := number }, .ok ⟨p, number⟩)

/-- Leaves the queue of a pool without a connection. -/
def quitPool (r : Resources) (task : TaskId) (p : PoolId) : Resources :=
  r.modifyPool p fun x => { x.leave with gate := x.gate.map fun g => g.leaveQueue task }

end Resources

namespace Acquisition

/-- The failure of the whole batch: that of a single connection is its own. -/
def failure (a : Acquisition) (e : Error) : Progress :=
  .done (.error (.rejected (if a.count = 1 then e else .batch a.count a.acquired.length e)))

def askPool (a : Acquisition) (r : Resources) (task : TaskId) (p : PoolId)
    (pins : Option TransactionId) : Resources × Progress :=
  match r.enterPool task p with
  | (r, attempt, true) => (r, .passes (.gate p attempt pins) a)
  | (r, attempt, false) => (r, .waits (.gate p attempt pins) a)

/-- Asks for the next connection, or ends when there are enough. -/
def ask (a : Acquisition) (r : Resources) (task : TaskId) : Resources × Progress :=
  if a.acquired.length ≥ a.count then (r, .done (.ok a.acquired))
  else match a.source with
    | .pool p => a.askPool r task p none
    | .transaction m t otherwise =>
      if r.isActive m t then
        let r := r.requestPins t task
        (r, if r.holdsPins t task then .passes (.pins t) a else .waits (.pins t) a)
      else match otherwise, r.managers[m]? with
        | some p, _ => a.askPool r task p none
        | none, some manager => (r, a.failure (manager.notActive t))
        | none, none => (r, a.failure (.internal "no such manager"))

/-- Begins a batch. -/
def start (a : Acquisition) (r : Resources) (task : TaskId) : Resources × Progress :=
  if a.count > 1 && a.count ≥ batchLimit then (r, .done (.error .crashed)) else a.ask r task

/-- Adds a connection to the batch and goes on. -/
def obtain (a : Acquisition) (r : Resources) (task : TaskId) (c : Connection) :
    Resources × Progress :=
  { a with acquired := a.acquired ++ [c] }.ask r task

/-- Goes on with the lock on the pins of a transaction: the connection pinned for the backend, or a
new one from the pool of the manager. -/
def afterPins (a : Acquisition) (r : Resources) (task : TaskId) (t : TransactionId) :
    Resources × Progress :=
  match r.pinned? t a.backend with
  | some c => a.obtain (r.releasePins t) task c
  | none =>
    let pool := match a.source with
      | .transaction m _ _ => (r.managers[m]?).bind fun x => x.pools.find? a.backend
      | .pool _ => none
    match pool with
    | none => (r.releasePins t, a.failure (Manager.notPart a.backend))
    | some p => a.askPool r task p (some t)

/-- Goes on at the end of the stay in a pool. -/
def afterGate (a : Acquisition) (r : Resources) (server : Option Server) (task : TaskId)
    (p : PoolId) (attempt : Nat) (pins : Option TransactionId) : Resources × Progress :=
  match r.leavePool server p attempt with
  | (r, .error e) =>
    (match pins with | some t => r.releasePins t | none => r, a.failure e)
  | (r, .ok c) =>
    let r := match pins with
      | some t => (r.pin t a.backend c).releasePins t
      | none => r
    a.obtain r task c

def resume (a : Acquisition) (r : Resources) (server : Option Server) (task : TaskId) :
    Stage → Resources × Progress
  | .pins t => a.afterPins r task t
  | .gate p attempt pins => a.afterGate r server task p attempt pins

end Acquisition

/-- A request for connections of a published backend. -/
structure AcquireRequest where
  schema : String
  backend : String
  count : Nat := 1
  mode : PoolingMode := .strictPerConnection
  kind : TransactionKind := .local
  transaction : Option TransactionId := none
  deriving DecidableEq

/-- What a request comes to against a snapshot: the pool and manager it will use are fixed here. -/
def Registry.admit (g : Registry) (q : AcquireRequest) : Except Error Acquisition := do
  let (context, pool) ← Registry.resolve g.current q.schema q.backend
  let source := match q.transaction, g.managerOf? context q.kind with
    | some t, some m => Source.transaction m t (some pool)
    | _, _ => .pool pool
  return { backend := q.backend, count := q.count, source }

end ShardRegistry
