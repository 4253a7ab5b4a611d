import ShardRegistry.Event
import ShardRegistry.Heartbeat
import ShardRegistry.Schema.Build

/-! The registry: the published snapshot, the flag of the circuit breaker, the results of the last
heartbeat, and the table of the locks under which batches are acquired. -/
namespace ShardRegistry

abbrev LockId := Nat

structure Registry where
  resources : Resources := { stamps := 3 }
  snapshot : Stamped Snapshot := ⟨0, ⟨.empty, ⟨1, {}⟩, ⟨2, {}⟩, none, 0⟩⟩
  circuitOpen : Bool := false
  heartbeats : List HeartbeatResult := []
  /-- The lock of each schema and backend that a batch was acquired from. -/
  lockTable : List ((String × String) × LockId) := []

namespace Registry

/-- A registry that serves nothing yet. -/
def empty : Registry := {}

def current (g : Registry) : Snapshot := g.snapshot.value

def generation (g : Registry) : Nat := g.current.generation

/-- The names of the published schemas, in ascending order. -/
def schemaNames (g : Registry) : List String := g.current.schemas.keys

def schemaExists (g : Registry) (name : String) : Bool :=
  name ≠ "" && g.current.schemas.contains name

def getSchema (g : Registry) (name : String) : Except Error (Stamped SchemaContext) :=
  match g.current.schema? name with
  | some c => .ok c
  | none => .error (.schemaNotFound name)

/-- The registry with other resources. -/
def owning (g : Registry) (resources : Resources) : Registry := { g with resources }

def withResources (g : Registry) (f : Resources → Resources) : Registry :=
  g.owning (f g.resources)

/-- Publishes a snapshot. -/
def publish (g : Registry) (s : Snapshot) : Registry :=
  let (resources, snapshot) := g.resources.stamped s
  { g with resources, snapshot }

/-! ### Locks -/

/-- The lock of a schema and backend, which is made at its first use. -/
def lockFor (g : Registry) (schema backend : String) : Registry × LockId :=
  match g.lockTable.lookup (schema, backend) with
  | some l => (g, l)
  | none =>
    let l := g.resources.locks.length
    ({ g with resources := { g.resources with locks := g.resources.locks ++ [{}] },
              lockTable := g.lockTable ++ [((schema, backend), l)] }, l)

/-- Takes the entry of a schema and backend out of the table if it still has that lock. -/
def dropLock (g : Registry) (schema backend : String) (l : LockId) : Registry :=
  { g with lockTable := g.lockTable.filter fun e => !(e.1 == (schema, backend) && e.2 == l) }

def pruneSchema (g : Registry) (schema : String) : Registry :=
  { g with lockTable := g.lockTable.filter fun e => e.1.1 ≠ schema }

def pruneBackends (g : Registry) (schema : String) (backends : List String) : Registry :=
  { g with lockTable := g.lockTable.filter fun e =>
      e.1.1 ≠ schema || !backends.contains e.1.2 }

def clearLocks (g : Registry) : Registry := { g with lockTable := [] }

/-! ### Resolution -/

/-- The context and the pool that a snapshot publishes for a schema and backend. -/
def resolve (s : Snapshot) (schema backend : String) : Except Error (SchemaContext × PoolId) :=
  match s.schema? schema with
  | none => .error (.schemaNotFound schema)
  | some c => match c.value.dataSources.find? backend with
    | none => .error (.dataSourceNotFound schema backend)
    | some d => .ok (c.value, d.pool)

/-- The manager of a kind of transactions in a schema's engine. -/
def managerOf? (g : Registry) (c : SchemaContext) (kind : TransactionKind) : Option ManagerId :=
  (g.resources.engines[c.engine]?).bind (·.manager? kind)

/-- The manager that the published schema uses for a kind of transactions. -/
def transactionManager (g : Registry) (schema : String) (kind : TransactionKind) :
    Except Error ManagerId := do
  let c ← g.getSchema schema
  match g.managerOf? c.value kind with
  | some m => return m
  | none => throw (.transaction s!"{kind.name} transactions need no manager")

/-- Opens a transaction on a schema. -/
def beginTransaction (g : Registry) (schema : String) (kind : TransactionKind) :
    Registry × Except Error TransactionId :=
  match g.transactionManager schema kind with
  | .error e => (g, .error e)
  | .ok m =>
    let (resources, t) := g.resources.beginTransaction m
    ({ g with resources }, t)

end Registry

end ShardRegistry
