import ShardRegistry.Schema.Context

/-! Heartbeats: the occupancy of every published pool, by schema and then by backend. -/
namespace ShardRegistry

structure HeartbeatResult where
  schema : String
  dataSource : String
  status : PoolStatus
  isClosed : Bool
  deriving DecidableEq, Repr

namespace HeartbeatResult

/-- The result of one data source; `live` counts the connections of a pool that are in use. -/
def ofDataSource (r : Resources) (live : PoolId → Nat) (driver : PoolDriver) (schema name : String)
    (d : DataSource) : Option HeartbeatResult :=
  (r.pools[d.pool]?).map fun p => ⟨schema, name, p.status (live d.pool) driver, p.isClosed⟩

/-- Results stand in the order of their schemas, and those of one schema in the order of their backends. -/
def notAfter (h h' : HeartbeatResult) : Bool :=
  h.schema < h'.schema || (h.schema = h'.schema && !(h'.dataSource < h.dataSource))

/-- The results of all schemas of a snapshot, in order. -/
def ofSnapshot (r : Resources) (live : PoolId → Nat) (driver : PoolDriver) (s : Snapshot) :
    List HeartbeatResult :=
  (s.contexts.flatMap fun c => c.dataSources.entries.filterMap fun e =>
    ofDataSource r live driver c.name e.1 e.2).mergeSort notAfter

def members (h : HeartbeatResult) : List (String × Json) :=
  [("schema", .string h.schema), ("dataSource", .string h.dataSource),
    ("status", h.status.toJson), ("closed", .bool h.isClosed)]

end HeartbeatResult

end ShardRegistry
