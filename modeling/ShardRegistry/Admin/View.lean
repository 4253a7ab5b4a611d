import ShardRegistry.Schema.Context

/-! Schemas as clients of the admin interface see them: backends with their occupancy and without
passwords, the kinds of the rules, and the names of the tables. -/
namespace ShardRegistry

structure DataSourceView where
  name : String
  url : String
  username : String
  maxPoolSize : Nat
  minPoolSize : Nat
  readOnly : Bool
  status : PoolStatus
  isClosed : Bool
  deriving DecidableEq, Repr

structure SchemaDetail where
  name : String
  dialect : Dialect
  dataSources : List DataSourceView
  rules : List String
  tables : List String
  executorSize : Nat
  deriving DecidableEq, Repr

namespace DataSourceView

/-- The view of a data source; `live` counts the connections of a pool that are in use. -/
def ofDataSource (r : Resources) (live : PoolId → Nat) (driver : PoolDriver) (name : String)
    (d : DataSource) : Option DataSourceView :=
  (r.pools[d.pool]?).map fun p => {
    name, url := d.parameters.displayUrl, username := d.parameters.username,
    maxPoolSize := d.parameters.maxPoolSize, minPoolSize := d.parameters.minPoolSize,
    readOnly := d.parameters.readOnly, status := p.status (live d.pool) driver,
    isClosed := p.isClosed }

def toJson (v : DataSourceView) : Json :=
  .object [("name", .string v.name), ("url", .string v.url), ("username", .string v.username),
    ("maxPoolSize", .natural v.maxPoolSize), ("minPoolSize", .natural v.minPoolSize),
    ("readOnly", .bool v.readOnly), ("status", v.status.toJson), ("closed", .bool v.isClosed)]

end DataSourceView

namespace SchemaDetail

def ofContext (r : Resources) (live : PoolId → Nat) (c : SchemaContext)
    (driver : PoolDriver := .keeping 0) : SchemaDetail where
  name := c.name
  dialect := c.dialect
  dataSources := c.dataSources.entries.filterMap fun e =>
    DataSourceView.ofDataSource r live driver e.1 e.2
  rules := c.rules.map (·.rule.kind)
  tables := c.metaData.tables.tableNames
  executorSize := c.runtime.value.executorSize

def members (s : SchemaDetail) : List (String × Json) :=
  [("name", .string s.name), ("dialect", .string s.dialect.name),
    ("dataSources", .array (s.dataSources.map (·.toJson))), ("rules", .strings s.rules),
    ("tables", .strings s.tables), ("executorSize", .natural s.executorSize)]

end SchemaDetail

end ShardRegistry
