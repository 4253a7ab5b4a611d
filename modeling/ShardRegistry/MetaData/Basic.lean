import ShardRegistry.Connection.Endpoint
import ShardRegistry.MetaData.Table

/-! Metadata of a schema: where its backends live and what tables it has, and the facts about its
first backend that are kept at hand. -/
namespace ShardRegistry

structure BackendLocation where
  host : String
  port : Nat
  catalog : String
  deriving DecidableEq, Repr

def BackendLocation.toJson (l : BackendLocation) : Json :=
  .object [("host", .string l.host), ("port", .natural l.port), ("catalog", .string l.catalog)]

/-- Parameters of backends by name, in the order of the configuration. -/
abbrev ParameterMap := OrderedMap ConnectionParameters

def ParameterMap.decode : Json.Decoder ParameterMap := .orderedMap ConnectionParameters.decode

def ParameterMap.toJson (m : ParameterMap) : Json :=
  .object (m.entries.map fun e => (e.1, e.2.toJson))

structure MetaData where
  locations : SortedMap BackendLocation
  tables : SchemaTables
  deriving DecidableEq, Inhabited

namespace MetaData

/-- The locations of the backends whose parameters resolve to an endpoint. -/
def locationsOf (ps : ParameterMap) : SortedMap BackendLocation :=
  .ofList (ps.entries.filterMap fun e => match e.2.endpoint with
    | .ok x => some (e.1, ⟨x.host, x.port, x.database⟩)
    | .error _ => none)

def ofParameters (ps : ParameterMap) (tables : SchemaTables) : MetaData :=
  ⟨locationsOf ps, tables⟩

/-- The same locations with other tables. -/
def withTables (m : MetaData) (tables : SchemaTables) : MetaData := { m with tables }

def toJson (m : MetaData) : Json :=
  .object [("dataSources", .object (m.locations.entries.map fun e => (e.1, e.2.toJson))),
    ("schema", m.tables.toJson)]

end MetaData

/-- Facts about the first backend of a schema. The URL shows no password. -/
structure CachedBackend where
  dialect : Dialect
  url : String
  userName : String
  readOnly : Bool
  maxPoolSize : Nat
  deriving DecidableEq, Repr

namespace CachedBackend

def ofParameters (dialect : Dialect) (ps : ParameterMap) : Option CachedBackend :=
  ps.values.head?.map fun p => ⟨dialect, p.displayUrl, p.username, p.readOnly, p.maxPoolSize⟩

def toJson (c : CachedBackend) : Json :=
  .object [("databaseType", .string c.dialect.name), ("url", .string c.url),
    ("userName", .string c.userName), ("readOnly", .bool c.readOnly),
    ("maxPoolSize", .natural c.maxPoolSize)]

end CachedBackend

end ShardRegistry
