import ShardRegistry.Authentication
import ShardRegistry.MetaData.Decoration
import ShardRegistry.Property
import ShardRegistry.Resources

/-! Schemas as a registry publishes them, and the snapshots they are published in. Every change makes
a new snapshot, which shares with the one before it all that did not change. -/
namespace ShardRegistry

/-- A rule and the number of its set of disabled replicas. -/
structure BuiltRule where
  rule : Rule
  status : Nat
  deriving DecidableEq

/-- What a schema is configured with: rules, data sources and metadata. -/
structure LogicSchema where
  dialect : Dialect
  configurations : List RuleConfiguration
  rules : List BuiltRule
  dataSources : Stamped DataSourceMap
  metaData : Stamped MetaData

/-- What a schema needs besides, when it is queried. -/
structure Runtime where
  cached : Option (Stamped CachedBackend)
  executorSize : Nat
  parser : Stamped Dialect
  engine : EngineId

structure SchemaContext where
  name : String
  schema : Stamped LogicSchema
  runtime : Stamped Runtime

namespace SchemaContext

def dataSources (c : SchemaContext) : DataSourceMap := c.schema.value.dataSources.value

def dialect (c : SchemaContext) : Dialect := c.schema.value.dialect

def metaData (c : SchemaContext) : MetaData := c.schema.value.metaData.value

def rules (c : SchemaContext) : List BuiltRule := c.schema.value.rules

def configurations (c : SchemaContext) : List RuleConfiguration := c.schema.value.configurations

def engine (c : SchemaContext) : EngineId := c.runtime.value.engine

/-- Closes the pools and the transaction engine of a schema. -/
def close (c : SchemaContext) (r : Resources) : Resources :=
  (r.closeDataSources c.dataSources).closeEngineQuietly c.engine

end SchemaContext

structure Snapshot where
  schemas : SortedMap (Stamped SchemaContext)
  properties : Stamped Properties
  authentication : Stamped Authentication
  /-- The dialect of every schema, from the first one on. -/
  dialect : Option Dialect
  generation : Nat

namespace Snapshot

def schema? (s : Snapshot) (name : String) : Option (Stamped SchemaContext) := s.schemas.find? name

def contexts (s : Snapshot) : List SchemaContext := s.schemas.values.map (·.value)

/-- The next generation with other schemas. -/
def successor (s : Snapshot) (schemas : SortedMap (Stamped SchemaContext)) : Snapshot :=
  { s with schemas, generation := s.generation + 1 }

/-- The next generation with one schema new or replaced; it gives its dialect to a snapshot without
one. -/
def withSchema (s : Snapshot) (c : Stamped SchemaContext) : Snapshot :=
  { s.successor (s.schemas.insert c.value.name c) with
    dialect := some (s.dialect.getD c.value.dialect) }

def withoutSchema (s : Snapshot) (name : String) : Snapshot := s.successor (s.schemas.erase name)

/-- The next generation with several schemas replaced. -/
def withSchemas (s : Snapshot) (cs : List (Stamped SchemaContext)) : Snapshot :=
  s.successor (cs.foldl (fun m c => m.insert c.value.name c) s.schemas)

end Snapshot

end ShardRegistry
