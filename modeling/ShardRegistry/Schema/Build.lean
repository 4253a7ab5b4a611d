import ShardRegistry.Executor.Basic
import ShardRegistry.Schema.Context

/-! Building schemas in two parts. Before the tables are loaded the rules are made; after that they
are applied to the tables, and the runtime is started last. -/
namespace ShardRegistry

/-- Why work on a schema ends early. -/
inductive Stop where
  | rejected (e : Error)
  /-- The size of an executor is beyond what can be served, which ends the whole process. -/
  | crashed
  deriving DecidableEq

/-- A schema whose tables are not loaded yet. -/
structure PendingSchema where
  name : String
  dataSources : DataSourceMap
  dialect : Dialect
  configurations : List RuleConfiguration
  rules : List Rule
  properties : Properties

namespace PendingSchema

def start (name : String) (dataSources : DataSourceMap) (dialect : Dialect)
    (configurations : List RuleConfiguration) (properties : Properties) :
    Except Error PendingSchema :=
  match Rule.build dataSources.keys configurations with
  | .ok rules => .ok { name, dataSources, dialect, configurations, rules, properties }
  | .error f => .error f.error

end PendingSchema

namespace Resources

/-- Gives every rule a set of disabled replicas of its own. -/
def instantiate (r : Resources) : List Rule → Resources × List BuiltRule
  | [] => (r, [])
  | rule :: rest =>
    let (r, status) := r.addDisabled
    let (r, built) := instantiate r rest
    (r, ⟨rule, status⟩ :: built)

/-- The runtime of a schema, unless its executor would be too large. -/
def startRuntime (r : Resources) (dialect : Dialect) (dataSources : DataSourceMap) (size : Nat) :
    Resources × Except Stop (Stamped Runtime) :=
  match Executor.ofSize? Unit size with
  | none => (r, .error .crashed)
  | some executor =>
    let (r, cached) := match CachedBackend.ofParameters dialect dataSources.parameters with
      | some c => let (r, c) := r.stamped c; (r, some c)
      | none => (r, none)
    let (r, parser) := r.stamped dialect
    let (r, engine) := r.addEngine dataSources.pools
    let (r, runtime) := r.stamped (Runtime.mk cached executor.size parser engine)
    (r, .ok runtime)

/-- Completes a schema with the tables that were loaded. -/
def finishSchema (r : Resources) (p : PendingSchema) (loaded : SortedMap Tables) :
    Resources × Except Stop (Stamped SchemaContext) :=
  match decorate loaded p.rules p.properties.checkTableMetadataEnabled with
  | .error f => (r, .error (.rejected f.error))
  | .ok tables =>
    let (r, rules) := r.instantiate p.rules
    let (r, dataSources) := r.stamped p.dataSources
    let (r, metaData) := r.stamped (MetaData.ofParameters p.dataSources.parameters tables)
    match r.startRuntime p.dialect p.dataSources p.properties.executorSize with
    | (r, .error stop) => (r, .error stop)
    | (r, .ok runtime) =>
      let (r, schema) := r.stamped
        (LogicSchema.mk p.dialect p.configurations rules dataSources metaData)
      let (r, context) := r.stamped (SchemaContext.mk p.name schema runtime)
      (r, .ok context)

end Resources

end ShardRegistry
