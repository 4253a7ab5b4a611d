import ShardRegistry.Resources

/-! Reconciliation of the data sources of a schema with new parameters. Pools of backends that did
not change are kept, and nothing of the old ones is closed before the outcome is known. -/
namespace ShardRegistry

structure Reconciliation where
  changes : DataSourceChanges
  /-- Backends that stay, then modified ones, then new ones. -/
  dataSources : DataSourceMap
  /-- What this reconciliation built. -/
  built : DataSourceMap
  /-- The old data sources that are no longer used. -/
  superseded : List DataSource

namespace Reconciliation

/-- The parameters of the named backends, in the order of the names. -/
def select (ps : ParameterMap) (names : List String) : List (String × ConnectionParameters) :=
  names.filterMap fun n => (ps.find? n).map fun p => (n, p)

def compute (r : Resources) (f : Factory) (current : DataSourceMap) (new : ParameterMap) :
    Resources × Except Error Reconciliation :=
  let changes := DataSourceChanges.compute current.parameters new
  match r.buildAll f .empty (select new (changes.modified ++ changes.added)) with
  | (r, .error e) => (r, .error e)
  | (r, .ok built) =>
    (r, .ok {
      changes, built
      dataSources := built.entries.foldl (fun m e => m.insert e.1 e.2)
        (current.filter fun n _ => !changes.supersedes n)
      superseded := (current.filter fun n _ => changes.supersedes n).values })

/-- Closes the old pools that are no longer used. -/
def commit (x : Reconciliation) (r : Resources) : Resources :=
  r.closePools (x.superseded.map (·.pool))

/-- Closes the pools that were built, and leaves the old ones as they are. -/
def abort (x : Reconciliation) (r : Resources) : Resources := r.closeDataSources x.built

end Reconciliation

end ShardRegistry
