import ShardRegistry.MetaData.Basic

/-! How the backends of a schema differ between two parameter maps. Names keep the order of the map
that they are drawn from: that of the old one for deleted backends, else that of the new one. -/
namespace ShardRegistry

structure DataSourceChanges where
  /-- In the new map only. -/
  added : List String := []
  /-- In the old map only. -/
  deleted : List String := []
  /-- In both maps, with different parameters. -/
  modified : List String := []
  deriving DecidableEq, Repr

namespace DataSourceChanges

/-- Whether a backend of the new map is in the old one with other parameters. -/
def differs (old : ParameterMap) (name : String) (p : ConnectionParameters) : Bool :=
  match old.find? name with
  | some q => q ≠ p
  | none => false

def compute (old new : ParameterMap) : DataSourceChanges where
  added := new.keys.filter fun n => !old.contains n
  deleted := old.keys.filter fun n => !new.contains n
  modified := (new.entries.filter fun e => differs old e.1 e.2).map (·.1)

def isEmpty (c : DataSourceChanges) : Bool :=
  c.added.isEmpty && c.deleted.isEmpty && c.modified.isEmpty

/-- Whether the pool that the old map gave the backend is no longer used. -/
def supersedes (c : DataSourceChanges) (name : String) : Bool :=
  c.deleted.contains name || c.modified.contains name

end DataSourceChanges

end ShardRegistry
