import ShardRegistry.Registry.Change

/-! Handling events one at a time: each event runs to its end before the next one, and tables are
loaded at once. -/
namespace ShardRegistry

/-- Answers the tables of a schema from its dialect and its backends. -/
abbrev Loader := Dialect → DataSourceMap → Except Error (SortedMap Tables)

namespace Step

/-- How many loads of tables can still follow. -/
def loads : Step → Nat
  | .done _ => 0
  | .load (.reset _ _ _ rest _) _ => rest.length + 1
  | .load _ _ => 1

end Step

namespace Registry

/-- Runs a change on, loading tables as they are asked for, at most `fuel` times. -/
def drive (env : Environment) (load : Loader) :
    Nat → Registry × Step → Registry × Except Stop Nat
  | _, (g, .done outcome) => (g, outcome)
  | 0, (g, .load _ _) => (g, .error .crashed)
  | fuel + 1, (g, .load purpose pending) =>
    drive env load fuel (g.resume env purpose pending (load pending.dialect pending.dataSources))

/-- Runs a change to its end. -/
def apply (env : Environment) (load : Loader) (g : Registry) (change : Change) :
    Registry × Except Stop Nat :=
  let begun := g.begin env change
  drive env load begun.2.loads begun

/-- Handles an event: the generation that is published then, or why it was rejected. -/
def handle (env : Environment) (load : Loader) (g : Registry) (event : Event) :
    Registry × Except Stop Nat :=
  match Change.ofEvent event with
  | .error e => (g, .error (.rejected e))
  | .ok change => g.apply env load change

end Registry

end ShardRegistry
