import ShardRegistry.MetaData.Table
import ShardRegistry.Rule.Basic

/-! Decoration: the tables loaded from the backends under the rules of a schema. A logic table takes
the columns of the first of its data nodes that is found, and every node found is taken away from the
tables of its backend. -/
namespace ShardRegistry

namespace Decoration

/-- The loaded tables without the table of a node, and that table, if it is there. -/
def take (loaded : SortedMap Tables) (node : DataNode) : Option (Table × SortedMap Tables) := do
  let tables ← loaded.find? node.dataSource
  let table ← tables.find? node.table
  return (table, loaded.insert node.dataSource (tables.erase node.table))

/-- Goes through the data nodes of a table rule. `first` is the first node found and its table;
with `check`, every other one has to have the same column names. -/
def nodes (check : Bool) (logicTable : String) (first : Option (DataNode × Table))
    (loaded : SortedMap Tables) :
    List DataNode → Except RuleFault (Option (DataNode × Table) × SortedMap Tables)
  | [] => .ok (first, loaded)
  | node :: rest =>
    match take loaded node with
    | none => nodes check logicTable first loaded rest
    | some (table, loaded) =>
      match first with
      | none => nodes check logicTable (some (node, table)) loaded rest
      | some (n, expected) =>
        if check && expected.columnNames != table.columnNames then
          .error (.structureDiffers logicTable n.text node.text)
        else nodes check logicTable first loaded rest

/-- Goes through table rules. -/
def rules (check : Bool) (configured : Tables) (loaded : SortedMap Tables) :
    List TableRule → Except RuleFault (Tables × SortedMap Tables)
  | [] => .ok (configured, loaded)
  | r :: rest => do
    let (first, loaded) ← nodes check r.logicTable none loaded r.dataNodes
    match first with
    | some (_, table) => rules check (configured.insert r.logicTable table) loaded rest
    | none => rules check configured loaded rest

end Decoration

/-- The tables of a schema: `loaded` ones by backend, under its rules. Backends left without tables
are dropped. -/
def decorate (loaded : SortedMap Tables) (rules : List Rule) (check : Bool) :
    Except RuleFault SchemaTables := do
  let tableRules := rules.flatMap fun r => r.tableRules?.getD []
  let (configured, rest) ← Decoration.rules check .empty loaded tableRules
  return ⟨configured, rest.filter fun _ tables => !tables.isEmpty⟩

end ShardRegistry
