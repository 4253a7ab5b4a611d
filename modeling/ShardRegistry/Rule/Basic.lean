import ShardRegistry.Error
import ShardRegistry.Rule.Configuration
import ShardRegistry.Rule.DataNode
import ShardRegistry.Text.LowerCase

/-! Rules made of configurations and the names of the backends they may refer to. A rule is made
completely or not at all. -/
namespace ShardRegistry

/-- A logic table and its data nodes, in the order of the configuration. -/
structure TableRule where
  logicTable : String
  dataNodes : List DataNode
  deriving DecidableEq, Repr

structure ShardingRule where
  tables : List TableRule
  defaultDataSource : Option String
  deriving DecidableEq, Repr

structure ReadWriteRule where
  name : String
  primary : String
  replicas : List String
  deriving DecidableEq, Repr

inductive Rule where
  | sharding (r : ShardingRule)
  | readWrite (r : ReadWriteRule)
  deriving DecidableEq, Repr

/-- Why a configuration makes no rule, or the tables found do not fit one. -/
inductive RuleFault where
  | noTableName
  | duplicateTable (table : String)
  | noDataNodes (table : String)
  | invalidDataNode (text : String)
  | unknownDataNode (node : DataNode) (table : String)
  | unknownDefault (name : String)
  | noRuleName
  | unknownDataSource (rule name : String)
  | primaryAmongReplicas (name : String)
  | structureDiffers (table first node : String)
  deriving DecidableEq, Repr

def RuleFault.message : RuleFault → String
  | .noTableName => "Logic table name is required"
  | .duplicateTable table => s!"Duplicate logic table `{table}`"
  | .noDataNodes table => s!"Logic table `{table}` has no actual data nodes"
  | .invalidDataNode text => s!"Invalid data node `{text}`, expected `data_source.table`"
  | .unknownDataNode node table =>
    s!"Data node `{node.text}` of `{table}` refers to an unknown data source"
  | .unknownDefault name => s!"Default data source `{name}` does not exist"
  | .noRuleName => "Read/write splitting rule name is required"
  | .unknownDataSource rule name =>
    s!"Read/write splitting rule `{rule}` refers to unknown data source `{name}`"
  | .primaryAmongReplicas name => s!"Primary `{name}` cannot also be a replica"
  | .structureDiffers table first node =>
    s!"Cannot get uniformed table structure for `{table}`: `{first}` and `{node}` differ"

def RuleFault.error (f : RuleFault) : Error := .invalidRule f.message

/-- The name under which a logic table is kept. -/
def normalTable (name : String) : String := Text.lowerCase (Text.trim name)

def readNode (text : String) : Except RuleFault DataNode :=
  match DataNode.read text with
  | some n => .ok n
  | none => .error (.invalidDataNode text)

namespace TableRule

/-- Makes a table rule; `seen` are the names of the tables before it. -/
def ofConfiguration (names seen : List String) (c : TableConfiguration) :
    Except RuleFault TableRule := do
  let table := normalTable c.logicTable
  if table = "" then throw .noTableName
  if seen.contains table then throw (.duplicateTable table)
  if c.actualDataNodes.isEmpty then throw (.noDataNodes table)
  let nodes ← c.actualDataNodes.mapM readNode
  if let some node := nodes.find? fun n => !names.contains n.dataSource then
    throw (.unknownDataNode node table)
  return ⟨table, nodes⟩

end TableRule

namespace ShardingRule

def tablesOf (names seen : List String) :
    List TableConfiguration → Except RuleFault (List TableRule)
  | [] => .ok []
  | c :: cs => do
    let t ← TableRule.ofConfiguration names seen c
    return t :: (← tablesOf names (t.logicTable :: seen) cs)

def ofConfiguration (names : List String) (c : ShardingConfiguration) :
    Except RuleFault ShardingRule := do
  let tables ← tablesOf names [] c.tables
  if let some name := c.defaultDataSource then
    if !names.contains name then throw (.unknownDefault name)
  return ⟨tables, c.defaultDataSource⟩

/-- The table rule of a logic table, whose name is given in any letter case. -/
def findTable? (r : ShardingRule) (name : String) : Option TableRule :=
  r.tables.find? fun t => t.logicTable = Text.lowerCase name

/-- The backends that table rules or the default refer to. -/
def dataSourceNames (r : ShardingRule) : SortedSet :=
  .ofList (r.tables.flatMap (fun t => t.dataNodes.map (·.dataSource)) ++
    r.defaultDataSource.toList)

end ShardingRule

namespace ReadWriteRule

def ofConfiguration (names : List String) (c : ReadWriteConfiguration) :
    Except RuleFault ReadWriteRule := do
  if Text.blank c.name then throw .noRuleName
  if let some missing := (c.primary :: c.replicas).find? fun n => !names.contains n then
    throw (.unknownDataSource c.name missing)
  if c.replicas.contains c.primary then throw (.primaryAmongReplicas c.primary)
  return ⟨c.name, c.primary, c.replicas⟩

/-- What a rule holds disabled after it was told of one backend. Only replicas count. -/
def told (r : ReadWriteRule) (disabled : List String) (name : String) (off : Bool) : List String :=
  if !r.replicas.contains name then disabled
  else if off then (if disabled.contains name then disabled else name :: disabled)
  else disabled.filter (· ≠ name)

/-- The replicas that are not disabled, in the order of the configuration. -/
def available (r : ReadWriteRule) (disabled : List String) : List String :=
  r.replicas.filter fun n => !disabled.contains n

end ReadWriteRule

namespace Rule

def ofConfiguration (names : List String) : RuleConfiguration → Except RuleFault Rule
  | .sharding c => (ShardingRule.ofConfiguration names c).map .sharding
  | .readWrite c => (ReadWriteRule.ofConfiguration names c).map .readWrite

/-- Makes one rule of each configuration, in their order. -/
def build (names : List String) (cs : List RuleConfiguration) : Except RuleFault (List Rule) :=
  cs.mapM (ofConfiguration names)

def kind : Rule → String
  | .sharding _ => "sharding"
  | .readWrite _ => "readwrite_splitting"

/-- Whether the rule keeps a view of which backends are available. -/
def tracksStatus : Rule → Bool
  | .sharding _ => false
  | .readWrite _ => true

/-- The table rules of a rule that owns logic tables. -/
def tableRules? : Rule → Option (List TableRule)
  | .sharding r => some r.tables
  | .readWrite _ => none

/-- What the rule holds disabled after it was told of one backend. -/
def told (r : Rule) (disabled : List String) (name : String) (off : Bool) : List String :=
  match r with
  | .sharding _ => disabled
  | .readWrite r => r.told disabled name off

end Rule

end ShardRegistry
