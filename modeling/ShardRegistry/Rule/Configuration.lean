import ShardRegistry.Json.Decode

/-! Configurations of rules, as events carry them. -/
namespace ShardRegistry

/-- A logic table and the actual tables that make it up. -/
structure TableConfiguration where
  logicTable : String
  actualDataNodes : List String
  deriving DecidableEq, Repr

structure ShardingConfiguration where
  tables : List TableConfiguration := []
  /-- The backend of tables that no table rule covers. -/
  defaultDataSource : Option String := none
  deriving DecidableEq, Repr

structure ReadWriteConfiguration where
  name : String
  primary : String
  replicas : List String := []
  deriving DecidableEq, Repr

inductive RuleConfiguration where
  | sharding (c : ShardingConfiguration)
  | readWrite (c : ReadWriteConfiguration)
  deriving DecidableEq, Repr

namespace TableConfiguration

def decode : Json.Decoder TableConfiguration :=
  Json.Record.decode <| TableConfiguration.mk <$> .required "logicTable" .string
    <*> .required "actualDataNodes" (.list .string)

def toJson (t : TableConfiguration) : Json :=
  .object [("logicTable", .string t.logicTable), ("actualDataNodes", .strings t.actualDataNodes)]

end TableConfiguration

namespace ShardingConfiguration

def decode : Json.Decoder ShardingConfiguration :=
  Json.Record.decode <| ShardingConfiguration.mk
    <$> .optional "tables" (.list TableConfiguration.decode) []
    <*> .optional "defaultDataSource" (.nullable .string) none

def members (c : ShardingConfiguration) : List (String × Json) :=
  [("tables", .array (c.tables.map (·.toJson))),
    ("defaultDataSource", .stringOrNull c.defaultDataSource)]

end ShardingConfiguration

namespace ReadWriteConfiguration

def decode : Json.Decoder ReadWriteConfiguration :=
  Json.Record.decode <| ReadWriteConfiguration.mk <$> .required "name" .string
    <*> .required "primary" .string <*> .optional "replicas" (.list .string) []

def members (c : ReadWriteConfiguration) : List (String × Json) :=
  [("name", .string c.name), ("primary", .string c.primary), ("replicas", .strings c.replicas)]

end ReadWriteConfiguration

namespace RuleConfiguration

def kind : RuleConfiguration → String
  | .sharding _ => "sharding"
  | .readWrite _ => "readwrite_splitting"

def tagged : Json.Tagged RuleConfiguration where
  variants := [
    ("sharding", fun p d => (ShardingConfiguration.decode p d).map .sharding),
    ("readwrite_splitting", fun p d => (ReadWriteConfiguration.decode p d).map .readWrite)]

def decode : Json.Decoder RuleConfiguration := tagged.decode

def toJson (c : RuleConfiguration) : Json :=
  .object (("type", .string c.kind) :: match c with
    | .sharding c => c.members
    | .readWrite c => c.members)

end RuleConfiguration

end ShardRegistry
