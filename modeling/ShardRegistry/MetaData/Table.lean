import ShardRegistry.Json.Decode

/-! Metadata of tables: their columns, and the tables that a schema has under its rules. -/
namespace ShardRegistry

structure Column where
  name : String
  dataType : String
  primaryKey : Bool := false
  deriving DecidableEq, Repr

/-- The columns of a table in their order. -/
structure Table where
  columns : List Column
  deriving DecidableEq, Repr

/-- Tables by name. -/
abbrev Tables := SortedMap Table

/-- The tables of a schema: logic tables that rules own, and by backend the actual tables that no
rule covers. -/
structure SchemaTables where
  configured : Tables := .empty
  unconfigured : SortedMap Tables := .empty
  deriving DecidableEq, Inhabited

namespace Column

def decode : Json.Decoder Column :=
  Json.Record.decode <| Column.mk <$> .required "name" .string <*> .required "dataType" .string
    <*> .optional "primaryKey" .bool false

def toJson (c : Column) : Json :=
  .object [("name", .string c.name), ("dataType", .string c.dataType),
    ("primaryKey", .bool c.primaryKey)]

end Column

namespace Table

def decode : Json.Decoder Table :=
  Json.Record.decode <| Table.mk <$> .required "columns" (.list Column.decode)

def toJson (t : Table) : Json := .object [("columns", .array (t.columns.map (·.toJson)))]

def columnNames (t : Table) : List String := t.columns.map (·.name)

def primaryKeys (t : Table) : List String := (t.columns.filter (·.primaryKey)).map (·.name)

end Table

namespace Tables

def decode : Json.Decoder Tables := .sortedMap Table.decode

def toJson (ts : Tables) : Json := .object (ts.entries.map fun e => (e.1, e.2.toJson))

end Tables

namespace SchemaTables

def decode : Json.Decoder SchemaTables :=
  Json.Record.decode <| SchemaTables.mk <$> .optional "configured" Tables.decode .empty
    <*> .optional "unconfigured" (.sortedMap Tables.decode) .empty

def toJson (t : SchemaTables) : Json :=
  .object [("configured", t.configured.toJson),
    ("unconfigured", .object (t.unconfigured.entries.map fun e => (e.1, e.2.toJson)))]

/-- The names of the tables that are found on some backend. -/
def actualNames (t : SchemaTables) : SortedSet :=
  .ofList (t.unconfigured.values.flatMap (·.keys))

/-- The names that a client may use: logic tables first, then those found on backends alone. -/
def tableNames (t : SchemaTables) : List String :=
  t.configured.keys ++ t.actualNames.toList.filter fun n => !t.configured.contains n

/-- The table of a name: the logic table, or that of the least backend that has one. -/
def findTable? (t : SchemaTables) (name : String) : Option Table :=
  match t.configured.find? name with
  | some table => some table
  | none => t.unconfigured.values.findSome? (·.find? name)

end SchemaTables

end ShardRegistry
