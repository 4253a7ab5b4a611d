import ShardRegistry.Error
import ShardRegistry.MetaData.Table

/-! Database servers behind the pools, as far as a registry sees them: whether a backend lets one
connect, and what it answers to the question for its tables. -/
namespace ShardRegistry

/-- A row of the answer: a table, one of its columns, the type, and whether it is a primary key. -/
structure ColumnRow where
  table : String
  column : Column

inductive ServerReply where
  | rows (rows : List ColumnRow)
  /-- The connection is refused. -/
  | refused
  /-- The question fails. -/
  | queryFails

/-- What each backend replies; one that is not listed cannot be reached. -/
structure Server where
  replies : List (String × ServerReply)

namespace Server

/-- The failure that the database driver reports for all of these. -/
def fault : Error := .database "db error"

/-- Why connecting to a backend fails, if it does. -/
def connectFault? (s : Server) (backend : String) : Option Error :=
  match s.replies.lookup backend with
  | none | some .refused => some fault
  | _ => none

/-- Appends each row as a column to its table. -/
def tablesOf (rows : List ColumnRow) : Tables :=
  rows.foldl (fun ts row =>
    let columns := ((ts.find? row.table).map (·.columns)).getD []
    ts.insert row.table ⟨columns ++ [row.column]⟩) .empty

/-- The answer of a backend to the question for its tables. -/
def query (s : Server) (backend : String) : Except Error Tables :=
  match s.replies.lookup backend with
  | some (.rows rows) => .ok (tablesOf rows)
  | _ => .error fault

end Server

/-- What a connection without a client of its own answers to the question for tables. -/
def queryTables (server : Option Server) (backend : String) : Except Error Tables :=
  match server with
  | some s => s.query backend
  | none => .error (.connection "Connection does not expose a PostgreSQL client")

end ShardRegistry
