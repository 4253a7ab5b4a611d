import ShardRegistry.Error
import ShardRegistry.Json.Value
import ShardRegistry.Map.Sorted
import ShardRegistry.Text.Natural
import ShardRegistry.Transaction.Kind

/-! Properties of the proxy. They arrive as a map of raw values, scalars or their text, and are
checked as a whole: the least key with an unacceptable value rejects the map. Keys that are not
known are kept and have no effect. -/
namespace ShardRegistry

abbrev RawProperties := SortedMap Json

inductive PropertyKey where
  | sqlShow
  | sqlSimple
  | executorSize
  | maxConnectionsSizePerQuery
  | checkTableMetadataEnabled
  | proxyFrontendFlushThreshold
  | proxyTransactionType
  deriving DecidableEq, Repr

namespace PropertyKey

def all : List PropertyKey :=
  [.sqlShow, .sqlSimple, .executorSize, .maxConnectionsSizePerQuery, .checkTableMetadataEnabled,
    .proxyFrontendFlushThreshold, .proxyTransactionType]

def name : PropertyKey → String
  | .sqlShow => "sql.show"
  | .sqlSimple => "sql.simple"
  | .executorSize => "executor.size"
  | .maxConnectionsSizePerQuery => "max.connections.size.per.query"
  | .checkTableMetadataEnabled => "check.table.metadata.enabled"
  | .proxyFrontendFlushThreshold => "proxy.frontend.flush.threshold"
  | .proxyTransactionType => "proxy.transaction.type"

def ofName? (name : String) : Option PropertyKey := all.find? fun k => k.name = name

end PropertyKey

/-- Properties that have been checked, with the map they came from. -/
structure Properties where
  raw : RawProperties := .empty
  sqlShow : Bool := false
  sqlSimple : Bool := false
  /-- The number of tasks that run at once; 0 is no limit. -/
  executorSize : Nat := 0
  maxConnectionsSizePerQuery : Nat := 1
  checkTableMetadataEnabled : Bool := false
  proxyFrontendFlushThreshold : Nat := 128
  proxyTransactionType : TransactionKind := .local
  deriving Inhabited

/-- Why a value is not acceptable for its key. -/
inductive PropertyFault where
  | notBoolean (key : String) (value : Json)
  | notNatural (key : String) (value : Json)
  | zero (key : String)
  | notTransactionKind (key : String) (reason : String)

def PropertyFault.message : PropertyFault → String
  | .notBoolean key value => s!"`{key}` expects a boolean, got {value.print}"
  | .notNatural key value => s!"`{key}` expects a non-negative integer, got {value.print}"
  | .zero key => s!"`{key}` must be at least 1"
  | .notTransactionKind key reason => s!"`{key}`: {reason}"

namespace Properties

/-- The text of a value: that of a string without the blanks around it, else its JSON text. -/
def scalarText : Json → List Char
  | .string s => Text.strip Text.isBlank s.toList
  | other => other.text

def boolean (key : String) (value : Json) : Except PropertyFault Bool :=
  match value with
  | .bool b => .ok b
  | _ =>
    let text := scalarText value
    if text = "true".toList then .ok true
    else if text = "false".toList then .ok false
    else .error (.notBoolean key value)

def natural (key : String) (value : Json) : Except PropertyFault Nat :=
  let read := match value with
    | .number n => n.toNat?
    | _ => Text.natural? Text.wordLimit (scalarText value)
  match read with
  | some n => .ok n
  | none => .error (.notNatural key value)

def positive (key : String) (value : Json) : Except PropertyFault Nat := do
  match ← natural key value with
  | 0 => throw (.zero key)
  | n => return n

def transactionKind (key : String) (value : Json) : Except PropertyFault TransactionKind :=
  match TransactionKind.read (String.ofList (scalarText value)) with
  | .ok k => .ok k
  | .error reason => .error (.notTransactionKind key reason)

/-- The properties with the value of one key set. -/
def set (p : Properties) (key : PropertyKey) (value : Json) : Except PropertyFault Properties :=
  match key with
  | .sqlShow => return { p with sqlShow := ← boolean key.name value }
  | .sqlSimple => return { p with sqlSimple := ← boolean key.name value }
  | .executorSize => return { p with executorSize := ← natural key.name value }
  | .maxConnectionsSizePerQuery =>
    return { p with maxConnectionsSizePerQuery := ← positive key.name value }
  | .checkTableMetadataEnabled =>
    return { p with checkTableMetadataEnabled := ← boolean key.name value }
  | .proxyFrontendFlushThreshold =>
    return { p with proxyFrontendFlushThreshold := ← natural key.name value }
  | .proxyTransactionType =>
    return { p with proxyTransactionType := ← transactionKind key.name value }

/-- Sets the known keys one after the other. -/
def setAll (p : Properties) : List (String × Json) → Except PropertyFault Properties
  | [] => .ok p
  | (name, value) :: rest =>
    match PropertyKey.ofName? name with
    | none => setAll p rest
    | some key => do setAll (← p.set key value) rest

def read (raw : RawProperties) : Except PropertyFault Properties :=
  setAll { raw := raw } raw.entries

end Properties

end ShardRegistry
