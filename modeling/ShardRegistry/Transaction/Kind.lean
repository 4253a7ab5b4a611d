import ShardRegistry.Json.Decode
import ShardRegistry.Text.Blank
import ShardRegistry.Text.LowerCase

/-! Kinds of transactions. A local transaction needs no manager; the distributed kinds keep their
connections until they end. -/
namespace ShardRegistry

inductive TransactionKind where
  | «local»
  | xa
  | base
  deriving DecidableEq, Repr

namespace TransactionKind

def name : TransactionKind → String
  | .local => "LOCAL"
  | .xa => "XA"
  | .base => "BASE"

def all : List TransactionKind := [.local, .xa, .base]

/-- The kind of that very name. -/
def ofName? (name : String) : Option TransactionKind := all.find? fun k => k.name = name

/-- Reads a kind in any case of ASCII letters, with blanks around it. -/
def read (text : String) : Except String TransactionKind :=
  let name := String.ofList ((Text.strip Text.isBlank text.toList).map Text.upperAscii)
  match ofName? name with
  | some k => .ok k
  | none => .error s!"unknown transaction type `{name}`"

end TransactionKind

end ShardRegistry
