import ShardRegistry.Error
import ShardRegistry.Json.Decode
import ShardRegistry.Text.Blank
import ShardRegistry.Text.LowerCase

/-! Database dialects and their recognition from connection URLs. A URL is recognised by its
beginning, in any letter case and after blanks. -/
namespace ShardRegistry

inductive Dialect where
  | postgreSQL
  | mySQL
  | h2
  | sqlServer
  | oracle
  deriving DecidableEq, Repr

namespace Dialect

def name : Dialect → String
  | .postgreSQL => "PostgreSQL"
  | .mySQL => "MySQL"
  | .h2 => "H2"
  | .sqlServer => "SQLServer"
  | .oracle => "Oracle"

def all : List Dialect := [.postgreSQL, .mySQL, .h2, .sqlServer, .oracle]

def decode : Json.Decoder Dialect := .choice (all.map fun d => (d.name, d))

/-- The port used when a URL names none; an embedded database has no port. -/
def defaultPort : Dialect → Option Nat
  | .postgreSQL => some 5432
  | .mySQL => some 3306
  | .sqlServer => some 1433
  | .oracle => some 1521
  | .h2 => none

/-- The letter that a character counts as when case does not matter. Outside ASCII the long s counts
as s and the Kelvin sign as k. -/
def folded (c : Char) : Char :=
  if c.toNat = 0x17F then 's' else if c.toNat = 0x212A then 'k' else Text.lowerAscii c

/-- What follows `word`, which is in lower case, at the beginning of a text in any case. -/
def after? : List Char → List Char → Option (List Char)
  | [], cs => some cs
  | w :: ws, c :: cs => if folded c = w then after? ws cs else none
  | _ :: _, [] => none

def startsWith (word : String) (cs : List Char) : Bool := (after? word.toList cs).isSome

/-- Whether `p` holds of a text as it is or of what follows `word` in it. -/
def withOptional (word : String) (p : List Char → Bool) (cs : List Char) : Bool :=
  p cs || match after? word.toList cs with
    | some rest => p rest
    | none => false

/-- Whether a URL without blanks around it belongs to the dialect. -/
def recognizes : Dialect → List Char → Bool
  | .postgreSQL => withOptional "jdbc:" fun cs =>
      startsWith "postgres://" cs || startsWith "postgresql://" cs
  | .mySQL => withOptional "jdbc:" fun cs => startsWith "mysql://" cs || startsWith "mariadb://" cs
  | .h2 => startsWith "jdbc:h2:"
  | .sqlServer => withOptional "jdbc:" (withOptional "microsoft:" (startsWith "sqlserver://"))
  | .oracle => startsWith "jdbc:oracle:"

def ofUrl (url : String) : Except Error Dialect :=
  match all.find? fun d => d.recognizes (Text.strip Text.isBlank url.toList) with
  | some d => .ok d
  | none => .error (.configuration s!"Cannot recognize database type of url `{url}`")

end Dialect

end ShardRegistry
