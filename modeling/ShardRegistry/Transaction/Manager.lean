import ShardRegistry.Concurrency.Mutex
import ShardRegistry.Error
import ShardRegistry.Map.Ordered
import ShardRegistry.Pool.Basic
import ShardRegistry.Transaction.Kind

/-! Transaction managers. A manager keeps for each open transaction the connections pinned to it, one
for each backend; whoever looks into the pins of a transaction holds their lock. -/
namespace ShardRegistry

/-- The serial number of a transaction; no two transactions share it. -/
structure TransactionId where
  serial : Nat
  deriving DecidableEq, Repr

namespace TransactionId

/-- The digits of a number in hexadecimal, at least `width` of them. -/
def padded (width n : Nat) : List Char :=
  let ds := Nat.toDigits 16 n
  List.replicate (width - ds.length) '0' ++ ds

/-- The identifier in its printed form: groups of 8, 4, 4, 4 and 12 digits. -/
def text (t : TransactionId) : String :=
  let ds := padded 32 t.serial
  String.ofList (ds.take 8 ++ '-' :: (ds.drop 8).take 4 ++ '-' :: (ds.drop 12).take 4 ++
    '-' :: (ds.drop 16).take 4 ++ '-' :: ds.drop 20)

end TransactionId

/-- The connections pinned to a transaction, by backend, and the lock on them. -/
structure Pins where
  connections : List (String × Connection) := []
  mutex : Mutex := {}
  deriving DecidableEq, Inhabited

abbrev ManagerId := Nat

structure Manager where
  kind : TransactionKind
  /-- The pools that connections are pinned from. -/
  pools : OrderedMap PoolId
  /-- The transactions that are open. -/
  active : List TransactionId := []
  isClosed : Bool := false
  deriving DecidableEq

namespace Manager

def isActive (m : Manager) (t : TransactionId) : Bool := m.active.contains t

def notActive (m : Manager) (t : TransactionId) : Error :=
  .transaction s!"{m.kind.name} transaction {t.text} is not active"

def notPart (backend : String) : Error :=
  .transaction s!"Data source `{backend}` is not part of this transaction"

def closedFault (m : Manager) : Error :=
  .transaction s!"{m.kind.name} transaction manager is closed"

/-- The failure to close a manager while tasks hold the pins of `busy` transactions. -/
def busyFault (m : Manager) (busy : Nat) : Error :=
  .close s!"{m.kind.name} transaction manager"
    s!"pinned connections of {busy} transaction(s) are in use"

end Manager

abbrev EngineId := Nat

/-- The managers of one schema, one for each distributed kind. -/
structure Engine where
  xa : ManagerId
  base : ManagerId
  isClosed : Bool := false
  deriving DecidableEq

/-- The manager of a kind; local transactions have none. -/
def Engine.manager? (e : Engine) : TransactionKind → Option ManagerId
  | .local => none
  | .xa => some e.xa
  | .base => some e.base

end ShardRegistry
