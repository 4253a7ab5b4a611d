import ShardRegistry.DataSource.Changes
import ShardRegistry.Pool.Factory
import ShardRegistry.Transaction.Manager

/-! What a registry owns besides its snapshot: pools, transaction managers and engines, the pins of
transactions, the disabled replicas of rules, and locks. All of it is numbered in the order in which
it was made and never forgotten. -/
namespace ShardRegistry

/-- One backend: its parameters and the pool built from them. -/
structure DataSource where
  parameters : ConnectionParameters
  pool : PoolId
  deriving DecidableEq

/-- Data sources by backend, in the order of the configuration. -/
abbrev DataSourceMap := OrderedMap DataSource

def DataSourceMap.parameters (m : DataSourceMap) : ParameterMap := m.map (·.parameters)

def DataSourceMap.pools (m : DataSourceMap) : OrderedMap PoolId := m.map (·.pool)

structure Resources where
  pools : List Pool := []
  /-- The backends that the factory was asked to build, in order. -/
  requests : List String := []
  managers : List Manager := []
  engines : List Engine := []
  /-- The pins of the transactions, by serial number. -/
  pins : List Pins := []
  /-- The replicas that each rule holds disabled. -/
  disabled : List (List String) := []
  /-- The locks under which batches are acquired. -/
  locks : List Mutex := []
  /-- The number of objects that were given an identity. -/
  stamps : Nat := 0
  /-- Tasks that got what they waited for, in order. -/
  ready : List TaskId := []
  deriving DecidableEq, Inhabited

/-- A value with the identity of the object that holds it: two objects of one identity are the same
one. -/
structure Stamped (α : Type) where
  stamp : Nat
  value : α
  deriving DecidableEq

namespace Resources

/-- A new object. -/
def stamped {α : Type} (r : Resources) (value : α) : Resources × Stamped α :=
  ({ r with stamps := r.stamps + 1 }, ⟨r.stamps, value⟩)

def modifyPool (r : Resources) (p : PoolId) (f : Pool → Pool) : Resources :=
  { r with pools := r.pools.modify p f }

def modifyManager (r : Resources) (m : ManagerId) (f : Manager → Manager) : Resources :=
  { r with managers := r.managers.modify m f }

def modifyPins (r : Resources) (t : TransactionId) (f : Pins → Pins) : Resources :=
  { r with pins := r.pins.modify t.serial f }

def wake (r : Resources) (ts : List TaskId) : Resources := { r with ready := r.ready ++ ts }

/-! ### Pools -/

def poolsNamed (r : Resources) (name : String) : Nat := (r.pools.filter (·.name = name)).length

/-- Asks the factory for a pool. -/
def addPool (r : Resources) (f : Factory) (name : String) (p : ConnectionParameters) :
    Resources × Except Error PoolId :=
  let asked := { r with requests := r.requests ++ [name] }
  match f.build r.requests.length name p with
  | .error e => (asked, .error e)
  | .ok design =>
    let pool : Pool := { name, ordinal := r.poolsNamed name, parameters := p, design }
    ({ asked with pools := r.pools ++ [pool] }, .ok r.pools.length)

/-- Closes a pool, whether that succeeds or not. -/
def closePool (r : Resources) (p : PoolId) : Resources := r.modifyPool p (·.close)

def closePools (r : Resources) (ps : List PoolId) : Resources := ps.foldl closePool r

/-- Checks parameters and builds the data source of a backend. -/
def buildDataSource (r : Resources) (f : Factory) (name : String) (p : ConnectionParameters) :
    Resources × Except Error DataSource :=
  match p.check with
  | .error e => (r, .error (.build name e))
  | .ok _ =>
    match r.addPool f name p with
    | (r, .error e) => (r, .error (.build name e))
    | (r, .ok pool) => (r, .ok ⟨p, pool⟩)

/-- Builds data sources one after the other onto `built`. At the first failure those of `built` and
those built since are closed. -/
def buildAll (r : Resources) (f : Factory) (built : DataSourceMap) :
    List (String × ConnectionParameters) → Resources × Except Error DataSourceMap
  | [] => (r, .ok built)
  | (name, p) :: rest =>
    match r.buildDataSource f name p with
    | (r, .error e) => (r.closePools (built.values.map (·.pool)), .error e)
    | (r, .ok d) => buildAll r f (built.insert name d) rest

def createDataSources (r : Resources) (f : Factory) (ps : ParameterMap) :
    Resources × Except Error DataSourceMap :=
  r.buildAll f .empty ps.entries

def closeDataSources (r : Resources) (m : DataSourceMap) : Resources :=
  r.closePools (m.values.map (·.pool))

/-! ### Transactions -/

def addManager (r : Resources) (kind : TransactionKind) (pools : OrderedMap PoolId) :
    Resources × ManagerId :=
  ({ r with managers := r.managers ++ [{ kind, pools }] }, r.managers.length)

/-- Starts managers of every distributed kind. -/
def addEngine (r : Resources) (pools : OrderedMap PoolId) : Resources × EngineId :=
  let (r, xa) := r.addManager .xa pools
  let (r, base) := r.addManager .base pools
  ({ r with engines := r.engines ++ [{ xa, base }] }, r.engines.length)

/-- Opens a transaction. -/
def beginTransaction (r : Resources) (m : ManagerId) :
    Resources × Except Error TransactionId :=
  match r.managers[m]? with
  | none => (r, .error (.internal "no such manager"))
  | some manager =>
    if manager.isClosed then (r, .error manager.closedFault)
    else
      let t : TransactionId := ⟨r.pins.length⟩
      let r := { r with pins := r.pins ++ [Pins.mk [] {}] }
      (r.modifyManager m fun x => { x with active := x.active ++ [t] }, .ok t)

def isActive (r : Resources) (m : ManagerId) (t : TransactionId) : Bool :=
  match r.managers[m]? with
  | some manager => manager.isActive t
  | none => false

/-- Takes a transaction out of the table of its manager. -/
def dropTransaction (r : Resources) (m : ManagerId) (t : TransactionId) : Except Error Resources :=
  match r.managers[m]? with
  | none => .error (.internal "no such manager")
  | some manager =>
    if manager.isActive t then
      .ok (r.modifyManager m fun x => { x with active := x.active.filter (· ≠ t) })
    else .error (manager.notActive t)

/-- Asks for the lock on the pins of a transaction. -/
def requestPins (r : Resources) (t : TransactionId) (task : TaskId) : Resources :=
  r.modifyPins t fun p => { p with mutex := p.mutex.request task }

def holdsPins (r : Resources) (t : TransactionId) (task : TaskId) : Bool :=
  match r.pins[t.serial]? with
  | some p => p.mutex.isHeldBy task
  | none => false

/-- Gives the lock on the pins of a transaction to the next task. -/
def releasePins (r : Resources) (t : TransactionId) : Resources :=
  match r.pins[t.serial]? with
  | some p =>
    let mutex := p.mutex.release
    (r.modifyPins t fun p => { p with mutex }).wake mutex.holder.toList
  | none => r

def pinned? (r : Resources) (t : TransactionId) (backend : String) : Option Connection :=
  (r.pins[t.serial]?).bind fun p => Entries.find? backend p.connections

def pin (r : Resources) (t : TransactionId) (backend : String) (c : Connection) : Resources :=
  r.modifyPins t fun p => { p with connections := Entries.put backend c p.connections }

def clearPins (r : Resources) (t : TransactionId) : Resources :=
  r.modifyPins t fun p => { p with connections := [] }

/-- Clears the pins of open transactions whose lock is free and counts the others. -/
def clearFree (r : Resources) : List TransactionId → Resources × Nat
  | [] => (r, 0)
  | t :: ts =>
    let free := ((r.pins[t.serial]?).map (·.mutex.isFree)).getD true
    let (r, busy) := clearFree (if free then r.clearPins t else r) ts
    (r, if free then busy else busy + 1)

/-- Closes a manager: its transactions end. Closing it again does nothing. -/
def closeManager (r : Resources) (m : ManagerId) : Resources × Except Error Unit :=
  match r.managers[m]? with
  | none => (r, .ok ())
  | some manager =>
    if manager.isClosed then (r, .ok ())
    else
      let r := r.modifyManager m fun x => { x with isClosed := true, active := [] }
      let (r, busy) := r.clearFree manager.active
      (r, if busy = 0 then .ok () else .error (manager.busyFault busy))

/-- Closes both managers of an engine and reports the first failure. -/
def closeEngine (r : Resources) (e : EngineId) : Resources × Except Error Unit :=
  match r.engines[e]? with
  | none => (r, .ok ())
  | some engine =>
    if engine.isClosed then (r, .ok ())
    else
      let r := { r with engines := r.engines.modify e fun x => { x with isClosed := true } }
      let (r, first) := r.closeManager engine.xa
      let (r, second) := r.closeManager engine.base
      (r, do first; second)

/-- Closes an engine whatever comes of it. -/
def closeEngineQuietly (r : Resources) (e : EngineId) : Resources := (r.closeEngine e).1

def isEngineClosed (r : Resources) (e : EngineId) : Bool :=
  ((r.engines[e]?).map (·.isClosed)).getD false

/-! ### Rules -/

/-- Gives a rule an empty set of disabled replicas. -/
def addDisabled (r : Resources) : Resources × Nat :=
  ({ r with disabled := r.disabled ++ [[]] }, r.disabled.length)

def disabledOf (r : Resources) (id : Nat) : List String := (r.disabled[id]?).getD []

def setDisabled (r : Resources) (id : Nat) (names : List String) : Resources :=
  { r with disabled := r.disabled.set id names }

end Resources

end ShardRegistry
