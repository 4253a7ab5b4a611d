import ShardRegistry.Concurrency.Gate
import ShardRegistry.Connection.Parameters

/-! Connection pools of backends. A pool counts what is asked of it, can be closed, and can be told
to hold or refuse requests. -/
namespace ShardRegistry

/-- The number of a pool in the order in which pools were built. -/
abbrev PoolId := Nat

/-- A connection: the pool that it came from and its number among the connections of that pool. -/
structure Connection where
  pool : PoolId
  number : Nat
  deriving DecidableEq, Repr

/-- How a pool makes its connections. -/
inductive PoolKind where
  /-- At once, numbered from one. -/
  | immediate
  /-- Over the network, at the first use. -/
  | remote
  deriving DecidableEq, Repr

/-- What a factory makes of a backend: the kind of its pool, and whether closing it will fail. -/
structure PoolDesign where
  kind : PoolKind := .immediate
  closeFails : Bool := false
  deriving DecidableEq, Repr

structure Pool where
  name : String
  /-- The number of the pool among those of its name. -/
  ordinal : Nat
  parameters : ConnectionParameters
  design : PoolDesign
  isClosed : Bool := false
  closeAttempts : Nat := 0
  /-- Requests so far, including those that failed or still wait. -/
  attempts : Nat := 0
  inFlight : Nat := 0
  maxInFlight : Nat := 0
  /-- Connections handed out so far. -/
  issued : Nat := 0
  /-- The requests that are to be refused, by number. -/
  refused : List Nat := []
  gate : Option Gate := none
  deriving DecidableEq

/-- How full a pool is. -/
structure PoolStatus where
  maxSize : Nat
  size : Nat
  available : Nat
  deriving DecidableEq, Repr

def PoolStatus.toJson (s : PoolStatus) : Json :=
  .object [("maxSize", .natural s.maxSize), ("size", .natural s.size),
    ("available", .natural s.available)]

/-- The driver of remote pools. It counts the connections of a pool itself, and keeps some that nobody
uses; how many is known only to the driver, which is no part of this library. -/
structure PoolDriver where
  /-- What it tells of a pool of which so many connections are in use. -/
  status : Pool → Nat → PoolStatus

namespace PoolDriver

/-- What is documented of the counters of a driver. -/
structure Counts (d : PoolDriver) : Prop where
  /-- The greatest size of an open pool is the one that it was built with; closing a pool resizes it to
  none. -/
  maxSize : ∀ p live, (d.status p live).maxSize = if p.isClosed then 0 else p.parameters.maxPoolSize
  /-- A connection that is in use is one of the pool, and is not available. -/
  live_add_available_le : ∀ p live, live + (d.status p live).available ≤ (d.status p live).size
  /-- An open pool does not outgrow its greatest size. -/
  size_le_maxSize : ∀ p live, p.isClosed = false → live ≤ p.parameters.maxPoolSize →
    (d.status p live).size ≤ (d.status p live).maxSize

/-- A driver that keeps up to `n` connections that nobody uses. -/
def keeping (n : Nat) : PoolDriver where
  status p live :=
    let maxSize := if p.isClosed then 0 else p.parameters.maxPoolSize
    ⟨maxSize, live + min n (maxSize - live), min n (maxSize - live)⟩

theorem counts_keeping (n : Nat) : (keeping n).Counts where
  maxSize _ _ := rfl
  live_add_available_le _ _ := Nat.le_refl _
  size_le_maxSize p live hopen hlive := by
    simp only [keeping, hopen]
    exact Nat.add_le_of_le_sub' hlive (Nat.min_le_right n _)

end PoolDriver

namespace Pool

/-- A pool under its name and ordinal. -/
def label (p : Pool) : String := s!"{p.name}#{p.ordinal}"

/-- The occupancy of a pool of which `live` connections are in use: a pool that makes its connections at
once counts them itself, and for a remote one its driver does. -/
def status (p : Pool) (live : Nat) (driver : PoolDriver := .keeping 0) : PoolStatus :=
  match p.design.kind with
  | .immediate => ⟨p.parameters.maxPoolSize, live, p.parameters.maxPoolSize - live⟩
  | .remote => driver.status p live

/-- Closes the pool; every call counts. -/
def close (p : Pool) : Pool :=
  { p with isClosed := true, closeAttempts := p.closeAttempts + 1 }

/-- Why closing the pool fails, if it does. -/
def closeFault? (p : Pool) : Option Error :=
  if p.design.closeFails then some (.connection s!"pool `{p.name}` refused to close") else none

/-- Counts a request that comes in. -/
def enter (p : Pool) : Pool :=
  { p with attempts := p.attempts + 1, inFlight := p.inFlight + 1,
           maxInFlight := max p.maxInFlight (p.inFlight + 1) }

def leave (p : Pool) : Pool := { p with inFlight := p.inFlight - 1 }

/-- Why the request of a number gets no connection, if it does not. -/
def fault? (p : Pool) (attempt : Nat) : Option Error :=
  if p.isClosed then
    some (match p.design.kind with
      | .immediate => .connection s!"pool `{p.name}` is closed"
      | .remote => .pool .closed)
  else if p.refused.contains attempt then
    some (.connection s!"connection {attempt} to `{p.name}` refused")
  else none

/-- The pool as diagnostics show it. -/
def debug (p : Pool) : String :=
  "PostgresPool \x7b name: " ++ Text.quoted p.name ++ s!", closed: {p.isClosed}" ++ " \x7d"

end Pool

end ShardRegistry
