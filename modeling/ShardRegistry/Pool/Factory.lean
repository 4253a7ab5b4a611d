import ShardRegistry.Connection.Endpoint
import ShardRegistry.Pool.Basic

/-! Factories of pools. A factory decides by the number of the call, the name of the backend and its
parameters whether there is a pool and what becomes of it. -/
namespace ShardRegistry

structure Factory where
  build : Nat → String → ConnectionParameters → Except Error PoolDesign

namespace Factory

/-- Builds pools that make connections at once, except for the backends in `failing`; closing the
pools of those in `reluctant` fails. -/
def immediate (failing reluctant : List String) : Factory where
  build _ name p :=
    if failing.contains name then .error (.connection s!"cannot reach `{p.url}`")
    else .ok { closeFails := reluctant.contains name }

/-- Builds pools of PostgreSQL backends, which connect at their first use. -/
def postgres : Factory where
  build _ _ p := do
    let dialect ← p.dialect
    if dialect ≠ .postgreSQL then
      throw (.configuration
        s!"{dialect.name} backends are not supported by the Postgres pool factory")
    let _ ← p.endpoint
    return { kind := .remote }

end Factory

end ShardRegistry
