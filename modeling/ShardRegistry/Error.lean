/-! What can go wrong while a registry serves schemas, and the wording of each case. -/
namespace ShardRegistry

/-- Why a pool hands out no connection. -/
inductive PoolFault where
  | waitTimeout
  | createTimeout
  | recycleTimeout
  | noRuntime
  | closed
  deriving DecidableEq, Repr

def PoolFault.message : PoolFault → String
  | .waitTimeout => "Timeout occurred while waiting for a slot to become available"
  | .createTimeout => "Timeout occurred while creating a new object"
  | .recycleTimeout => "Timeout occurred while recycling an object"
  | .noRuntime => "No runtime specified"
  | .closed => "Pool has been closed"

inductive Error where
  /-- The database driver failed. -/
  | database (reason : String)
  | pool (fault : PoolFault)
  /-- A backend could not be built, which rejects the change that asked for it. -/
  | build (backend : String) (source : Error)
  | schemaNotFound (schema : String)
  | dataSourceNotFound (schema backend : String)
  /-- A batch failed after some of its connections had been acquired. -/
  | batch (requested released : Nat) (source : Error)
  | close (resource reason : String)
  | connection (reason : String)
  | transaction (reason : String)
  | invalidRule (reason : String)
  | validation (reason : String)
  | internal (reason : String)
  | configuration (reason : String)
  deriving DecidableEq, Repr, Inhabited

namespace Error

def message : Error → String
  | .database reason => s!"Database error: {reason}"
  | .pool fault => s!"Pool error: {fault.message}"
  | .build backend source => s!"Can not build data source, name is `{backend}`: {source.message}"
  | .schemaNotFound schema => s!"Schema `{schema}` does not exist"
  | .dataSourceNotFound schema backend =>
    s!"Data source `{backend}` does not exist in schema `{schema}`"
  | .batch requested released source =>
    s!"Could not get {requested} connections at once, {released} already acquired " ++
      s!"connection(s) have been released: {source.message}"
  | .close resource reason => s!"Failed to close {resource}: {reason}"
  | .connection reason => s!"Connection error: {reason}"
  | .transaction reason => s!"Transaction error: {reason}"
  | .invalidRule reason => s!"Invalid rule configuration: {reason}"
  | .validation reason => s!"Validation error: {reason}"
  | .internal reason => s!"Internal error: {reason}"
  | .configuration reason => s!"Configuration error: {reason}"

end Error

end ShardRegistry
