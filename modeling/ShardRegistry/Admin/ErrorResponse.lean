import ShardRegistry.Error
import ShardRegistry.Json.Value

/-! Errors as responses of the admin interface: a status, a code, a message, and for some causes a
detail. Driver, pool, configuration and internal errors hide their text behind a general message. -/
namespace ShardRegistry.Error

/-- The status of the response to an error. -/
def status : Error → Nat
  | .database _ | .close .. | .internal _ => 500
  | .pool _ | .batch .. => 503
  | .build .. | .invalidRule _ => 422
  | .schemaNotFound _ | .dataSourceNotFound .. => 404
  | .connection _ => 502
  | .transaction _ => 409
  | .validation _ | .configuration _ => 400

def code : Error → String
  | .database _ => "DATABASE_ERROR"
  | .pool _ => "POOL_EXHAUSTED"
  | .build .. => "CONFIGURATION_BUILD_ERROR"
  | .schemaNotFound _ | .dataSourceNotFound .. => "NOT_FOUND"
  | .batch .. => "BATCH_ACQUISITION_ERROR"
  | .close .. => "RESOURCE_CLOSE_ERROR"
  | .connection _ => "CONNECTION_ERROR"
  | .transaction _ => "TRANSACTION_ERROR"
  | .invalidRule _ => "INVALID_RULE"
  | .validation _ => "VALIDATION_ERROR"
  | .internal _ => "INTERNAL_ERROR"
  | .configuration _ => "CONFIG_ERROR"

/-- What a client is told. -/
def publicMessage : Error → String
  | .database _ => "A database error occurred"
  | .pool _ => "Backend connection pool exhausted"
  | .build backend _ => s!"Can not build data source `{backend}`"
  | .internal _ => "An internal error occurred"
  | .configuration _ => "A configuration error occurred"
  | .connection r | .transaction r | .invalidRule r | .validation r => r
  | e => e.message

def detail? : Error → Option String
  | .database reason => some reason
  | .pool fault => some fault.message
  | .build _ source | .batch _ _ source => some source.message
  | .internal r | .configuration r => some r
  | _ => none

def body (e : Error) : Json :=
  .object ([("success", .bool false), ("message", .string e.publicMessage)] ++
    (e.detail?.map fun d => ("error", Json.string d)).toList ++ [("code", .string e.code)])

end ShardRegistry.Error
