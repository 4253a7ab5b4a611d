import ShardRegistry.Http.Message
import ShardRegistry.Schema.Build

/-! Which pages of other origins may call the admin interface. -/
namespace ShardRegistry.Admin
open Http

inductive CorsPolicy where
  | anyOrigin
  | only (origins : List String)
  deriving DecidableEq, Repr

namespace CorsPolicy

/-- The policy for allowed origins. Those that cannot be header values are passed over, and without
any that is left every origin is allowed. An asterisk among them ends the process. -/
def ofOrigins (allowed : List String) : Except Stop CorsPolicy :=
  let origins := allowed.filter isHeaderValue
  if origins.isEmpty then .ok .anyOrigin
  else if origins.contains "*" then .error .crashed
  else .ok (.only origins)

/-- The origin that a response to a request from `origin` admits. -/
def admitted? (p : CorsPolicy) (origin : Option String) : Option String :=
  match p with
  | .anyOrigin => some "*"
  | .only origins => origin.filter origins.contains

def admits (p : CorsPolicy) (origin : String) : Bool := (p.admitted? (some origin)).isSome

def originHeaders (p : CorsPolicy) (q : Request) : List (String × String) :=
  ((p.admitted? (q.header? "origin")).map fun o => ("access-control-allow-origin", o)).toList

/-- The response to a page that asks what it may do. -/
def preflight (p : CorsPolicy) (q : Request) : Response where
  status := 200
  headers := p.originHeaders q ++
    [("access-control-allow-methods", "GET,POST,PUT,DELETE,OPTIONS"),
      ("access-control-allow-headers", "content-type,authorization,accept"),
      ("access-control-max-age", "3600")]

end CorsPolicy

end ShardRegistry.Admin
