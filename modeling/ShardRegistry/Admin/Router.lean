import ShardRegistry.Admin.Cors
import ShardRegistry.Admin.ErrorResponse
import ShardRegistry.Admin.View
import ShardRegistry.Http.ContentCoding
import ShardRegistry.Http.MediaType
import ShardRegistry.Run.Schedule

/-! The admin interface: what each path and method answers, and the events that clients apply to the
registry. -/
namespace ShardRegistry.Admin
open Http

/-- The release that the interface reports. -/
def version : String := "0.1.0"

/-- The greatest number of bytes of a body that is read. -/
def bodyLimit : Nat := 2097152

inductive Route where
  | health
  | schemas
  /-- A schema, by its name as the path writes it. -/
  | schema (segment : List Char)
  | heartbeat
  | events
  deriving DecidableEq, Repr

namespace Route

def ofPath? (path : List Char) : Option Route :=
  match path.splitOn '/' with
  | [[], first] => if first = "health".toList then some .health else none
  | [[], api, second] =>
    if api ≠ "api".toList then none
    else if second = "schemas".toList then some .schemas
    else if second = "heartbeat".toList then some .heartbeat
    else if second = "events".toList then some .events
    else none
  | [[], api, second, segment] =>
    if api = "api".toList && second = "schemas".toList && !segment.isEmpty then
      some (.schema segment)
    else none
  | _ => none

/-- The methods that a route answers, as a header lists them. -/
def allowed : Route → String
  | .events => "POST"
  | _ => "GET,HEAD"

def answers (route : Route) (method : String) : Bool :=
  match route with
  | .events => method = "POST"
  | _ => method = "GET" || method = "HEAD"

end Route

/-- The moments that answers tell of, as texts: now, the last publication, the last heartbeat. -/
structure Moments where
  now : String
  published : String
  detected : String

def jsonResponse (status : Nat) (value : Json) : Response where
  status := status
  headers := [("content-type", "application/json")]
  body := .json value

/-- A response that says in plain text why a request was not understood. -/
def refusal (status : Nat) (reason : String) : Response where
  status := status
  headers := [("content-type", "text/plain; charset=utf-8")]
  body := .text reason

/-- A response that reports success: a message, and then the members of what was asked for. -/
def success (message : String) (members : List (String × Json)) : Response :=
  jsonResponse 200 (.object ([("success", .bool true), ("message", .string message)] ++ members))

def errorResponse (e : Error) : Response := jsonResponse e.status e.body

def health (moments : Moments) : Response :=
  success "Server is running fine."
    [("timestamp", .string moments.now), ("version", .string version)]

def listSchemas (g : Registry) (moments : Moments) : Response :=
  success s!"Found {g.schemaNames.length} schema(s)."
    [("schemas", .strings g.schemaNames), ("generation", .natural g.generation),
      ("publishedAt", .string moments.published), ("circuitBreak", .bool g.circuitOpen)]

def describeSchema (w : World) (segment : List Char) : Response :=
  match Text.ofUtf8? (Text.percentDecode (Text.utf8 (String.ofList segment))) with
  | none => refusal 400 "Invalid URL: Invalid UTF-8 in `name`"
  | some name => match w.registry.getSchema name with
    | .error e => errorResponse e
    | .ok c => success s!"Schema '{name}' retrieved."
        (SchemaDetail.ofContext w.resources w.live c.value w.driver).members

def listHeartbeats (g : Registry) (moments : Moments) : Response :=
  success s!"{g.heartbeats.length} data source(s) reported."
    [("results", .array (g.heartbeats.map fun h => .object
      (h.members ++ [("detectedAt", .string moments.detected)])))]

/-- Reads the event in the body of a request. -/
def readEvent (q : Request) : Except Response Event :=
  if !q.hasJsonBody then
    .error (refusal 415 "Expected request with `Content-Type: application/json`")
  else if q.body.utf8ByteSize > bodyLimit then
    .error (refusal 413 "Failed to buffer the request body: length limit exceeded")
  else match Event.decode.run q.body with
    | .ok event => .ok event
    | .error .malformed => .error (refusal 400 "Failed to parse the request body as JSON")
    | .error (.mismatch _) =>
      .error (refusal 422 "Failed to deserialize the JSON body into the target type")

/-- The response to an event that was applied; one that has to wait has none yet. -/
def eventResponse (event : Event) : Outcome → Option Response
  | .generation n => some (success s!"Event '{event.kind}' applied."
      [("event", .string event.kind), ("generation", .natural n)])
  | .failed e => some (errorResponse e)
  | _ => none

/-- Applies the event of a request. -/
def applyEvent (w : World) (q : Request) : World × Option Response :=
  match readEvent q with
  | .error refused => (w, some refused)
  | .ok event =>
    let (w, outcome) := w.perform fun w t => w.beginEvent t event
    (w, outcome.bind (eventResponse event))

/-- The response of a route to a method that it answers. -/
def serve (w : World) (moments : Moments) (q : Request) : Route → World × Option Response
  | .health => (w, some (health moments))
  | .schemas => (w, some (listSchemas w.registry moments))
  | .schema segment => (w, some (describeSchema w segment))
  | .heartbeat => (w, some (listHeartbeats w.registry moments))
  | .events => applyEvent w q

/-- The response before its headers are completed. -/
def dispatch (w : World) (moments : Moments) (q : Request) :
    Option Route → World × Option Response
  | none => (w, some { status := 404 })
  | some route =>
    if route.answers q.method then serve w moments q route
    else (w, some { status := 405, headers := [("allow", route.allowed)] })

/-- Adds what every response has besides its content. -/
def complete (policy : CorsPolicy) (q : Request) (r : Response) : Response :=
  let r := { r with
    headers := r.headers ++ policy.originHeaders q, requestId := some q.requestId }
  let r := r.inCoding q.coding
  if q.method = "HEAD" then { r with body := .empty } else r

/-- Responds to a request. -/
def respond (policy : CorsPolicy) (w : World) (moments : Moments) (q : Request) :
    World × Option Response :=
  let route := Route.ofPath? q.target.path
  if q.method = "OPTIONS" then
    let r := policy.preflight q
    (w, some { r with
      headers := r.headers ++ (route.map fun route => ("allow", route.allowed)).toList })
  else
    let (w, r) := dispatch w moments q route
    (w, r.map (complete policy q))

end ShardRegistry.Admin
