import ShardRegistry.Dialect
import ShardRegistry.Text.Quoted
import ShardRegistry.Url.Read

/-! Connection parameters of a backend: what to connect to and how its pool is sized. Two parameter
sets are the same backend exactly when all fields agree. -/
namespace ShardRegistry

structure ConnectionParameters where
  url : String
  username : String := ""
  password : String := ""
  connectionTimeoutMs : Nat := 30000
  idleTimeoutMs : Nat := 60000
  maxLifetimeMs : Nat := 1800000
  maxPoolSize : Nat := 50
  minPoolSize : Nat := 1
  readOnly : Bool := false
  deriving DecidableEq, Inhabited

/-- Why parameters are not acceptable. -/
inductive ParameterFault where
  /-- Fields whose value is out of its bounds, with the reason. -/
  | fields (reasons : List (String × String))
  | poolBounds (min max : Nat)

def ParameterFault.message : ParameterFault → String
  | .fields reasons => String.intercalate "\n" (reasons.map fun (f, r) => s!"{f}: {r}")
  | .poolBounds min max => s!"minPoolSize ({min}) must not exceed maxPoolSize ({max})"

namespace ConnectionParameters

def record : Json.Record ConnectionParameters :=
  ConnectionParameters.mk <$> .required "url" .string <*> .optional "username" .string ""
    <*> .optional "password" .string "" <*> .optional "connectionTimeoutMs" .natural 30000
    <*> .optional "idleTimeoutMs" .natural 60000 <*> .optional "maxLifetimeMs" .natural 1800000
    <*> .optional "maxPoolSize" .natural 50 <*> .optional "minPoolSize" .natural 1
    <*> .optional "readOnly" .bool false

def decode : Json.Decoder ConnectionParameters := record.decode

def toJson (p : ConnectionParameters) : Json :=
  .object [("url", .string p.url), ("username", .string p.username),
    ("password", .string p.password), ("connectionTimeoutMs", .natural p.connectionTimeoutMs),
    ("idleTimeoutMs", .natural p.idleTimeoutMs), ("maxLifetimeMs", .natural p.maxLifetimeMs),
    ("maxPoolSize", .natural p.maxPoolSize), ("minPoolSize", .natural p.minPoolSize),
    ("readOnly", .bool p.readOnly)]

/-- The bounds of single fields come before those between fields. -/
def faults (p : ConnectionParameters) : Except ParameterFault Unit :=
  let reasons :=
    (if p.url.isEmpty then [("url", "url is required")] else []) ++
      if p.maxPoolSize = 0 then [("max_pool_size", "maxPoolSize must be at least 1")] else []
  if !reasons.isEmpty then .error (.fields reasons)
  else if p.minPoolSize > p.maxPoolSize then .error (.poolBounds p.minPoolSize p.maxPoolSize)
  else .ok ()

def check (p : ConnectionParameters) : Except Error Unit :=
  match p.faults with
  | .ok _ => .ok ()
  | .error f => .error (.validation f.message)

def dialect (p : ConnectionParameters) : Except Error Dialect := Dialect.ofUrl p.url

/-- A text without all repetitions of `word` at its beginning. -/
def withoutAll (word : List Char) : Nat → List Char → List Char
  | 0, cs => cs
  | fuel + 1, cs => if word.isPrefixOf cs then withoutAll word fuel (cs.drop word.length) else cs

/-- The URL as it may be shown: a password in it is masked. -/
def displayUrl (p : ConnectionParameters) : String :=
  let mark := "jdbc:".toList
  let cs := p.url.toList
  match Url.read (String.ofList (withoutAll mark cs.length cs)) with
  | .ok url =>
    if url.password.isSome then
      let masked := { url with password := some "****".toList }.text
      String.ofList (if mark.isPrefixOf cs then mark ++ masked else masked)
    else p.url
  | .error _ => p.url

/-- The parameters as diagnostics show them. -/
def debug (p : ConnectionParameters) : String :=
  let url := Text.quoted p.displayUrl
  let username := Text.quoted p.username
  let mask := Text.quoted "****"
  "ConnectionParameters \x7b " ++ s!"url: {url}, username: {username}, password: {mask}, " ++
    s!"connection_timeout_ms: {p.connectionTimeoutMs}, idle_timeout_ms: {p.idleTimeoutMs}, " ++
    s!"max_lifetime_ms: {p.maxLifetimeMs}, max_pool_size: {p.maxPoolSize}, " ++
    s!"min_pool_size: {p.minPoolSize}, read_only: {p.readOnly}" ++ " \x7d"

end ConnectionParameters

end ShardRegistry
