import ShardRegistry.Connection.Parameters

/-! Network endpoints. Fields of the parameters that are not empty come before what the URL says, and
a `jdbc:` mark in front of the URL is passed over. -/
namespace ShardRegistry

structure Endpoint where
  host : String
  port : Nat
  user : String
  password : String
  database : String
  requireTls : Bool
  deriving DecidableEq

namespace Endpoint

/-- The URL behind a mark in lower or upper case. -/
def unmarked (cs : List Char) : List Char :=
  if "jdbc:".toList.isPrefixOf cs || "JDBC:".toList.isPrefixOf cs then cs.drop 5 else cs

def given (field : String) (part : List Char) : String :=
  if field.isEmpty then String.ofList part else field

/-- The modes of a session that ask for an encrypted connection. -/
def encryptedModes : List String := ["require", "verify-full", "verify-ca"]

def ofUrl (p : ConnectionParameters) (dialect : Dialect) (url : Url) : Except String Endpoint := do
  let some host := url.host | throw "Missing host in connection url"
  let some port := url.port <|> dialect.defaultPort | throw "Missing port in connection url"
  let database := url.path.dropWhile (· = '/')
  if database.isEmpty then throw "Missing database name in connection url"
  return { host := String.ofList host, port,
           user := given p.username url.username,
           password := given p.password (url.password.getD []),
           database := String.ofList database,
           requireTls := url.hasParameter "sslmode" encryptedModes }

end Endpoint

def ConnectionParameters.endpoint (p : ConnectionParameters) : Except Error Endpoint := do
  let dialect ← p.dialect
  let url := String.ofList (Endpoint.unmarked (Text.strip Text.isBlank p.url.toList))
  match Url.read url with
  | .error fault => throw (.configuration s!"Invalid connection url: {fault.message}")
  | .ok url => match Endpoint.ofUrl p dialect url with
    | .error reason => throw (.configuration reason)
    | .ok endpoint => return endpoint

end ShardRegistry
