import ShardRegistry.Json.Decode
import ShardRegistry.Text.Quoted

/-! Users of the proxy and the schemas they may use. A user without a list may use every schema. -/
namespace ShardRegistry

structure User where
  password : String
  authorizedSchemas : SortedSet := .empty
  deriving DecidableEq

structure Authentication where
  users : SortedMap User := .empty
  deriving DecidableEq, Inhabited

namespace User

def decode : Json.Decoder User :=
  Json.Record.decode <| User.mk <$> .required "password" .string
    <*> .optional "authorizedSchemas" .sortedSet .empty

def toJson (u : User) : Json :=
  .object [("password", .string u.password),
    ("authorizedSchemas", .strings u.authorizedSchemas.toList)]

def isAuthorized (u : User) (schema : String) : Bool :=
  u.authorizedSchemas.isEmpty || u.authorizedSchemas.contains schema

/-- The items in braces, with commas between them. -/
def braced (items : List String) : String :=
  "\x7b" ++ String.intercalate ", " items ++ "\x7d"

def debug (u : User) : String :=
  "ProxyUser \x7b password: " ++ Text.quoted "****" ++ ", authorized_schemas: " ++
    braced (u.authorizedSchemas.toList.map Text.quoted) ++ " \x7d"

end User

namespace Authentication

def decode : Json.Decoder Authentication :=
  Json.Record.decode <| Authentication.mk <$> .optional "users" (.sortedMap User.decode) .empty

def toJson (a : Authentication) : Json :=
  .object [("users", .object (a.users.entries.map fun e => (e.1, e.2.toJson)))]

/-- The users with one more, who takes the place of one of the same name. -/
def withUser (a : Authentication) (name : String) (u : User) : Authentication :=
  ⟨a.users.insert name u⟩

def debug (a : Authentication) : String :=
  "Authentication \x7b users: " ++
    User.braced (a.users.entries.map fun e => Text.quoted e.1 ++ ": " ++ e.2.debug) ++ " \x7d"

end Authentication

end ShardRegistry
