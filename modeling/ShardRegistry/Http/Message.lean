import ShardRegistry.Http.Target
import ShardRegistry.Json.Value
import ShardRegistry.Text.LowerCase

/-! Requests and responses. Header names stand in lower case, and of headers with one name the first
counts. -/
namespace ShardRegistry.Http

structure Request where
  method : String
  target : Target
  headers : List (String × String) := []
  body : String := ""

/-- The content of a response. -/
inductive Body where
  | empty
  | json (value : Json)
  | text (content : String)
  /-- The gzip form of a text. -/
  | gzip (content : String)

/-- The identifier of a request, which its response repeats. -/
inductive RequestId where
  | given (value : String)
  /-- One that was made for a request without any. -/
  | fresh
  deriving DecidableEq, Repr

structure Response where
  status : Nat
  headers : List (String × String) := []
  requestId : Option RequestId := none
  body : Body := .empty

/-- The characters of a token. -/
def isTokenChar (c : Char) : Bool :=
  Text.isLetter c || Text.isDigit c || "!#$%&'*+-.^_`|~".toList.contains c

def isToken (s : String) : Bool := !s.isEmpty && s.toList.all isTokenChar

/-- Whether a text can be the value of a header: it has no control characters but tabs. -/
def isHeaderValue (s : String) : Bool :=
  s.toList.all fun c => c = '\t' || (32 ≤ c.toNat && c.toNat ≠ 127)

/-- Whether a header value has ASCII characters alone. -/
def isPlain (value : String) : Bool := value.toList.all Text.isAscii

def headerName (name : String) : String := String.ofList (name.toList.map Text.lowerAscii)

namespace Request

/-- Makes a request, if its parts are well formed. -/
def make? (method target : String) (headers : List (String × String)) (body : String) :
    Option Request := do
  let target ← Target.read target
  if isToken method && headers.all fun h => isToken h.1 && isHeaderValue h.2 then
    some { method, target, body, headers := headers.map fun h => (headerName h.1, h.2) }
  else none

def header? (q : Request) (name : String) : Option String := q.headers.lookup name

/-- The values of all headers of a name. -/
def headerValues (q : Request) (name : String) : List String :=
  (q.headers.filter (·.1 = name)).map (·.2)

def requestId (q : Request) : RequestId :=
  match q.header? "x-request-id" with
  | some value => .given value
  | none => .fresh

end Request

namespace Body

/-- The number of bytes of a body that is not encoded. -/
def size : Body → Nat
  | .empty => 0
  | .json value => value.print.utf8ByteSize
  | .text content | .gzip content => content.utf8ByteSize

end Body

end ShardRegistry.Http
