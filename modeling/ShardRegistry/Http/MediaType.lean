import ShardRegistry.Http.Message

/-! Media types: a type, a subtype, and parameters, which are only checked. -/
namespace ShardRegistry.Http

structure MediaType where
  type : List Char
  subtype : List Char
  /-- What stands behind the last plus sign of the subtype. -/
  suffix : Option (List Char) := none
  deriving DecidableEq, Repr

namespace MediaType

/-- The characters of the names in a media type. -/
def isNameChar (c : Char) : Bool := isTokenChar c && c ≠ '*'

/-- The characters of a quoted value. -/
def isQuotedChar (c : Char) : Bool := c.toNat > 31 && c.toNat ≠ 127

/-- What follows a quoted value, after its opening quote: nothing, or a semicolon after spaces. The
value is not empty, so its first character does not close it. -/
def afterQuoted (cs : List Char) : Option (List Char) :=
  if !(cs.head?.any isQuotedChar) then none
  else match (cs.drop 1).dropWhile fun c => c ≠ '"' && isQuotedChar c with
    | _ :: rest => match rest.dropWhile (· = ' ') with
      | [] => some []
      | ';' :: rest => some rest
      | _ => none
    | [] => none

/-- What follows a parameter without spaces in front of it. -/
def afterParameter (cs : List Char) : Option (List Char) :=
  let name := cs.takeWhile isNameChar
  match cs.dropWhile isNameChar with
  | '=' :: '"' :: rest => if name.isEmpty then none else afterQuoted rest
  | '=' :: rest =>
    if name.isEmpty then none
    else match rest.dropWhile isNameChar with
      | [] => some []
      | ';' :: after => if (rest.takeWhile isNameChar).isEmpty then none else some after
      | _ => none
  | _ => none

/-- Whether a text is a list of parameters. -/
def areParameters : Nat → List Char → Bool
  | 0, _ => false
  | fuel + 1, cs =>
    match cs.dropWhile (· = ' ') with
    | [] => true
    | cs => match afterParameter cs with
      | some rest => areParameters fuel rest
      | none => false

/-- The subtype before its last plus sign and the suffix after it, unless the plus sign is the first
character. -/
def splitSuffix (cs : List Char) : List Char × Option (List Char) :=
  let suffix := (cs.reverse.takeWhile (· ≠ '+')).reverse
  let subtype := cs.take (cs.length - suffix.length - 1)
  if suffix.length < cs.length && !subtype.isEmpty then (subtype, some suffix) else (cs, none)

def read (text : String) : Option MediaType :=
  let cs := text.toList.map Text.lowerAscii
  let type := cs.takeWhile isNameChar
  match cs.dropWhile isNameChar with
  | '/' :: rest =>
    let (subtype, suffix) := splitSuffix (rest.takeWhile isNameChar)
    if type.isEmpty then none
    else match rest.dropWhile isNameChar with
      | [] => some ⟨type, subtype, suffix⟩
      | ';' :: ps =>
        if !(rest.takeWhile isNameChar).isEmpty && areParameters (ps.length + 1) ps then
          some ⟨type, subtype, suffix⟩
        else none
      | _ => none
  | _ => none

def isJson (m : MediaType) : Bool :=
  m.type = "application".toList &&
    (m.subtype = "json".toList || m.suffix = some "json".toList)

end MediaType

/-- Whether a request declares its body to be JSON. -/
def Request.hasJsonBody (q : Request) : Bool :=
  match (q.header? "content-type").filter isPlain with
  | some value => ((MediaType.read value).map (·.isJson)).getD false
  | none => false

end ShardRegistry.Http
