import ShardRegistry.Text.Blank
import ShardRegistry.Text.Natural
import ShardRegistry.Url.Domain
import ShardRegistry.Url.Path

/-! Reading URLs. Controls and spaces around the text are dropped, tabs and line ends anywhere. Of a
URL without an authority only the scheme is kept. -/
namespace ShardRegistry.Url

/-- A letter, and then letters, digits, plus, minus and point up to a colon. -/
def readScheme (cs : List Char) : Option (List Char × List Char) :=
  let isPart (c : Char) := Text.isLetter c || Text.isDigit c || isOneOf "+-." c
  match cs.dropWhile isPart with
  | ':' :: rest =>
    let scheme := cs.takeWhile isPart
    if (scheme.head?.map Text.isLetter).getD false then some (scheme.map Text.lowerAscii, rest)
    else none
  | _ => none

/-- Whether the authority of a URL ends before the character. -/
def endsAuthority (special : Bool) (c : Char) : Bool :=
  c = '/' || c = '?' || c = '#' || (special && c = '\\')

/-- The texts before and after the last at sign. -/
def splitLastAt (cs : List Char) : Option (List Char × List Char) :=
  match cs.reverse.dropWhile (· ≠ '@') with
  | _ :: before => some (before.reverse, (cs.reverse.takeWhile (· ≠ '@')).reverse)
  | [] => none

/-- User name and password, if there is one that is not empty. -/
structure Credentials where
  username : List Char
  password : Option (List Char)

def Credentials.read (cs : List Char) : Credentials :=
  let username := cs.takeWhile (· ≠ ':')
  let password := (cs.dropWhile (· ≠ ':')).drop 1
  ⟨Text.percentEncode userEscaped username,
    if password.isEmpty then none else some (Text.percentEncode userEscaped password)⟩

def Credentials.isEmpty (c : Credentials) : Bool := c.username.isEmpty && c.password.isNone

/-- The end of a host: a colon outside brackets. -/
def splitHost (inside : Bool) : List Char → List Char × List Char
  | [] => ([], [])
  | c :: cs =>
    if c = ':' && !inside then ([], c :: cs)
    else
      let (host, rest) := splitHost (if c = '[' then true else if c = ']' then false else inside) cs
      (c :: host, rest)

def hostForbidden (c : Char) : Bool := c.toNat = 0 || isOneOf "\t\n\r #/:<>?@[\\]^|" c

/-- The address between brackets. -/
def bracketHost (cs : List Char) : Except Fault (List Char) :=
  if cs.getLast? = some ']' then
    match Ipv6.read (cs.drop 1).dropLast with
    | some ns => .ok (Ipv6.write ns)
    | none => .error .ipv6
  else .error .ipv6

def opaqueHost (cs : List Char) : Except Fault (List Char) :=
  if cs.head? = some '[' then bracketHost cs
  else if cs.any hostForbidden then .error .domainCharacter
  else .ok (Text.percentEncode isControl cs)

def specialHost (cs : List Char) : Except Fault (List Char) :=
  if cs.isEmpty then .error .emptyHost
  else if cs.head? = some '[' then bracketHost cs
  else domainHost cs

/-- The digits of a port, and what follows them: a slash of either kind, or the end. -/
def readPort (cs : List Char) : Except Fault (Option Nat × List Char) :=
  let ds := cs.takeWhile Text.isDigit
  let rest := cs.dropWhile Text.isDigit
  let n := Text.digitsValue 0 ds
  if n > 65535 then .error .port
  else match rest with
    | [] | '\\' :: _ => .ok (if ds.isEmpty then none else some n, rest)
    | _ => .error .port

/-- What stands before the query and the fragment, and these. -/
def splitTail (special : Bool) (cs : List Char) :
    List Char × Option (List Char) × Option (List Char) :=
  let main := cs.takeWhile (· ≠ '#')
  let fragment := match cs.dropWhile (· ≠ '#') with
    | _ :: f => some (Text.percentEncode fragmentEscaped f)
    | [] => none
  let query := match main.dropWhile (· ≠ '?') with
    | _ :: q => some (Text.percentEncode (if special then specialQueryEscaped else queryEscaped) q)
    | [] => none
  (main.takeWhile (· ≠ '?'), query, fragment)

/-- Reads a URL after the slashes in front of its authority. -/
def readAuthority (scheme : List Char) (special : Bool) (cs : List Char) : Except Fault Url := do
  let authority := cs.takeWhile fun c => !endsAuthority special c
  let after := cs.dropWhile fun c => !endsAuthority special c
  let (credentials, hostText, ended) := match splitLastAt authority with
    | some ([], rest) => (Credentials.mk [] none, rest, rest.isEmpty && !after.isEmpty)
    | some (user, rest) => (Credentials.read user, rest, false)
    | none => (Credentials.mk [] none, authority, false)
  if ended then throw .emptyHost
  let (hostText, portText) := splitHost false hostText
  let host ← if special then specialHost hostText else opaqueHost hostText
  if host.isEmpty && !portText.isEmpty then throw .emptyHost
  let (port, rest) ← match portText with
    | _ :: ds => readPort ds
    | [] => pure (none, [])
  if host.isEmpty && !credentials.isEmpty then throw .emptyHost
  let (path, query, fragment) := splitTail special (rest ++ after)
  return { scheme, username := credentials.username, password := credentials.password,
           host := if host.isEmpty then none else some host,
           port := port.filter fun p => some p ≠ specialPort? scheme,
           path := pathOf special path, query, fragment }

def read (text : String) : Except Fault Url := do
  let cs := (Text.strip (fun c => c.toNat ≤ 32) text.toList).filter fun c => !isOneOf "\t\n\r" c
  let some (scheme, rest) := readScheme cs | throw .noScheme
  if (specialPort? scheme).isSome then
    readAuthority scheme true (rest.dropWhile fun c => c = '/' || c = '\\')
  else match rest with
    | '/' :: '/' :: rest =>
      if scheme = "file".toList then return { scheme } else readAuthority scheme false rest
    | _ => return { scheme }

/-- Whether the query has the parameter `name` with one of the values, all of plain characters. -/
def hasParameter (u : Url) (name : String) (values : List String) : Bool :=
  let decode (cs : List Char) := Text.percentDecode
    (Text.utf8 (String.ofList (cs.map fun c => if c = '+' then ' ' else c)))
  ((u.query.getD []).splitOn '&').any fun pair =>
    decode (pair.takeWhile (· ≠ '=')) == Text.utf8 name &&
      values.any fun v => decode ((pair.dropWhile (· ≠ '=')).drop 1) == Text.utf8 v

end ShardRegistry.Url
