import ShardRegistry.Text.Percent

/-! Parsed URLs, their text, and the classes of characters that each part writes percent encoded. -/
namespace ShardRegistry

/-- The parts of a URL as its text writes them. A URL without an authority has no host, and a host
of an empty name counts as none. -/
structure Url where
  scheme : List Char
  username : List Char := []
  password : Option (List Char) := none
  host : Option (List Char) := none
  port : Option Nat := none
  path : List Char := []
  query : Option (List Char) := none
  fragment : Option (List Char) := none
  deriving DecidableEq

namespace Url

/-- Why a text is no URL. -/
inductive Fault where
  | emptyHost
  | domainName
  | port
  | ipv4
  | ipv6
  | domainCharacter
  | noScheme
  deriving DecidableEq, Repr

def Fault.message : Fault → String
  | .emptyHost => "empty host"
  | .domainName => "invalid international domain name"
  | .port => "invalid port number"
  | .ipv4 => "invalid IPv4 address"
  | .ipv6 => "invalid IPv6 address"
  | .domainCharacter => "invalid domain character"
  | .noScheme => "relative URL without a base"

def isControl (c : Char) : Bool := c.toNat < 32 || c.toNat = 127

def isOneOf (cs : String) (c : Char) : Bool := cs.toList.contains c

def fragmentEscaped (c : Char) : Bool := isControl c || isOneOf " \"<>`" c

def queryEscaped (c : Char) : Bool := isControl c || isOneOf " \"#<>" c

def specialQueryEscaped (c : Char) : Bool := queryEscaped c || c = '\''

def pathEscaped (c : Char) : Bool := isControl c || isOneOf " \"#<>`?\x7b\x7d" c

def userEscaped (c : Char) : Bool := pathEscaped c || isOneOf "/:;=@[\\]^|" c

/-- The port that a scheme stands for, for the schemes whose URLs are read by rules of their own. -/
def specialPort? (scheme : List Char) : Option Nat :=
  match String.ofList scheme with
  | "http" | "ws" => some 80
  | "https" | "wss" => some 443
  | "ftp" => some 21
  | _ => none

def text (u : Url) : List Char :=
  let credentials := match u.password with
    | some p => u.username ++ ':' :: p ++ ['@']
    | none => if u.username.isEmpty then [] else u.username ++ ['@']
  u.scheme ++ [':', '/', '/'] ++ credentials ++ u.host.getD [] ++
    (match u.port with | some p => ':' :: Nat.toDigits 10 p | none => []) ++
    u.path ++
    (match u.query with | some q => '?' :: q | none => []) ++
    (match u.fragment with | some f => '#' :: f | none => [])

end Url

end ShardRegistry
