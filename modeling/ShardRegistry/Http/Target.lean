import ShardRegistry.Text.Percent

/-! Targets of requests: a path with an optional query, a whole URL, the name of an authority, or an
asterisk. A fragment is cut off, and nothing is decoded. -/
namespace ShardRegistry.Http

structure Target where
  path : List Char
  query : Option (List Char) := none
  deriving DecidableEq, Repr

namespace Target

/-- The greatest number of bytes of a target. -/
def limit : Nat := 65534

def isAmong (cs : String) (c : Char) : Bool := cs.toList.contains c

/-- Whether a character may stand in a query as it is. -/
def inQuery (c : Char) : Bool := c.toNat > 32 && !isAmong "\"#<>" c

/-- Whether a character may stand in a path as it is. -/
def inPath (c : Char) : Bool := c.toNat > 32 && !isAmong "#<>?`" c

/-- Reads a path, which ends at a question mark, and a query, which ends at a number sign. -/
def readPath (cs : List Char) : Option Target :=
  let cs := cs.takeWhile (· ≠ '#')
  let path := cs.takeWhile (· ≠ '?')
  let query := match cs.dropWhile (· ≠ '?') with
    | _ :: query => some query
    | [] => none
  if path.all inPath && (query.getD []).all inQuery then
    some ⟨if path.isEmpty then ['/'] else path, query⟩
  else none

/-- Whether a character may stand in an authority. -/
def inAuthority (c : Char) : Bool :=
  Text.isLetter c || Text.isDigit c || isAmong "!$&'()*+,-.:;=@[]_~%" c

/-- What was met in an authority: colons and percent signs since its last at sign or bracket, and
brackets. -/
structure AuthorityScan where
  colons : Nat := 0
  percent : Bool := false
  opened : Bool := false
  closed : Bool := false

namespace AuthorityScan

def next (s : AuthorityScan) (c : Char) : Option AuthorityScan :=
  if !inAuthority c then none
  else if c = ':' then (if s.colons ≥ 8 then none else some { s with colons := s.colons + 1 })
  else if c = '[' then (if s.percent || s.opened then none else some { s with opened := true })
  else if c = ']' then
    (if !s.opened || s.closed then none
      else some { s with closed := true, colons := 0, percent := false })
  else if c = '@' then some { s with colons := 0, percent := false }
  else if c = '%' then some { s with percent := true }
  else some s

def run (s : AuthorityScan) : List Char → Option AuthorityScan
  | [] => some s
  | c :: cs => do run (← s.next c) cs

end AuthorityScan

/-- Whether a text is an authority: a host with at most one colon after it, no percent sign outside
the user name and the brackets, and something after the at sign. -/
def isAuthority (cs : List Char) : Bool :=
  match AuthorityScan.run {} cs with
  | none => false
  | some s => s.opened == s.closed && s.colons ≤ 1 && !s.percent && cs.getLast? ≠ some '@'

/-- What follows the scheme of a whole URL and its slashes. -/
def afterScheme? (cs : List Char) : Option (Option (List Char)) :=
  let isPart (c : Char) := Text.isLetter c || Text.isDigit c || isAmong "+-." c
  match cs.dropWhile isPart with
  | ':' :: '/' :: '/' :: rest =>
    if (cs.takeWhile isPart).length > 64 then none else some (some rest)
  | _ => some none

def endsAuthority (c : Char) : Bool := c = '/' || c = '?' || c = '#'

def read (text : String) : Option Target :=
  let cs := text.toList
  if cs.isEmpty || text.utf8ByteSize > limit then none
  else if cs.head? = some '/' then readPath cs
  else if cs = ['*'] then some ⟨cs, none⟩
  else match afterScheme? cs with
    | none => none
    | some none => if isAuthority cs then some ⟨[], none⟩ else none
    | some (some rest) =>
      let authority := rest.takeWhile fun c => !endsAuthority c
      if authority.isEmpty || !isAuthority authority then none
      else readPath (rest.dropWhile fun c => !endsAuthority c)

end Target

end ShardRegistry.Http
