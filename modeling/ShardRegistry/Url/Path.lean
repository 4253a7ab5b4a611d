import ShardRegistry.Url.Basic

/-! Paths of URLs. A segment of one dot vanishes, and one of two dots takes the segment before it
away, unless that one is the first or names a drive. -/
namespace ShardRegistry.Url

/-- A dot, plain or percent encoded, at the front of a segment. -/
def afterDot? : List Char → Option (List Char)
  | '.' :: cs => some cs
  | '%' :: '2' :: 'e' :: cs | '%' :: '2' :: 'E' :: cs => some cs
  | _ => none

def isSingleDot (segment : List Char) : Bool := afterDot? segment = some []

def isDoubleDot (segment : List Char) : Bool := ((afterDot? segment).map isSingleDot).getD false

/-- Whether a segment names a drive: a letter and a colon or bar, and nothing more or a reverse
solidus. -/
def isDrive : List Char → Bool
  | [c, d] => Text.isLetter c && (d = ':' || d = '|')
  | c :: d :: '\\' :: _ => Text.isLetter c && (d = ':' || d = '|')
  | _ => false

/-- The segments after one of two dots, last first. -/
def shorten : List (List Char) → List (List Char)
  | segment :: above :: rest => if isDrive segment then segment :: above :: rest else above :: rest
  | segments => segments

/-- The text of complete segments, given last first: each one is followed by a slash. -/
def joinSegments (segments : List (List Char)) : List Char :=
  segments.reverse.flatMap (· ++ ['/'])

/-- Adds a segment that a slash follows. -/
def addSegment (segments : List (List Char)) (segment : List Char) : List (List Char) :=
  if isDoubleDot segment then shorten segments
  else if isSingleDot segment then segments
  else segment :: segments

/-- The path that ends in the given segment. -/
def endPath (segments : List (List Char)) (segment : List Char) : List Char :=
  if isDoubleDot segment then joinSegments (shorten segments)
  else if isSingleDot segment then joinSegments segments
  else joinSegments segments ++ segment

/-- Reads a path; `segments` are the complete ones and `segment` what was read of the next one,
both in reverse order. In a special URL a reverse solidus is a slash. -/
def readPath (special : Bool) (segments : List (List Char)) (segment : List Char) :
    List Char → List Char
  | [] => endPath segments segment.reverse
  | c :: cs =>
    if c = '/' || (special && c = '\\') then
      readPath special (addSegment segments segment.reverse) [] cs
    else readPath special segments ((Text.percentEncode pathEscaped [c]).reverse ++ segment) cs

/-- The path of a URL with an authority, given all up to its query. -/
def pathOf (special : Bool) (cs : List Char) : List Char :=
  match cs with
  | [] => if special then ['/'] else []
  | '/' :: rest => readPath special [[]] [] rest
  | '\\' :: rest => readPath special [[]] [] (if special then rest else cs)
  | _ => readPath special [[]] [] cs

end ShardRegistry.Url
