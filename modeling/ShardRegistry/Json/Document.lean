import ShardRegistry.Json.Numeral
import ShardRegistry.Map.Sorted

/-! Documents as read: the tree of a JSON text up to the place where the text is malformed, if it
is. What a reader of typed values meets first, a wrong shape or that place, then decides how it
fails. A string with half of a surrogate pair and a number beyond the finite ones are kept as such,
because a value that nobody looks at may hold them. -/
namespace ShardRegistry.Json

inductive Document where
  | null
  | bool (b : Bool)
  /-- `none` for a number beyond the finite ones. -/
  | number (n : Option Number)
  /-- `none` for a string with an unpaired surrogate. -/
  | string (s : Option String)
  /-- `closed` tells whether the closing bracket was found in its place. -/
  | array (items : List Document) (closed : Bool)
  | object (members : List (Option String × Document)) (closed : Bool)
  /-- Here the text is malformed. -/
  | broken
  deriving Inhabited

namespace Document

def isSpace (c : Char) : Bool := c = ' ' || c = '\n' || c = '\t' || c = '\r'

def skip (cs : List Char) : List Char := cs.dropWhile isSpace

/-- A character of a string, or the code of an escape, which may be half of a surrogate pair. -/
inductive Piece where
  | char (c : Char)
  | code (n : Nat)

def isHigh (n : Nat) : Bool := 0xD800 ≤ n && n ≤ 0xDBFF

def isLow (n : Nat) : Bool := 0xDC00 ≤ n && n ≤ 0xDFFF

/-- The text of pieces in reverse order, in front of `done`. -/
def assemble : List Piece → List Char → Option (List Char)
  | [], done => some done
  | .char c :: ps, done => assemble ps (c :: done)
  | .code low :: .code high :: ps, done =>
    if isLow low then
      if isHigh high then
        assemble ps (Char.ofNat (0x10000 + (high - 0xD800) * 0x400 + (low - 0xDC00)) :: done)
      else none
    else if isHigh low then none
    else assemble (.code high :: ps) (Char.ofNat low :: done)
  | .code n :: ps, done => if isLow n || isHigh n then none else assemble ps (Char.ofNat n :: done)

/-- The character that a one-letter escape stands for. -/
def unescape? : Char → Option Char
  | '"' => some '"'
  | '\\' => some '\\'
  | '/' => some '/'
  | 'b' => some '\x08'
  | 'f' => some '\x0c'
  | 'n' => some '\n'
  | 'r' => some '\r'
  | 't' => some '\t'
  | _ => none

/-- The pieces of a string, last first, and what follows its closing quote. -/
def pieces (seen : List Piece) : List Char → Option (List Piece × List Char)
  | '"' :: rest => some (seen, rest)
  | '\\' :: 'u' :: a :: b :: c :: d :: rest =>
    match Text.hexValue? a, Text.hexValue? b, Text.hexValue? c, Text.hexValue? d with
    | some a, some b, some c, some d =>
      pieces (.code (((a * 16 + b) * 16 + c) * 16 + d) :: seen) rest
    | _, _, _, _ => none
  | '\\' :: c :: rest =>
    match unescape? c with
    | some x => pieces (.char x :: seen) rest
    | none => none
  | c :: rest => if c.toNat < 32 || c = '\\' then none else pieces (.char c :: seen) rest
  | [] => none

/-- Reads a string after its opening quote. -/
def readString (cs : List Char) : Option (Option String × List Char) :=
  (pieces [] cs).map fun (ps, rest) => ((assemble ps []).map String.ofList, rest)

mutual

/-- Reads a value and tells what follows it, or `none` if the text is malformed inside it. -/
def readValue : Nat → List Char → Document × Option (List Char)
  | 0, _ => (.broken, none)
  | fuel + 1, cs =>
    match skip cs with
    | 'n' :: 'u' :: 'l' :: 'l' :: rest => (.null, some rest)
    | 't' :: 'r' :: 'u' :: 'e' :: rest => (.bool true, some rest)
    | 'f' :: 'a' :: 'l' :: 's' :: 'e' :: rest => (.bool false, some rest)
    | '"' :: rest =>
      match readString rest with
      | some (s, rest) => (.string s, some rest)
      | none => (.broken, none)
    | '[' :: rest =>
      match skip rest with
      | ']' :: rest => (.array [] true, some rest)
      | rest => readItems fuel [] rest
    | '\x7b' :: rest =>
      match skip rest with
      | '\x7d' :: rest => (.object [] true, some rest)
      | rest => readMembers fuel [] rest
    | rest =>
      match Numeral.read rest with
      | some (n, rest) => (.number n.number?, some rest)
      | none => (.broken, none)

/-- Reads the items of an array from one on, after `seen` in reverse order. -/
def readItems : Nat → List Document → List Char → Document × Option (List Char)
  | 0, seen, _ => (.array seen.reverse false, none)
  | fuel + 1, seen, cs =>
    let (item, rest) := readValue fuel cs
    match rest.map skip with
    | some (',' :: rest) => readItems fuel (item :: seen) rest
    | some (']' :: rest) => (.array (item :: seen).reverse true, some rest)
    | _ => (.array (item :: seen).reverse false, none)

/-- Reads the members of an object from one on, after `seen` in reverse order. -/
def readMembers :
    Nat → List (Option String × Document) → List Char → Document × Option (List Char)
  | 0, seen, _ => (.object seen.reverse false, none)
  | fuel + 1, seen, cs =>
    match skip cs with
    | '"' :: rest =>
      match readString rest with
      | none => (.object seen.reverse false, none)
      | some (key, rest) =>
        match skip rest with
        | ':' :: rest =>
          let (value, rest) := readValue fuel rest
          match rest.map skip with
          | some (',' :: rest) => readMembers fuel ((key, value) :: seen) rest
          | some ('\x7d' :: rest) => (.object ((key, value) :: seen).reverse true, some rest)
          | _ => (.object ((key, value) :: seen).reverse false, none)
        | _ => (.object ((key, .broken) :: seen).reverse false, none)
    | _ => (.object seen.reverse false, none)

end

mutual

/-- Whether the text of the value is well formed. -/
def intact : Document → Bool
  | .array items closed => intactItems items && closed
  | .object members closed => intactMembers members && closed
  | .broken => false
  | _ => true

def intactItems : List Document → Bool
  | [] => true
  | d :: ds => d.intact && intactItems ds

def intactMembers : List (Option String × Document) → Bool
  | [] => true
  | (_, d) :: ms => d.intact && intactMembers ms

end

mutual

/-- Whether the value is well formed with every number finite, every surrogate paired, and at most
`depth` arrays and objects inside each other. -/
def strict (depth : Nat) : Document → Bool
  | .array items closed =>
    match depth with
    | 0 => false
    | depth + 1 => strictItems depth items && closed
  | .object members closed =>
    match depth with
    | 0 => false
    | depth + 1 => strictMembers depth members && closed
  | .broken => false
  | .number n => n.isSome
  | .string s => s.isSome
  | _ => true

def strictItems (depth : Nat) : List Document → Bool
  | [] => true
  | d :: ds => strict depth d && strictItems depth ds

def strictMembers (depth : Nat) : List (Option String × Document) → Bool
  | [] => true
  | (k, d) :: ms => k.isSome && strict depth d && strictMembers depth ms

end

mutual

/-- The value that a strict document stands for. Members of an object are in ascending order, and
of a repeated one the last stays. -/
def value : Document → Json
  | .null => .null
  | .bool b => .bool b
  | .number (some n) => .number n
  | .string (some s) => .string s
  | .array items _ => .array (itemValues items)
  | .object members _ => .object (memberValues [] members)
  | .number none | .string none | .broken => .null

def itemValues : List Document → List Json
  | [] => []
  | d :: ds => d.value :: itemValues ds

def memberValues (seen : List (String × Json)) :
    List (Option String × Document) → List (String × Json)
  | [] => seen
  | (k, d) :: ms => memberValues (Entries.insertSorted (k.getD "") d.value seen) ms

end

end Document

/-- A whole text: its first value, and whether nothing but blanks follows it. -/
structure Source where
  root : Document
  clean : Bool

/-- Reads a text. Every call consumes a character or follows one that did, so twice the length
bounds their number. -/
def Source.read (text : String) : Source :=
  let cs := text.toList
  match Document.readValue (2 * cs.length + 2) cs with
  | (root, some rest) => ⟨root, (Document.skip rest).isEmpty⟩
  | (root, none) => ⟨root, false⟩

end ShardRegistry.Json
