import ShardRegistry.Decimal.Shortest

/-! JSON values and their compact text: no blanks, members in the order of the value, and escapes
only where the format demands them. -/
namespace ShardRegistry

/-- A number of a document: an integer of 64 bits, with or without sign, or a binary fraction. -/
inductive Number where
  | integer (z : Int)
  | float (x : Binary64)
  deriving DecidableEq, Repr

namespace Number

def text : Number → List Char
  | .integer z => (if z < 0 then ['-'] else []) ++ Nat.toDigits 10 z.natAbs
  | .float x => x.text

/-- The number as an unsigned integer, if it was written as one. -/
def toNat? : Number → Option Nat
  | .integer z => if 0 ≤ z then some z.toNat else none
  | .float _ => none

end Number

inductive Json where
  | null
  | bool (b : Bool)
  | number (n : Number)
  | string (s : String)
  | array (items : List Json)
  | object (members : List (String × Json))
  deriving Inhabited

namespace Json

def natural (n : Nat) : Json := .number (.integer n)

/-- The text in the option, or null. -/
def stringOrNull : Option String → Json
  | some s => .string s
  | none => .null

def strings (xs : List String) : Json := .array (xs.map .string)

/-- A lower-case hexadecimal digit. -/
def hexDigit (n : Nat) : Char :=
  if n < 10 then Char.ofNat (48 + n) else Char.ofNat (87 + n)

def escape (c : Char) : List Char :=
  if c = '"' then ['\\', '"']
  else if c = '\\' then ['\\', '\\']
  else if c = '\x08' then ['\\', 'b']
  else if c = '\t' then ['\\', 't']
  else if c = '\n' then ['\\', 'n']
  else if c = '\x0c' then ['\\', 'f']
  else if c = '\r' then ['\\', 'r']
  else if c.toNat < 32 then ['\\', 'u', '0', '0', hexDigit (c.toNat / 16), hexDigit (c.toNat % 16)]
  else [c]

/-- The text of a string: its characters between double quotes, escaped where needed. -/
def stringText (s : String) : List Char :=
  '"' :: s.toList.flatMap escape ++ ['"']

mutual

def text : Json → List Char
  | .null => ['n', 'u', 'l', 'l']
  | .bool true => ['t', 'r', 'u', 'e']
  | .bool false => ['f', 'a', 'l', 's', 'e']
  | .number n => n.text
  | .string s => stringText s
  | .array [] => ['[', ']']
  | .array (x :: xs) => '[' :: x.text ++ itemsText xs
  | .object [] => ['\x7b', '\x7d']
  | .object ((k, v) :: ms) => '\x7b' :: stringText k ++ ':' :: v.text ++ membersText ms

/-- The items after the first one, and the closing bracket. -/
def itemsText : List Json → List Char
  | [] => [']']
  | x :: xs => ',' :: x.text ++ itemsText xs

/-- The members after the first one, and the closing brace. -/
def membersText : List (String × Json) → List Char
  | [] => ['\x7d']
  | (k, v) :: ms => ',' :: stringText k ++ ':' :: v.text ++ membersText ms

end

def print (j : Json) : String := String.ofList j.text

end Json

end ShardRegistry
