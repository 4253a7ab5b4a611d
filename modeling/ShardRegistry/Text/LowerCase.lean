import ShardRegistry.Text.LowerCase.Table
import ShardRegistry.Text.Ranges

/-! Lower-casing of whole texts. All letters go by the table but two: a dotted capital i becomes an
i with the dot as a mark of its own, and a capital sigma at the end of a word becomes the final
sigma. -/
namespace ShardRegistry.Text

namespace LowerCase

/-- The lower-case form of a character that has one of a single character. -/
def single (c : Char) : Char :=
  let n := c.toNat
  if n < 128 then
    if 'A' ≤ c && c ≤ 'Z' then Char.ofNat (n + 32) else c
  else
    match runs.find? fun r => r.1 ≤ n && n ≤ r.2.1 && (n - r.1) % r.2.2.1 == 0 with
    | some r => Char.ofNat ((n : Int) + r.2.2.2).toNat
    | none => c

def isCased (c : Char) : Bool := inRanges cased c

def isIgnorable (c : Char) : Bool := inRanges caseIgnorable c

/-- Whether the first character that is not ignorable is a cased one. -/
def meetsCased (cs : List Char) : Bool :=
  match cs.dropWhile isIgnorable with
  | c :: _ => isCased c
  | [] => false

/-- The lower-case form of `c` between the characters before it, nearest first, and those after. -/
def form (before : List Char) (c : Char) (after : List Char) : List Char :=
  if c.toNat = 0x3A3 then
    if meetsCased before && !meetsCased after then [Char.ofNat 0x3C2] else [Char.ofNat 0x3C3]
  else if c.toNat = 0x130 then ['i', Char.ofNat 0x307]
  else [single c]

/-- Lower-cases the second list, given what stands before it, nearest first. -/
def after (before : List Char) : List Char → List Char
  | [] => []
  | c :: cs => form before c cs ++ after (c :: before) cs

end LowerCase

def lowerCase (s : String) : String :=
  String.ofList (LowerCase.after [] s.toList)

/-- Lower-cases the letters `A` to `Z` alone. -/
def lowerAscii (c : Char) : Char :=
  if 'A' ≤ c && c ≤ 'Z' then Char.ofNat (c.toNat + 32) else c

/-- Raises the letters `a` to `z` alone to upper case. -/
def upperAscii (c : Char) : Char :=
  if 'a' ≤ c && c ≤ 'z' then Char.ofNat (c.toNat - 32) else c

end ShardRegistry.Text
