import ShardRegistry.Text.Quoted.Table
import ShardRegistry.Text.Ranges

/-! The quoted form of a text in diagnostic output: double quotes around it, a reverse solidus
before quotes and itself, and characters that do not show on their own by their code. -/
namespace ShardRegistry.Text

namespace Quoted

/-- The code point of a character in lower-case hexadecimal, in braces. -/
def byCode (c : Char) : List Char :=
  ['\\', 'u', '\x7b'] ++ Nat.toDigits 16 c.toNat ++ ['\x7d']

def escape (c : Char) : List Char :=
  if c.toNat = 0 then ['\\', '0']
  else if c = '\t' then ['\\', 't']
  else if c = '\r' then ['\\', 'r']
  else if c = '\n' then ['\\', 'n']
  else if c = '"' || c = '\\' then ['\\', c]
  else if isAscii c then (if c.toNat < 32 || c.toNat = 127 then byCode c else [c])
  else if inRanges extending c || inRanges invisible c then byCode c
  else [c]

end Quoted

def quoted (s : String) : String :=
  String.ofList ('"' :: s.toList.flatMap Quoted.escape ++ ['"'])

end ShardRegistry.Text
