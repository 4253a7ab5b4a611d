import ShardRegistry.Text.Ranges

/-! Percent encoding: a byte as a percent sign and two hexadecimal digits. -/
namespace ShardRegistry.Text

/-- The upper-case hexadecimal digit of a number below 16. -/
def upperHex (n : Nat) : Char :=
  if n < 10 then Char.ofNat (48 + n) else Char.ofNat (55 + n)

def percentByte (b : UInt8) : List Char :=
  ['%', upperHex (b.toNat / 16), upperHex (b.toNat % 16)]

/-- Encodes the bytes of every character that is in `escaped` or outside ASCII. -/
def percentEncode (escaped : Char → Bool) (cs : List Char) : List Char :=
  cs.flatMap fun c =>
    if escaped c || !isAscii c then (String.utf8EncodeChar c).flatMap percentByte else [c]

/-- The bytes of a text in which every percent sign before two hexadecimal digits stands for a
byte. A percent sign before anything else stands for itself. -/
def percentDecode : List UInt8 → List UInt8
  | 37 :: a :: b :: rest =>
    match hexValue? (Char.ofNat a.toNat), hexValue? (Char.ofNat b.toNat) with
    | some x, some y => UInt8.ofNat (16 * x + y) :: percentDecode rest
    | _, _ => 37 :: percentDecode (a :: b :: rest)
  | x :: rest => x :: percentDecode rest
  | [] => []

def utf8 (s : String) : List UInt8 := s.toUTF8.toList

/-- The text that bytes encode, if they are well formed. -/
def ofUtf8? (bytes : List UInt8) : Option String := String.fromUTF8? bytes.toByteArray

end ShardRegistry.Text
