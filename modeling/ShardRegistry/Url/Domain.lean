import ShardRegistry.Text.LowerCase
import ShardRegistry.Url.Address

/-! Names of hosts in the schemes of the web: lower case, characters of double width as their plain
counterparts, and labels outside ASCII in their ASCII encoding.

The mapping of characters is a part of the one that the standard of domain names asks for. Characters are not
composed, none are passed over, and of those outside ASCII none is forbidden; a name that has such a character
is read here otherwise than the standard says. Only URLs of the web have such hosts, and no dialect is told by
one. -/
namespace ShardRegistry.Url

namespace Label

def digit (d : Nat) : Char := if d < 26 then Char.ofNat (97 + d) else Char.ofNat (22 + d)

/-- The threshold of the digit at place `k`. -/
def threshold (k bias : Nat) : Nat :=
  if k ≤ bias then 1 else if bias + 26 ≤ k then 26 else k - bias

/-- A number in digits of mixed base, least significant first. -/
def digits : Nat → Nat → Nat → Nat → List Char
  | 0, q, _, _ => [digit q]
  | fuel + 1, q, k, bias =>
    let t := threshold k bias
    if q < t then [digit q]
    else digit (t + (q - t) % (36 - t)) :: digits fuel ((q - t) / (36 - t)) (k + 36) bias

def damp : Nat → Nat → Nat → Nat
  | 0, delta, k => k + 36 * delta / (delta + 38)
  | fuel + 1, delta, k =>
    if delta > 455 then damp fuel (delta / 35) (k + 36) else k + 36 * delta / (delta + 38)

def adapt (delta count : Nat) (first : Bool) : Nat :=
  let delta := if first then delta / 700 else delta / 2
  let delta := delta + delta / count
  damp delta delta 0

structure State where
  delta : Nat
  bias : Nat
  handled : Nat
  out : List Char

/-- Passes over the label once for the code point `m`: smaller ones count, `m` itself is written. -/
def pass (basic m : Nat) (s : State) (cs : List Char) : State :=
  cs.foldl (fun s c =>
    if c.toNat < m then { s with delta := s.delta + 1 }
    else if c.toNat = m then
      { delta := 0
        bias := adapt s.delta (s.handled + 1) (s.handled == basic)
        handled := s.handled + 1
        out := s.out ++ digits s.delta s.delta 36 s.bias }
    else s) s

/-- Goes through the code points of the label from the least one on. -/
def encodeFrom (basic : Nat) (cs : List Char) : Nat → Nat → State → List Char
  | 0, _, s => s.out
  | fuel + 1, n, s =>
    match (cs.map Char.toNat).filter (n ≤ ·) with
    | [] => s.out
    | m :: ms =>
      let m := ms.foldl min m
      let s := pass basic m { s with delta := s.delta + (m - n) * (s.handled + 1) } cs
      encodeFrom basic cs fuel (m + 1) { s with delta := s.delta + 1 }

def encode (cs : List Char) : List Char :=
  if cs.all Text.isAscii then cs
  else
    let basic := cs.filter Text.isAscii
    let out := if basic.isEmpty then [] else basic ++ ['-']
    ['x', 'n', '-', '-'] ++ encodeFrom basic.length cs cs.length 128 ⟨0, 72, basic.length, out⟩

end Label

/-- A character of a domain as its plain counterpart: as a full stop, as the character of ASCII that has another
width, or in lower case. The other rules of the standard are left out. -/
def plain (c : Char) : Char :=
  let n := c.toNat
  if n = 0x3002 || n = 0xFF61 then '.'
  else if 0xFF01 ≤ n && n ≤ 0xFF5E then Text.lowerAscii (Char.ofNat (n - 0xFEE0))
  else Text.LowerCase.single c

def domainForbidden (c : Char) : Bool := isControl c || isOneOf " #%/:<>?@[\\]^|" c

/-- The host that the text of a domain names. -/
def domainHost (cs : List Char) : Except Fault (List Char) :=
  match Text.ofUtf8? (Text.percentDecode (Text.utf8 (String.ofList cs))) with
  | none => .error .domainName
  | some s =>
    let cs := s.toList.map plain
    if cs.isEmpty then .error .emptyHost
    else if cs.any domainForbidden then .error .domainName
    else
      let cs := List.intercalate ['.'] ((cs.splitOn '.').map Label.encode)
      if Ipv4.endsInNumber cs then
        match Ipv4.read cs with
        | some n => .ok (Ipv4.write n)
        | none => .error .ipv4
      else .ok cs

end ShardRegistry.Url
