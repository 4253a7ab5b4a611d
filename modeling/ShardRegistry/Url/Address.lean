import ShardRegistry.Url.Basic

/-! Internet addresses inside URLs: reading them in the forms that a URL may use and writing them
in one form. -/
namespace ShardRegistry.Url

namespace Ipv6

/-- A number of up to `left` hexadecimal digits at the front of a text, continuing `n`. -/
def takeHex : Nat → Nat → List Char → Nat × List Char
  | 0, n, cs => (n, cs)
  | _ + 1, n, [] => (n, [])
  | left + 1, n, c :: cs =>
    match Text.hexValue? c with
    | some d => takeHex left (16 * n + d) cs
    | none => (n, c :: cs)

/-- A decimal number below 256 without a leading zero at the front of a text. -/
def takeByte (cs : List Char) : Option (Nat × List Char) :=
  let ds := cs.takeWhile Text.isDigit
  let n := ds.foldl (fun n c => 10 * n + (c.toNat - 48)) 0
  if ds.isEmpty || (ds.length > 1 && ds.head? = some '0') || n > 255 then none
  else some (n, cs.dropWhile Text.isDigit)

/-- Four bytes with points between them, and nothing after them, as two numbers of 16 bits. -/
def dotted (cs : List Char) : Option (List Nat) := do
  let (a, cs) ← takeByte cs
  let '.' :: cs := cs | none
  let (b, cs) ← takeByte cs
  let '.' :: cs := cs | none
  let (c, cs) ← takeByte cs
  let '.' :: cs := cs | none
  let (d, cs) ← takeByte cs
  if cs.isEmpty then some [256 * a + b, 256 * c + d] else none

/-- Reads the groups after `seen`; `gap` is the place of the double colon, if it was met. -/
def groups : Nat → List Nat → Option Nat → List Char → Option (List Nat × Option Nat)
  | 0, _, _, _ => none
  | _ + 1, seen, gap, [] => some (seen, gap)
  | fuel + 1, seen, gap, c :: cs =>
    if seen.length ≥ 8 then none
    else if c = ':' then
      if gap.isSome then none else groups fuel (seen ++ [0]) (some (seen.length + 1)) cs
    else
      let (n, rest) := takeHex 4 0 (c :: cs)
      match rest with
      | [] => some (seen ++ [n], gap)
      | '.' :: _ =>
        if seen.length > 6 then none else (dotted (c :: cs)).map fun ns => (seen ++ ns, gap)
      | ':' :: rest => if rest.isEmpty then none else groups fuel (seen ++ [n]) gap rest
      | _ => none

/-- The eight groups of an address, without its brackets. -/
def read (cs : List Char) : Option (List Nat) := do
  let (ns, gap) ← match cs with
    | ':' :: ':' :: rest => groups (cs.length + 1) [0] (some 1) rest
    | ':' :: _ => none
    | [] | [_] => none
    | _ => groups (cs.length + 1) [] none cs
  match gap with
  | some g => return ns.take g ++ List.replicate (8 - ns.length) 0 ++ ns.drop g
  | none => if ns.length = 8 then return ns else none

/-- How many zeros a list begins with. -/
def zeros (ns : List Nat) : Nat := (ns.takeWhile (· == 0)).length

/-- The start and length of the first longest run of zeros, from the index `i` on. -/
def longestRun (i : Nat) : List Nat → Nat × Nat
  | [] => (i, 0)
  | n :: ns =>
    let here := zeros (n :: ns)
    let later := longestRun (i + 1) ns
    if here ≥ later.2 then (i, here) else later

def joined (ns : List Nat) : List Char :=
  List.intercalate [':'] (ns.map (Nat.toDigits 16))

/-- The address in brackets, with a double colon for the longest run of two zeros or more. -/
def write (ns : List Nat) : List Char :=
  let (start, length) := longestRun 0 ns
  let body :=
    if length < 2 then joined ns
    else joined (ns.take start) ++ [':', ':'] ++ joined (ns.drop (start + length))
  '[' :: body ++ [']']

end Ipv6

namespace Ipv4

/-- The texts between points. -/
def parts (cs : List Char) : List (List Char) :=
  let ps := cs.splitOn '.'
  if ps.length > 1 && ps.getLast? = some [] then ps.dropLast else ps

def inBase (base : Nat) (cs : List Char) : Option Nat :=
  cs.foldl (fun n c => do
    let n ← n
    let d ← Text.hexValue? c
    if d < base then some (base * n + d) else none) (some 0)

/-- A number in hexadecimal, octal or decimal, by its beginning. -/
def number? : List Char → Option Nat
  | [] => none
  | '0' :: 'x' :: cs | '0' :: 'X' :: cs => inBase 16 cs
  | '0' :: c :: cs => inBase 8 (c :: cs)
  | cs => inBase 10 cs

/-- Whether a domain has to be an address, because its last part is a number. -/
def endsInNumber (cs : List Char) : Bool :=
  match (parts cs).getLast? with
  | some p => (!p.isEmpty && p.all Text.isDigit) || (number? p).isSome
  | none => false

/-- An address of up to four numbers, of which the last one fills the bytes that are left. -/
def read (cs : List Char) : Option Nat := do
  let ns ← (parts cs).mapM number?
  let last ← ns.getLast?
  let front := ns.dropLast
  if front.length > 3 || front.any (· > 255) || last ≥ Nat.pow 256 (4 - front.length) then none
  else return front.foldl (fun s n => 256 * s + n) 0 * Nat.pow 256 (4 - front.length) + last

def write (n : Nat) : List Char :=
  List.intercalate ['.'] ([n / 16777216, n / 65536 % 256, n / 256 % 256, n % 256].map
    (Nat.toDigits 10))

end Ipv4

end ShardRegistry.Url
