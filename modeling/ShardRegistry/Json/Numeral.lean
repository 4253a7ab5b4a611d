import ShardRegistry.Json.Value
import ShardRegistry.Text.Natural

/-! Reading numbers. An integer literal in range stays an integer. Any other number is built from
at most 64 bits of significant digits and a power of ten: the digits are rounded first, then the
product or quotient with the power, so the last bit can differ from the nearest number. -/
namespace ShardRegistry.Json

/-- The parts of a number as written. -/
structure Numeral where
  negative : Bool
  whole : List Char
  fraction : Option (List Char)
  exponent : Option (Bool × List Char)
  deriving DecidableEq

namespace Numeral

/-- The widest exponent that is kept apart from a smaller or greater one. -/
def exponentLimit : Nat := Nat.pow 2 31 - 1

/-- Appends digits to `seen` while the value stays below the word limit: the value and the digits
that are left. -/
def accumulate (seen : Nat) : List Char → Nat × List Char
  | [] => (seen, [])
  | c :: cs =>
    let next := 10 * seen + (c.toNat - 48)
    if next < Text.wordLimit then accumulate next cs else (seen, c :: cs)

/-- The digits of the whole part and the fraction as a value below the word limit and the power of
ten that goes with it. -/
def significand (n : Numeral) : Nat × Int :=
  let (m, dropped) := accumulate 0 n.whole
  match n.fraction with
  | none => (m, dropped.length)
  | some ds =>
    let (m, left) := accumulate m ds
    (m, (dropped.length : Int) - (ds.length - left.length))

/-- Divides by steps of `10^308` until the exponent is within reach of one quotient. -/
def scaleDown : Nat → Nat → Nat → Nat
  | 0, m, _ => m
  | fuel + 1, m, e =>
    if e ≤ 308 then Binary64.div m (Binary64.tenTo e)
    else if m = 0 then 0
    else scaleDown fuel (Binary64.div m (Binary64.tenTo 308)) (e - 308)

/-- The magnitude bits of `m · 10^e`, unless they are infinite. -/
def magnitude? (m : Nat) (e : Int) : Option Nat :=
  let f := Binary64.ofNat m
  if 0 ≤ e then
    if e ≤ 308 then (some (Binary64.mul f (Binary64.tenTo e.toNat))).filter (· < Binary64.infinite)
    else if m = 0 then some 0 else none
  else some (scaleDown (e.natAbs / 308 + 2) f e.natAbs)

/-- Reads exponent digits up to the limit; `none` beyond it. -/
def exponentValue? (ds : List Char) : Option Nat :=
  let n := Text.digitsValue 0 ds
  if n ≤ exponentLimit then some n else none

def clamp (e : Int) : Int := max (-(exponentLimit : Int) - 1) (min exponentLimit e)

/-- The number with a fraction, an exponent or too many digits; `none` beyond the finite ones. -/
def float? (n : Numeral) : Option Number :=
  let (m, e) := n.significand
  let magnitude := match n.exponent with
    | none => magnitude? m e
    | some (down, ds) =>
      match exponentValue? ds with
      | some x => magnitude? m (clamp (if down then e - x else e + x))
      | none => if m ≠ 0 && !down then none else some 0
  magnitude.map fun b => .float ⟨n.negative, b⟩

/-- The value of a number as written; `none` if it is beyond the range of finite numbers. -/
def number? (n : Numeral) : Option Number :=
  match n.fraction, n.exponent with
  | none, none =>
    match accumulate 0 n.whole with
    | (m, []) =>
      if !n.negative then some (.integer m)
      else if m = 0 then some (.float ⟨true, 0⟩)
      else if m ≤ Nat.pow 2 63 then some (.integer (-(m : Int)))
      else some (.float ⟨true, Binary64.ofNat m⟩)
    | _ => n.float?
  | _, _ => n.float?

/-- Digits at the front of a text, at least one, and the rest. -/
def takeDigits (cs : List Char) : Option (List Char × List Char) :=
  let ds := cs.takeWhile Text.isDigit
  if ds.isEmpty then none else some (ds, cs.dropWhile Text.isDigit)

def readFraction : List Char → Option (Option (List Char) × List Char)
  | '.' :: cs => (takeDigits cs).map fun (ds, rest) => (some ds, rest)
  | cs => some (none, cs)

def readExponent : List Char → Option (Option (Bool × List Char) × List Char)
  | c :: cs =>
    if c = 'e' || c = 'E' then
      let (down, cs) := match cs with
        | '+' :: cs => (false, cs)
        | '-' :: cs => (true, cs)
        | _ => (false, cs)
      (takeDigits cs).map fun (ds, rest) => (some (down, ds), rest)
    else some (none, c :: cs)
  | [] => some (none, [])

/-- Reads a number at the front of a text: a zero is not followed by another digit, and a point or
an exponent mark is followed by one. -/
def read (cs : List Char) : Option (Numeral × List Char) := do
  let (negative, cs) := match cs with
    | '-' :: cs => (true, cs)
    | _ => (false, cs)
  let (whole, cs) ← takeDigits cs
  if whole.head? = some '0' && whole.length > 1 then none
  let (fraction, cs) ← readFraction cs
  let (exponent, cs) ← readExponent cs
  return (⟨negative, whole, fraction, exponent⟩, cs)

end Numeral

end ShardRegistry.Json
