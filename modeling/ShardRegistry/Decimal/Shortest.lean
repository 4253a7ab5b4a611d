import ShardRegistry.Decimal.Binary64

/-! The shortest decimal that reads back as a given floating-point number, and its text. A decimal
reads back if it lies in the interval of reals that round to the number; of two decimals of equal
length the nearer one is taken, and of two equally near ones the even one. -/
namespace ShardRegistry.Binary64

/-- The number `digits · 10^exponent`. -/
structure Decimal where
  digits : Nat
  exponent : Int
  deriving DecidableEq, Repr

/-- The count of decimal digits of a natural number. -/
def digitCount (n : Nat) : Nat := (Nat.toDigits 10 n).length

/-- The `p` with `10^p ≤ num / den < 10^(p+1)`. -/
def magnitudeOf (num den : Nat) : Int :=
  if den ≤ num then (digitCount (num / den) : Int) - 1
  else
    let l := digitCount (den / num)
    if den = num * Nat.pow 10 (l - 1) then -((l : Int) - 1) else -(l : Int)

/-- `num / den / 10^k` as a fraction. -/
def overTen (num den : Nat) (k : Int) : Nat × Nat :=
  if 0 ≤ k then (num, den * Nat.pow 10 k.toNat) else (num * Nat.pow 10 (-k).toNat, den)

/-- The value of the magnitude bits and the ends of the interval that rounds to them, as numerators
over one denominator. -/
structure Interval where
  low : Nat
  value : Nat
  high : Nat
  den : Nat
  closed : Bool

def interval (b : Nat) : Interval :=
  let (m, e) := scaled b
  let down := if m = binade && b / binade > 1 then 1 else 2
  let (v, d) := shift (4 * m) 4 e
  let unit := (shift 1 4 e).1
  ⟨v - down * unit, v, v + 2 * unit, d, m % 2 = 0⟩

/-- Whether `digits · 10^k` lies in the interval. -/
def Interval.holds (i : Interval) (digits : Nat) (k : Int) : Bool :=
  let (x, scale) :=
    if 0 ≤ k then (digits * Nat.pow 10 k.toNat * i.den, 1)
    else (digits * i.den, Nat.pow 10 (-k).toNat)
  if i.closed then i.low * scale ≤ x && x ≤ i.high * scale
  else i.low * scale < x && x < i.high * scale

/-- Of the two neighbours of the value among the multiples of `10^k`, the one to print, if either
lies in the interval. -/
def Interval.pick (i : Interval) (k : Int) : Option Nat :=
  let (n, d) := overTen i.value i.den k
  let q := n / d
  let r := n % d
  match i.holds q k, i.holds (q + 1) k with
  | true, true => some (if 2 * r < d || (2 * r == d && q % 2 == 0) then q else q + 1)
  | true, false => some q
  | false, true => some (q + 1)
  | false, false => none

/-- Tries ever more digits: `count` is how many steps are left. -/
def search (i : Interval) (top : Int) : Nat → Nat → Decimal
  | 0, used => ⟨(overTen i.value i.den (top - used)).1 / (overTen i.value i.den (top - used)).2,
      top - used⟩
  | left + 1, used =>
    match i.pick (top - used) with
    | some q => ⟨q, top - used⟩
    | none => search i top left (used + 1)

/-- The shortest decimal of positive magnitude bits. -/
def shortest (b : Nat) : Decimal :=
  let i := interval b
  search i (magnitudeOf i.value i.den) 17 0

/-- The digits of a natural number without the zeros at its end, at least one. -/
def significant (n : Nat) : List Char :=
  match ((Nat.toDigits 10 n).reverse.dropWhile (· == '0')).reverse with
  | [] => ['0']
  | ds => ds

/-- The text of a number `d.ddd · 10^e` with the significant digits `ds`: positional for
`-5 ≤ e < 16` and scientific otherwise. -/
def layout (ds : List Char) (e : Int) : List Char :=
  if 0 ≤ e && e < 16 then
    let whole := e.toNat + 1
    if ds.length ≤ whole then ds ++ List.replicate (whole - ds.length) '0' ++ ['.', '0']
    else ds.take whole ++ '.' :: ds.drop whole
  else if -5 ≤ e && e < 0 then
    ['0', '.'] ++ List.replicate ((-e).toNat - 1) '0' ++ ds
  else
    ds.take 1 ++ (if ds.length ≤ 1 then [] else '.' :: ds.drop 1) ++
      ['e', if e < 0 then '-' else '+'] ++ Nat.toDigits 10 e.natAbs

def text (x : Binary64) : List Char :=
  let body :=
    if x.magnitude = 0 then ['0', '.', '0']
    else
      let d := shortest x.magnitude
      layout (significant d.digits) (d.exponent + digitCount d.digits - 1)
  if x.negative then '-' :: body else body

end ShardRegistry.Binary64
