/-! Binary floating-point numbers of 64 bits, by their encoding. Rounding, products, quotients and
the search for the shortest decimal are done on natural numbers, so that every step is exact. -/
namespace ShardRegistry

/-- A 64-bit floating-point number: its sign and the 63 bits below it. -/
structure Binary64 where
  negative : Bool
  magnitude : Nat
  deriving DecidableEq, Repr

namespace Binary64

/-- The number of magnitudes that share an exponent. -/
def binade : Nat := Nat.pow 2 52

/-- The magnitude bits of infinity: those of every finite number are below. -/
def infinite : Nat := 2047 * binade

/-- The magnitude bits `b` stand for `m · 2^e` with this `m` and `e`. -/
def scaled (b : Nat) : Nat × Int :=
  if b / binade = 0 then (b, -1074) else (binade + b % binade, (b / binade : Nat) - 1075)

/-- `num / den` rounded to a natural number, a half to the even neighbour. -/
def roundDiv (num den : Nat) : Nat :=
  let q := num / den
  let r := num % den
  if 2 * r < den || (2 * r == den && q % 2 == 0) then q else q + 1

/-- `num · 2^e / den` as a fraction of natural numbers. -/
def shift (num den : Nat) (e : Int) : Nat × Nat :=
  if 0 ≤ e then (num * Nat.pow 2 e.toNat, den) else (num, den * Nat.pow 2 (-e).toNat)

/-- The magnitude bits nearest to `num / den`; a value too large gives `infinite` or more. -/
def nearest (num den : Nat) : Nat :=
  if num = 0 then 0
  else
    let guess : Int := (Nat.log2 num : Int) - Nat.log2 den - 52
    let (n, d) := shift num den (-guess)
    let exact :=
      if n < binade * d then guess - 1 else if n ≥ 2 * binade * d then guess + 1 else guess
    let e := max exact (-1074)
    let (n, d) := shift num den (-e)
    roundDiv n d + (e + 1074).toNat * binade

def ofNat (n : Nat) : Nat := nearest n 1

def mul (a b : Nat) : Nat :=
  let (m, e) := scaled a
  let (n, f) := scaled b
  let (x, y) := shift (m * n) 1 (e + f)
  nearest x y

def div (a b : Nat) : Nat :=
  let (m, e) := scaled a
  let (n, f) := scaled b
  let (x, y) := shift m n (e - f)
  nearest x y

/-- The magnitude bits nearest to a power of ten. -/
def tenTo (k : Nat) : Nat := nearest (Nat.pow 10 k) 1

end Binary64

end ShardRegistry
