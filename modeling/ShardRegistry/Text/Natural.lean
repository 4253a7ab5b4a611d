import ShardRegistry.Text.Ranges

/-! Natural numbers in decimal digits, read with an optional plus sign and below a limit. -/
namespace ShardRegistry.Text

/-- The unsigned integers of 64 bits are below this. -/
def wordLimit : Nat := Nat.pow 2 64

/-- The number that decimal digits stand for, most significant first, continuing `seen`. -/
def digitsValue (seen : Nat) : List Char → Nat
  | [] => seen
  | c :: cs => digitsValue (10 * seen + (c.toNat - 48)) cs

/-- Reads one or more decimal digits and nothing else. -/
def digits? (cs : List Char) : Option Nat :=
  if cs.isEmpty || !cs.all isDigit then none else some (digitsValue 0 cs)

/-- Reads decimal digits after an optional plus sign, if the number is below `limit`. -/
def natural? (limit : Nat) (cs : List Char) : Option Nat :=
  let body := match cs with
    | '+' :: rest => rest
    | _ => cs
  (digits? body).filter (· < limit)

end ShardRegistry.Text
