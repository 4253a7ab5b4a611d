import ShardRegistry.Http.Message
import ShardRegistry.Text.Blank
import ShardRegistry.Text.Natural

/-! Content codings. A client names the codings that it accepts with a weight each; a body is sent in
the gzip coding if the client accepts that and does not prefer the body as it is. -/
namespace ShardRegistry.Http

inductive Coding where
  | identity
  | gzip
  deriving DecidableEq, Repr

namespace Coding

def ofName? (name : String) : Option Coding :=
  match headerName name with
  | "gzip" | "x-gzip" => some .gzip
  | "identity" => some .identity
  | _ => none

/-- A weight in thousandths: `q=`, a number from 0 to 1, and at most three decimal places. -/
def weight? : List Char → Option Nat
  | q :: '=' :: whole :: rest =>
    if Text.lowerAscii q ≠ 'q' || !(whole = '0' || whole = '1') then none
    else
      let thousandths := if whole = '1' then 1000 else 0
      match rest with
      | [] => some thousandths
      | '.' :: places =>
        if places.length ≤ 3 && places.all Text.isDigit then
          (some (thousandths + Text.digitsValue 0 places * Nat.pow 10 (3 - places.length))).filter
            (· ≤ 1000)
        else none
      | _ => none
  | _ => none

/-- An item of a list of codings: one of a known name, with a weight or without. -/
def item? (cs : List Char) : Option (Coding × Nat) := do
  let coding ← ofName? (String.ofList (Text.strip Text.isBlank (cs.takeWhile (· ≠ ';'))))
  match cs.dropWhile (· ≠ ';') with
  | _ :: weight => return (coding, ← weight? (Text.strip Text.isBlank weight))
  | [] => return (coding, 1000)

/-- The greatest weight that a coding has in a list. -/
def weightOf (coding : Coding) (items : List (Coding × Nat)) : Nat :=
  ((items.filter (·.1 = coding)).map (·.2)).foldl max 0

end Coding

/-- The codings that a request accepts, with their weights. -/
def Request.codings (q : Request) : List (Coding × Nat) :=
  ((q.headerValues "accept-encoding").filter isPlain).flatMap fun value =>
    (value.toList.splitOn ',').filterMap Coding.item?

/-- The coding that a request asks for; between equal weights gzip is chosen. -/
def Request.coding (q : Request) : Coding :=
  let gzip := Coding.weightOf .gzip q.codings
  if gzip > 0 && gzip ≥ Coding.weightOf .identity q.codings then .gzip else .identity

/-- The size of the least body that is worth a coding. -/
def codingThreshold : Nat := 32

/-- The response in a coding, if its body is large enough. -/
def Response.inCoding (r : Response) : Coding → Response
  | .identity => r
  | .gzip =>
    if r.body.size < codingThreshold then r
    else match r.body with
      | .json value => { r with
          headers := r.headers ++ [("content-encoding", "gzip")], body := .gzip value.print }
      | .text content => { r with
          headers := r.headers ++ [("content-encoding", "gzip")], body := .gzip content }
      | _ => r

end ShardRegistry.Http
