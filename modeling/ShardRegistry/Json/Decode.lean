import ShardRegistry.Json.Document

/-! Reading typed values from documents. A value is read in the order of its text, and the first
thing that is wrong decides: the place where the text is malformed, or a value of another shape than
asked for. -/
namespace ShardRegistry.Json

/-- How a well-formed document can fail to be a value of a type. -/
inductive Mismatch where
  | missingField (name : String)
  | duplicateField (name : String)
  | unknownVariant (name : String) (expected : List String)
  /-- A value of another kind, an integer out of range, or an array of the wrong length. -/
  | shape
  deriving DecidableEq, Repr

inductive Failure where
  | malformed
  | mismatch (m : Mismatch)
  deriving DecidableEq, Repr

namespace Failure

def shape : Failure := .mismatch .shape

/-- The names that a value may have, as a diagnostic lists them. -/
def alternatives : List String → String
  | [a, b] => s!"`{a}` or `{b}`"
  | names => "one of " ++ String.intercalate ", " (names.map fun n => s!"`{n}`")

/-- The diagnostic of a mismatch that names a field or a variant. -/
def message? : Failure → Option String
  | .mismatch (.missingField n) => some s!"missing field `{n}`"
  | .mismatch (.duplicateField n) => some s!"duplicate field `{n}`"
  | .mismatch (.unknownVariant n names) =>
    some s!"unknown variant `{n}`, expected {alternatives names}"
  | _ => none

end Failure

/-- Where a value stands: in the text, with that many levels of nesting left, or in a part that was
read ahead as a whole and is known to be well formed. -/
inductive Place where
  | text (levels : Nat)
  | ahead
  deriving DecidableEq

namespace Place

/-- The levels of nesting that a text may have. -/
def start : Place := .text 127

/-- Goes into an array or object. -/
def enter : Place → Except Failure Place
  | .text 0 => .error .malformed
  | .text (n + 1) => .ok (.text n)
  | .ahead => .ok .ahead

end Place

abbrev Decoder (α : Type) := Place → Document → Except Failure α

namespace Decoder
variable {α β : Type}

/-- The failure of a value of the wrong kind: a scalar is read before its kind is refused. -/
def refuse : Document → Failure
  | .broken | .number none | .string none => .malformed
  | _ => .shape

def string : Decoder String
  | _, .string (some s) => .ok s
  | _, d => .error (refuse d)

def bool : Decoder Bool
  | _, .bool b => .ok b
  | _, d => .error (refuse d)

/-- An unsigned integer of 64 bits. -/
def natural : Decoder Nat
  | _, .number (some n) => match n.toNat? with
    | some n => .ok n
    | none => .error .shape
  | _, d => .error (refuse d)

/-- Null, or a value. -/
def nullable (decode : Decoder α) : Decoder (Option α)
  | _, .null => .ok none
  | p, d => (decode p d).map some

/-- One of several names: as a string, or as the only key of an object, with null for its value. -/
def choice (names : List (String × α)) : Decoder α := fun p d =>
  let ofName (name : String) : Except Failure α :=
    match names.lookup name with
    | some x => .ok x
    | none => .error (.mismatch (.unknownVariant name (names.map (·.1))))
  match d with
  | .string (some name) => ofName name
  | .object ((some name, d) :: ms) closed => do
    let _ ← p.enter
    let x ← ofName name
    match d with
    | .null => if ms.isEmpty && closed then return x else throw .malformed
    | d => throw (refuse d)
  | _ => .error .malformed

/-- Any value at all. -/
def any : Decoder Json
  | .text levels, d => if d.strict levels then .ok d.value else .error .malformed
  | .ahead, d => .ok d.value

def items (decode : Decoder α) (p : Place) (closed : Bool) :
    List Document → Except Failure (List α)
  | [] => if closed then .ok [] else .error .malformed
  | d :: ds => do
    let x ← decode p d
    return x :: (← items decode p closed ds)

def list (decode : Decoder α) : Decoder (List α)
  | p, .array ds closed => do items decode (← p.enter) closed ds
  | _, d => .error (refuse d)

/-- The members of an object, each decoded in its turn. -/
def members (decode : Decoder α) (p : Place) (closed : Bool) :
    List (Option String × Document) → Except Failure (List (String × α))
  | [] => if closed then .ok [] else .error .malformed
  | (none, _) :: _ => .error .malformed
  | (some key, d) :: ms => do
    let x ← decode p d
    return (key, x) :: (← members decode p closed ms)

def pairs (decode : Decoder α) : Decoder (List (String × α))
  | p, .object ms closed => do members decode (← p.enter) closed ms
  | _, d => .error (refuse d)

def orderedMap (decode : Decoder α) : Decoder (OrderedMap α) := fun p d =>
  (pairs decode p d).map .ofList

def sortedMap (decode : Decoder α) : Decoder (SortedMap α) := fun p d =>
  (pairs decode p d).map .ofList

def sortedSet : Decoder SortedSet := fun p d => (list string p d).map .ofList

end Decoder

/-- A decoder of a record. `fields` are the names in order, each with the check of a value;
`build` makes the record out of the values found, and fails at the first field that is missing
without a default. -/
structure Record (α : Type) where
  fields : List (String × (Place → Document → Except Failure Unit) × Bool)
  build : (String → Option Document) → Place → Except Failure α

namespace Record
variable {α β : Type}

/-- A field that has to be present. -/
def required (name : String) (decode : Decoder α) : Record α where
  fields := [(name, fun p d => (decode p d).map fun _ => (), true)]
  build get p := match get name with
    | some d => decode p d
    | none => .error (.mismatch (.missingField name))

/-- A field with a default. -/
def optional (name : String) (decode : Decoder α) (default : α) : Record α where
  fields := [(name, fun p d => (decode p d).map fun _ => (), false)]
  build get p := match get name with
    | some d => decode p d
    | none => .ok default

/-- A record without fields. -/
def pure (x : α) : Record α := ⟨[], fun _ _ => .ok x⟩

def seq (f : Record (α → β)) (x : Record α) : Record β where
  fields := f.fields ++ x.fields
  build get p := do return (← f.build get p) (← x.build get p)

instance : Functor Record where
  map f x := seq (pure f) x

instance : Seq Record := ⟨fun f x => seq f (x ())⟩

/-- Checks the members of an object in order; `seen` are the values of the fields met so far. -/
def scan (r : Record α) (p : Place) (closed : Bool) (seen : List (String × Document)) :
    List (Option String × Document) → Except Failure (List (String × Document))
  | [] => if closed then .ok seen else .error .malformed
  | (none, _) :: _ => .error .malformed
  | (some key, d) :: ms =>
    match r.fields.lookup key with
    | none => if d.intact then scan r p closed seen ms else .error .malformed
    | some (check, _) =>
      if (Entries.find? key seen).isSome then .error (.mismatch (.duplicateField key))
      else do
        check p d
        scan r p closed ((key, d) :: seen) ms

/-- Checks the items of an array against the fields in order. -/
def scanItems (p : Place) (closed : Bool) :
    List (String × (Place → Document → Except Failure Unit) × Bool) → List Document →
      Except Failure (List (String × Document))
  | [], [] => if closed then .ok [] else .error .malformed
  | [], _ :: _ => .error (if p = .ahead then .shape else .malformed)
  | (_, _, mandatory) :: fs, [] =>
    if !closed then .error .malformed
    else if mandatory then .error .shape
    else scanItems p closed fs []
  | (name, check, _) :: fs, d :: ds => do
    check p d
    return (name, d) :: (← scanItems p closed fs ds)

/-- Reads a record from an object, or from an array of its fields in order. -/
def decode (r : Record α) : Decoder α
  | p, .object ms closed => do
    let p ← p.enter
    let seen ← r.scan p closed [] ms
    r.build (fun name => Entries.find? name seen) p
  | p, .array ds closed => do
    let p ← p.enter
    let seen ← scanItems p closed r.fields ds
    r.build (fun name => Entries.find? name seen) p
  | _, d => .error (Decoder.refuse d)

end Record

/-- The variants of a value whose member `type` tells which of them it is, by name. -/
structure Tagged (α : Type) where
  variants : List (String × Decoder α)

namespace Tagged
variable {α : Type}

def variant (t : Tagged α) : Decoder (Decoder α) := fun p d => do
  let name ← Decoder.string p d
  match t.variants.lookup name with
  | some decode => return decode
  | none => throw (.mismatch (.unknownVariant name (t.variants.map (·.1))))

/-- Reads all members ahead: the decoder that `type` names, and the other members. -/
def scan (t : Tagged α) (p : Place) (closed : Bool) (tag : Option (Decoder α))
    (seen : List (Option String × Document)) : List (Option String × Document) →
      Except Failure (Decoder α × List (Option String × Document))
  | [] =>
    if !closed then .error .malformed
    else match tag with
      | some decode => .ok (decode, seen.reverse)
      | none => .error (.mismatch (.missingField "type"))
  | (none, _) :: _ => .error .malformed
  | (some key, d) :: ms =>
    if key = "type" then
      if tag.isSome then .error (.mismatch (.duplicateField "type"))
      else do
        let decode ← t.variant p d
        scan t p closed (some decode) seen ms
    else do
      let _ ← Decoder.any p d
      scan t p closed tag ((some key, d) :: seen) ms

/-- Reads a tagged value from an object, or from an array whose first item is the tag and whose
other items are the fields of the variant in order. -/
def decode (t : Tagged α) : Decoder α
  | p, .object ms closed => do
    let p ← p.enter
    let (decode, rest) ← t.scan p closed none [] ms
    decode .ahead (.object rest true)
  | p, .array [] closed => do
    let _ ← p.enter
    throw (if closed then .mismatch (.missingField "type") else .malformed)
  | p, .array (tag :: ds) closed => do
    let p ← p.enter
    let decode ← t.variant p tag
    let _ ← Decoder.items Decoder.any p closed ds
    decode .ahead (.array ds true)
  | _, d => .error (Decoder.refuse d)

end Tagged

/-- A variant without fields: members of an object are passed over, items of an array are not
allowed. -/
def Decoder.unit {α : Type} (x : α) : Decoder α
  | _, .object _ _ => .ok x
  | _, .array [] _ => .ok x
  | _, _ => .error .shape

/-- Reads a typed value from a whole text. -/
def Decoder.run {α : Type} (decode : Decoder α) (text : String) : Except Failure α := do
  let source := Source.read text
  let x ← decode .start source.root
  if source.clean then return x else throw .malformed

end ShardRegistry.Json
