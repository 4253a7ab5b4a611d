/-! Maps from texts that keep the order of first insertion. Writing to a key that is present
replaces its value where it stands; a new key goes to the end. -/
namespace ShardRegistry

namespace Entries
variable {α : Type}

def find? (key : String) : List (String × α) → Option α
  | [] => none
  | (k, v) :: rest => if k = key then some v else find? key rest

def put (key : String) (value : α) : List (String × α) → List (String × α)
  | [] => [(key, value)]
  | (k, v) :: rest => if k = key then (k, value) :: rest else (k, v) :: put key value rest

theorem mem_keys_put {key k : String} {value : α} {es : List (String × α)} :
    k ∈ (put key value es).map (·.1) ↔ k = key ∨ k ∈ es.map (·.1) := by
  induction es with
  | nil => simp [put]
  | cons e es ih =>
    by_cases h : e.1 = key
    · simp [put, h]
    · simp only [put, h, if_false, List.map_cons, List.mem_cons, ih]
      constructor <;> rintro (h | h | h) <;> simp [h]

theorem nodup_put {key : String} {value : α} {es : List (String × α)}
    (h : (es.map (·.1)).Nodup) : ((put key value es).map (·.1)).Nodup := by
  induction es with
  | nil => simp [put]
  | cons e es ih =>
    have hn := List.nodup_cons.1 h
    by_cases hk : e.1 = key
    · simpa [put, hk] using h
    · simp only [put, hk, if_false, List.map_cons, List.nodup_cons]
      refine ⟨?_, ih hn.2⟩
      rw [mem_keys_put]
      rintro (h' | h')
      · exact hk h'
      · exact hn.1 h'

theorem find?_put_self (key : String) (value : α) (es : List (String × α)) :
    find? key (put key value es) = some value := by
  induction es with
  | nil => simp [put, find?]
  | cons e es ih => by_cases h : e.1 = key <;> simp [put, find?, h, ih]

theorem find?_put_of_ne {key k : String} (value : α) (hk : key ≠ k) (es : List (String × α)) :
    find? k (put key value es) = find? k es := by
  induction es with
  | nil => simp [put, find?, hk]
  | cons e es ih =>
    by_cases h : e.1 = key
    · subst h; simp [put, find?, hk]
    · simp [put, find?, h, ih]

end Entries

/-- A map whose entries stand in the order in which their keys were first written. -/
structure OrderedMap (α : Type) where
  entries : List (String × α) := []
  nodup : (entries.map (·.1)).Nodup := by simp
  deriving DecidableEq

namespace OrderedMap
variable {α β : Type}

def empty : OrderedMap α := {}

instance : Inhabited (OrderedMap α) := ⟨empty⟩

def find? (m : OrderedMap α) (key : String) : Option α := Entries.find? key m.entries

def contains (m : OrderedMap α) (key : String) : Bool := (m.find? key).isSome

def insert (m : OrderedMap α) (key : String) (value : α) : OrderedMap α :=
  ⟨Entries.put key value m.entries, Entries.nodup_put m.nodup⟩

def keys (m : OrderedMap α) : List String := m.entries.map (·.1)

def values (m : OrderedMap α) : List α := m.entries.map (·.2)

def size (m : OrderedMap α) : Nat := m.entries.length

/-- Writes the pairs one after the other. -/
def ofList (es : List (String × α)) : OrderedMap α :=
  es.foldl (fun m e => m.insert e.1 e.2) empty

def map (f : α → β) (m : OrderedMap α) : OrderedMap β :=
  ⟨m.entries.map fun e => (e.1, f e.2), by simpa [List.map_map, Function.comp_def] using m.nodup⟩

/-- The entries that satisfy `p`, in their order. -/
def filter (p : String → α → Bool) (m : OrderedMap α) : OrderedMap α :=
  ⟨m.entries.filter fun e => p e.1 e.2, m.nodup.sublist (List.filter_sublist.map _)⟩

theorem find?_insert_self (m : OrderedMap α) (key : String) (value : α) :
    (m.insert key value).find? key = some value := Entries.find?_put_self key value m.entries

theorem find?_insert_of_ne (m : OrderedMap α) {key k : String} (value : α) (h : key ≠ k) :
    (m.insert key value).find? k = m.find? k := Entries.find?_put_of_ne value h m.entries

end OrderedMap

end ShardRegistry
