import ShardRegistry.Map.Ordered

/-! Maps and sets of texts whose members stand in ascending order of code points, which is also
the order of their bytes. -/
namespace ShardRegistry

namespace Entries
variable {α : Type}

def insertSorted (key : String) (value : α) : List (String × α) → List (String × α)
  | [] => [(key, value)]
  | (k, v) :: rest =>
    if key < k then (key, value) :: (k, v) :: rest
    else if k = key then (k, value) :: rest
    else (k, v) :: insertSorted key value rest

theorem mem_keys_insertSorted {key k : String} {value : α} {es : List (String × α)} :
    k ∈ (insertSorted key value es).map (·.1) ↔ k = key ∨ k ∈ es.map (·.1) := by
  induction es with
  | nil => simp [insertSorted]
  | cons e es ih =>
    obtain ⟨k', v'⟩ := e
    simp only [insertSorted]
    split
    · simp
    · split
      · rename_i h; subst h; simp
      · simp only [List.map_cons, List.mem_cons, ih]
        constructor <;> rintro (h | h | h) <;> simp [h]

theorem pairwise_insertSorted {key : String} {value : α} {es : List (String × α)}
    (h : (es.map (·.1)).Pairwise (· < ·)) :
    ((insertSorted key value es).map (·.1)).Pairwise (· < ·) := by
  induction es with
  | nil => simp [insertSorted]
  | cons e es ih =>
    obtain ⟨k', v'⟩ := e
    simp only [List.map_cons, List.pairwise_cons] at h
    simp only [insertSorted]
    split
    · rename_i hlt
      simp only [List.map_cons, List.pairwise_cons, List.mem_cons]
      refine ⟨?_, h.1, h.2⟩
      rintro a (rfl | ha)
      · exact hlt
      · exact String.lt_trans hlt (h.1 a ha)
    · split
      · simpa using h
      · rename_i hlt hne
        simp only [List.map_cons, List.pairwise_cons]
        refine ⟨?_, ih h.2⟩
        intro a ha
        rcases mem_keys_insertSorted.1 ha with rfl | ha
        · rcases Std.lt_trichotomy k' a with h' | h' | h'
          · exact h'
          · exact absurd h' hne
          · exact absurd h' hlt
        · exact h.1 a ha

theorem find?_insertSorted_self (key : String) (value : α) (es : List (String × α)) :
    find? key (insertSorted key value es) = some value := by
  induction es with
  | nil => simp [insertSorted, find?]
  | cons e es ih =>
    obtain ⟨k', v'⟩ := e
    simp only [insertSorted]
    split
    · simp [find?]
    · split
      · simp [find?, *]
      · simp [find?, *]

theorem find?_insertSorted_of_ne {key k : String} (value : α) (hk : key ≠ k)
    (es : List (String × α)) : find? k (insertSorted key value es) = find? k es := by
  induction es with
  | nil => simp [insertSorted, find?, hk]
  | cons e es ih =>
    obtain ⟨k', v'⟩ := e
    simp only [insertSorted]
    split
    · simp [find?, hk]
    · split
      · rename_i h; subst h; simp [find?, hk]
      · simp [find?, ih]

end Entries

/-- A map whose entries stand in ascending order of their keys. -/
structure SortedMap (α : Type) where
  entries : List (String × α) := []
  sorted : (entries.map (·.1)).Pairwise (· < ·) := by simp
  deriving DecidableEq

namespace SortedMap
variable {α β : Type}

def empty : SortedMap α := {}

instance : Inhabited (SortedMap α) := ⟨empty⟩

def find? (m : SortedMap α) (key : String) : Option α := Entries.find? key m.entries

def contains (m : SortedMap α) (key : String) : Bool := (m.find? key).isSome

def insert (m : SortedMap α) (key : String) (value : α) : SortedMap α :=
  ⟨Entries.insertSorted key value m.entries, Entries.pairwise_insertSorted m.sorted⟩

def erase (m : SortedMap α) (key : String) : SortedMap α :=
  ⟨m.entries.filter fun e => e.1 ≠ key, m.sorted.sublist (List.filter_sublist.map _)⟩

def keys (m : SortedMap α) : List String := m.entries.map (·.1)

def values (m : SortedMap α) : List α := m.entries.map (·.2)

def size (m : SortedMap α) : Nat := m.entries.length

def isEmpty (m : SortedMap α) : Bool := m.entries.isEmpty

/-- Writes the pairs one after the other, so that the last one of a key stays. -/
def ofList (es : List (String × α)) : SortedMap α :=
  es.foldl (fun m e => m.insert e.1 e.2) empty

def map (f : α → β) (m : SortedMap α) : SortedMap β :=
  ⟨m.entries.map fun e => (e.1, f e.2), by simpa [List.map_map, Function.comp_def] using m.sorted⟩

/-- The entries that satisfy `p`. -/
def filter (p : String → α → Bool) (m : SortedMap α) : SortedMap α :=
  ⟨m.entries.filter fun e => p e.1 e.2, m.sorted.sublist (List.filter_sublist.map _)⟩

theorem find?_insert_self (m : SortedMap α) (key : String) (value : α) :
    (m.insert key value).find? key = some value :=
  Entries.find?_insertSorted_self key value m.entries

theorem find?_insert_of_ne (m : SortedMap α) {key k : String} (value : α) (h : key ≠ k) :
    (m.insert key value).find? k = m.find? k :=
  Entries.find?_insertSorted_of_ne value h m.entries

end SortedMap

/-- A set of texts in ascending order. -/
abbrev SortedSet := SortedMap Unit

namespace SortedSet

def ofList (xs : List String) : SortedSet := SortedMap.ofList (xs.map fun x => (x, ()))

def toList (s : SortedSet) : List String := SortedMap.keys s

end SortedSet

end ShardRegistry
