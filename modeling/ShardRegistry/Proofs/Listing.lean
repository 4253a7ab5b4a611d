import ShardRegistry.MetaData.Table
import ShardRegistry.Proofs.Encoding

/-! Listing of tables. The names that are listed are those that a table is found by: logic tables come first,
and behind them the names that only backends have. Of several backends with a table of one name, the first in
the order of bytes gives the table. -/
namespace ShardRegistry

/-! ### Order of bytes -/

namespace Text

/-- The bytes of a character decide between two texts whose characters differ first in it. -/
theorem lt_utf8EncodeChar {c d : Char} (h : c < d) (bs bs' : List UInt8) :
    String.utf8EncodeChar c ++ bs < String.utf8EncodeChar d ++ bs' := by
  have hlt : c.val.toNat < d.val.toNat := h
  have hd : d.val.toNat < 0x110000 := by
    rcases d.valid with hd | hd
    · exact Nat.lt_trans hd (by decide)
    · exact hd.2
  have hless (a b : Nat) : UInt8.ofNat a < UInt8.ofNat b ↔ a % 256 < b % 256 := by
    rw [UInt8.lt_iff_toNat_lt, UInt8.toNat_ofNat', UInt8.toNat_ofNat']
  have hsame (a b : Nat) : UInt8.ofNat a = UInt8.ofNat b ↔ a % 256 = b % 256 := by
    rw [← UInt8.toNat_inj, UInt8.toNat_ofNat', UInt8.toNat_ofNat']
  have htwice (a : Nat) : a / 4096 = a / 64 / 64 := (Nat.div_div_eq_div_mul a 64 64).symm
  have hthrice (a : Nat) : a / 262144 = a / 64 / 64 / 64 := by
    rw [Nat.div_div_eq_div_mul, Nat.div_div_eq_div_mul]
  simp only [String.utf8EncodeChar, htwice, hthrice]
  generalize c.val.toNat = m at hlt
  generalize d.val.toNat = n at hlt hd
  -- The first byte tells how many there are, so it decides unless both characters have as many.
  split_ifs <;> simp only [List.cons_append, List.cons_lt_cons_iff, hless, hsame] <;> omega

theorem lt_flatMap_utf8EncodeChar {cs ds : List Char} (h : cs < ds) :
    cs.flatMap String.utf8EncodeChar < ds.flatMap String.utf8EncodeChar := by
  induction cs generalizing ds with
  | nil =>
    cases ds with
    | nil => exact absurd h (List.lt_irrefl _)
    | cons d ds =>
      obtain ⟨b, bs, hbytes⟩ := List.exists_cons_of_ne_nil (String.utf8EncodeChar_ne_nil (c := d))
      rw [List.flatMap_cons, hbytes]
      exact List.nil_lt_cons _ _
  | cons c cs ih =>
    cases ds with
    | nil => exact absurd h (List.not_lt_nil _)
    | cons d ds =>
      rcases List.cons_lt_cons_iff.1 h with hlt | ⟨rfl, hlt⟩
      · exact lt_utf8EncodeChar hlt _ _
      · exact List.append_left_lt (ih hlt)

/-- The bytes of one text come before those of another one. -/
def Precedes (s t : String) : Prop := utf8 s < utf8 t

/-- Texts are ordered by their bytes as they are by their characters. -/
theorem precedes_iff {s t : String} : Precedes s t ↔ s < t := by
  have hlt {s t : String} (h : s < t) : Precedes s t := by
    rw [Precedes, utf8_eq, utf8_eq]
    exact lt_flatMap_utf8EncodeChar h
  refine ⟨fun h => ?_, hlt⟩
  rcases Std.lt_trichotomy s t with hst | rfl | hts
  · exact hst
  · exact absurd h (List.lt_irrefl _)
  · exact absurd (List.lt_trans h (hlt hts)) (List.lt_irrefl _)

end Text

namespace SortedMap
variable {α β : Type}

theorem keys_precede (m : SortedMap α) : m.keys.Pairwise Text.Precedes :=
  m.sorted.imp Text.precedes_iff.2

/-- A search through the values ends at the first key whose value gives a result. -/
theorem findSome?_values_eq_some_iff (m : SortedMap α) (f : α → Option β) (y : β) :
    m.values.findSome? f = some y ↔ ∃ k, (m.find? k).bind f = some y ∧
      ∀ k', (m.find? k').bind f ≠ none → k' = k ∨ Text.Precedes k k' := by
  have hsorted := m.sorted
  simp only [values, List.findSome?_eq_some_iff, Text.precedes_iff, Option.bind_eq_some_iff,
    ← mem_entries_iff]
  constructor
  · rintro ⟨xs, x, xs', hsplit, hy, hnone⟩
    obtain ⟨es, es', hentries, rfl, hes'⟩ := List.map_eq_append_iff.1 hsplit
    obtain ⟨e, es', rfl, rfl, rfl⟩ := List.map_eq_cons_iff.1 hes'
    rw [hentries, List.map_append, List.pairwise_append, List.map_cons, List.pairwise_cons] at hsorted
    refine ⟨e.1, ⟨e.2, by simp [hentries], hy⟩, fun k' hk' => ?_⟩
    obtain ⟨y', hy'⟩ := Option.ne_none_iff_exists'.1 hk'
    obtain ⟨x', hx', hf⟩ := Option.bind_eq_some_iff.1 hy'
    have hmem := (m.mem_entries_iff k' x').2 hx'
    rw [hentries, List.mem_append, List.mem_cons] at hmem
    rcases hmem with hbefore | rfl | hafter
    · cases hf.symm.trans (hnone x' (List.mem_map_of_mem hbefore))
    · exact .inl rfl
    · exact .inr (hsorted.2.1.1 k' (List.mem_map_of_mem hafter))
  · rintro ⟨k, ⟨x, hmem, hy⟩, hleast⟩
    obtain ⟨es, es', hentries⟩ := List.append_of_mem hmem
    rw [hentries, List.map_append, List.pairwise_append, List.map_cons] at hsorted
    refine ⟨es.map (·.2), x, es'.map (·.2), by simp [hentries], hy, fun x' hx' => ?_⟩
    obtain ⟨e, he, rfl⟩ := List.mem_map.1 hx'
    have hlt : e.1 < k := hsorted.2.2 e.1 (List.mem_map_of_mem he) k List.mem_cons_self
    have hfind : m.find? e.1 = some e.2 := (m.mem_entries_iff e.1 e.2).1 (by simp [hentries, he])
    by_contra hsome
    rcases hleast e.1 (by rwa [hfind]) with rfl | hgt
    · exact String.lt_irrefl _ hlt
    · exact String.lt_irrefl _ (String.lt_trans hlt hgt)

end SortedMap

/-! ### Tables of a schema -/

namespace SchemaTables
variable (t : SchemaTables)

/-- The table of a name on one backend. -/
def tableOn? (backend name : String) : Option Table :=
  (t.unconfigured.find? backend).bind (·.find? name)

theorem mem_actualNames_iff (name : String) :
    name ∈ t.actualNames.toList ↔ ∃ backend, t.tableOn? backend name ≠ none := by
  have hmem : name ∈ t.actualNames.toList ↔ ∃ tables ∈ t.unconfigured.values, name ∈ tables.keys := by
    rw [SortedSet.toList, actualNames, SortedSet.ofList, SortedMap.mem_keys_ofList]
    simp
  simp only [hmem, SortedMap.mem_keys_iff, SortedMap.values, List.mem_map, Prod.exists,
    SortedMap.mem_entries_iff, tableOn?]
  constructor
  · rintro ⟨tables, ⟨backend, _, hfind, rfl⟩, hname⟩
    exact ⟨backend, by rwa [hfind]⟩
  · rintro ⟨backend, hname⟩
    obtain ⟨table, htable⟩ := Option.ne_none_iff_exists'.1 hname
    obtain ⟨tables, hfind, hsome⟩ := Option.bind_eq_some_iff.1 htable
    exact ⟨tables, ⟨backend, tables, hfind, rfl⟩, hsome ▸ Option.some_ne_none table⟩

theorem findTable?_eq_some_iff (name : String) (table : Table) :
    t.findTable? name = some table ↔ t.configured.find? name = some table ∨
      t.configured.find? name = none ∧ ∃ backend, t.tableOn? backend name = some table ∧
        ∀ other, t.tableOn? other name ≠ none → other = backend ∨ Text.Precedes backend other := by
  rw [findTable?]
  cases t.configured.find? name with
  | some logic => simp
  | none => simp [SortedMap.findSome?_values_eq_some_iff, tableOn?]

/-- No name is found exactly if there is no logic table and no backend has a table of it. -/
theorem findTable?_eq_none_iff (name : String) : t.findTable? name = none ↔
    t.configured.find? name = none ∧ ∀ backend, t.tableOn? backend name = none := by
  rw [findTable?]
  cases t.configured.find? name with
  | some logic => simp
  | none =>
    simp only [List.findSome?_eq_none_iff, SortedMap.values, List.mem_map, Prod.exists,
      SortedMap.mem_entries_iff, tableOn?, Option.bind_eq_none_iff, true_and]
    constructor
    · exact fun h backend tables hfind => h tables ⟨backend, tables, hfind, rfl⟩
    · rintro h _ ⟨backend, tables, hfind, rfl⟩
      exact h backend tables hfind

/-- The names that only backends have. -/
def unruledNames : List String := t.actualNames.toList.filter fun n => !t.configured.contains n

theorem mem_unruledNames_iff (name : String) : name ∈ t.unruledNames ↔
    t.configured.find? name = none ∧ ∃ backend, t.tableOn? backend name ≠ none := by
  rw [unruledNames, List.mem_filter, mem_actualNames_iff, SortedMap.contains]
  simp [and_comm]

theorem mem_tableNames_iff (name : String) : name ∈ t.tableNames ↔ (t.findTable? name).isSome := by
  have hlisted : name ∈ t.tableNames ↔ name ∈ t.configured.keys ∨ name ∈ t.unruledNames :=
    List.mem_append
  rw [hlisted, SortedMap.mem_keys_iff, mem_unruledNames_iff, Option.isSome_iff_ne_none, ne_eq, ne_eq,
    findTable?_eq_none_iff]
  by_cases hlogic : t.configured.find? name = none <;> simp [hlogic]

theorem nodup_tableNames : t.tableNames.Nodup := by
  have hactual : t.unruledNames.Nodup := (SortedMap.nodup_keys t.actualNames).filter _
  refine t.configured.nodup_keys.append hactual fun name hlogic hunruled => ?_
  exact (t.configured.mem_keys_iff name).1 hlogic ((t.mem_unruledNames_iff name).1 hunruled).1

/-- A name is listed exactly if a table is found by it. The listing has each name once: in the order of
bytes the names of the logic tables, and behind them in the same order the names that only backends have.
What is found is the logic table, if there is one, and else the table of the first backend with one. -/
theorem listed_exact (name : String) :
    (name ∈ t.tableNames ↔ (t.findTable? name).isSome) ∧ t.tableNames.Nodup ∧
    (∃ unruled, t.tableNames = t.configured.keys ++ unruled ∧
      t.configured.keys.Pairwise Text.Precedes ∧ unruled.Pairwise Text.Precedes ∧
      ∀ n, n ∈ unruled ↔ t.configured.find? n = none ∧ ∃ backend, t.tableOn? backend n ≠ none) ∧
    ∀ table, t.findTable? name = some table ↔ t.configured.find? name = some table ∨
      t.configured.find? name = none ∧ ∃ backend, t.tableOn? backend name = some table ∧
        ∀ other, t.tableOn? other name ≠ none → other = backend ∨ Text.Precedes backend other :=
  ⟨t.mem_tableNames_iff name, t.nodup_tableNames,
    ⟨t.unruledNames, rfl, t.configured.keys_precede, (SortedMap.keys_precede t.actualNames).filter _,
      t.mem_unruledNames_iff⟩, t.findTable?_eq_some_iff name⟩

end SchemaTables

end ShardRegistry
