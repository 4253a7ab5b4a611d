import ShardRegistry.DataSource.Reconciliation
import ShardRegistry.Proofs.Maps

/-! Differences. The old data sources of a schema and its new parameters decide which backends stay with
their pools and which take a new one, and what is reconciled consists of the two. -/
namespace ShardRegistry

/-! ### Where two maps agree -/

namespace DataSourceMap
variable (m : DataSourceMap) (new : ParameterMap)

/-- The backends that are in both maps with equal parameters, in the old order. -/
def retained : List (String × DataSource) :=
  m.entries.filter fun e => new.find? e.1 = some e.2.parameters

/-- The backends that the new map lacks or has with other parameters. -/
def dropped : List (String × DataSource) :=
  m.entries.filter fun e => new.find? e.1 ≠ some e.2.parameters

/-- The backends that are in both maps with different parameters, in the new order. -/
def modified : List (String × ConnectionParameters) :=
  new.entries.filter fun e => (m.find? e.1).any (·.parameters ≠ e.2)

def added : List (String × ConnectionParameters) :=
  new.entries.filter fun e => m.find? e.1 = none

/-- The backends that take a new pool, in the order in which they are built. -/
def outdated : List (String × ConnectionParameters) := m.modified new ++ m.added new

variable {m new}

theorem find?_parameters (b : String) :
    m.parameters.find? b = (m.find? b).map (·.parameters) := OrderedMap.find?_map _ m b

theorem keys_parameters (m : DataSourceMap) : m.parameters.keys = m.keys := by
  simp [parameters, OrderedMap.keys, OrderedMap.map]

theorem mem_outdated {e : String × ConnectionParameters} : e ∈ m.outdated new ↔
    new.find? e.1 = some e.2 ∧ m.parameters.find? e.1 ≠ some e.2 := by
  simp only [outdated, modified, added, List.mem_append, List.mem_filter, find?_parameters,
    decide_eq_true_eq, ← and_or_left]
  refine and_congr (OrderedMap.mem_entries_iff new e.1 e.2) ?_
  cases m.find? e.1 <;> simp

theorem mem_retained {e : String × DataSource} : e ∈ m.retained new ↔
    m.find? e.1 = some e.2 ∧ new.find? e.1 = some e.2.parameters := by
  rw [retained, List.mem_filter, decide_eq_true_eq]
  exact and_congr_left fun _ => OrderedMap.mem_entries_iff m e.1 e.2

theorem nodup_outdated : ((m.outdated new).map (·.1)).Nodup := by
  rw [outdated, List.map_append, List.nodup_append']
  have hkeys : (new.entries.map (·.1)).Nodup := new.nodup
  refine ⟨hkeys.sublist (List.filter_sublist.map _), hkeys.sublist (List.filter_sublist.map _), ?_⟩
  intro b hmodified hadded
  obtain ⟨e, he, rfl⟩ := List.mem_map.1 hmodified
  obtain ⟨e', he', hb⟩ := List.mem_map.1 hadded
  have hnone : m.find? e'.1 = none := by simpa using (List.mem_filter.1 he').2
  have hsome := (List.mem_filter.1 he).2
  rw [← hb, hnone] at hsome
  cases hsome

/-- A backend that stays is none of those that are built. -/
theorem nodup_retained_outdated :
    ((m.retained new).map (·.1) ++ (m.outdated new).map (·.1)).Nodup := by
  have hkeys : (m.entries.map (·.1)).Nodup := m.nodup
  refine List.nodup_append'.2 ⟨hkeys.sublist (List.filter_sublist.map _), nodup_outdated, ?_⟩
  intro b hretained houtdated
  obtain ⟨e, he, rfl⟩ := List.mem_map.1 hretained
  obtain ⟨e', he', hb⟩ := List.mem_map.1 houtdated
  obtain ⟨hold, hnew⟩ := mem_retained.1 he
  obtain ⟨hnew', hne⟩ := mem_outdated.1 he'
  rw [hb, hnew] at hnew'
  rw [hb, find?_parameters, hold] at hne
  exact hne hnew'

end DataSourceMap

/-! ### Names of changes -/

namespace DataSourceChanges

section
variable {old new : ParameterMap} {n : String}

theorem mem_added : n ∈ (compute old new).added ↔ new.find? n ≠ none ∧ old.find? n = none := by
  simp [compute, List.mem_filter, OrderedMap.mem_keys_iff, OrderedMap.contains]

theorem mem_deleted : n ∈ (compute old new).deleted ↔ old.find? n ≠ none ∧ new.find? n = none := by
  simp [compute, List.mem_filter, OrderedMap.mem_keys_iff, OrderedMap.contains]

theorem mem_modified : n ∈ (compute old new).modified ↔
    ∃ p q, new.find? n = some p ∧ old.find? n = some q ∧ q ≠ p := by
  simp only [compute, List.mem_map, List.mem_filter, differs]
  constructor
  · rintro ⟨⟨k, p⟩, ⟨hmem, hd⟩, rfl⟩
    simp only at hd ⊢
    split at hd
    · rename_i q hq
      exact ⟨p, q, (OrderedMap.mem_entries_iff new k p).1 hmem, hq, by simpa using hd⟩
    · cases hd
  · rintro ⟨p, q, hp, hq, hne⟩
    refine ⟨(n, p), ⟨(OrderedMap.mem_entries_iff new n p).2 hp, ?_⟩, rfl⟩
    simpa [hq] using hne

/-- Maps with the same lookups do not differ. -/
theorem compute_of_agree (h : ∀ b, old.find? b = new.find? b) :
    compute old new = {} := by
  have hadded : (compute old new).added = [] := List.eq_nil_iff_forall_not_mem.2 fun n hn => by
    obtain ⟨hsome, hnone⟩ := mem_added.1 hn
    exact hsome ((h n).symm.trans hnone)
  have hdeleted : (compute old new).deleted = [] := List.eq_nil_iff_forall_not_mem.2 fun n hn => by
    obtain ⟨hsome, hnone⟩ := mem_deleted.1 hn
    exact hsome ((h n).trans hnone)
  have hmodified : (compute old new).modified = [] := List.eq_nil_iff_forall_not_mem.2 fun n hn => by
    obtain ⟨p, q, hp, hq, hne⟩ := mem_modified.1 hn
    rw [h n, hp] at hq
    exact hne (Option.some.inj hq).symm
  calc compute old new
      = ⟨(compute old new).added, (compute old new).deleted, (compute old new).modified⟩ := rfl
    _ = {} := by rw [hadded, hdeleted, hmodified]

end

variable {m : DataSourceMap} {new : ParameterMap}

theorem supersedes_iff {e : String × DataSource} (he : e ∈ m.entries) :
    (compute m.parameters new).supersedes e.1 = true ↔ new.find? e.1 ≠ some e.2.parameters := by
  have hold : m.parameters.find? e.1 = some e.2.parameters := by
    rw [DataSourceMap.find?_parameters, (OrderedMap.mem_entries_iff m e.1 e.2).1 he]
    rfl
  simp only [supersedes, Bool.or_eq_true, List.contains_iff_mem, mem_deleted, mem_modified, hold]
  cases hnew : new.find? e.1 with
  | none => simp
  | some p => simp [eq_comm]

theorem filter_supersedes :
    (m.filter fun n _ => (compute m.parameters new).supersedes n).entries = m.dropped new :=
  List.filter_congr fun e he => by
    rw [Bool.eq_iff_iff, supersedes_iff he, decide_eq_true_eq]

theorem filter_not_supersedes :
    (m.filter fun n _ => !(compute m.parameters new).supersedes n).entries = m.retained new :=
  List.filter_congr fun e he => by
    rw [Bool.eq_iff_iff, Bool.not_eq_true', ← Bool.not_eq_true, supersedes_iff he,
      decide_eq_true_eq, not_not]

theorem select_of_subset {es : List (String × ConnectionParameters)} (h : es ⊆ new.entries) :
    Reconciliation.select new (es.map (·.1)) = es := by
  induction es with
  | nil => rfl
  | cons e es ih =>
    obtain ⟨he, hes⟩ := List.cons_subset.1 h
    have hfind : new.find? e.1 = some e.2 := (OrderedMap.mem_entries_iff new e.1 e.2).1 he
    have htail := ih hes
    simp only [Reconciliation.select] at htail
    simp [Reconciliation.select, hfind, htail]

theorem select_changed :
    Reconciliation.select new ((compute m.parameters new).modified ++
      (compute m.parameters new).added) = m.outdated new := by
  have hmodified : (compute m.parameters new).modified = (m.modified new).map (·.1) := by
    refine congrArg (List.map Prod.fst) (List.filter_congr fun e _ => ?_)
    rw [differs, DataSourceMap.find?_parameters]
    cases m.find? e.1 <;> rfl
  have hadded : (compute m.parameters new).added = (m.added new).map (·.1) := by
    simp only [compute, OrderedMap.keys, List.filter_map]
    refine congrArg (List.map Prod.fst) (List.filter_congr fun e _ => ?_)
    simp only [Function.comp_apply, OrderedMap.contains, DataSourceMap.find?_parameters]
    cases m.find? e.1 <;> rfl
  rw [hmodified, hadded, ← List.map_append]
  refine select_of_subset fun e he => ?_
  rcases List.mem_append.1 he with he | he <;> exact List.mem_of_mem_filter he

end DataSourceChanges

/-! ### What is built -/

namespace Resources
variable {r r' : Resources} {f : Factory}

theorem buildDataSource_parameters {name : String} {p : ConnectionParameters} {d : DataSource}
    (h : r.buildDataSource f name p = (r', .ok d)) : d.parameters = p := by
  simp only [buildDataSource] at h
  split at h
  · cases h
  · split at h <;> cases h
    rfl

/-- Data sources are built for all parameters, in their order. -/
theorem buildAll_parameters {todo : List (String × ConnectionParameters)} {built m : DataSourceMap}
    (hn : (built.keys ++ todo.map (·.1)).Nodup) (h : r.buildAll f built todo = (r', .ok m)) :
    m.parameters.entries = built.parameters.entries ++ todo := by
  induction todo generalizing r built with
  | nil =>
    cases h
    simp
  | cons e todo ih =>
    simp only [buildAll] at h
    split at h
    · cases h
    · rename_i r₁ d hd
      have hnot : e.1 ∉ built.keys := fun hm => List.disjoint_of_nodup_append hn hm (by simp)
      have hentries : (built.insert e.1 d).entries = built.entries ++ [(e.1, d)] :=
        OrderedMap.entries_insert built d hnot
      have hkeys : (built.insert e.1 d).keys = built.keys ++ [e.1] := by
        simp [OrderedMap.keys, hentries]
      rw [ih (by simpa [hkeys] using hn) h]
      simp [DataSourceMap.parameters, OrderedMap.map, hentries, buildDataSource_parameters hd]

theorem buildAll_empty_parameters {todo : List (String × ConnectionParameters)} {m : DataSourceMap}
    (hn : (todo.map (·.1)).Nodup) (h : r.buildAll f .empty todo = (r', .ok m)) :
    m.parameters.entries = todo := by
  have hn' : ((OrderedMap.empty : DataSourceMap).keys ++ todo.map (·.1)).Nodup := hn
  exact buildAll_parameters hn' h

theorem createDataSources_parameters {ps : ParameterMap} {m : DataSourceMap}
    (h : r.createDataSources f ps = (r', .ok m)) : m.parameters = ps :=
  OrderedMap.ext_entries (buildAll_empty_parameters ps.nodup h)

end Resources

/-! ### What is reconciled -/

namespace Reconciliation
variable {r r' : Resources} {f : Factory} {current : DataSourceMap} {new : ParameterMap}

theorem compute_error {e : Error} (h : compute r f current new = (r', .error e)) :
    r.buildAll f .empty (current.outdated new) = (r', .error e) := by
  simp only [compute, DataSourceChanges.select_changed] at h
  split at h <;> cases h
  assumption

/-- What a reconciliation that succeeded is made of. -/
structure Joins (x : Reconciliation) (current : DataSourceMap) (new : ParameterMap) : Prop where
  changes : x.changes = DataSourceChanges.compute current.parameters new
  built : x.built.parameters.entries = current.outdated new
  /-- The backends that stay come first, then those that were built. -/
  dataSources : x.dataSources.entries = current.retained new ++ x.built.entries
  superseded : x.superseded = (current.dropped new).map (·.2)

theorem compute_ok {x : Reconciliation} (h : compute r f current new = (r', .ok x)) :
    r.buildAll f .empty (current.outdated new) = (r', .ok x.built) ∧ x.Joins current new := by
  simp only [compute, DataSourceChanges.select_changed] at h
  split at h <;> cases h
  rename_i built hb
  have hbuilt : built.parameters.entries = current.outdated new :=
    Resources.buildAll_empty_parameters DataSourceMap.nodup_outdated hb
  have hkeys : built.entries.map (·.1) = (current.outdated new).map (·.1) :=
    (DataSourceMap.keys_parameters built).symm.trans (congrArg (List.map Prod.fst) hbuilt)
  refine ⟨hb, rfl, hbuilt, ?_, ?_⟩
  · rw [OrderedMap.entries_foldl_insert, DataSourceChanges.filter_not_supersedes]
    rw [OrderedMap.keys, DataSourceChanges.filter_not_supersedes, hkeys]
    exact DataSourceMap.nodup_retained_outdated
  · simp only [OrderedMap.values, DataSourceChanges.filter_supersedes]

/-- The data sources that come of a reconciliation have the new parameters, in another order. -/
theorem Joins.parameters {x : Reconciliation} (h : x.Joins current new) (b : String) :
    x.dataSources.parameters.find? b = new.find? b := by
  have hentries : x.dataSources.parameters.entries =
      (current.retained new).map (fun e => (e.1, e.2.parameters)) ++ current.outdated new := by
    rw [← h.built]
    exact (congrArg _ h.dataSources).trans List.map_append
  refine Option.ext fun p => ?_
  rw [← OrderedMap.mem_entries_iff, hentries, List.mem_append, DataSourceMap.mem_outdated]
  constructor
  · rintro (hretained | ⟨hnew, _⟩)
    · obtain ⟨e, he, heq⟩ := List.mem_map.1 hretained
      cases heq
      exact (DataSourceMap.mem_retained.1 he).2
    · exact hnew
  · intro hnew
    by_cases hold : current.parameters.find? b = some p
    · have hfind := hold
      rw [DataSourceMap.find?_parameters, Option.map_eq_some_iff] at hfind
      obtain ⟨d, hd, rfl⟩ := hfind
      exact .inl (List.mem_map.2 ⟨(b, d), DataSourceMap.mem_retained.2 ⟨hd, hnew⟩, rfl⟩)
    · exact .inr ⟨hnew, hold⟩

theorem compute_parameters {x : Reconciliation} (h : compute r f current new = (r', .ok x))
    (b : String) : x.dataSources.parameters.find? b = new.find? b := (compute_ok h).2.parameters b

/-- A backend is left out only if it is deleted. -/
theorem kept_or_deleted {x : Reconciliation} (h : compute r f current new = (r', .ok x)) {b : String}
    (hb : b ∈ current.keys) : b ∈ x.dataSources.keys ∨ b ∈ x.changes.deleted := by
  have hparameters := compute_parameters h b
  rw [OrderedMap.mem_keys_iff] at hb ⊢
  rw [(compute_ok h).2.changes, DataSourceChanges.mem_deleted, ← hparameters]
  simp only [DataSourceMap.find?_parameters]
  cases hx : x.dataSources.find? b with
  | none => exact .inr ⟨by simpa using hb, rfl⟩
  | some d => exact .inl (Option.some_ne_none d)

end Reconciliation

end ShardRegistry
