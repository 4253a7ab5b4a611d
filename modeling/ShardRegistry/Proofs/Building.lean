import ShardRegistry.Proofs.Custody
import ShardRegistry.Proofs.Differences

/-! Building under custody. A builder that succeeds hands over what it built; one that fails has closed
all of it. -/
namespace ShardRegistry

/-- The pools of a schema, one for each backend. -/
def SchemaContext.pools (c : SchemaContext) : List PoolId := c.dataSources.held

namespace Resources.Custody
variable {r₀ r r' : Resources} {p e : Nat} {ps es : List Nat}

theorem addPool_error {f : Factory} {name : String} {q : ConnectionParameters} {x : Error}
    (h : Custody r₀ r ps es) (hb : r.addPool f name q = (r', .error x)) : Custody r₀ r' ps es := by
  simp only [addPool] at hb
  split at hb <;> cases hb
  exact h.of_eq rfl rfl rfl rfl (List.prefix_refl _)

theorem addPool_ok {f : Factory} {name : String} {q : ConnectionParameters} {p : PoolId}
    (h : Custody r₀ r ps es) (hb : r.addPool f name q = (r', .ok p)) :
    Custody r₀ r' (p :: ps) es := by
  simp only [addPool] at hb
  split at hb <;> cases hb
  exact ⟨h.pools.append rfl, h.engines.of_eq rfl rfl rfl, h.disabled_kept⟩

theorem buildDataSource_error {f : Factory} {name : String} {q : ConnectionParameters} {x : Error}
    (h : Custody r₀ r ps es) (hb : r.buildDataSource f name q = (r', .error x)) :
    Custody r₀ r' ps es := by
  simp only [buildDataSource] at hb
  split at hb
  · cases hb
    exact h
  · split at hb <;> cases hb
    rename_i heq
    exact h.addPool_error heq

theorem buildDataSource_ok {f : Factory} {name : String} {q : ConnectionParameters}
    {d : DataSource} (h : Custody r₀ r ps es) (hb : r.buildDataSource f name q = (r', .ok d)) :
    Custody r₀ r' (d.pool :: ps) es := by
  simp only [buildDataSource] at hb
  split at hb
  · cases hb
  · split at hb <;> cases hb
    rename_i heq
    exact h.addPool_ok heq

/-- Data sources that are built onto others: all of them at the end, in the order of the names, or
none is left. -/
theorem buildAll {f : Factory} {todo : List (String × ConnectionParameters)}
    {built : DataSourceMap} {result : Except Error DataSourceMap}
    (h : Custody r₀ r (built.held ++ ps) es) (hn : (built.keys ++ todo.map (·.1)).Nodup)
    (hb : r.buildAll f built todo = (r', result)) :
    (∃ x, result = .error x ∧ Custody r₀ r' ps es) ∨
    (∃ m : DataSourceMap, result = .ok m ∧ m.keys = built.keys ++ todo.map (·.1) ∧
      Custody r₀ r' (m.held ++ ps) es) := by
  induction todo generalizing r built with
  | nil =>
    cases hb
    exact .inr ⟨built, rfl, by simp, h⟩
  | cons t todo ih =>
    simp only [Resources.buildAll] at hb
    split at hb
    · rename_i r₁ x heq
      cases hb
      exact .inl ⟨x, rfl, (h.buildDataSource_error heq).closePools⟩
    · rename_i r₁ d heq
      have hnot : t.1 ∉ built.keys := by
        intro hm
        exact List.disjoint_of_nodup_append hn hm (by simp)
      have hentries := OrderedMap.entries_insert built d hnot
      have hkeys : (built.insert t.1 d).keys = built.keys ++ [t.1] := by
        simp [OrderedMap.keys, hentries]
      have hheld : DataSourceMap.held (built.insert t.1 d) = built.held ++ [d.pool] := by
        simp [DataSourceMap.held, OrderedMap.values, hentries]
      have hperm : (d.pool :: (built.held ++ ps)).Perm
          (DataSourceMap.held (built.insert t.1 d) ++ ps) := by
        rw [hheld, List.append_assoc]
        exact List.perm_middle.symm
      have hstep := (h.buildDataSource_ok heq).perm_pools hperm
      simpa [hkeys, List.append_assoc] using
        ih hstep (by simpa [hkeys, List.append_assoc] using hn) hb

theorem buildAll_empty {f : Factory} {todo : List (String × ConnectionParameters)}
    {result : Except Error DataSourceMap} (h : Custody r₀ r ps es) (hn : (todo.map (·.1)).Nodup)
    (hb : r.buildAll f .empty todo = (r', result)) :
    (∃ x, result = .error x ∧ Custody r₀ r' ps es) ∨
    (∃ m : DataSourceMap, result = .ok m ∧ m.keys = todo.map (·.1) ∧
      Custody r₀ r' (m.held ++ ps) es) := by
  have hstart : Custody r₀ r (DataSourceMap.held .empty ++ ps) es := h
  exact hstart.buildAll hn hb

theorem createDataSources {f : Factory} {q : ParameterMap}
    {result : Except Error DataSourceMap} (h : Custody r₀ r ps es)
    (hb : r.createDataSources f q = (r', result)) :
    (∃ x, result = .error x ∧ Custody r₀ r' ps es) ∨
    (∃ m : DataSourceMap, result = .ok m ∧ m.keys = q.keys ∧ Custody r₀ r' (m.held ++ ps) es) :=
  h.buildAll_empty q.nodup hb

/-- A schema takes an engine on completion and none otherwise. -/
theorem finishSchema {q : PendingSchema} {loaded : SortedMap Tables}
    {result : Except Stop (Stamped SchemaContext)} (h : Custody r₀ r ps es)
    (hb : r.finishSchema q loaded = (r', result)) :
    (∃ x, result = .error (.rejected x) ∧ Custody r₀ r' ps es) ∨
    (result = .error .crashed ∧ q.properties.executorSize > Executor.limit) ∨
    (∃ c, result = .ok c ∧ c.value.name = q.name ∧ c.value.dataSources = q.dataSources ∧
      Custody r₀ r' ps (c.value.engine :: es)) := by
  rcases finishSchema_cases hb with ⟨x, rfl, rfl⟩ | ⟨rfl, hsize, _⟩ |
    ⟨c, rfl, hname, hsources, hengine, sets, stamps, rfl⟩
  · exact .inl ⟨x, rfl, h⟩
  · exact .inr (.inl ⟨rfl, hsize⟩)
  · refine .inr (.inr ⟨c, rfl, hname, hsources, ?_⟩)
    rw [hengine]
    exact (h.addEngine _).of_eq rfl rfl rfl rfl (List.prefix_append _ _)

theorem closeContext {c : SchemaContext} (h : Custody r₀ r (c.pools ++ ps) (c.engine :: es)) :
    Custody r₀ (c.close r) ps es := h.closeDataSources.closeEngine

theorem closeContexts {cs : List SchemaContext}
    (h : Custody r₀ r (cs.flatMap (·.pools) ++ ps) (cs.map (·.engine) ++ es)) :
    Custody r₀ (cs.foldl (fun r c => c.close r) r) ps es := by
  induction cs generalizing r with
  | nil => exact h
  | cons c cs ih =>
    rw [List.flatMap_cons, List.append_assoc] at h
    exact ih (closeContext h)

end Resources.Custody

namespace Reconciliation

/-- What a reconciliation owes to the map it started from: pools are neither lost nor shared, and each
old data source is superseded or stays under its name. -/
structure Balances (x : Reconciliation) (current : DataSourceMap) : Prop where
  held : (x.dataSources.held ++ x.superseded.map (·.pool)).Perm (current.held ++ x.built.held)
  stays : ∀ b d, current.find? b = some d →
    d ∈ x.superseded ∨ (x.dataSources.find? b = some d ∧ b ∉ x.changes.deleted)

theorem Joins.balances {x : Reconciliation} {current : DataSourceMap} {new : ParameterMap}
    (h : x.Joins current new) : x.Balances current where
  held := by
    have hsplit : (current.retained new ++ current.dropped new).Perm current.entries := by
      refine (List.Perm.of_eq (congrArg _ ?_)).trans (List.filter_append_perm _ current.entries)
      exact List.filter_congr fun e _ => by simp
    have hpools := (hsplit.map (·.2.pool)).append_right (x.built.entries.map (·.2.pool))
    simp only [List.map_append, List.append_assoc] at hpools
    simp only [DataSourceMap.held, OrderedMap.values, h.dataSources, h.superseded, List.map_append,
      List.map_map, List.append_assoc]
    exact (List.perm_append_comm.append_left _).trans hpools
  stays b d hd := by
    by_cases hnew : new.find? b = some d.parameters
    · refine .inr ⟨?_, ?_⟩
      · rw [← OrderedMap.mem_entries_iff, h.dataSources]
        exact List.mem_append_left _ (DataSourceMap.mem_retained.2 ⟨hd, hnew⟩)
      · rw [h.changes, DataSourceChanges.mem_deleted, hnew]
        simp
    · rw [h.superseded]
      have hmem := (OrderedMap.mem_entries_iff current b d).2 hd
      exact .inl (List.mem_map.2 ⟨(b, d), List.mem_filter.2 ⟨hmem, by simpa using hnew⟩, rfl⟩)

end Reconciliation

namespace Resources.Custody
variable {r₀ r r' : Resources} {ps es : List Nat}

open Reconciliation in
theorem reconcile {f : Factory} {current : DataSourceMap} {new : ParameterMap}
    {result : Except Error Reconciliation} (h : Custody r₀ r ps es)
    (hb : Reconciliation.compute r f current new = (r', result)) :
    (∃ x, result = .error x ∧ Custody r₀ r' ps es) ∨
    (∃ x : Reconciliation, result = .ok x ∧ x.Balances current ∧
      Custody r₀ r' (x.built.held ++ ps) es) := by
  cases result with
  | error e =>
    rcases h.buildAll_empty DataSourceMap.nodup_outdated (compute_error hb) with
      ⟨_, _, h'⟩ | ⟨_, hok, _⟩
    · exact .inl ⟨e, rfl, h'⟩
    · cases hok
  | ok x =>
    obtain ⟨hbuild, hjoins⟩ := compute_ok hb
    rcases h.buildAll_empty DataSourceMap.nodup_outdated hbuild with ⟨_, herr, _⟩ | ⟨_, hok, _, h'⟩
    · cases herr
    · cases hok
      exact .inr ⟨x, rfl, hjoins.balances, h'⟩

end Resources.Custody

end ShardRegistry
