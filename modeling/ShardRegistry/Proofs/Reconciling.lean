import ShardRegistry.Proofs.Making

/-! Reconciling. New data sources of a schema come to the same as if it were built with them from the
start, but for their order, since the pools that are kept stand first. -/
namespace ShardRegistry

/-! ### Order of parameters -/

section
variable {names names' : List String} (h : ∀ n, names.contains n = names'.contains n)
include h

theorem TableRule.ofConfiguration_congr (seen : List String) (c : TableConfiguration) :
    ofConfiguration names seen c = ofConfiguration names' seen c := by
  simp only [ofConfiguration, h]

theorem ShardingRule.tablesOf_congr (seen : List String) (cs : List TableConfiguration) :
    tablesOf names seen cs = tablesOf names' seen cs := by
  induction cs generalizing seen with
  | nil => rfl
  | cons c cs ih => simp only [tablesOf, TableRule.ofConfiguration_congr h, ih]

theorem ShardingRule.ofConfiguration_congr (c : ShardingConfiguration) :
    ofConfiguration names c = ofConfiguration names' c := by
  simp only [ofConfiguration, tablesOf_congr h, h]

theorem ReadWriteRule.ofConfiguration_congr (c : ReadWriteConfiguration) :
    ofConfiguration names c = ofConfiguration names' c := by
  simp only [ofConfiguration, h]

/-- Rules ask which names there are, and not in which order. -/
theorem Rule.build_congr (cs : List RuleConfiguration) : build names cs = build names' cs := by
  have hrule : ofConfiguration names = ofConfiguration names' := by
    funext c
    cases c with
    | sharding c => simp only [ofConfiguration, ShardingRule.ofConfiguration_congr h]
    | readWrite c => simp only [ofConfiguration, ReadWriteRule.ofConfiguration_congr h]
  rw [build, hrule, build]

end

section
variable {ps qs : ParameterMap} (h : ∀ k, ps.find? k = qs.find? k)
include h

theorem OrderedMap.contains_keys_congr (n : String) : ps.keys.contains n = qs.keys.contains n := by
  rw [Bool.eq_iff_iff, List.contains_iff_mem, List.contains_iff_mem, mem_keys_iff, mem_keys_iff, h]

theorem MetaData.locationsOf_congr : locationsOf ps = locationsOf qs := by
  refine SortedMap.ext_find? fun k => ?_
  rw [find?_locationsOf_eq, find?_locationsOf_eq, h]

end

/-- Two schemas agree on everything but the order of their data sources, and with it on which of them
comes first. -/
structure SchemaContents.Matches (x y : SchemaContents) : Prop where
  name : x.name = y.name
  dialect : x.dialect = y.dialect
  parser : x.parser = y.parser
  parameters : ∀ k, x.parameters.find? k = y.parameters.find? k
  configurations : x.configurations = y.configurations
  rules : x.rules = y.rules
  locations : x.metaData.locations = y.metaData.locations
  tables : x.metaData.tables = y.metaData.tables
  executorSize : x.executorSize = y.executorSize

theorem SchemaContents.complete_congr {ps qs : ParameterMap} (h : ∀ k, ps.find? k = qs.find? k)
    (name : String) (d : Dialect) (cs : List RuleConfiguration) (rules : List Rule)
    (properties : Properties) (loaded : Except Error (SortedMap Tables)) :
    (complete name d ps cs rules properties loaded = none ∧
      complete name d qs cs rules properties loaded = none) ∨
    ∃ x y, complete name d ps cs rules properties loaded = some x ∧
      complete name d qs cs rules properties loaded = some y ∧ x.Matches y := by
  cases loaded with
  | error e => exact .inl ⟨rfl, rfl⟩
  | ok tables =>
    cases hd : decorate tables rules properties.checkTableMetadataEnabled with
    | error f => exact .inl (by simp [complete, hd, Except.toOption])
    | ok decorated =>
      by_cases hsize : properties.executorSize ≤ Executor.limit
      · have hall (ps : ParameterMap) : complete name d ps cs rules properties (.ok tables) =
            some ⟨name, d, ps, cs, rules, MetaData.ofParameters ps decorated,
              properties.executorSize, d, CachedBackend.ofParameters d ps⟩ := by
          simp [complete, hd, hsize, Except.toOption]
        exact .inr ⟨_, _, hall ps, hall qs,
          ⟨rfl, rfl, rfl, h, rfl, rfl, MetaData.locationsOf_congr h, rfl, rfl⟩⟩
      · have hnone (ps : ParameterMap) :
            complete name d ps cs rules properties (.ok tables) = none := by
          simp [complete, hsize, Except.toOption]
        exact .inl ⟨hnone ps, hnone qs⟩

namespace Backends
variable {b : Backends}

/-- The backends answer for which data sources a schema has, in whatever order. -/
def Unordered (b : Backends) : Prop :=
  ∀ d ps qs, (∀ k, ps.find? k = qs.find? k) → b.tables d ps = b.tables d qs

/-- From the same parameters in another order the same schema is made, or none. -/
theorem make_congr (hb : b.Unordered) {ps qs : ParameterMap} (h : ∀ k, ps.find? k = qs.find? k)
    (name : String) (d : Dialect) (cs : List RuleConfiguration) (properties : Properties) :
    (b.make name d ps cs properties = none ∧ b.make name d qs cs properties = none) ∨
    ∃ x y, b.make name d ps cs properties = some x ∧ b.make name d qs cs properties = some y ∧
      x.Matches y := by
  have hsuits : (ps.entries.all fun e => b.suits e.1 e.2) = qs.entries.all fun e => b.suits e.1 e.2 := by
    rw [Bool.eq_iff_iff, all_suits_iff, all_suits_iff]
    simp only [Suit, h]
  have hkeys := Rule.build_congr (OrderedMap.contains_keys_congr h) cs
  simp only [make, hsuits, hkeys, hb d ps qs h]
  cases qs.entries.all fun e => b.suits e.1 e.2 with
  | false => exact .inl ⟨rfl, rfl⟩
  | true =>
    cases Rule.build qs.keys cs with
    | error f => exact .inl ⟨rfl, rfl⟩
    | ok rules => exact SchemaContents.complete_congr h name d cs rules properties (b.tables d qs)

end Backends

/-! ### Reconciliation -/

section
variable {b : Backends} {f : Factory} {current : DataSourceMap} {new : ParameterMap}

/-- If the old data sources could be built, all new ones can if those can that are built now. -/
theorem Reconciliation.suit_iff (hc : b.Suit current.parameters) :
    b.Suit new ↔ ((current.outdated new).all fun e => b.suits e.1 e.2) = true := by
  rw [List.all_eq_true]
  constructor
  · rintro h ⟨name, p⟩ hmem
    exact h name p (DataSourceMap.mem_outdated.1 hmem).1
  · intro h name p hp
    by_cases hold : current.parameters.find? name = some p
    · exact hc name p hold
    · exact h (name, p) (DataSourceMap.mem_outdated.2 ⟨hp, hold⟩)

theorem Reconciliation.compute_cases (hf : b.Decide f) (hc : b.Suit current.parameters)
    (new : ParameterMap) (r : Resources) :
    (¬ b.Suit new ∧ ∃ r' e, compute r f current new = (r', .error e)) ∨
    ∃ r' x, compute r f current new = (r', .ok x) ∧ r'.disabled = r.disabled ∧
      (∀ k, x.dataSources.parameters.find? k = new.find? k) ∧ b.Suit new := by
  have hok := r.buildAll_isOk hf .empty (current.outdated new)
  have hdisabled := r.disabled_buildAll f .empty (current.outdated new)
  obtain ⟨r', result, hx⟩ : ∃ r' result, compute r f current new = (r', result) := ⟨_, _, rfl⟩
  cases result with
  | error e =>
    rw [compute_error hx] at hok
    refine .inl ⟨fun h => ?_, r', e, hx⟩
    cases hok.trans ((suit_iff hc).1 h)
  | ok x =>
    rw [(compute_ok hx).1] at hok hdisabled
    exact .inr ⟨r', x, hx, hdisabled, compute_parameters hx, (suit_iff hc).2 hok.symm⟩

end

namespace Registry
variable {b : Backends} {env : Environment} {load : Loader}

/-- New data sources of a schema come to what is made of them in some order. -/
theorem comes_setDataSources (hf : b.Decide env.factory) (hl : b.Tell load) {g : Registry}
    {name : String} {c : Stamped SchemaContext} (hc : g.current.schema? name = some c)
    (hs : b.Suit c.value.dataSources.parameters) (new : ParameterMap) :
    ∃ ps : ParameterMap, (∀ k, ps.find? k = new.find? k) ∧
      g.Comes (b.make name c.value.dialect ps c.value.configurations g.current.properties.value)
        (g.apply env load (.setDataSources name new)) := by
  have hget : g.getSchema name = .ok c := by simp only [getSchema, hc]
  simp only [apply, begin, setDataSources, hget]
  rcases Reconciliation.compute_cases hf hs new g.resources with
    ⟨hnot, r, e, hx⟩ | ⟨r, x, hx, hdisabled, hfind, hsuit⟩
  · refine ⟨new, fun _ => rfl, ?_⟩
    rw [b.make_of_not_suit hnot]
    simp only [hx]
    exact ⟨_, rfl⟩
  · refine ⟨x.dataSources.parameters, hfind, ?_⟩
    have hall : b.Suit x.dataSources.parameters := fun n p hp => hsuit n p ((hfind n).symm.trans hp)
    simp only [hx]
    rcases PendingSchema.start_cases name c.value.dialect c.value.configurations
      g.current.properties.value hl hall with
      ⟨e, hs, hnone⟩ | ⟨pending, hs, rfl, hsources, hmake⟩
    · simp only [hs, hnone]
      exact ⟨_, rfl⟩
    · simp only [hs, ← hmake]
      exact comes_load rfl (Resources.disabledOf_congr hdisabled)

end Registry

end ShardRegistry
