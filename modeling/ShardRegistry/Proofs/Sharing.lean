import ShardRegistry.Proofs.Configuration

/-! Sharing. An accepted event makes anew what it is about, and the next snapshot shares everything else
with the one before it: the same objects and not only equal ones. -/
namespace ShardRegistry

/-! ### Snapshots -/

namespace Snapshot

/-- All that two snapshots show is the same object, but for the schemas of some names. -/
structure Shares (s s' : Snapshot) (names : List String) : Prop where
  schemas : ∀ k, k ∉ names → s'.schema? k = s.schema? k
  properties : s'.properties = s.properties
  authentication : s'.authentication = s.authentication

variable {s : Snapshot} {names : List String} {name k : String} {c : Stamped SchemaContext}
  {cs : List (Stamped SchemaContext)}

theorem shares_withSchema (s : Snapshot) (c : Stamped SchemaContext) :
    s.Shares (s.withSchema c) [c.value.name] where
  schemas k hk := SortedMap.find?_insert_of_ne s.schemas c fun h => hk (by simp [h])
  properties := rfl
  authentication := rfl

theorem schema?_withSchema (s : Snapshot) (c : Stamped SchemaContext) :
    (s.withSchema c).schema? c.value.name = some c :=
  SortedMap.find?_insert_self s.schemas _ c

theorem shares_withoutSchema (s : Snapshot) (name : String) :
    s.Shares (s.withoutSchema name) [name] where
  schemas k hk := SortedMap.find?_erase_of_ne s.schemas fun h => hk (by simp [h])
  properties := rfl
  authentication := rfl

/-- Of several schemas of one name the last one is published. -/
theorem schema?_withSchemas_eq (s : Snapshot) (cs : List (Stamped SchemaContext)) (k : String) :
    (s.withSchemas cs).schema? k =
      (cs.reverse.find? fun c => c.value.name = k).or (s.schema? k) := by
  have hfold : ∀ m : SortedMap (Stamped SchemaContext),
      (cs.foldl (fun m c => m.insert c.value.name c) m).find? k =
        (cs.reverse.find? fun c => c.value.name = k).or (m.find? k) := by
    induction cs with
    | nil => exact fun m => rfl
    | cons c cs ih =>
      intro m
      rw [List.foldl_cons, ih, List.reverse_cons, List.find?_append, Option.or_assoc]
      congr 1
      by_cases hk : c.value.name = k
      · subst hk
        simp [SortedMap.find?_insert_self]
      · simp [SortedMap.find?_insert_of_ne m c hk, hk]
  exact hfold s.schemas

theorem shares_withSchemas (s : Snapshot) (h : ∀ c ∈ cs, c.value.name ∈ names) :
    s.Shares (s.withSchemas cs) names where
  schemas k hk := by
    have hnone : (cs.reverse.find? fun c => c.value.name = k) = none := by
      refine List.find?_eq_none.2 fun c hc hname => hk ?_
      rw [← of_decide_eq_true hname]
      exact h c (List.mem_reverse.1 hc)
    rw [schema?_withSchemas_eq, hnone, Option.none_or]
  properties := rfl
  authentication := rfl

theorem schema?_withSchemas_of_mem (s : Snapshot) (h : c ∈ cs) :
    ∃ c' ∈ cs, c'.value.name = c.value.name ∧
      (s.withSchemas cs).schema? c.value.name = some c' := by
  have hsome : (cs.reverse.find? fun x => x.value.name = c.value.name).isSome :=
    List.find?_isSome.2 ⟨c, List.mem_reverse.2 h, by simp⟩
  obtain ⟨c', hc'⟩ := Option.isSome_iff_exists.1 hsome
  refine ⟨c', List.mem_reverse.1 (List.mem_of_find?_eq_some hc'), ?_, ?_⟩
  · simpa using List.find?_some hc'
  · rw [schema?_withSchemas_eq, hc', Option.some_or]

section
variable {R : SchemaContext → SchemaContext → Prop}
  (h : ∀ c' ∈ cs, ∃ c, s.schema? c'.value.name = some c ∧ R c.value c'.value)
include h

theorem schema?_withSchemas_unknown (hk : s.schema? k = none) :
    (s.withSchemas cs).schema? k = none := by
  cases hsome : (s.withSchemas cs).schema? k with
  | none => rfl
  | some c' =>
    rcases schema?_withSchemas hsome with ⟨hmem, rfl⟩ | ⟨hold, _⟩
    · obtain ⟨c, hc, _⟩ := h c' hmem
      rw [hk] at hc
      cases hc
    · rw [hk] at hold
      cases hold

/-- A schema that is replaced, however often, is related to the one that takes its place. -/
theorem schema?_withSchemas_replaced (hk : s.schema? k = some c)
    (hc : ∃ c' ∈ cs, c'.value.name = k) :
    ∃ c', (s.withSchemas cs).schema? k = some c' ∧ R c.value c'.value := by
  obtain ⟨x, hx, rfl⟩ := hc
  obtain ⟨c', hmem, hname, hfind⟩ := s.schema?_withSchemas_of_mem hx
  obtain ⟨old, hold, hr⟩ := h c' hmem
  rw [hname, hk] at hold
  cases hold
  exact ⟨c', hfind, hr⟩

end

end Snapshot

/-! ### Events -/

namespace SchemaContext

/-- What a schema keeps when it gets other tables. -/
structure KeepsButTables (tables : SchemaTables) (c c' : SchemaContext) : Prop where
  runtime : c'.runtime = c.runtime
  dataSources : c'.schema.value.dataSources = c.schema.value.dataSources
  rules : c'.rules = c.rules
  configurations : c'.configurations = c.configurations
  dialect : c'.dialect = c.dialect
  locations : c'.metaData.locations = c.metaData.locations
  tables : c'.metaData.tables = tables

/-- What a schema keeps when it gets an executor of another size. -/
structure KeepsButExecutor (size : Nat) (c c' : SchemaContext) : Prop where
  schema : c'.schema = c.schema
  engine : c'.engine = c.engine
  parser : c'.runtime.value.parser = c.runtime.value.parser
  cached : c'.runtime.value.cached = c.runtime.value.cached
  executor : c'.runtime.value.executorSize = size

/-- What a schema keeps when it gets other rules. -/
structure KeepsButRules (c c' : SchemaContext) : Prop where
  runtime : c'.runtime = c.runtime
  dataSources : c'.schema.value.dataSources = c.schema.value.dataSources
  metaData : c'.schema.value.metaData = c.schema.value.metaData

end SchemaContext

/-- How a snapshot and the next one are related when an event is accepted. -/
def Event.Spares (s s' : Stamped Snapshot) : Event → Prop
  | .reset .. => True
  | .schemaAdded name .. | .dataSourcesChanged name _ => s.value.Shares s'.value [name]
  | .schemaDeleted name =>
    s.value.Shares s'.value [name] ∧ (s.value.schema? name = none → s' = s)
  | .rulesChanged name _ => s.value.Shares s'.value [name] ∧
    ∃ c c', s.value.schema? name = some c ∧ s'.value.schema? name = some c' ∧
      c.value.KeepsButRules c'.value
  | .metaDataChanged names tables => s.value.Shares s'.value names ∧
    (∀ name ∈ names, ∀ c, s.value.schema? name = some c →
      ∃ c', s'.value.schema? name = some c' ∧ c.value.KeepsButTables tables c'.value) ∧
    (∀ name ∈ names, s.value.schema? name = none → s'.value.schema? name = none) ∧
    ((∀ name ∈ names, s.value.schema? name = none) → s' = s)
  | .authenticationChanged _ =>
    s'.value.schemas = s.value.schemas ∧ s'.value.properties = s.value.properties
  | .propertiesChanged _ => s'.value.authentication = s.value.authentication ∧
    (∀ name, s.value.schema? name = none → s'.value.schema? name = none) ∧
    ∀ name c, s.value.schema? name = some c → ∃ c', s'.value.schema? name = some c' ∧
      c.value.KeepsButExecutor s'.value.properties.value.executorSize c'.value
  | .circuitStateChanged _ | .disabledStateChanged .. | .heartbeat => s' = s

namespace SchemaContext
variable {c c' : SchemaContext}

theorem Retabled.keeps {tables : SchemaTables} (h : c.Retabled tables c') :
    c.KeepsButTables tables c' := by
  refine ⟨h.runtime, ?_, ?_, ?_, ?_, ?_, ?_⟩
  · rw [h.schema]
  · rw [rules, h.schema]
    rfl
  · rw [configurations, h.schema]
    rfl
  · rw [dialect, h.schema]
    rfl
  · rw [h.metaData]
    rfl
  · rw [h.metaData]
    rfl

theorem Resized.keeps {size : Nat} (h : c.Resized size c') : c.KeepsButExecutor size c' := by
  refine ⟨h.schema, ?_, ?_, ?_, ?_⟩
  · rw [engine, h.runtime]
    rfl
  all_goals rw [h.runtime]

theorem Reruled.keeps {rules : List RuleConfiguration} (h : c.Reruled rules c') :
    c.KeepsButRules c' := by
  refine ⟨h.runtime, ?_, ?_⟩ <;> rw [h.schema]

end SchemaContext

/-- What the change of an event yields shares with the snapshot before it what the event spares. -/
theorem Change.Yields.spares {change : Change} {s s' : Stamped Snapshot} {event : Event}
    (h : change.Yields s s') (he : ofEvent event = .ok change)
    (hn : ∀ k c, s.value.schema? k = some c → c.value.name = k) : event.Spares s s' := by
  cases event with
  | reset schemas a raw => exact trivial
  | schemaAdded name ds rules =>
    cases he
    cases h with
    | addSchema hname hc hs =>
      subst hname
      simp only [Event.Spares, hs]
      exact s.value.shares_withSchema _
  | schemaDeleted name =>
    cases he
    cases h with
    | deleteUnknown hnone => exact ⟨⟨fun _ _ => rfl, rfl, rfl⟩, fun _ => rfl⟩
    | deleteSchema hsome hs =>
      refine ⟨hs ▸ s.value.shares_withoutSchema name, fun hnone => ?_⟩
      rw [hnone] at hsome
      cases hsome
  | propertiesChanged raw =>
    obtain ⟨p, hp, he⟩ := bind_eq_ok he
    cases he
    cases h with
    | setProperties hc hs =>
      simp only [Event.Spares, hs]
      have hold := Snapshot.replaced_of_forall₂ hn (fun _ _ h => h.name)
        (fun c => (s.value.mem_values_iff c).1) hc
      refine ⟨rfl, fun name => Snapshot.schema?_withSchemas_unknown hold, fun name c hk => ?_⟩
      obtain ⟨c', hmem, hresized⟩ :=
        forall₂_mem_left hc ((s.value.mem_values_iff c).2 ⟨name, hk⟩)
      have hname : c'.value.name = name := hresized.name.trans (hn name c hk)
      obtain ⟨x, hx, hr⟩ := Snapshot.schema?_withSchemas_replaced hold hk ⟨c', hmem, hname⟩
      exact ⟨x, hx, hr.keeps⟩
  | authenticationChanged a =>
    cases he
    cases h with
    | setAuthentication hs =>
      simp only [Event.Spares, hs]
      exact ⟨rfl, rfl⟩
  | metaDataChanged names tables =>
    cases he
    cases h with
    | setNoTables _ hnone =>
      have hunknown : ∀ name ∈ names, s.value.schema? name = none := List.filterMap_eq_nil_iff.1 hnone
      refine ⟨⟨fun _ _ => rfl, rfl, rfl⟩, fun name hname c hk => ?_, fun _ _ hk => hk, fun _ => rfl⟩
      rw [hunknown name hname] at hk
      cases hk
    | @setTables _ _ cs _ hknown hc hs =>
      simp only [Event.Spares, hs]
      have hold := Snapshot.replaced_of_forall₂ hn (fun _ _ h => h.name)
        (fun c => Snapshot.mem_known) hc
      have hnamed : ∀ c' ∈ cs, c'.value.name ∈ names := by
        intro c' hc'
        obtain ⟨c, hmem, hretabled⟩ := forall₂_mem_right hc hc'
        obtain ⟨k, hmem, hk⟩ := List.mem_filterMap.1 hmem
        rw [hretabled.name, hn k c hk]
        exact hmem
      refine ⟨s.value.shares_withSchemas hnamed, fun name hname c hk => ?_,
        fun name _ => Snapshot.schema?_withSchemas_unknown hold, fun hunknown => ?_⟩
      · obtain ⟨c', hmem, hretabled⟩ :=
          forall₂_mem_left hc (List.mem_filterMap.2 ⟨name, hname, hk⟩)
        have hname' : c'.value.name = name := hretabled.name.trans (hn name c hk)
        obtain ⟨x, hx, hr⟩ := Snapshot.schema?_withSchemas_replaced hold hk ⟨c', hmem, hname'⟩
        exact ⟨x, hx, hr.keeps⟩
      · exact absurd (List.filterMap_eq_nil_iff.2 hunknown) hknown
  | rulesChanged name rules =>
    cases he
    cases h with
    | @setRules _ _ c c' _ hold hname hc hs =>
      subst hname
      simp only [Event.Spares, hs]
      exact ⟨s.value.shares_withSchema c', c, c', hold, s.value.schema?_withSchema c', hc.keeps⟩
  | dataSourcesChanged name ds =>
    cases he
    cases h with
    | setDataSources hold hname hc hs =>
      subst hname
      simp only [Event.Spares, hs]
      exact s.value.shares_withSchema _
  | circuitStateChanged _ | disabledStateChanged _ _ _ | heartbeat =>
    cases he
    cases h
    rfl

namespace Registry

/-- After any history, an accepted event spares what it is not about: the next snapshot has the very
objects of the one before it. -/
theorem spares_of_accepted {log : List Occurrence} {env : Environment} {g g' : Registry}
    {event : Event} {n : Nat} (hg : Logged log g) (h : Handles env g event (g', .ok n)) :
    event.Spares g.snapshot g'.snapshot := by
  obtain ⟨change, he, hyields, _⟩ := h.yields
  exact hyields.spares he fun k c hc => (hg.coherent k c hc).1

/-- One schema is named twice and another one is unknown. -/
theorem spares_of_accepted_retabled :
    let env : Environment := { factory := .immediate [] [] }
    let load : Loader := fun _ _ => .ok .empty
    let event : Event := .metaDataChanged ["s", "t", "s"] {}
    let g' := (reconciled.handle env load event).1
    (∃ log, Logged log reconciled) ∧ Handles env reconciled event (g', .ok 3) ∧
      g'.snapshot ≠ reconciled.snapshot ∧ event.Spares reconciled.snapshot g'.snapshot := by
  intro env load event g'
  have hlog := (Logged.new.event (handles_handle env load _ (.schemaAdded "s" twoBackends []))).event
    (handles_handle env load _
      (.dataSourcesChanged "s" (.ofList [("b0", { url := "postgresql://other/d" })])))
  have h : Handles env reconciled event (g', .ok 3) := handles_handle env load reconciled event
  refine ⟨⟨_, hlog⟩, h, ?_, spares_of_accepted hlog h⟩
  intro hsame
  have hstamp : g'.snapshot.stamp = reconciled.snapshot.stamp := congrArg _ hsame
  exact absurd hstamp (by decide)

end Registry

end ShardRegistry
