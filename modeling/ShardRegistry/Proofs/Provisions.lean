import ShardRegistry.Proofs.Consistency
import ShardRegistry.Proofs.Reconciling
import ShardRegistry.Proofs.Yields

/-! Provisions. Every data source that is published was built, at some time; so under a factory that
always decides alike it could be built again. This holds in every run, whatever changes were rejected.
So with new data sources a schema is reconciled if and only if it could be built from the start. -/
namespace ShardRegistry

/-- Every published data source can be built. -/
def Snapshot.Provided (b : Backends) (s : Snapshot) : Prop :=
  ∀ k c, s.schema? k = some c → b.Suit c.value.dataSources.parameters

/-- The schemas of a reset that are built. -/
def Purpose.built : Purpose → List (Stamped SchemaContext)
  | .reset _ _ _ _ built => built
  | .add | .reconcile _ _ => []

/-- Every data source that a change has in hand can be built. -/
def Purpose.Provided (b : Backends) (purpose : Purpose) (pending : PendingSchema) : Prop :=
  b.Suit pending.dataSources.parameters ∧
    ∀ c ∈ purpose.built, b.Suit c.value.dataSources.parameters

variable {b : Backends}

namespace Snapshot.Provided
variable {s s' : Snapshot}

theorem empty : Registry.empty.current.Provided b := fun _ _ h => by cases h

theorem withSchema (h : s.Provided b) {c : Stamped SchemaContext}
    (hc : b.Suit c.value.dataSources.parameters) : (s.withSchema c).Provided b := by
  intro k x hx
  by_cases hk : c.value.name = k
  · subst hk
    have hfind : (s.withSchema c).schema? c.value.name = some c := SortedMap.find?_insert_self _ _ _
    cases hfind.symm.trans hx
    exact hc
  · have hfind : (s.withSchema c).schema? k = s.schema? k := SortedMap.find?_insert_of_ne _ _ hk
    exact h k x (hfind.symm.trans hx)

theorem withoutSchema (h : s.Provided b) (name : String) : (s.withoutSchema name).Provided b := by
  intro k c hc
  by_cases hk : k = name
  · subst hk
    have hnone : (s.withoutSchema k).schema? k = none := SortedMap.find?_erase_self _ _
    cases hnone.symm.trans hc
  · have hfind : (s.withoutSchema name).schema? k = s.schema? k := SortedMap.find?_erase_of_ne _ hk
    exact h k c (hfind.symm.trans hc)

theorem withSchemas (h : s.Provided b) {cs : List (Stamped SchemaContext)}
    (hcs : ∀ c ∈ cs, b.Suit c.value.dataSources.parameters) : (s.withSchemas cs).Provided b := by
  intro k c hc
  rcases schema?_withSchemas hc with ⟨hmem, _⟩ | ⟨hold, _⟩
  · exact hcs c hmem
  · exact h k c hold

end Snapshot.Provided

/-- Whether a change builds data sources. -/
def Change.builds : Change → Bool
  | .reset .. | .addSchema .. | .setDataSources .. => true
  | _ => false

/-- A change that builds no data sources publishes only such that were published before. -/
theorem Change.Yields.provided {change : Change} {s s' : Stamped Snapshot} (h : change.Yields s s')
    (hb : change.builds = false) (hs : s.value.Provided b) : s'.value.Provided b := by
  cases h with
  | reset _ _ | addSchema _ _ _ | setDataSources _ _ _ _ => cases hb
  | deleteSchema hold hs' =>
    rw [hs']
    exact hs.withoutSchema _
  | setProperties hc hs' =>
    rw [hs']
    refine Snapshot.Provided.withSchemas hs fun c' hc' => ?_
    obtain ⟨c, hmem, hresized⟩ := forall₂_mem_right hc hc'
    obtain ⟨k, hk⟩ := (s.value.mem_values_iff c).1 hmem
    rw [SchemaContext.dataSources, hresized.schema]
    exact hs k c hk
  | setTables _ hc hs' =>
    rw [hs']
    refine hs.withSchemas fun c' hc' => ?_
    obtain ⟨c, hmem, hretabled⟩ := forall₂_mem_right hc hc'
    obtain ⟨k, hk⟩ := Snapshot.mem_known hmem
    rw [SchemaContext.dataSources, hretabled.schema]
    exact hs k c hk
  | setRules hold _ hc hs' =>
    rw [hs']
    refine hs.withSchema ?_
    rw [SchemaContext.dataSources, hc.schema]
    exact hs _ _ hold
  | setAuthentication hs' =>
    rw [hs']
    exact hs
  | close hs' =>
    rw [hs']
    exact fun _ _ h => by cases h
  | deleteUnknown _ | setCircuit _ | setNoTables _ _ | setDisabled _ _ _ | heartbeat => exact hs

/-! ### Parts of changes -/

theorem Resources.suit_of_createDataSources {r r' : Resources} {f : Factory} {ps : ParameterMap}
    {m : DataSourceMap} (hf : b.Decide f) (h : r.createDataSources f ps = (r', .ok m)) :
    b.Suit m.parameters := by
  rcases r.createDataSources_cases hf ps with ⟨_, _, _, herror⟩ | ⟨_, _, hok, _, hm, hsuit⟩
  · cases h.symm.trans herror
  · cases h.symm.trans hok
    exact hm ▸ hsuit

theorem Reconciliation.suit_of_compute {r r' : Resources} {f : Factory} {current : DataSourceMap}
    {new : ParameterMap} {x : Reconciliation} (hf : b.Decide f) (hc : b.Suit current.parameters)
    (h : compute r f current new = (r', .ok x)) : b.Suit x.dataSources.parameters := by
  rcases compute_cases hf hc new r with ⟨_, _, _, herror⟩ | ⟨_, _, _, _, hfind, hsuit⟩
  · cases h.symm.trans herror
  · exact fun name p hp => hsuit name p ((compute_parameters h name).symm.trans hp)

namespace Registry
variable {env : Environment} {g : Registry}

/-- A change waits for the tables of a schema whose data sources were built. -/
theorem provided_load (h : g.current.Provided b) {name : String} {m : DataSourceMap} {d : Dialect}
    {cs : List RuleConfiguration} {properties : Properties} {pending : PendingSchema}
    (hs : PendingSchema.start name m d cs properties = .ok pending) (hm : b.Suit m.parameters)
    {purpose : Purpose} (hbuilt : ∀ c ∈ purpose.built, b.Suit c.value.dataSources.parameters)
    (r : Resources) : Upholds (·.Provided b) (fun _ purpose pending => purpose.Provided b pending)
      (g.owning r, .load purpose pending) := by
  obtain ⟨_, rfl, _⟩ := Withholds.pending_start hs
  exact .load h ⟨hm, hbuilt⟩

theorem provided_nextSchema (hf : b.Decide env.factory) (h : g.current.Provided b)
    (a : Authentication) (p : Properties) (d : Dialect) {built : List (Stamped SchemaContext)}
    (hbuilt : ∀ c ∈ built, b.Suit c.value.dataSources.parameters)
    (rest : List (String × SchemaConfiguration)) :
    Upholds (·.Provided b) (fun _ purpose pending => purpose.Provided b pending)
      (g.nextSchema env a p d built rest) := by
  cases rest with
  | nil =>
    refine .done fun k c hc => ?_
    have hofList : (SortedMap.ofList (built.map fun c => (c.value.name, c))).find? k = some c := hc
    rcases SortedMap.find?_foldl_insert hofList with hmem | ⟨hempty, _⟩
    · obtain ⟨x, hx, heq⟩ := List.mem_map.1 hmem
      cases heq
      exact hbuilt c hx
    · cases hempty
  | cons e rest =>
    simp only [nextSchema]
    split
    · exact .done h
    · rename_i hm
      split
      · exact .done h
      · rename_i hs
        refine provided_load h hs (Resources.suit_of_createDataSources hf hm) ?_ _
        exact hbuilt

theorem provided_begin (hf : b.Decide env.factory) (h : g.current.Provided b) (change : Change) :
    Upholds (·.Provided b) (fun _ purpose pending => purpose.Provided b pending)
      (g.begin env change) := by
  cases hb : change.builds with
  | false =>
    have hleads := leads_begin env g change
    generalize g.begin env change = x at hleads
    obtain ⟨g', step⟩ := x
    cases step with
    | done outcome =>
      refine .done ?_
      cases outcome with
      | ok n => exact hleads.1.provided hb h
      | error stop =>
        have hsame : g'.snapshot = g.snapshot := hleads.1
        rw [current, hsame]
        exact h
    | load purpose pending =>
      obtain ⟨_, hpursues⟩ := hleads
      cases hpursues <;> cases hb
  | true =>
    have hnone : ∀ c ∈ ([] : List (Stamped SchemaContext)), b.Suit c.value.dataSources.parameters :=
      fun _ hc => absurd hc List.not_mem_nil
    cases change with
    | reset schemas a p d => exact provided_nextSchema hf h a p d hnone schemas.entries
    | addSchema name ds rules =>
      simp only [begin, addSchema]
      split
      · exact .done h
      · split
        · exact .done h
        · rename_i hm
          split
          · exact .done h
          · rename_i hs
            refine provided_load h hs (Resources.suit_of_createDataSources hf hm) ?_ _
            exact hnone
    | setDataSources name new =>
      simp only [begin, setDataSources]
      split
      · exact .done h
      · rename_i c hc
        split
        · exact .done h
        · rename_i hx
          split
          · exact .done h
          · rename_i hs
            have hc' := h name c (schema?_of_getSchema hc)
            refine provided_load h hs (Reconciliation.suit_of_compute hf hc' hx) ?_ _
            exact hnone
    | deleteSchema _ | setProperties _ | setAuthentication _ | setCircuit _ | setTables _ _
    | setRules _ _ | setDisabled _ _ _ | heartbeat | close => cases hb

theorem provided_resume (hf : b.Decide env.factory) (h : g.current.Provided b) {purpose : Purpose}
    {pending : PendingSchema} (hp : purpose.Provided b pending)
    (answer : Except Error (SortedMap Tables)) :
    Upholds (·.Provided b) (fun _ purpose pending => purpose.Provided b pending)
      (g.resume env purpose pending answer) := by
  obtain ⟨hpending, hbuilt⟩ := hp
  simp only [resume]
  split
  · cases purpose <;> exact .done h
  · split
    · exact .done h
    · cases purpose <;> exact .done h
    · rename_i r c hc
      obtain ⟨_, hsources⟩ := Resources.finishSchema_names hc
      rw [← hsources] at hpending
      cases purpose with
      | reset a p d rest built =>
        refine provided_nextSchema (g := g.owning r) hf h a p d (fun c' hc' => ?_) rest
        rcases List.mem_append.1 hc' with hc' | hc'
        · exact hbuilt c' hc'
        · rw [List.mem_singleton.1 hc']
          exact hpending
      | add =>
        have hnext := Snapshot.Provided.withSchema h hpending
        simp only
        split <;> exact .done hnext
      | reconcile x previous => exact .done (Snapshot.Provided.withSchema h hpending)

/-- Every part of a change publishes only data sources that were built. -/
theorem Upkeep.provision (b : Backends) : Upkeep b.Decide (·.Provided b)
    fun _ purpose pending => purpose.Provided b pending where
  congr _ h := h
  begin change hf h := provided_begin hf h change
  resume answer hf h hp := provided_resume hf h hp answer

end Registry

namespace World

/-! ### Runs -/

/-- Whenever a task goes on, the factory decides as the backends answer. -/
def Decided (b : Backends) (moves : List Move) : Prop :=
  ∀ ms t ms', moves = ms ++ .goOn t :: ms' → b.Decide (play {} ms).factory

theorem provided {moves : List Move} (hc : (play {} moves).crashed = false)
    (hd : Decided b moves) : (play {} moves).registry.current.Provided b :=
  (Upholds.play (.start Snapshot.Provided.empty) (Registry.Upkeep.provision b) Sound.start hd hc).current

/-- After any run, new data sources of a published schema are accepted if and only if the schema could be
built with them and with its rules from the start, under the dialect and the properties of the snapshot.
Then both come to the same schema but for the order of the data sources, and nothing is disabled in its
rules. -/
theorem reconciled_as_added {moves : List Move} (hc : (play {} moves).crashed = false)
    (hd : Decided b moves) {env : Environment} {load : Loader} (hf : b.Decide env.factory)
    (hl : b.Tell load) (hb : b.Unordered) {name : String} {c : Stamped SchemaContext}
    (hs : (play {} moves).registry.current.schema? name = some c) (new : ParameterMap) :
    let g := (play {} moves).registry
    let changed := g.handle env load (.dataSourcesChanged name new)
    let added := g.handle env load (.schemaAdded name new c.value.configurations)
    ((∃ n, changed.2 = .ok n) ↔ ∃ n, added.2 = .ok n) ∧
    ((∃ n, changed.2 = .ok n) → ∃ c₁ c₂, changed.1.current.schema? name = some c₁ ∧
      added.1.current.schema? name = some c₂ ∧ c₁.value.contents.Matches c₂.value.contents ∧
      (∀ x ∈ c₁.value.rules, changed.1.resources.disabledOf x.status = []) ∧
      ∀ x ∈ c₂.value.rules, added.1.resources.disabledOf x.status = []) := by
  intro g changed added
  obtain ⟨_, d, hdialect, hcoherent⟩ := (Coherent.start.play Sound.start moves hc).current name c hs
  obtain ⟨ps, hps, hchanged⟩ := Registry.comes_setDataSources hf hl hs (provided hc hd name c hs) new
  have hspeaks : g.Speaks d new := .inl hdialect
  have hadded := Registry.comes_addSchema hf hl name c.value.configurations hspeaks
  rw [hcoherent.dialect] at hchanged
  have hchanged : g.Comes _ changed := hchanged
  have hadded : g.Comes _ added := hadded
  rcases Backends.make_congr hb hps name d c.value.configurations g.current.properties.value with
    ⟨hnone, hnone'⟩ | ⟨x, y, hsome, hsome', hmatches⟩
  · rw [hnone] at hchanged
    rw [hnone'] at hadded
    obtain ⟨stop, hstop⟩ := hchanged
    obtain ⟨stop', hstop'⟩ := hadded
    simp [hstop, hstop']
  · rw [hsome] at hchanged
    rw [hsome'] at hadded
    refine ⟨iff_of_true hchanged.accepted hadded.accepted, fun _ => ?_⟩
    obtain ⟨c₁, hcurrent₁, rfl, hrules₁⟩ := hchanged.schema
    obtain ⟨c₂, hcurrent₂, rfl, hrules₂⟩ := hadded.schema
    have hpublished {g' : Registry} {c' : Stamped SchemaContext} (hname : c'.value.name = name)
        (hcurrent : g'.current = g.current.withSchema c') : g'.current.schema? name = some c' := by
      rw [hcurrent, ← hname]
      exact SortedMap.find?_insert_self _ _ _
    exact ⟨c₁, c₂, hpublished (Backends.make_eq_some hsome).1 hcurrent₁,
      hpublished (Backends.make_eq_some hsome').1 hcurrent₂, hmatches, hrules₁, hrules₂⟩

/-- A schema with a replica is added. -/
def replicating : List Move :=
  [.surround (.immediate ["b2"] []) (.answering fun _ _ => .ok .empty) none,
    .start (.event (.schemaAdded "s" Registry.twoBackends [.readWrite ⟨"r", "b0", ["b1"]⟩])),
    .goOn 0, .goOn 0]

theorem decided_replicating : Decided (.answering ["b2"]) replicating := by
  intro ms t ms' heq
  rcases ms with _ | ⟨m₀, _ | ⟨m₁, _ | ⟨m₂, _ | ⟨m₃, ms⟩⟩⟩⟩
  · cases heq
  · cases heq
  · cases heq
    exact Backends.decide_immediate _ _
  · cases heq
    exact Backends.decide_immediate _ _
  · simp [replicating] at heq

/-- The replica is kept, its primary is modified, and a third backend is new. -/
def refitting : ParameterMap :=
  .ofList [("b3", { url := "postgresql://host/d3" }), ("b1", { url := "postgresql://host/d1" }),
    ("b0", { url := "postgresql://other/d0" })]

/-- The replica that is kept comes to stand first; and with a backend that does not answer the schema is
neither reconciled nor built. -/
theorem reconciled_as_added_replica :
    let env : Environment := { factory := .immediate ["b2"] [] }
    let load : Loader := fun _ _ => .ok .empty
    let g := (play {} replicating).registry
    let changed := g.handle env load (.dataSourcesChanged "s" refitting)
    let added := g.handle env load (.schemaAdded "s" refitting [.readWrite ⟨"r", "b0", ["b1"]⟩])
    let beyond := refitting.insert "b2" { url := "postgresql://host/d2" }
    (∃ c₁ c₂, changed.1.current.schema? "s" = some c₁ ∧ added.1.current.schema? "s" = some c₂ ∧
      c₁.value.contents.Matches c₂.value.contents) ∧
    (changed.1.current.schema? "s").map (·.value.dataSources.keys) = some ["b1", "b0", "b3"] ∧
    (added.1.current.schema? "s").map (·.value.dataSources.keys) = some ["b3", "b1", "b0"] ∧
    ∀ n, (g.handle env load (.dataSourcesChanged "s" beyond)).2 ≠ .ok n := by
  intro env load g changed added beyond
  have h := @reconciled_as_added (.answering ["b2"]) replicating rfl decided_replicating env load
    (Backends.decide_immediate _ _) (fun _ _ => rfl) (fun _ _ _ _ => rfl) "s" _ rfl
  refine ⟨?_, by decide, by decide, fun n hn => ?_⟩
  · obtain ⟨c₁, c₂, h₁, h₂, hmatches, _⟩ := (h refitting).2 ⟨2, rfl⟩
    exact ⟨c₁, c₂, h₁, h₂, hmatches⟩
  · obtain ⟨n, hn⟩ := (h beyond).1.1 ⟨n, hn⟩
    cases hn

end World

end ShardRegistry
