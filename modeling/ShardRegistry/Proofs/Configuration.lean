import ShardRegistry.Proofs.Ownership
import ShardRegistry.Proofs.Yields

/-! The configuration of a registry. Each accepted event replaces the parts of it that the event brings,
and no other event does anything to it; so what is published after any events is what they make of the
configuration of a new registry, one after the other. -/
namespace ShardRegistry

/-- What a registry is configured with, as far as events bring it. -/
structure Configuration where
  schemas : SortedMap SchemaSetup := .empty
  properties : RawProperties := .empty
  authentication : Authentication := {}
  circuitOpen : Bool := false

/-- What happens to a registry: an event is handled, with some outcome, or it is closed. -/
inductive Occurrence where
  | event (e : Event) (outcome : Except Stop Nat)
  | closed

namespace Configuration

/-- The configuration with the setup of one schema revised, if there is such a schema. -/
def revise (c : Configuration) (schema : String) (f : SchemaSetup → SchemaSetup) :
    Configuration :=
  match c.schemas.find? schema with
  | none => c
  | some s => { c with schemas := c.schemas.insert schema (f s) }

/-- What an event asks for. -/
def apply (c : Configuration) : Event → Configuration
  | .reset schemas authentication properties =>
    { c with schemas := .ofList (schemas.entries.map fun e => (e.1, e.2.setup)),
             authentication, properties }
  | .schemaAdded schema dataSources rules =>
    { c with schemas := c.schemas.insert schema ⟨dataSources.sorted, rules⟩ }
  | .schemaDeleted schema => { c with schemas := c.schemas.erase schema }
  | .propertiesChanged properties => { c with properties }
  | .authenticationChanged authentication => { c with authentication }
  | .circuitStateChanged isOpen => { c with circuitOpen := isOpen }
  | .rulesChanged schema rules => c.revise schema fun s => { s with configurations := rules }
  | .dataSourcesChanged schema dataSources =>
    c.revise schema fun s => { s with parameters := dataSources.sorted }
  | .metaDataChanged .. | .disabledStateChanged .. | .heartbeat => c

/-- Only an accepted event does what it asks for; closing takes every schema away. -/
def enter (c : Configuration) : Occurrence → Configuration
  | .event e (.ok _) => c.apply e
  | .event _ (.error _) => c
  | .closed => { c with schemas := .empty }

end Configuration

/-! ### Snapshots -/

namespace Snapshot

def setups (s : Snapshot) : SortedMap SchemaSetup := s.schemas.map (·.value.setup)

/-- The configuration that a snapshot shows together with the circuit breaker. -/
def configuration (s : Snapshot) (circuitOpen : Bool) : Configuration :=
  ⟨s.setups, s.properties.value.raw, s.authentication.value, circuitOpen⟩

variable {s : Snapshot} {k : String} {c : Stamped SchemaContext}

theorem find?_setups (s : Snapshot) (k : String) :
    s.setups.find? k = (s.schema? k).map (·.value.setup) :=
  SortedMap.find?_map _ s.schemas k

theorem setups_withSchema (s : Snapshot) (c : Stamped SchemaContext) :
    (s.withSchema c).setups = s.setups.insert c.value.name c.value.setup :=
  SortedMap.map_insert _ s.schemas _ c

theorem setups_withoutSchema (s : Snapshot) (name : String) :
    (s.withoutSchema name).setups = s.setups.erase name :=
  SortedMap.map_erase _ s.schemas name

/-- Schemas that are set up like the ones they replace change no setup. -/
theorem setups_withSchemas {cs : List (Stamped SchemaContext)}
    (h : ∀ c' ∈ cs, ∃ c, s.schema? c'.value.name = some c ∧ c'.value.setup = c.value.setup) :
    (s.withSchemas cs).setups = s.setups := by
  have hfind : ∀ c ∈ cs, s.setups.find? c.value.name = some c.value.setup := by
    intro c' hc'
    obtain ⟨c, hc, hsetup⟩ := h c' hc'
    rw [find?_setups, hc, hsetup]
    rfl
  have hfold : ∀ m : SortedMap (Stamped SchemaContext), m.map (·.value.setup) = s.setups →
      (cs.foldl (fun m c => m.insert c.value.name c) m).map (·.value.setup) = s.setups := by
    clear h
    induction cs with
    | nil => exact fun m hm => hm
    | cons c cs ih =>
      intro m hm
      refine ih (fun c' hc' => hfind c' (List.mem_cons_of_mem c hc')) _ ?_
      rw [SortedMap.map_insert, hm]
      exact SortedMap.insert_of_find? (hfind c List.mem_cons_self)
  exact hfold s.schemas rfl

theorem setups_ofList {es : List (String × SchemaConfiguration)}
    {built : List (Stamped SchemaContext)} (h : List.Forall₂ SchemaContext.Realizes es built) :
    (SortedMap.ofList (built.map fun c => (c.value.name, c))).map (·.value.setup) =
      .ofList (es.map fun e => (e.1, e.2.setup)) := by
  have hsame : (built.map fun c => (c.value.name, c)).map (fun e => (e.1, e.2.value.setup)) =
      es.map fun e => (e.1, e.2.setup) := by
    induction h with
    | nil => rfl
    | cons hc _ ih =>
      simp only [List.map_cons, ih, hc.1, hc.2]
  rw [SortedMap.ofList, SortedMap.map_foldl_insert, hsame]
  rfl

end Snapshot

/-! ### Changes -/

namespace Properties
variable {p q : Properties}

theorem raw_set {key : PropertyKey} {value : Json} (h : p.set key value = .ok q) :
    q.raw = p.raw := by
  cases key <;>
    · obtain ⟨_, _, h⟩ := bind_eq_ok h
      cases h
      rfl

theorem raw_setAll {es : List (String × Json)} (h : p.setAll es = .ok q) : q.raw = p.raw := by
  induction es generalizing p with
  | nil =>
    cases h
    rfl
  | cons e es ih =>
    simp only [setAll] at h
    split at h
    · exact ih h
    · obtain ⟨_, hset, h⟩ := bind_eq_ok h
      exact (ih h).trans (raw_set hset)

end Properties

theorem Change.raw_readProperties {raw : RawProperties} {p : Properties}
    (h : readProperties raw = .ok p) : p.raw = raw := by
  simp only [readProperties, Properties.read] at h
  cases hread : Properties.setAll { raw := raw } raw.entries with
  | error f =>
    rw [hread] at h
    cases h
  | ok q =>
    rw [hread] at h
    cases h
    exact Properties.raw_setAll hread

namespace SchemaContext
variable {c c' : SchemaContext}

theorem Resized.setup {size : Nat} (h : c.Resized size c') : c'.setup = c.setup := by
  simp only [SchemaContext.setup, dataSources, configurations, h.schema]

theorem Retabled.setup {tables : SchemaTables} (h : c.Retabled tables c') :
    c'.setup = c.setup := by
  simp only [SchemaContext.setup, dataSources, configurations]
  rw [h.schema]

theorem Reruled.setup {rules : List RuleConfiguration} (h : c.Reruled rules c') :
    c'.setup = { c.setup with configurations := rules } := by
  simp only [SchemaContext.setup, dataSources, configurations]
  rw [h.schema]

end SchemaContext

/-- What the change of an event yields is configured as the event asks. -/
theorem Change.Yields.configuration {change : Change} {s s' : Stamped Snapshot} {event : Event}
    (h : change.Yields s s') (he : ofEvent event = .ok change)
    (hn : ∀ k c, s.value.schema? k = some c → c.value.name = k) (isOpen : Bool) :
    s'.value.configuration (change.circuit isOpen) =
      (s.value.configuration isOpen).apply event := by
  cases event with
  | reset schemas a raw =>
    obtain ⟨p, hp, he⟩ := bind_eq_ok he
    split at he
    · cases he
    · obtain ⟨d, _, he⟩ := bind_eq_ok he
      cases he
      cases h with
      | reset hb hs =>
        simp only [Snapshot.configuration, Configuration.apply, hs, Snapshot.setups]
        rw [Snapshot.setups_ofList hb, raw_readProperties hp]
        rfl
  | schemaAdded name ds rules =>
    cases he
    cases h with
    | addSchema hname hc hs =>
      simp only [Snapshot.configuration, Configuration.apply, hs, Snapshot.setups_withSchema,
        hname, hc]
      rfl
  | schemaDeleted name =>
    cases he
    cases h with
    | deleteUnknown hnone =>
      have herase : s.value.setups.erase name = s.value.setups := by
        refine SortedMap.ext_entries (SortedMap.entries_erase_of_find?_none ?_)
        rw [Snapshot.find?_setups, hnone]
        rfl
      simp only [Snapshot.configuration, Configuration.apply, herase]
      rfl
    | deleteSchema hsome hs =>
      simp only [Snapshot.configuration, Configuration.apply, hs, Snapshot.setups_withoutSchema]
      rfl
  | propertiesChanged raw =>
    obtain ⟨p, hp, he⟩ := bind_eq_ok he
    cases he
    cases h with
    | setProperties hc hs =>
      have hsame : Snapshot.setups s'.value = s.value.setups := by
        rw [hs]
        refine Snapshot.setups_withSchemas fun c' hc' => ?_
        obtain ⟨c, hmem, hresized⟩ := Snapshot.replaced_of_forall₂ hn (fun _ _ h => h.name)
          (fun c => (s.value.mem_values_iff c).1) hc c' hc'
        exact ⟨c, hmem, hresized.setup⟩
      simp only [Snapshot.configuration, Configuration.apply, hsame]
      rw [hs, ← raw_readProperties hp]
      rfl
  | authenticationChanged a =>
    cases he
    cases h with
    | setAuthentication hs =>
      simp only [Snapshot.configuration, Configuration.apply, hs]
      rfl
  | metaDataChanged names tables =>
    cases he
    cases h with
    | setNoTables _ hnone => rfl
    | setTables _ hc hs =>
      have hsame : Snapshot.setups s'.value = s.value.setups := by
        rw [hs]
        refine Snapshot.setups_withSchemas fun c' hc' => ?_
        obtain ⟨c, hmem, hretabled⟩ := Snapshot.replaced_of_forall₂ hn (fun _ _ h => h.name)
          (fun c => Snapshot.mem_known) hc c' hc'
        exact ⟨c, hmem, hretabled.setup⟩
      simp only [Snapshot.configuration, Configuration.apply, hsame]
      rw [hs]
      rfl
  | rulesChanged name rules =>
    cases he
    cases h with
    | setRules hold hname hc hs =>
      simp only [Snapshot.configuration, Configuration.apply, Configuration.revise, hs,
        Snapshot.setups_withSchema, Snapshot.find?_setups, hold, hname, hc.setup, Option.map_some]
      rfl
  | dataSourcesChanged name ds =>
    cases he
    cases h with
    | setDataSources hold hname hc hs =>
      simp only [Snapshot.configuration, Configuration.apply, Configuration.revise, hs,
        Snapshot.setups_withSchema, Snapshot.find?_setups, hold, hname, hc, Option.map_some]
      rfl
  | circuitStateChanged isOpen' =>
    cases he
    cases h
    rfl
  | disabledStateChanged name backend off =>
    cases he
    cases h
    rfl
  | heartbeat =>
    cases he
    cases h
    rfl

/-! ### Histories -/

namespace Registry

def configuration (g : Registry) : Configuration := g.current.configuration g.circuitOpen

/-- The registries that come of what happens to a new one. Each event has its own factory and its own
answers to loads. -/
inductive Logged : List Occurrence → Registry → Prop where
  | new : Logged [] .empty
  | event {log : List Occurrence} {env : Environment} {g : Registry} {e : Event}
      {r : Registry × Except Stop Nat} (h : Logged log g) (hr : Handles env g e r) :
      Logged (log ++ [.event e r.2]) r.1
  | closed {log : List Occurrence} {g : Registry} (h : Logged log g) :
      Logged (log ++ [.closed]) g.close.1

theorem Ends.coherent {env : Environment} {x : Registry × Step} {r : Registry × Except Stop Nat}
    (h : Ends env x r) (hx : x.1.current.Coherent ∧ x.2.Coheres x.1) : r.1.current.Coherent := by
  induction h with
  | done g outcome => exact hx.1
  | load answer h ih => exact ih (coheres_resume env hx.1 hx.2 answer)

theorem Logged.coherent {log : List Occurrence} {g : Registry} (h : Logged log g) :
    g.current.Coherent := by
  induction h with
  | new => exact .empty
  | event h hr ih =>
    cases hr with
    | refused _ => exact ih
    | applied hc hr => exact hr.coherent (coheres_begin _ ih _)
  | closed h ih => exact (coheres_begin { factory := .immediate [] [] } ih .close).1

/-- An event does to the configuration what it asks for if it is accepted, and else nothing. -/
theorem Handles.configuration {env : Environment} {g : Registry} {e : Event}
    {r : Registry × Except Stop Nat} (h : Handles env g e r) (hg : g.current.Coherent) :
    r.1.configuration = g.configuration.enter (.event e r.2) := by
  obtain ⟨g', outcome⟩ := r
  cases outcome with
  | ok n =>
    obtain ⟨change, he, hyields, hcircuit⟩ := h.yields
    simp only [Registry.configuration, hcircuit]
    exact hyields.configuration he (fun k c hc => (hg k c hc).1) g.circuitOpen
  | error stop =>
    obtain ⟨hs, hcircuit⟩ := h.same_of_error
    simp only [Registry.configuration, current, hs, hcircuit]
    rfl

/-- The published schemas, properties and users and the circuit breaker are what the accepted events
make of those of a new registry, one after the other. -/
theorem configuration_eq_foldl {log : List Occurrence} {g : Registry} (h : Logged log g) :
    g.configuration = log.foldl Configuration.enter {} := by
  induction h with
  | new => rfl
  | event h hr ih => rw [List.foldl_append, ← ih, hr.configuration h.coherent, List.foldl_cons,
      List.foldl_nil]
  | closed h ih =>
    rw [List.foldl_append, ← ih]
    rfl

/-- A backend is deleted and another one modified; rules for an unknown schema are refused. -/
theorem configuration_eq_foldl_reconciled :
    let env : Environment := { factory := .immediate [] [] }
    let load : Loader := fun _ _ => .ok .empty
    let changed : ParameterMap := .ofList [("b0", { url := "postgresql://other/d" })]
    let log : List Occurrence := [.event (.schemaAdded "s" twoBackends []) (.ok 1),
      .event (.dataSourcesChanged "s" changed) (.ok 2),
      .event (.rulesChanged "t" []) (.error (.rejected (.schemaNotFound "t")))]
    let g := (reconciled.handle env load (.rulesChanged "t" [])).1
    Logged log g ∧ g.configuration = log.foldl Configuration.enter {} ∧
      g.configuration.schemas.entries = [("s", ⟨changed.sorted, []⟩)] := by
  intro env load changed log g
  have hadded : Logged [.event (.schemaAdded "s" twoBackends []) (.ok 1)]
      (Registry.empty.handle env load (.schemaAdded "s" twoBackends [])).1 :=
    Logged.new.event (handles_handle env load _ _)
  have hchanged := hadded.event (handles_handle env load _ (.dataSourcesChanged "s" changed))
  have h : Logged log g := hchanged.event (handles_handle env load reconciled (.rulesChanged "t" []))
  exact ⟨h, configuration_eq_foldl h, by rw [configuration_eq_foldl h]; decide⟩

end Registry

end ShardRegistry
