import ShardRegistry.Proofs.Handling
import ShardRegistry.Proofs.Setups

/-! What changes publish. Each change yields a snapshot that is determined by the one before it up to
the identities of the objects that are made anew, and an event that is not accepted yields nothing. -/
namespace ShardRegistry

/-! ### Schemas -/

theorem Snapshot.mem_values_iff (s : Snapshot) (c : Stamped SchemaContext) :
    c ∈ s.schemas.values ↔ ∃ k, s.schema? k = some c := by
  simp [SortedMap.values, SortedMap.mem_entries_iff, Snapshot.schema?]

theorem Snapshot.mem_known {s : Snapshot} {names : List String} {c : Stamped SchemaContext}
    (h : c ∈ names.filterMap s.schema?) : ∃ k, s.schema? k = some c := by
  obtain ⟨k, _, hk⟩ := List.mem_filterMap.1 h
  exact ⟨k, hk⟩

/-- Schemas made of published ones under the same names stand each for one of these. -/
theorem Snapshot.replaced_of_forall₂ {s : Snapshot}
    (hn : ∀ k c, s.schema? k = some c → c.value.name = k)
    {R : SchemaContext → SchemaContext → Prop} (hR : ∀ c c', R c c' → c'.name = c.name)
    {xs cs : List (Stamped SchemaContext)} (hx : ∀ c ∈ xs, ∃ k, s.schema? k = some c)
    (hc : List.Forall₂ (fun c c' => R c.value c'.value) xs cs) :
    ∀ c' ∈ cs, ∃ c, s.schema? c'.value.name = some c ∧ R c.value c'.value := by
  intro c' hc'
  obtain ⟨c, hmem, hr⟩ := forall₂_mem_right hc hc'
  obtain ⟨k, hk⟩ := hx c hmem
  exact ⟨c, by rw [hR _ _ hr, hn k c hk, hk], hr⟩

namespace SchemaContext

/-- The same schema with an executor of another size. -/
structure Resized (size : Nat) (c c' : SchemaContext) : Prop where
  name : c'.name = c.name
  schema : c'.schema = c.schema
  runtime : c'.runtime.value = { c.runtime.value with executorSize := size }

/-- The same schema with other tables. -/
structure Retabled (tables : SchemaTables) (c c' : SchemaContext) : Prop where
  name : c'.name = c.name
  runtime : c'.runtime = c.runtime
  schema : c'.schema.value =
    { c.schema.value with metaData := c'.schema.value.metaData }
  metaData : c'.metaData = c.metaData.withTables tables

/-- The same schema with other rules. -/
structure Reruled (configurations : List RuleConfiguration) (c c' : SchemaContext) : Prop where
  runtime : c'.runtime = c.runtime
  schema : c'.schema.value = { c.schema.value with configurations, rules := c'.rules }

/-- The schema that a reset makes of a name and a configuration. -/
def Realizes (e : String × SchemaConfiguration) (c : Stamped SchemaContext) : Prop :=
  c.value.name = e.1 ∧ c.value.setup = e.2.setup

end SchemaContext

/-- What an accepted change publishes after a snapshot. Where the snapshot is said to be the old one,
it is the same object. -/
inductive Change.Yields (s : Stamped Snapshot) : Change → Stamped Snapshot → Prop where
  | reset {schemas : OrderedMap SchemaConfiguration} {a : Stamped Authentication}
      {p : Stamped Properties} {d : Dialect} {built : List (Stamped SchemaContext)}
      {s' : Stamped Snapshot}
      (hb : List.Forall₂ SchemaContext.Realizes schemas.entries built)
      (hs : s'.value = ⟨.ofList (built.map fun c => (c.value.name, c)), p, a, some d,
        s.value.generation + 1⟩) :
      Yields s (.reset schemas a.value p.value d) s'
  | addSchema {name : String} {ds : ParameterMap} {rules : List RuleConfiguration}
      {c : Stamped SchemaContext} {s' : Stamped Snapshot} (hn : c.value.name = name)
      (hc : c.value.setup = ⟨ds.sorted, rules⟩) (hs : s'.value = s.value.withSchema c) :
      Yields s (.addSchema name ds rules) s'
  | deleteUnknown {name : String} (h : s.value.schema? name = none) :
      Yields s (.deleteSchema name) s
  | deleteSchema {name : String} {c : Stamped SchemaContext} {s' : Stamped Snapshot}
      (h : s.value.schema? name = some c) (hs : s'.value = s.value.withoutSchema name) :
      Yields s (.deleteSchema name) s'
  | setProperties {p : Stamped Properties} {cs : List (Stamped SchemaContext)}
      {s' : Stamped Snapshot}
      (hc : List.Forall₂ (fun c c' => c.value.Resized p.value.executorSize c'.value)
        s.value.schemas.values cs)
      (hs : s'.value = { s.value.withSchemas cs with properties := p }) :
      Yields s (.setProperties p.value) s'
  | setAuthentication {a : Stamped Authentication} {s' : Stamped Snapshot}
      (hs : s'.value = { s.value.successor s.value.schemas with authentication := a }) :
      Yields s (.setAuthentication a.value) s'
  | setCircuit (isOpen : Bool) : Yields s (.setCircuit isOpen) s
  | setNoTables {names : List String} (tables : SchemaTables)
      (h : names.filterMap s.value.schema? = []) : Yields s (.setTables names tables) s
  | setTables {names : List String} {tables : SchemaTables} {cs : List (Stamped SchemaContext)}
      {s' : Stamped Snapshot} (h : names.filterMap s.value.schema? ≠ [])
      (hc : List.Forall₂ (fun c c' => c.value.Retabled tables c'.value)
        (names.filterMap s.value.schema?) cs)
      (hs : s'.value = s.value.withSchemas cs) : Yields s (.setTables names tables) s'
  | setRules {name : String} {rules : List RuleConfiguration} {c c' : Stamped SchemaContext}
      {s' : Stamped Snapshot} (h : s.value.schema? name = some c) (hn : c'.value.name = name)
      (hc : c.value.Reruled rules c'.value) (hs : s'.value = s.value.withSchema c') :
      Yields s (.setRules name rules) s'
  | setDisabled {name : String} (backend : String) (off : Bool) {c : Stamped SchemaContext}
      (h : s.value.schema? name = some c) : Yields s (.setDisabled name backend off) s
  | setDataSources {name : String} {new : ParameterMap} {c c' : Stamped SchemaContext}
      {s' : Stamped Snapshot} (h : s.value.schema? name = some c) (hn : c'.value.name = name)
      (hc : c'.value.setup = ⟨new.sorted, c.value.configurations⟩)
      (hs : s'.value = s.value.withSchema c') : Yields s (.setDataSources name new) s'
  | heartbeat : Yields s .heartbeat s
  | close {s' : Stamped Snapshot} (hs : s'.value = s.value.successor .empty) : Yields s .close s'

/-- What a change still has to build when it asks for the tables of a schema. -/
inductive Purpose.Pursues (s : Snapshot) : Purpose → PendingSchema → Change → Prop where
  | reset {schemas : OrderedMap SchemaConfiguration} {a : Authentication} {p : Properties}
      {d : Dialect} {made rest : List (String × SchemaConfiguration)} {c : SchemaConfiguration}
      {built : List (Stamped SchemaContext)} {pending : PendingSchema}
      (he : schemas.entries = made ++ (pending.name, c) :: rest)
      (hb : List.Forall₂ SchemaContext.Realizes made built) (hp : pending.setup = c.setup) :
      Pursues s (.reset a p d rest built) pending (.reset schemas a p d)
  | add {ds : ParameterMap} {rules : List RuleConfiguration} {pending : PendingSchema}
      (hp : pending.setup = ⟨ds.sorted, rules⟩) :
      Pursues s .add pending (.addSchema pending.name ds rules)
  | reconcile {x : Reconciliation} {new : ParameterMap} {c : Stamped SchemaContext}
      {pending : PendingSchema} (h : s.schema? pending.name = some c)
      (hp : pending.setup = ⟨new.sorted, c.value.configurations⟩) :
      Pursues s (.reconcile x c.value) pending (.setDataSources pending.name new)

/-- What an accepted change makes of the state of the circuit breaker. -/
def Change.circuit (isOpen : Bool) : Change → Bool
  | .setCircuit b => b
  | _ => isOpen

/-- Where a change may stand that began with a snapshot and a circuit breaker: only its acceptance
publishes something. -/
def Change.Leads (change : Change) (s : Stamped Snapshot) (isOpen : Bool) (x : Registry × Step) :
    Prop :=
  match x.2 with
  | .done (.ok _) => change.Yields s x.1.snapshot ∧ x.1.circuitOpen = change.circuit isOpen
  | .done (.error _) => x.1.snapshot = s ∧ x.1.circuitOpen = isOpen
  | .load purpose pending =>
    (x.1.snapshot = s ∧ x.1.circuitOpen = isOpen) ∧ purpose.Pursues s.value pending change

theorem Change.Leads.finish {change : Change} {s : Stamped Snapshot} {isOpen : Bool} {g : Registry}
    (h : change.Yields s g.snapshot) (hc : g.circuitOpen = change.circuit isOpen) :
    change.Leads s isOpen g.finish := ⟨h, hc⟩

namespace Registry

/-! ### Parts of changes -/

theorem resized_resizeAll (size : Nat) (cs : List (Stamped SchemaContext)) (g : Registry) :
    List.Forall₂ (fun c c' => c.value.Resized size c'.value) cs (g.resizeAll size cs).2 := by
  induction cs generalizing g with
  | nil => exact .nil
  | cons c cs ih => exact .cons ⟨rfl, rfl, rfl⟩ (ih _)

theorem retabled_retable (tables : SchemaTables) (names : List String) (g : Registry) :
    List.Forall₂ (fun c c' => c.value.Retabled tables c'.value)
      (names.filterMap g.current.schema?) (g.retable tables names).2 := by
  induction names generalizing g with
  | nil => exact .nil
  | cons name names ih =>
    simp only [retable]
    cases hc : g.current.schema? name with
    | none =>
      rw [List.filterMap_cons_none hc]
      exact ih g
    | some c =>
      rw [List.filterMap_cons_some hc]
      exact .cons ⟨rfl, rfl, rfl, rfl⟩ (ih (g.owning
        { g.resources with stamps := g.resources.stamps + 3 }))

theorem leads_nextSchema (env : Environment) (g : Registry)
    {schemas : OrderedMap SchemaConfiguration} (a : Authentication) (p : Properties) (d : Dialect)
    {made rest : List (String × SchemaConfiguration)} {built : List (Stamped SchemaContext)}
    (he : schemas.entries = made ++ rest)
    (hb : List.Forall₂ SchemaContext.Realizes made built) :
    (Change.reset schemas a p d).Leads g.snapshot g.circuitOpen
      (g.nextSchema env a p d built rest) := by
  cases rest with
  | nil =>
    rw [List.append_nil] at he
    exact .finish (.reset (a := ⟨_, a⟩) (p := ⟨_, p⟩) (he ▸ hb) rfl) rfl
  | cons e rest =>
    simp only [nextSchema]
    split
    · exact ⟨rfl, rfl⟩
    · rename_i r m hm
      split
      · exact ⟨rfl, rfl⟩
      · rename_i pending hs
        obtain ⟨hname, hsetup⟩ := PendingSchema.start_setup hs
        rw [Resources.createDataSources_parameters hm] at hsetup
        refine ⟨⟨rfl, rfl⟩, .reset ?_ hb hsetup⟩
        rw [hname]
        exact he

theorem leads_setTables (g : Registry) (names : List String) (tables : SchemaTables) :
    (Change.setTables names tables).Leads g.snapshot g.circuitOpen (g.setTables names tables) := by
  have hc := retabled_retable tables names g
  obtain ⟨⟨stamps, hg⟩, _⟩ := Publishes.retable_eq tables names g
  simp only [setTables]
  split
  · rename_i heq
    rw [heq] at hc
    cases hknown : names.filterMap g.current.schema? with
    | nil => exact .finish (.setNoTables tables hknown) rfl
    | cons _ _ =>
      rw [hknown] at hc
      cases hc
  · rename_i g' cs hne heq
    rw [heq] at hc hg
    simp only at hc hg
    subst hg
    refine .finish (.setTables ?_ hc rfl) rfl
    intro hknown
    have hknown : names.filterMap g.current.schema? = [] := hknown
    rw [hknown] at hc
    cases hc
    exact hne rfl

theorem leads_begin (env : Environment) (g : Registry) (change : Change) :
    change.Leads g.snapshot g.circuitOpen (g.begin env change) := by
  cases change with
  | reset schemas a p d => exact leads_nextSchema env g a p d (List.nil_append _).symm .nil
  | addSchema name ds rules =>
    simp only [begin, Registry.addSchema]
    split
    · exact ⟨rfl, rfl⟩
    · split
      · exact ⟨rfl, rfl⟩
      · rename_i m hm
        split
        · exact ⟨rfl, rfl⟩
        · rename_i hs
          obtain ⟨rfl, hsetup⟩ := PendingSchema.start_setup hs
          rw [Resources.createDataSources_parameters hm] at hsetup
          exact ⟨⟨rfl, rfl⟩, .add hsetup⟩
  | deleteSchema name =>
    simp only [begin]
    split
    · exact .finish (.deleteUnknown ‹_›) rfl
    · exact .finish (.deleteSchema ‹_› rfl) rfl
  | setProperties p =>
    simp only [begin, Registry.setProperties]
    split
    · exact ⟨rfl, rfl⟩
    · obtain ⟨⟨stamps, hg⟩, _⟩ := Publishes.resizeAll_eq p.executorSize g.current.schemas.values
        (g.owning (g.resources.stamped p).1)
      refine .finish (.setProperties (p := (g.resources.stamped p).2)
        (resized_resizeAll p.executorSize _ (g.owning (g.resources.stamped p).1)) ?_) ?_ <;>
        · rw [hg]
          rfl
  | setTables names tables => exact leads_setTables g names tables
  | setRules name rules =>
    simp only [begin, Registry.setRules]
    split
    · exact ⟨rfl, rfl⟩
    · rename_i c hc
      split
      · exact ⟨rfl, rfl⟩
      · refine .finish (.setRules (schema?_of_getSchema hc) ?_ ?_ rfl) rfl
        · exact rfl
        · exact ⟨rfl, rfl⟩
  | setDisabled name backend off =>
    simp only [begin]
    split
    · exact ⟨rfl, rfl⟩
    · exact .finish (.setDisabled backend off (schema?_of_getSchema ‹_›)) rfl
  | setDataSources name new =>
    simp only [begin, Registry.setDataSources]
    split
    · exact ⟨rfl, rfl⟩
    · rename_i c hc
      split
      · exact ⟨rfl, rfl⟩
      · rename_i x hx
        split
        · exact ⟨rfl, rfl⟩
        · rename_i hs
          obtain ⟨rfl, hsetup⟩ := PendingSchema.start_setup hs
          rw [OrderedMap.sorted_congr (Reconciliation.compute_parameters hx)] at hsetup
          exact ⟨⟨rfl, rfl⟩, .reconcile (schema?_of_getSchema hc) hsetup⟩
  | setAuthentication a => exact .finish (.setAuthentication (a := ⟨_, a⟩) rfl) rfl
  | setCircuit isOpen => exact .finish (.setCircuit isOpen) rfl
  | heartbeat => exact .finish .heartbeat rfl
  | close => exact .finish (.close rfl) rfl

theorem leads_resume (env : Environment) (g : Registry) {purpose : Purpose}
    {pending : PendingSchema} {change : Change} (h : purpose.Pursues g.current pending change)
    (answer : Except Error (SortedMap Tables)) :
    change.Leads g.snapshot g.circuitOpen (g.resume env purpose pending answer) := by
  have habandon (g' : Registry) : (g'.abandon purpose pending).snapshot = g'.snapshot ∧
      (g'.abandon purpose pending).circuitOpen = g'.circuitOpen := by
    cases purpose <;> exact ⟨rfl, rfl⟩
  simp only [resume]
  split
  · exact habandon g
  · split
    · exact ⟨rfl, rfl⟩
    · exact habandon _
    · rename_i r c hc
      obtain ⟨hname, hsetup⟩ := Resources.finishSchema_setup hc
      cases h with
      | reset he hb hp =>
        refine leads_nextSchema env (g.owning r) _ _ _ (List.append_cons _ _ _ ▸ he) ?_
        exact List.rel_append hb (.cons ⟨hname, hsetup.trans hp⟩ .nil)
      | add hp =>
        simp only
        split <;> exact .finish (.addSchema hname (hsetup.trans hp) rfl) rfl
      | reconcile hold hp =>
        exact .finish (.setDataSources hold hname (hsetup.trans hp) rfl) rfl

/-! ### Events -/

/-- A change that stands somewhere publishes at its end what it yields, if it is accepted. -/
theorem Ends.leads {env : Environment} {x : Registry × Step} {r : Registry × Except Stop Nat}
    {change : Change} {s : Stamped Snapshot} {isOpen : Bool} (h : Ends env x r)
    (hx : change.Leads s isOpen x) : change.Leads s isOpen (r.1, .done r.2) := by
  induction h with
  | done g outcome => exact hx
  | load answer h ih =>
    obtain ⟨⟨rfl, rfl⟩, hpursues⟩ := hx
    exact ih (leads_resume env _ hpursues answer)

/-- An accepted event publishes what its change yields. -/
theorem Handles.yields {env : Environment} {g g' : Registry} {event : Event} {n : Nat}
    (h : Handles env g event (g', .ok n)) : ∃ change, Change.ofEvent event = .ok change ∧
      change.Yields g.snapshot g'.snapshot ∧ g'.circuitOpen = change.circuit g.circuitOpen := by
  cases h with
  | applied hc hr => exact ⟨_, hc, hr.leads (leads_begin env g _)⟩

/-- An event that is not accepted publishes nothing. -/
theorem Handles.same_of_error {env : Environment} {g g' : Registry} {event : Event} {stop : Stop}
    (h : Handles env g event (g', .error stop)) :
    g'.snapshot = g.snapshot ∧ g'.circuitOpen = g.circuitOpen := by
  cases h with
  | refused _ => exact ⟨rfl, rfl⟩
  | applied _ hr => exact hr.leads (leads_begin env g _)

end Registry

end ShardRegistry
