import ShardRegistry.Proofs.Crashes
import ShardRegistry.Proofs.Determination
import ShardRegistry.Proofs.Setups

/-! Making schemas. What comes of building a schema is a function of its parameters, rules and properties
and of what the backends answer: nothing else of a registry counts, neither what it published before nor
how many pools it has built. -/
namespace ShardRegistry

/-! ### What is made -/

/-- What a schema consists of, but for the identities of its objects. -/
structure SchemaContents where
  name : String
  dialect : Dialect
  /-- In the order of the data sources. -/
  parameters : ParameterMap
  configurations : List RuleConfiguration
  rules : List Rule
  metaData : MetaData
  executorSize : Nat
  parser : Dialect
  cached : Option CachedBackend

def SchemaContext.contents (c : SchemaContext) : SchemaContents where
  name := c.name
  dialect := c.dialect
  parameters := c.dataSources.parameters
  configurations := c.configurations
  rules := c.rules.map (·.rule)
  metaData := c.metaData
  executorSize := c.runtime.value.executorSize
  parser := c.runtime.value.parser.value
  cached := c.runtime.value.cached.map (·.value)

/-- The schema of parameters and rules that comes of the tables that were loaded, if they fit the rules
and the executor is not too large. -/
def SchemaContents.complete (name : String) (d : Dialect) (ps : ParameterMap)
    (cs : List RuleConfiguration) (rules : List Rule) (properties : Properties)
    (loaded : Except Error (SortedMap Tables)) : Option SchemaContents := do
  let tables ← loaded.toOption
  let decorated ← (decorate tables rules properties.checkTableMetadataEnabled).toOption
  if properties.executorSize ≤ Executor.limit then
    some {
      name := name
      dialect := d
      parameters := ps
      configurations := cs
      rules := rules
      metaData := MetaData.ofParameters ps decorated
      executorSize := properties.executorSize
      parser := d
      cached := CachedBackend.ofParameters d ps }
  else none

/-- What is completed has the name and the dialect that were asked for. -/
theorem SchemaContents.complete_eq_some {name : String} {d : Dialect} {ps : ParameterMap}
    {cs : List RuleConfiguration} {rules : List Rule} {properties : Properties}
    {loaded : Except Error (SortedMap Tables)} {x : SchemaContents}
    (h : complete name d ps cs rules properties loaded = some x) : x.name = name ∧ x.dialect = d := by
  simp only [complete, Option.bind_eq_bind, Option.bind_eq_some_iff] at h
  obtain ⟨_, _, _, _, h⟩ := h
  split at h
  · cases h
    exact ⟨rfl, rfl⟩
  · cases h

/-- What comes of a schema whose tables are not loaded yet. -/
def PendingSchema.complete (p : PendingSchema) (loaded : Except Error (SortedMap Tables)) :
    Option SchemaContents :=
  SchemaContents.complete p.name p.dialect p.dataSources.parameters p.configurations p.rules
    p.properties loaded

/-- What the backends of a registry answer: whether a pool can be built, and which tables those of a
schema have. -/
structure Backends where
  builds : String → ConnectionParameters → Bool
  tables : Dialect → ParameterMap → Except Error (SortedMap Tables)

namespace Backends

/-- A factory that succeeds for the backends that answer, whenever it is asked. -/
def Decide (b : Backends) (f : Factory) : Prop :=
  ∀ i name p, (f.build i name p).isOk = b.builds name p

/-- A loader that finds what the backends answer. -/
def Tell (b : Backends) (load : Loader) : Prop := ∀ d m, load d m = b.tables d m.parameters

/-- Whether a data source can be built. -/
def suits (b : Backends) (name : String) (p : ConnectionParameters) : Bool :=
  p.check.isOk && b.builds name p

/-- The schema that comes of parameters and rule configurations, if it can be built. -/
def make (b : Backends) (name : String) (d : Dialect) (ps : ParameterMap)
    (cs : List RuleConfiguration) (properties : Properties) : Option SchemaContents := do
  if ps.entries.all fun e => b.suits e.1 e.2 then
    let rules ← (Rule.build ps.keys cs).toOption
    SchemaContents.complete name d ps cs rules properties (b.tables d ps)
  else none

/-- Whether data sources can be built for all parameters. -/
def Suit (b : Backends) (ps : ParameterMap) : Prop :=
  ∀ name p, ps.find? name = some p → b.suits name p = true

variable {b : Backends}

theorem all_suits_iff (ps : ParameterMap) :
    (ps.entries.all fun e => b.suits e.1 e.2) = true ↔ b.Suit ps := by
  rw [List.all_eq_true]
  constructor
  · exact fun h name p hp => h (name, p) ((ps.mem_entries_iff name p).2 hp)
  · exact fun h e he => h e.1 e.2 ((ps.mem_entries_iff e.1 e.2).1 he)

theorem make_of_not_suit {ps : ParameterMap} (h : ¬ b.Suit ps) (name : String) (d : Dialect)
    (cs : List RuleConfiguration) (properties : Properties) :
    b.make name d ps cs properties = none := by
  have hall : (ps.entries.all fun e => b.suits e.1 e.2) = false :=
    Bool.eq_false_iff.2 (mt (all_suits_iff ps).1 h)
  rw [make, hall]
  rfl

/-- What is made has the name and the dialect that were asked for. -/
theorem make_eq_some {name : String} {d : Dialect} {ps : ParameterMap}
    {cs : List RuleConfiguration} {properties : Properties} {x : SchemaContents}
    (h : b.make name d ps cs properties = some x) : x.name = name ∧ x.dialect = d := by
  rw [make] at h
  split at h
  · obtain ⟨_, _, h⟩ := Option.bind_eq_some_iff.1 h
    exact SchemaContents.complete_eq_some h
  · cases h

/-- Backends that have no tables; some of them cannot be reached. -/
def answering (failing : List String) : Backends :=
  ⟨fun name _ => !failing.contains name, fun _ _ => .ok .empty⟩

theorem decide_immediate (failing reluctant : List String) :
    (answering failing).Decide (.immediate failing reluctant) := by
  intro i name p
  cases hname : failing.contains name <;>
    simp only [answering, Factory.immediate, hname, Except.isOk, Except.toBool, if_true,
      Bool.false_eq_true, if_false, Bool.not_true, Bool.not_false]

/-- The factory for PostgreSQL looks at nothing but the parameters. -/
theorem decide_postgres (tables : Dialect → ParameterMap → Except Error (SortedMap Tables)) :
    Decide ⟨fun name p => (Factory.postgres.build 0 name p).isOk, tables⟩ .postgres :=
  fun _ _ _ => rfl

end Backends

/-! ### Data sources -/

namespace Resources
variable {b : Backends} {f : Factory} (r : Resources)

theorem buildDataSource_isOk (hf : b.Decide f) (name : String) (p : ConnectionParameters) :
    (r.buildDataSource f name p).2.isOk = b.suits name p := by
  have hbuild := hf r.requests.length name p
  cases hcheck : p.check with
  | error e => simp [buildDataSource, Backends.suits, hcheck, Except.isOk, Except.toBool]
  | ok _ =>
    cases hpool : f.build r.requests.length name p with
    | error e =>
      rw [hpool] at hbuild
      simp [buildDataSource, addPool, Backends.suits, hcheck, hpool, ← hbuild, Except.isOk,
        Except.toBool]
    | ok design =>
      rw [hpool] at hbuild
      simp [buildDataSource, addPool, Backends.suits, hcheck, hpool, ← hbuild, Except.isOk,
        Except.toBool]

/-- Data sources are built if all of them can be. -/
theorem buildAll_isOk (hf : b.Decide f) (built : DataSourceMap)
    (es : List (String × ConnectionParameters)) :
    (r.buildAll f built es).2.isOk = es.all fun e => b.suits e.1 e.2 := by
  induction es generalizing r built with
  | nil => rfl
  | cons e es ih =>
    have hd := r.buildDataSource_isOk hf e.1 e.2
    rw [List.all_cons, ← hd]
    simp only [buildAll]
    split
    · rename_i heq
      rw [heq]
      rfl
    · rename_i heq
      rw [heq, ih]
      rfl

theorem disabled_buildAll (f : Factory) (built : DataSourceMap)
    (es : List (String × ConnectionParameters)) :
    (r.buildAll f built es).1.disabled = r.disabled := by
  have hpool (r : Resources) (name : String) (p : ConnectionParameters) :
      (r.addPool f name p).1.disabled = r.disabled := by
    simp only [addPool]
    split <;> rfl
  have hsource (r : Resources) (name : String) (p : ConnectionParameters) :
      (r.buildDataSource f name p).1.disabled = r.disabled := by
    have h := hpool r name p
    simp only [buildDataSource]
    split
    · rfl
    · split <;> rename_i heq <;> rw [heq] at h <;> exact h
  induction es generalizing r built with
  | nil => rfl
  | cons e es ih =>
    have h := hsource r e.1 e.2
    simp only [buildAll]
    split <;> rename_i heq <;> rw [heq] at h
    · exact (congrArg Inventory.disabled (inventory_closePools _ _)).trans h
    · exact (ih _ _).trans h

end Resources

/-! ### Completion -/

namespace Resources

theorem disabledOf_congr {r r' : Resources} (h : r'.disabled = r.disabled) :
    r'.disabledOf = r.disabledOf := by
  funext i
  rw [disabledOf, h, disabledOf]

theorem disabledOf_addDisabled (r : Resources) : r.addDisabled.1.disabledOf = r.disabledOf := by
  funext i
  simp only [disabledOf, addDisabled]
  by_cases hi : i < r.disabled.length
  · rw [List.getElem?_append_left hi]
  · have hge := Nat.le_of_not_lt hi
    rw [List.getElem?_append_right hge, List.getElem?_eq_none hge]
    cases i - r.disabled.length <;> rfl

/-- New rules have sets of their own, and nothing is disabled in them. -/
theorem instantiate_status (rules : List Rule) (r : Resources) :
    (r.instantiate rules).1.disabledOf = r.disabledOf ∧
      ∀ x ∈ (r.instantiate rules).2, r.disabledOf x.status = [] := by
  induction rules generalizing r with
  | nil => exact ⟨rfl, nofun⟩
  | cons rule rules ih =>
    obtain ⟨hsame, hnew⟩ := ih r.addDisabled.1
    rw [disabledOf_addDisabled] at hsame hnew
    refine ⟨hsame, List.forall_mem_cons.2 ⟨?_, hnew⟩⟩
    simp [disabledOf]

/-- A schema is completed as far as it can be, with rules that have nothing disabled. -/
theorem finishSchema_complete (r : Resources) (p : PendingSchema) (tables : SortedMap Tables) :
    (p.complete (.ok tables) = none ∧ ∃ r' stop, r.finishSchema p tables = (r', .error stop)) ∨
    ∃ r' c, r.finishSchema p tables = (r', .ok c) ∧
      p.complete (.ok tables) = some c.value.contents ∧ r'.disabledOf = r.disabledOf ∧
      ∀ x ∈ c.value.rules, r.disabledOf x.status = [] := by
  cases hd : decorate tables p.rules p.properties.checkTableMetadataEnabled with
  | error f =>
    refine .inl ⟨?_, r, .rejected f.error, by simp [finishSchema, hd]⟩
    simp [PendingSchema.complete, SchemaContents.complete, hd, Except.toOption]
  | ok decorated =>
    obtain ⟨hsame, hnew⟩ := instantiate_status p.rules r
    simp only [finishSchema, hd]
    rcases startRuntime_cases _ p.dialect p.dataSources p.properties.executorSize with
      ⟨hsize, hrun⟩ | ⟨hsize, _, _, _, hrun⟩
    · rw [hrun]
      refine .inl ⟨?_, _, _, rfl⟩
      simp only [PendingSchema.complete, SchemaContents.complete, hd, Except.toOption,
        Nat.not_le_of_gt hsize, Option.bind_eq_bind, Option.bind_some, if_false]
    · obtain ⟨hparser, hexecutor, hcached⟩ := startRuntime_ok hrun
      rw [hrun]
      refine .inr ⟨_, _, rfl, ?_, hsame, hnew⟩
      simp [PendingSchema.complete, SchemaContents.complete, hd, Except.toOption, hsize,
        SchemaContext.contents, hparser, hexecutor, hcached, instantiate_snd,
        SchemaContext.dialect, SchemaContext.dataSources, SchemaContext.configurations,
        SchemaContext.rules, SchemaContext.metaData, Resources.stamped]

end Resources

/-! ### Preparation -/

section
variable {b : Backends}

/-- Rules are made for data sources, or the schema cannot be made. -/
theorem PendingSchema.start_cases (name : String) (d : Dialect) (cs : List RuleConfiguration)
    (properties : Properties) {load : Loader} (hl : b.Tell load) {m : DataSourceMap}
    (hm : b.Suit m.parameters) :
    (∃ e, start name m d cs properties = .error e ∧
      b.make name d m.parameters cs properties = none) ∨
    ∃ p, start name m d cs properties = .ok p ∧ p.name = name ∧ p.dataSources = m ∧
      p.complete (load p.dialect p.dataSources) = b.make name d m.parameters cs properties := by
  have hkeys := m.keys_parameters
  have hall := (Backends.all_suits_iff _).2 hm
  cases hr : Rule.build m.keys cs with
  | error e =>
    refine .inl ⟨e.error, by simp [start, hr], ?_⟩
    simp [Backends.make, hall, hkeys, hr, Except.toOption]
  | ok rules =>
    have hstart : start name m d cs properties = .ok ⟨name, m, d, cs, rules, properties⟩ := by
      simp [start, hr]
    refine .inr ⟨_, hstart, rfl, rfl, ?_⟩
    simp [Backends.make, hall, hkeys, hr, Except.toOption, PendingSchema.complete, hl d m]

/-- The pools of a schema are built if all of them can be. -/
theorem Resources.createDataSources_cases (r : Resources) {f : Factory} (hf : b.Decide f)
    (ps : ParameterMap) :
    (¬ b.Suit ps ∧ ∃ r' e, r.createDataSources f ps = (r', .error e)) ∨
    ∃ r' m, r.createDataSources f ps = (r', .ok m) ∧ r'.disabled = r.disabled ∧
      m.parameters = ps ∧ b.Suit ps := by
  have hok := r.buildAll_isOk hf .empty ps.entries
  have hdisabled := r.disabled_buildAll f .empty ps.entries
  cases hb : r.createDataSources f ps with
  | mk r' result =>
    rw [createDataSources] at hb
    rw [hb] at hok hdisabled
    cases result with
    | error e =>
      refine .inl ⟨fun h => ?_, r', e, rfl⟩
      cases hok.trans ((Backends.all_suits_iff ps).2 h)
    | ok m =>
      exact .inr ⟨r', m, rfl, hdisabled, createDataSources_parameters hb,
        (Backends.all_suits_iff ps).1 hok.symm⟩

end

/-! ### Changes -/

namespace Registry

/-- A schema that is published next, and nothing is disabled in its rules. -/
structure Adds (g : Registry) (x : SchemaContents) (r : Registry × Except Stop Nat) : Prop where
  accepted : ∃ n, r.2 = .ok n
  disabled : r.1.resources.disabledOf = g.resources.disabledOf
  schema : ∃ c : Stamped SchemaContext, r.1.current = g.current.withSchema c ∧
    c.value.contents = x ∧ ∀ y ∈ c.value.rules, r.1.resources.disabledOf y.status = []

/-- What comes of building a schema: it is published if it can be made, and else it is not accepted. -/
def Comes (g : Registry) (made : Option SchemaContents) (r : Registry × Except Stop Nat) : Prop :=
  match made with
  | none => ∃ stop, r.2 = .error stop
  | some x => g.Adds x r

theorem drive_done (env : Environment) (load : Loader) (fuel : Nat) (g : Registry)
    (outcome : Except Stop Nat) : drive env load fuel (g, .done outcome) = (g, outcome) := by
  cases fuel <;> rfl

theorem disabledOf_of_face {g g' : Registry} (h : g'.face = g.face) :
    g'.resources.disabledOf = g.resources.disabledOf :=
  Resources.disabledOf_congr (congrArg (·.inventory.disabled) h)

/-- With the answer to a load a schema is completed, or the change fails. -/
theorem resume_complete (env : Environment) (g : Registry) (purpose : Purpose)
    (pending : PendingSchema) (answer : Except Error (SortedMap Tables)) :
    (pending.complete answer = none ∧
      ∃ g' stop, g.resume env purpose pending answer = (g', .done (.error stop))) ∨
    ∃ tables r c, answer = .ok tables ∧ g.resources.finishSchema pending tables = (r, .ok c) ∧
      pending.complete answer = some c.value.contents ∧
      r.disabledOf = g.resources.disabledOf ∧
      ∀ x ∈ c.value.rules, g.resources.disabledOf x.status = [] := by
  cases answer with
  | error e => exact .inl ⟨rfl, _, _, rfl⟩
  | ok tables =>
    rcases g.resources.finishSchema_complete pending tables with
      ⟨hnone, r, stop, hb⟩ | ⟨r, c, hb, hsome, hdisabled, hnew⟩
    · refine .inl ⟨hnone, ?_⟩
      simp only [resume, hb]
      cases stop <;> exact ⟨_, _, rfl⟩
    · exact .inr ⟨tables, r, c, rfl, hb, hsome, hdisabled, hnew⟩

/-- A schema that is completed is published, if it is the only one of its change. -/
theorem resume_publishes (env : Environment) {g : Registry} {purpose : Purpose}
    {pending : PendingSchema} {tables : SortedMap Tables} {r : Resources} {c : Stamped SchemaContext}
    (hp : purpose.properties? = none)
    (h : g.resources.finishSchema pending tables = (r, .ok c)) :
    ∃ g' n, g.resume env purpose pending (.ok tables) = (g', .done (.ok n)) ∧
      g'.current = g.current.withSchema c ∧ g'.resources.disabledOf = r.disabledOf := by
  simp only [resume, h]
  cases purpose with
  | reset a p d rest built => cases hp
  | add =>
    simp only
    split
    · exact ⟨_, _, rfl, rfl, rfl⟩
    · refine ⟨_, _, rfl, rfl, ?_⟩
      exact disabledOf_of_face (face_closeContexts _ _)
  | reconcile x previous =>
    refine ⟨_, _, rfl, rfl, ?_⟩
    refine disabledOf_of_face ((face_pruneBackends _ _ _).trans (face_withResources _ fun r => ?_))
    exact (Resources.inventory_closeEngineQuietly _ _).trans (Resources.inventory_closePools _ _)

section
variable {b : Backends} {env : Environment} {load : Loader}

/-- The load of the tables of a schema that is the only one of its change. -/
theorem comes_load {g : Registry} {r : Resources} {purpose : Purpose} {pending : PendingSchema}
    (hp : purpose.properties? = none) (hr : r.disabledOf = g.resources.disabledOf) :
    g.Comes (pending.complete (load pending.dialect pending.dataSources))
      (drive env load (Step.load purpose pending).loads (g.owning r, .load purpose pending)) := by
  have hloads : (Step.load purpose pending).loads = 1 := by
    cases purpose with
    | reset a p d rest built => cases hp
    | add | reconcile x previous => rfl
  rw [hloads, drive]
  rcases resume_complete env (g.owning r) purpose pending (load pending.dialect pending.dataSources)
    with ⟨hnone, g', stop, hresume⟩ | ⟨tables, r', c, hload, hfinish, hsome, hsame, hnew⟩
  · rw [hnone, hresume]
    exact ⟨stop, rfl⟩
  · obtain ⟨g', n, hresume, hcurrent, hdisabled⟩ := resume_publishes env hp hfinish
    have hall : g'.resources.disabledOf = g.resources.disabledOf :=
      hdisabled.trans (hsame.trans hr)
    rw [hload] at hsome ⊢
    rw [hsome, hresume]
    refine ⟨⟨n, rfl⟩, hall, c, hcurrent, rfl, fun y hy => ?_⟩
    exact (congrFun (hall.trans hr.symm) y.status).trans (hnew y hy)

/-- A schema is added under the dialect that is known, or else that of its first data source. -/
def Speaks (g : Registry) (d : Dialect) (ps : ParameterMap) : Prop :=
  g.current.dialect = some d ∨
    g.current.dialect = none ∧ ∃ p, ps.values.head? = some p ∧ p.dialect = .ok d

section
variable {g : Registry} {d : Dialect} {ps : ParameterMap} (hd : g.Speaks d ps) {r : Resources}
  {m : DataSourceMap} (name : String) (cs : List RuleConfiguration)
include hd

theorem addSchema_unbuilt {e : Error}
    (hb : g.resources.createDataSources env.factory ps = (r, .error e)) :
    g.addSchema env name ps cs = (g.owning r).reject e := by
  rcases hd with hknown | ⟨hnone, p, hp, hdialect⟩
  · simp only [addSchema, hknown, hb]
  · simp only [addSchema, hnone, hp, hdialect, hb]

theorem addSchema_built (hb : g.resources.createDataSources env.factory ps = (r, .ok m)) :
    (∀ e, PendingSchema.start name m d cs g.current.properties.value = .error e →
      g.addSchema env name ps cs = (g.owning (r.closeDataSources m)).reject e) ∧
    ∀ pending, PendingSchema.start name m d cs g.current.properties.value = .ok pending →
      g.addSchema env name ps cs = (g.owning r, .load .add pending) := by
  rcases hd with hknown | ⟨hnone, p, hp, hdialect⟩
  · constructor <;> intro x hs <;> simp only [addSchema, hknown, hb, hs]
  · constructor <;> intro x hs <;> simp only [addSchema, hnone, hp, hdialect, hb, hs]

end

/-- Adding a schema comes to what is made of it. -/
theorem comes_addSchema (hf : b.Decide env.factory) (hl : b.Tell load) {g : Registry} {d : Dialect}
    (name : String) {ps : ParameterMap} (cs : List RuleConfiguration) (hd : g.Speaks d ps) :
    g.Comes (b.make name d ps cs g.current.properties.value)
      (g.apply env load (.addSchema name ps cs)) := by
  rw [apply, begin]
  rcases g.resources.createDataSources_cases hf ps with
    ⟨hnot, r, e, hb⟩ | ⟨r, m, hb, hdisabled, rfl, hsuits⟩
  · rw [addSchema_unbuilt hd name cs hb, b.make_of_not_suit hnot]
    exact ⟨_, rfl⟩
  · obtain ⟨hunruled, hruled⟩ := addSchema_built hd name cs hb
    rcases PendingSchema.start_cases name d cs g.current.properties.value hl hsuits with
      ⟨e, hs, hnone⟩ | ⟨pending, hs, rfl, rfl, hmake⟩
    · rw [hunruled e hs, hnone]
      exact ⟨_, rfl⟩
    · rw [hruled pending hs, ← hmake]
      exact comes_load rfl (Resources.disabledOf_congr hdisabled)

end

end Registry

end ShardRegistry
