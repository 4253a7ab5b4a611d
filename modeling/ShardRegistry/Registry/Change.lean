import ShardRegistry.DataSource.Reconciliation
import ShardRegistry.Registry.Basic

/-! Changes of a registry. A change is prepared before it gets its turn; in its turn it runs up to the
first load of tables, and goes on with what was loaded, until it is published or rejected. Pools that
are replaced are closed after the publication, and those of a rejected change at once. -/
namespace ShardRegistry

/-- What a registry cannot know by itself: how pools are built, how many connections of a pool are in use,
and what the driver of remote pools counts. -/
structure Environment where
  factory : Factory
  live : PoolId → Nat := fun _ => 0
  driver : PoolDriver := .keeping 0

/-- A change that was found acceptable as far as that can be told without the registry. -/
inductive Change where
  | reset (schemas : OrderedMap SchemaConfiguration) (authentication : Authentication)
      (properties : Properties) (dialect : Dialect)
  | addSchema (schema : String) (dataSources : ParameterMap) (rules : List RuleConfiguration)
  | deleteSchema (schema : String)
  | setProperties (properties : Properties)
  | setAuthentication (authentication : Authentication)
  | setCircuit (isOpen : Bool)
  | setTables (schemas : List String) (tables : SchemaTables)
  | setRules (schema : String) (rules : List RuleConfiguration)
  | setDisabled (schema backend : String) (disabled : Bool)
  | setDataSources (schema : String) (dataSources : ParameterMap)
  | heartbeat
  /-- Closes the registry: nothing is published afterwards. -/
  | close

namespace Change

def readProperties (raw : RawProperties) : Except Error Properties :=
  (Properties.read raw).mapError fun f => .validation f.message

/-- The first parameters of the first schema that has any. -/
def firstParameters (schemas : OrderedMap SchemaConfiguration) : Option ConnectionParameters :=
  (schemas.values.flatMap fun c => c.dataSources.values).head?

/-- Prepares an event. -/
def ofEvent : Event → Except Error Change
  | .reset schemas authentication raw => do
    let properties ← readProperties raw
    match firstParameters schemas with
    | none => throw (.configuration "No data source configured in any schema")
    | some p => return .reset schemas authentication properties (← p.dialect)
  | .schemaAdded schema dataSources rules => .ok (.addSchema schema dataSources rules)
  | .schemaDeleted schema => .ok (.deleteSchema schema)
  | .propertiesChanged raw => do return .setProperties (← readProperties raw)
  | .authenticationChanged a => .ok (.setAuthentication a)
  | .circuitStateChanged isOpen => .ok (.setCircuit isOpen)
  | .metaDataChanged schemas tables => .ok (.setTables schemas tables)
  | .rulesChanged schema rules => .ok (.setRules schema rules)
  | .disabledStateChanged schema backend disabled => .ok (.setDisabled schema backend disabled)
  | .dataSourcesChanged schema dataSources => .ok (.setDataSources schema dataSources)
  | .heartbeat => .ok .heartbeat

end Change

/-- What the tables of a schema are loaded for. -/
inductive Purpose where
  /-- One of the schemas of a reset: those still to build and those built. -/
  | reset (authentication : Authentication) (properties : Properties) (dialect : Dialect)
      (rest : List (String × SchemaConfiguration)) (built : List (Stamped SchemaContext))
  | add
  | reconcile (reconciliation : Reconciliation) (previous : SchemaContext)

/-- Where a change stands after a part of it. -/
inductive Step where
  /-- It is over: the generation that is published then, or why it was rejected. -/
  | done (outcome : Except Stop Nat)
  /-- It needs the tables of a schema. -/
  | load (purpose : Purpose) (pending : PendingSchema)

namespace Registry

def finish (g : Registry) : Registry × Step := (g, .done (.ok g.generation))

def reject (g : Registry) (e : Error) : Registry × Step := (g, .done (.error (.rejected e)))

def closeContexts (g : Registry) (cs : List SchemaContext) : Registry :=
  g.withResources fun r => cs.foldl (fun r c => c.close r) r

/-- Publishes the schemas of a reset and closes those published before. -/
def finishReset (g : Registry) (authentication : Authentication) (properties : Properties)
    (dialect : Dialect) (built : List (Stamped SchemaContext)) : Registry × Step :=
  let previous := g.current.contexts
  let (r, authentication) := g.resources.stamped authentication
  let (r, properties) := r.stamped properties
  let schemas := SortedMap.ofList (built.map fun c => (c.value.name, c))
  let g := (g.owning r).clearLocks.publish
    { schemas, properties, authentication, dialect := some dialect, generation := g.generation + 1 }
  (g.closeContexts previous).finish

/-- Builds the next schema of a reset up to the load of its tables. -/
def nextSchema (env : Environment) (g : Registry) (authentication : Authentication)
    (properties : Properties) (dialect : Dialect) (built : List (Stamped SchemaContext)) :
    List (String × SchemaConfiguration) → Registry × Step
  | [] => g.finishReset authentication properties dialect built
  | (name, c) :: rest =>
    match g.resources.createDataSources env.factory c.dataSources with
    | (r, .error e) => ((g.owning r).closeContexts (built.map (·.value))).reject e
    | (r, .ok dataSources) =>
      match PendingSchema.start name dataSources dialect c.rules properties with
      | .error e =>
        ((g.owning (r.closeDataSources dataSources)).closeContexts
          (built.map (·.value))).reject e
      | .ok pending =>
        (g.owning r,
          .load (.reset authentication properties dialect rest built) pending)

/-- Gives each schema a runtime with an executor of another size. -/
def resizeAll (g : Registry) (size : Nat) :
    List (Stamped SchemaContext) → Registry × List (Stamped SchemaContext)
  | [] => (g, [])
  | c :: cs =>
    let (r, runtime) := g.resources.stamped { c.value.runtime.value with executorSize := size }
    let (r, context) := r.stamped { c.value with runtime }
    let (g, cs) := resizeAll (g.owning r) size cs
    (g, context :: cs)

def setProperties (g : Registry) (properties : Properties) : Registry × Step :=
  if (Executor.ofSize? Unit properties.executorSize).isNone && !g.current.schemas.isEmpty then
    (g, .done (.error .crashed))
  else
    let (r, stamped) := g.resources.stamped properties
    let (g, replaced) := resizeAll (g.owning r) properties.executorSize
      g.current.schemas.values
    (g.publish { g.current.withSchemas replaced with properties := stamped }).finish

/-- Gives the named schemas new tables; unknown names are passed over. -/
def retable (g : Registry) (tables : SchemaTables) :
    List String → Registry × List (Stamped SchemaContext)
  | [] => (g, [])
  | name :: names =>
    match g.current.schema? name with
    | none => retable g tables names
    | some c =>
      let (r, metaData) := g.resources.stamped (c.value.metaData.withTables tables)
      let (r, schema) := r.stamped { c.value.schema.value with metaData }
      let (r, context) := r.stamped { c.value with schema }
      let (g, cs) := retable (g.owning r) tables names
      (g, context :: cs)

def setTables (g : Registry) (schemas : List String) (tables : SchemaTables) : Registry × Step :=
  match g.retable tables schemas with
  | (_, []) => g.finish
  | (g, replaced) => (g.publish (g.current.withSchemas replaced)).finish

def setRules (g : Registry) (name : String) (configurations : List RuleConfiguration) :
    Registry × Step :=
  match g.getSchema name with
  | .error e => g.reject e
  | .ok c =>
    match Rule.build c.value.dataSources.keys configurations with
    | .error f => g.reject f.error
    | .ok rules =>
      let (r, rules) := g.resources.instantiate rules
      let (r, schema) := r.stamped { c.value.schema.value with configurations, rules }
      let (r, context) := r.stamped { c.value with name, schema }
      ((g.owning r).publish (g.current.withSchema context)).finish

/-- Tells rules that a backend was disabled or enabled. -/
def tellRules (r : Resources) (backend : String) (off : Bool) (rules : List BuiltRule) :
    Resources :=
  rules.foldl (fun r b =>
    r.setDisabled b.status (b.rule.told (r.disabledOf b.status) backend off)) r

/-- Builds the data sources of a new schema up to the load of its tables. -/
def addSchema (env : Environment) (g : Registry) (name : String) (dataSources : ParameterMap)
    (rules : List RuleConfiguration) : Registry × Step :=
  let dialect : Except Error Dialect := match g.current.dialect with
    | some d => .ok d
    | none => match dataSources.values.head? with
      | none => .error (.configuration s!"Schema `{name}` has no data source")
      | some p => p.dialect
  match dialect with
  | .error e => g.reject e
  | .ok dialect =>
    match g.resources.createDataSources env.factory dataSources with
    | (r, .error e) => (g.owning r).reject e
    | (r, .ok built) =>
      match PendingSchema.start name built dialect rules g.current.properties.value with
      | .error e => (g.owning (r.closeDataSources built)).reject e
      | .ok pending => (g.owning r, .load .add pending)

/-- Reconciles the data sources of a schema up to the load of its tables. -/
def setDataSources (env : Environment) (g : Registry) (name : String) (new : ParameterMap) :
    Registry × Step :=
  match g.getSchema name with
  | .error e => g.reject e
  | .ok c =>
    match Reconciliation.compute g.resources env.factory c.value.dataSources new with
    | (r, .error e) => (g.owning r).reject e
    | (r, .ok x) =>
      match PendingSchema.start name x.dataSources c.value.dialect c.value.configurations
          g.current.properties.value with
      | .error e => (g.owning (x.abort r)).reject e
      | .ok pending => (g.owning r, .load (.reconcile x c.value) pending)

/-- Publishes an empty snapshot and closes every schema. -/
def close (g : Registry) : Registry × Step :=
  let previous := g.current.contexts
  ((g.publish (g.current.successor .empty)).clearLocks.closeContexts previous).finish

/-- Runs a change up to its first load of tables. -/
def begin (env : Environment) (g : Registry) : Change → Registry × Step
  | .reset schemas authentication properties dialect =>
    g.nextSchema env authentication properties dialect [] schemas.entries
  | .addSchema schema dataSources rules => g.addSchema env schema dataSources rules
  | .deleteSchema schema =>
    match g.current.schema? schema with
    | none => g.finish
    | some c =>
      (((g.publish (g.current.withoutSchema schema)).closeContexts [c.value]).pruneSchema
        schema).finish
  | .setProperties properties => g.setProperties properties
  | .setAuthentication a =>
    let (r, authentication) := g.resources.stamped a
    ((g.owning r).publish
      { g.current.successor g.current.schemas with authentication }).finish
  | .setCircuit isOpen => { g with circuitOpen := isOpen }.finish
  | .setTables schemas tables => g.setTables schemas tables
  | .setRules schema rules => g.setRules schema rules
  | .setDisabled schema backend disabled =>
    match g.getSchema schema with
    | .error e => g.reject e
    | .ok c => (g.withResources fun r => tellRules r backend disabled c.value.rules).finish
  | .setDataSources schema dataSources => g.setDataSources env schema dataSources
  | .heartbeat =>
    let heartbeats := HeartbeatResult.ofSnapshot g.resources env.live env.driver g.current
    { g with heartbeats }.finish
  | .close => g.close

/-- Closes what was built for a purpose before it failed; `pending` is the schema at hand. -/
def abandon (g : Registry) (purpose : Purpose) (pending : PendingSchema) : Registry :=
  match purpose with
  | .reset _ _ _ _ built =>
    (g.withResources (·.closeDataSources pending.dataSources)).closeContexts (built.map (·.value))
  | .add => g.withResources (·.closeDataSources pending.dataSources)
  | .reconcile x _ => g.withResources x.abort

/-- Goes on with a change when the tables it asked for are loaded. -/
def resume (env : Environment) (g : Registry) (purpose : Purpose) (pending : PendingSchema)
    (loaded : Except Error (SortedMap Tables)) : Registry × Step :=
  match loaded with
  | .error e => (g.abandon purpose pending).reject e
  | .ok tables =>
    match g.resources.finishSchema pending tables with
    | (r, .error .crashed) => (g.owning r, .done (.error .crashed))
    | (r, .error (.rejected e)) => ((g.owning r).abandon purpose pending).reject e
    | (r, .ok context) =>
      let g := g.owning r
      match purpose with
      | .reset authentication properties dialect rest built =>
        g.nextSchema env authentication properties dialect (built ++ [context]) rest
      | .add =>
        let replaced := g.current.schema? pending.name
        let g := g.publish (g.current.withSchema context)
        match replaced with
        | none => g.finish
        | some old => ((g.closeContexts [old.value]).pruneSchema pending.name).finish
      | .reconcile x previous =>
        let g := (g.publish (g.current.withSchema context)).withResources fun r =>
          (x.commit r).closeEngineQuietly previous.engine
        (g.pruneBackends pending.name x.changes.deleted).finish

end Registry

end ShardRegistry
