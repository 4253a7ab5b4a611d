import ShardRegistry.Proofs.Parts

/-! Determination. What a part of a change does to the face of a registry, and where it leaves the
change, is determined by the face: registries that differ only in what tasks do besides changes take
the same step. -/
namespace ShardRegistry

namespace Resources

/-! ### Closing -/

section Closing
variable (r : Resources)

@[simp] theorem inventory_closePools (ps : List PoolId) :
    (r.closePools ps).inventory = r.inventory := by
  induction ps generalizing r with
  | nil => rfl
  | cons p ps ih => exact (ih (r.closePool p)).trans (inventory_modifyPool r p _)

@[simp] theorem inventory_closeDataSources (m : DataSourceMap) :
    (r.closeDataSources m).inventory = r.inventory := inventory_closePools r _

@[simp] theorem inventory_clearFree (ts : List TransactionId) :
    (r.clearFree ts).1.inventory = r.inventory := by
  induction ts generalizing r with
  | nil => rfl
  | cons t ts ih =>
    simp only [clearFree]
    rw [ih]
    split <;> simp

@[simp] theorem inventory_closeManager (m : ManagerId) :
    (r.closeManager m).1.inventory = r.inventory := by
  simp only [closeManager]
  split
  · rfl
  · split
    · rfl
    · rw [inventory_clearFree, inventory_modifyManager]

@[simp] theorem inventory_closeEngineQuietly (e : EngineId) :
    (r.closeEngineQuietly e).inventory = r.inventory := by
  simp only [closeEngineQuietly, closeEngine]
  split
  · rfl
  · split
    · rfl
    · rw [inventory_closeManager, inventory_closeManager]
      simp [inventory]

@[simp] theorem inventory_closeContext (c : SchemaContext) :
    (c.close r).inventory = r.inventory := by
  simp [SchemaContext.close]

@[simp] theorem inventory_closeContexts (cs : List SchemaContext) :
    (cs.foldl (fun r c => c.close r) r).inventory = r.inventory := by
  induction cs generalizing r with
  | nil => rfl
  | cons c cs ih => exact (ih (c.close r)).trans (inventory_closeContext r c)

end Closing

/-! ### Building -/

/-- The same result, and resources of the same inventory. -/
def Alike {α : Type} (x y : Resources × α) : Prop := x.1.inventory = y.1.inventory ∧ x.2 = y.2

namespace Alike
variable {α : Type} {r r' : Resources}

theorem result {x y : Resources × α} (h : Alike x y) :
    ∃ r r' a, x = (r, a) ∧ y = (r', a) ∧ r.inventory = r'.inventory := by
  obtain ⟨r, a⟩ := x
  obtain ⟨r', a'⟩ := y
  obtain ⟨hi, rfl⟩ := h
  exact ⟨r, r', a, rfl, rfl, hi⟩

variable (h : r.inventory = r'.inventory)
include h

theorem stamped (v : α) : Alike (r.stamped v) (r'.stamped v) := by
  simp only [inventory, Inventory.mk.injEq] at h
  simp [Alike, Resources.stamped, inventory, h]

theorem addPool (f : Factory) (name : String) (p : ConnectionParameters) :
    Alike (r.addPool f name p) (r'.addPool f name p) := by
  simp only [inventory, Inventory.mk.injEq] at h
  simp only [Resources.addPool, h]
  split <;> simp [Alike, inventory, h]

theorem addDisabled : Alike r.addDisabled r'.addDisabled := by
  simp only [inventory, Inventory.mk.injEq] at h
  simp [Alike, Resources.addDisabled, inventory, h]

theorem buildDataSource (f : Factory) (name : String) (p : ConnectionParameters) :
    Alike (r.buildDataSource f name p) (r'.buildDataSource f name p) := by
  simp only [Resources.buildDataSource]
  split
  · exact ⟨h, rfl⟩
  · obtain ⟨s, s', pool, hx, hy, hs⟩ := (addPool h f name p).result
    rw [hx, hy]
    cases pool <;> exact ⟨hs, rfl⟩

theorem buildAll (f : Factory) (built : DataSourceMap) (ps : List (String × ConnectionParameters)) :
    Alike (r.buildAll f built ps) (r'.buildAll f built ps) := by
  induction ps generalizing r r' built with
  | nil => exact ⟨h, rfl⟩
  | cons e ps ih =>
    obtain ⟨s, s', d, hx, hy, hs⟩ := (buildDataSource h f e.1 e.2).result
    simp only [Resources.buildAll, hx, hy]
    cases d with
    | error e => exact ⟨by simpa using hs, rfl⟩
    | ok d => exact ih hs (built.insert e.1 d)

theorem compute (f : Factory) (current : DataSourceMap) (new : ParameterMap) :
    Alike (Reconciliation.compute r f current new) (Reconciliation.compute r' f current new) := by
  obtain ⟨s, s', built, hx, hy, hs⟩ := (buildAll h f .empty (Reconciliation.select new
    ((DataSourceChanges.compute current.parameters new).modified ++
      (DataSourceChanges.compute current.parameters new).added))).result
  simp only [Reconciliation.compute, hx, hy]
  cases built <;> exact ⟨hs, rfl⟩

theorem instantiate (rules : List Rule) : Alike (r.instantiate rules) (r'.instantiate rules) := by
  induction rules generalizing r r' with
  | nil => exact ⟨h, rfl⟩
  | cons rule rules ih =>
    obtain ⟨s, s', status, hx, hy, hs⟩ := (addDisabled h).result
    obtain ⟨u, u', built, hx', hy', hu⟩ := (ih hs).result
    simp only [Resources.instantiate, hx, hy, hx', hy']
    exact ⟨hu, rfl⟩

theorem startRuntime (dialect : Dialect) (dataSources : DataSourceMap) (size : Nat) :
    Alike (r.startRuntime dialect dataSources size) (r'.startRuntime dialect dataSources size) := by
  simp only [inventory, Inventory.mk.injEq] at h
  simp only [Resources.startRuntime]
  split
  · simp [Alike, inventory, h]
  · split <;>
      simp [Alike, Resources.stamped, Resources.addEngine, Resources.addManager, inventory, h]

theorem finishSchema (p : PendingSchema) (loaded : SortedMap Tables) :
    Alike (r.finishSchema p loaded) (r'.finishSchema p loaded) := by
  simp only [Resources.finishSchema]
  split
  · exact ⟨h, rfl⟩
  · rename_i tables _
    obtain ⟨r₁, r₁', rules, hx₁, hy₁, h₁⟩ := (instantiate h p.rules).result
    obtain ⟨r₂, r₂', sources, hx₂, hy₂, h₂⟩ := (stamped h₁ p.dataSources).result
    obtain ⟨r₃, r₃', metaData, hx₃, hy₃, h₃⟩ :=
      (stamped h₂ (MetaData.ofParameters p.dataSources.parameters tables)).result
    obtain ⟨r₄, r₄', runtime, hx₄, hy₄, h₄⟩ :=
      (startRuntime h₃ p.dialect p.dataSources p.properties.executorSize).result
    simp only [hx₁, hy₁, hx₂, hy₂, hx₃, hy₃, hx₄, hy₄]
    cases runtime with
    | error stop => exact ⟨h₄, rfl⟩
    | ok runtime =>
      obtain ⟨r₅, r₅', schema, hx₅, hy₅, h₅⟩ := (stamped h₄
        (LogicSchema.mk p.dialect p.configurations rules sources metaData)).result
      obtain ⟨r₆, r₆', context, hx₆, hy₆, h₆⟩ :=
        (stamped h₅ (SchemaContext.mk p.name schema runtime)).result
      simp only [hx₅, hy₅, hx₆, hy₆]
      exact ⟨h₆, rfl⟩

end Alike

end Resources

namespace Registry

/-! ### Parts of changes -/

section Face
variable (g : Registry)

@[simp] theorem face_clearLocks : g.clearLocks.face = g.face := rfl

@[simp] theorem face_pruneSchema (name : String) : (g.pruneSchema name).face = g.face := rfl

@[simp] theorem face_pruneBackends (name : String) (backends : List String) :
    (g.pruneBackends name backends).face = g.face := rfl

theorem face_withResources {f : Resources → Resources}
    (hf : ∀ r, (f r).inventory = r.inventory) : (g.withResources f).face = g.face :=
  face_owning (hf g.resources)

@[simp] theorem face_closeContexts (cs : List SchemaContext) : (g.closeContexts cs).face = g.face :=
  g.face_withResources fun r => r.inventory_closeContexts cs

@[simp] theorem face_abandon (purpose : Purpose) (pending : PendingSchema) :
    (g.abandon purpose pending).face = g.face := by
  have hsources (m : DataSourceMap) : (g.withResources (·.closeDataSources m)).face = g.face :=
    g.face_withResources fun r => r.inventory_closeDataSources m
  cases purpose with
  | reset a p d rest built => exact (face_closeContexts _ _).trans (hsources pending.dataSources)
  | add => exact hsources pending.dataSources
  | reconcile x previous => exact hsources x.built

end Face

theorem inventory_tellRules {r r' : Resources} (hr : r.inventory = r'.inventory) (backend : String)
    (off : Bool) (rules : List BuiltRule) :
    (Registry.tellRules r backend off rules).inventory =
      (Registry.tellRules r' backend off rules).inventory := by
  induction rules generalizing r r' with
  | nil => exact hr
  | cons b rules ih =>
    refine ih ?_
    simp only [Resources.inventory, Inventory.mk.injEq] at hr
    simp [Resources.inventory, Resources.setDisabled, Resources.disabledOf, hr]

/-- The same result, and registries of the same face. -/
def Alike {α : Type} (x y : Registry × α) : Prop := x.1.face = y.1.face ∧ x.2 = y.2

namespace Alike
variable {α : Type} {g g' : Registry} {env env' : Environment}

theorem result {x y : Registry × α} (h : Alike x y) :
    ∃ g g' a, x = (g, a) ∧ y = (g', a) ∧ g.face = g'.face := by
  obtain ⟨g, a⟩ := x
  obtain ⟨g', a'⟩ := y
  obtain ⟨hg, rfl⟩ := h
  exact ⟨g, g', a, rfl, rfl, hg⟩

variable (h : g.face = g'.face)
include h

theorem inventory : g.resources.inventory = g'.resources.inventory :=
  congrArg (·.inventory) h

theorem current : g.current = g'.current := congrArg (·.snapshot.value) h

theorem owning {r r' : Resources} (hr : r.inventory = r'.inventory) :
    (g.owning r).face = (g'.owning r').face := by
  simp only [face, Face.mk.injEq] at h ⊢
  exact ⟨h.1, h.2.1, hr⟩

theorem publish (s : Snapshot) : (g.publish s).face = (g'.publish s).face := by
  obtain ⟨r, r', snapshot, hx, hy, hr⟩ := (Resources.Alike.stamped (inventory h) s).result
  simp only [Registry.publish, hx, hy, face, Face.mk.injEq] at h ⊢
  exact ⟨trivial, h.2.1, hr⟩

theorem finish : Alike g.finish g'.finish := by
  refine ⟨h, ?_⟩
  simp only [Registry.finish, generation, current h]

theorem reject (e : Error) : Alike (g.reject e) (g'.reject e) := ⟨h, rfl⟩

theorem finishReset (a : Authentication) (p : Properties) (d : Dialect)
    (built : List (Stamped SchemaContext)) :
    Alike (g.finishReset a p d built) (g'.finishReset a p d built) := by
  obtain ⟨r, r', a, hx, hy, hr⟩ := (Resources.Alike.stamped (inventory h) a).result
  obtain ⟨s, s', p, hx', hy', hs⟩ := (Resources.Alike.stamped hr p).result
  simp only [Registry.finishReset, hx, hy, hx', hy', generation, current h]
  refine finish ?_
  rw [face_closeContexts, face_closeContexts]
  exact publish (owning h hs) _

theorem nextSchema (henv : env.factory = env'.factory) (a : Authentication) (p : Properties)
    (d : Dialect) (built : List (Stamped SchemaContext)) (rest : List (String × SchemaConfiguration)) :
    Alike (g.nextSchema env a p d built rest) (g'.nextSchema env' a p d built rest) := by
  cases rest with
  | nil => exact finishReset h a p d built
  | cons e rest =>
    obtain ⟨r, r', sources, hx, hy, hr⟩ :=
      (Resources.Alike.buildAll (inventory h) env.factory .empty e.2.dataSources.entries).result
    have hfailed (r r' : Resources) (e : Error) (hr : r.inventory = r'.inventory) :
        Alike (((g.owning r).closeContexts (built.map (·.value))).reject e)
          (((g'.owning r').closeContexts (built.map (·.value))).reject e) := by
      refine reject ?_ e
      rw [face_closeContexts, face_closeContexts]
      exact owning h hr
    simp only [Registry.nextSchema, Resources.createDataSources, ← henv, hx, hy]
    cases sources with
    | error e => exact hfailed r r' e hr
    | ok sources =>
      simp only
      split
      · exact hfailed _ _ _ (by simpa using hr)
      · exact ⟨owning h hr, rfl⟩

theorem resizeAll (size : Nat) (cs : List (Stamped SchemaContext)) :
    Alike (g.resizeAll size cs) (g'.resizeAll size cs) := by
  induction cs generalizing g g' with
  | nil => exact ⟨h, rfl⟩
  | cons c cs ih =>
    obtain ⟨r, r', runtime, hx, hy, hr⟩ := (Resources.Alike.stamped (inventory h)
      { c.value.runtime.value with executorSize := size }).result
    obtain ⟨s, s', context, hx', hy', hs⟩ :=
      (Resources.Alike.stamped hr { c.value with runtime }).result
    obtain ⟨g₁, g₁', cs, hx₁, hy₁, hg⟩ := (ih (owning h hs)).result
    simp only [Registry.resizeAll, hx, hy, hx', hy', hx₁, hy₁]
    exact ⟨hg, rfl⟩

theorem setProperties (p : Properties) : Alike (g.setProperties p) (g'.setProperties p) := by
  simp only [Registry.setProperties, current h]
  split
  · exact ⟨h, rfl⟩
  · obtain ⟨r, r', stamped, hx, hy, hr⟩ := (Resources.Alike.stamped (inventory h) p).result
    obtain ⟨g₁, g₁', cs, hx₁, hy₁, hg⟩ :=
      (resizeAll (owning h hr) p.executorSize g'.current.schemas.values).result
    simp only [hx, hy, hx₁, hy₁, current hg]
    exact finish (publish hg _)

theorem retable (tables : SchemaTables) (names : List String) :
    Alike (g.retable tables names) (g'.retable tables names) := by
  induction names generalizing g g' with
  | nil => exact ⟨h, rfl⟩
  | cons name names ih =>
    simp only [Registry.retable, current h]
    split
    · exact ih h
    · rename_i c _
      obtain ⟨r, r', metaData, hx, hy, hr⟩ := (Resources.Alike.stamped (inventory h)
        (c.value.metaData.withTables tables)).result
      obtain ⟨s, s', schema, hx', hy', hs⟩ := (Resources.Alike.stamped hr
        { c.value.schema.value with metaData }).result
      obtain ⟨u, u', context, hx'', hy'', hu⟩ :=
        (Resources.Alike.stamped hs { c.value with schema }).result
      obtain ⟨g₁, g₁', cs, hx₁, hy₁, hg⟩ := (ih (owning h hu)).result
      simp only [hx, hy, hx', hy', hx'', hy'', hx₁, hy₁]
      exact ⟨hg, rfl⟩

theorem setTables (names : List String) (tables : SchemaTables) :
    Alike (g.setTables names tables) (g'.setTables names tables) := by
  obtain ⟨g₁, g₁', cs, hx, hy, hg⟩ := (retable h tables names).result
  simp only [Registry.setTables, hx, hy]
  cases cs with
  | nil => exact finish h
  | cons c cs =>
    simp only [current hg]
    exact finish (publish hg _)

theorem setRules (name : String) (configurations : List RuleConfiguration) :
    Alike (g.setRules name configurations) (g'.setRules name configurations) := by
  simp only [Registry.setRules, getSchema, current h]
  split
  · exact reject h _
  · rename_i c _
    split
    · exact reject h _
    · rename_i rules _
      obtain ⟨r, r', rules, hx, hy, hr⟩ :=
        (Resources.Alike.instantiate (inventory h) rules).result
      obtain ⟨s, s', schema, hx', hy', hs⟩ := (Resources.Alike.stamped hr
        { c.value.schema.value with configurations, rules }).result
      obtain ⟨u, u', context, hx'', hy'', hu⟩ :=
        (Resources.Alike.stamped hs { c.value with name, schema }).result
      simp only [hx, hy, hx', hy', hx'', hy'']
      exact finish (publish (owning h hu) _)

theorem addSchema (henv : env.factory = env'.factory) (name : String) (sources : ParameterMap)
    (rules : List RuleConfiguration) :
    Alike (g.addSchema env name sources rules) (g'.addSchema env' name sources rules) := by
  obtain ⟨r, r', built, hx, hy, hr⟩ :=
    (Resources.Alike.buildAll (inventory h) env.factory .empty sources.entries).result
  simp only [Registry.addSchema, Resources.createDataSources, ← henv, hx, hy, current h]
  split
  · exact reject h _
  · cases built with
    | error e => exact reject (owning h hr) e
    | ok built =>
      simp only
      split
      · exact reject (owning h (by simpa using hr)) _
      · exact ⟨owning h hr, rfl⟩

theorem setDataSources (henv : env.factory = env'.factory) (name : String) (new : ParameterMap) :
    Alike (g.setDataSources env name new) (g'.setDataSources env' name new) := by
  simp only [Registry.setDataSources, getSchema, current h]
  split
  · exact reject h _
  · rename_i c _
    obtain ⟨r, r', x, hx, hy, hr⟩ :=
      (Resources.Alike.compute (inventory h) env.factory c.value.dataSources new).result
    simp only [← henv, hx, hy]
    cases x with
    | error e => exact reject (owning h hr) e
    | ok x =>
      simp only
      split
      · exact reject (owning h (by simpa [Reconciliation.abort] using hr)) _
      · exact ⟨owning h hr, rfl⟩

theorem close : Alike g.close g'.close := by
  refine finish ?_
  rw [face_closeContexts, face_closeContexts, face_clearLocks, face_clearLocks, current h]
  exact publish h _

/-- The first part of a change depends on the face of the registry and on the factory. -/
theorem begin (henv : env.factory = env'.factory) (change : Change) :
    Alike (g.begin env change) (g'.begin env' change) := by
  cases change with
  | reset schemas a p d => exact nextSchema h henv a p d [] schemas.entries
  | addSchema name sources rules => exact addSchema h henv name sources rules
  | deleteSchema name =>
    simp only [Registry.begin, current h]
    split
    · exact finish h
    · refine finish ?_
      rw [face_pruneSchema, face_pruneSchema, face_closeContexts, face_closeContexts]
      exact publish h _
  | setProperties p => exact setProperties h p
  | setAuthentication a =>
    obtain ⟨r, r', a, hx, hy, hr⟩ := (Resources.Alike.stamped (inventory h) a).result
    simp only [Registry.begin, hx, hy, current h]
    exact finish (publish (owning h hr) _)
  | setCircuit isOpen =>
    refine finish ?_
    simp only [face, Face.mk.injEq] at h ⊢
    exact ⟨h.1, trivial, h.2.2⟩
  | setTables names tables => exact setTables h names tables
  | setRules name rules => exact setRules h name rules
  | setDisabled name backend off =>
    simp only [Registry.begin, getSchema, current h]
    split
    · exact reject h _
    · exact finish (owning h (inventory_tellRules (inventory h) backend off _))
  | setDataSources name new => exact setDataSources h henv name new
  | heartbeat => exact finish h
  | close => exact close h

/-- So does every further part, with the answer to the load. -/
theorem resume (henv : env.factory = env'.factory) (purpose : Purpose)
    (pending : PendingSchema) (answer : Except Error (SortedMap Tables)) :
    Alike (g.resume env purpose pending answer) (g'.resume env' purpose pending answer) := by
  have habandon {x x' : Registry} (hx : x.face = x'.face) (e : Error) :
      Alike ((x.abandon purpose pending).reject e) ((x'.abandon purpose pending).reject e) := by
    refine reject ?_ e
    rw [face_abandon, face_abandon, hx]
  cases answer with
  | error e => exact habandon h e
  | ok tables =>
    obtain ⟨r, r', context, hx, hy, hr⟩ :=
      (Resources.Alike.finishSchema (inventory h) pending tables).result
    have howning := owning h hr
    simp only [Registry.resume, hx, hy]
    cases context with
    | error stop =>
      cases stop with
      | crashed => exact ⟨howning, rfl⟩
      | rejected e => exact habandon howning e
    | ok context =>
      cases purpose with
      | reset a p d rest built => exact nextSchema howning henv a p d _ rest
      | add =>
        simp only [current howning]
        have hpublish := publish howning ((g'.owning r').current.withSchema context)
        split
        · exact finish hpublish
        · refine finish ?_
          rw [face_pruneSchema, face_pruneSchema, face_closeContexts, face_closeContexts]
          exact hpublish
      | reconcile x previous =>
        refine finish ?_
        have hclose (r : Resources) :
            ((x.commit r).closeEngineQuietly previous.engine).inventory = r.inventory := by
          simp [Reconciliation.commit]
        rw [face_pruneBackends, face_pruneBackends, face_withResources _ hclose,
          face_withResources _ hclose, current howning]
        exact publish howning _

end Alike

end Registry

end ShardRegistry
