import ShardRegistry.Proofs.Determination

/-! Registries of which one has more pools closed than the other. A change closes pools by their numbers and
reads none of them, so on registries of one face it closes the same ones: whatever else is closed stays the
whole difference. -/
namespace ShardRegistry

namespace Resources
variable {X : PoolId → Prop} {r r' s s' : Resources}

/-! ### What is closed -/

theorem PoolClosed.lt {p : PoolId} (h : r.PoolClosed p) : p < r.pools.length := by
  obtain ⟨x, hx, _⟩ := h
  exact (List.getElem?_eq_some_iff.1 hx).1

theorem poolClosed_iff {p : PoolId} {x : Pool} (hx : r.pools[p]? = some x) :
    r.PoolClosed p ↔ x.isClosed = true := by
  simp [PoolClosed, hx]

theorem poolClosed_of_pools (h : r'.pools = r.pools) (p : PoolId) : r'.PoolClosed p ↔ r.PoolClosed p := by
  rw [PoolClosed, PoolClosed, h]

theorem poolClosed_closePool (r : Resources) (q p : PoolId) :
    (r.closePool q).PoolClosed p ↔ r.PoolClosed p ∨ (p = q ∧ p < r.pools.length) := by
  by_cases hp : p = q
  · subst hp
    have hget : (r.closePool p).pools[p]? = (r.pools[p]?).map (·.close) := List.getElem?_modify_eq _ _ _
    rw [PoolClosed, hget]
    constructor
    · rintro ⟨x, hx, _⟩
      obtain ⟨y, hy, _⟩ := Option.map_eq_some_iff.1 hx
      exact .inr ⟨rfl, (List.getElem?_eq_some_iff.1 hy).1⟩
    · intro h
      have hlt : p < r.pools.length := h.elim PoolClosed.lt (·.2)
      exact ⟨_, by rw [List.getElem?_eq_getElem hlt]; rfl, rfl⟩
  · have hget : (r.closePool q).pools[p]? = r.pools[p]? := List.getElem?_modify_ne _ _ (Ne.symm hp)
    rw [PoolClosed, PoolClosed, hget]
    simp [hp]

/-- A pool that is built is open. -/
theorem poolClosed_addPool (r : Resources) (f : Factory) (name : String) (ps : ConnectionParameters)
    (p : PoolId) : (r.addPool f name ps).1.PoolClosed p ↔ r.PoolClosed p := by
  simp only [addPool]
  split
  · exact Iff.rfl
  · simp only [PoolClosed]
    rcases Nat.lt_trichotomy p r.pools.length with hlt | rfl | hgt
    · rw [List.getElem?_append_left hlt]
    · simp
    · rw [List.getElem?_eq_none (by simp; omega), List.getElem?_eq_none (by omega)]

theorem pools_finishSchema (r : Resources) (p : PendingSchema) (loaded : SortedMap Tables) :
    (r.finishSchema p loaded).1.pools = r.pools := by
  generalize heq : r.finishSchema p loaded = x
  obtain ⟨r', result⟩ := x
  rcases finishSchema_cases heq with ⟨_, _, rfl⟩ | ⟨_, _, _, _, rfl⟩ | ⟨_, _, _, _, _, _, _, rfl⟩
  · rfl
  · rfl
  · rw [addEngine_eq]

theorem pools_closeEngineQuietly (r : Resources) (e : EngineId) : (r.closeEngineQuietly e).pools = r.pools := by
  obtain ⟨_, _, _, h⟩ := closeEngineQuietly_only r e
  rw [h]

/-- `r` is as `s` for changes, and has the pools closed that are closed there, and those of `X`. -/
structure Exceeds (X : PoolId → Prop) (r s : Resources) : Prop where
  inventory : r.inventory = s.inventory
  closed : ∀ p, r.PoolClosed p ↔ X p ∨ s.PoolClosed p

namespace Exceeds

theorem of_pools (h : Exceeds X r s) (hr : r'.pools = r.pools) (hs : s'.pools = s.pools)
    (hi : r'.inventory = s'.inventory) : Exceeds X r' s' where
  inventory := hi
  closed p := by rw [poolClosed_of_pools hr, poolClosed_of_pools hs, h.closed]

variable (h : Exceeds X r s)
include h

theorem addPool (f : Factory) (name : String) (ps : ConnectionParameters) :
    Exceeds X (r.addPool f name ps).1 (s.addPool f name ps).1 where
  inventory := (Alike.addPool h.inventory f name ps).1
  closed p := by rw [poolClosed_addPool, poolClosed_addPool, h.closed]

theorem closePool (q : PoolId) : Exceeds X (r.closePool q) (s.closePool q) where
  inventory := by
    rw [Resources.closePool, Resources.closePool, inventory_modifyPool, inventory_modifyPool, h.inventory]
  closed p := by
    have hlength : r.pools.length = s.pools.length := congrArg (·.pools) h.inventory
    rw [poolClosed_closePool, poolClosed_closePool, h.closed, hlength, or_assoc]

theorem closePools (ps : List PoolId) : Exceeds X (r.closePools ps) (s.closePools ps) := by
  induction ps generalizing r s with
  | nil => exact h
  | cons p ps ih => exact ih (h.closePool p)

theorem closeDataSources (m : DataSourceMap) : Exceeds X (r.closeDataSources m) (s.closeDataSources m) :=
  h.closePools _

theorem closeEngine (e : EngineId) : Exceeds X (r.closeEngineQuietly e) (s.closeEngineQuietly e) :=
  h.of_pools (pools_closeEngineQuietly r e) (pools_closeEngineQuietly s e) (by simpa using h.inventory)

theorem closeContexts (cs : List SchemaContext) :
    Exceeds X (cs.foldl (fun r c => c.close r) r) (cs.foldl (fun r c => c.close r) s) := by
  induction cs generalizing r s with
  | nil => exact h
  | cons c cs ih => exact ih ((h.closeDataSources c.dataSources).closeEngine c.engine)

theorem buildDataSource (f : Factory) (name : String) (ps : ConnectionParameters) :
    Exceeds X (r.buildDataSource f name ps).1 (s.buildDataSource f name ps).1 := by
  have hadd := h.addPool f name ps
  obtain ⟨r₁, s₁, pool, hx, hy, _⟩ := (Alike.addPool h.inventory f name ps).result
  rw [hx, hy] at hadd
  simp only [Resources.buildDataSource]
  split
  · exact h
  · rw [hx, hy]
    cases pool <;> exact hadd

theorem buildAll (f : Factory) (built : DataSourceMap) (es : List (String × ConnectionParameters)) :
    Exceeds X (r.buildAll f built es).1 (s.buildAll f built es).1 := by
  induction es generalizing r s built with
  | nil => exact h
  | cons e es ih =>
    have hbuild := h.buildDataSource f e.1 e.2
    obtain ⟨r₁, s₁, d, hx, hy, _⟩ := (Alike.buildDataSource h.inventory f e.1 e.2).result
    rw [hx, hy] at hbuild
    simp only [Resources.buildAll, hx, hy]
    cases d with
    | error e => exact hbuild.closePools _
    | ok d => exact ih hbuild (built.insert e.1 d)

theorem compute (f : Factory) (current : DataSourceMap) (new : ParameterMap) :
    Exceeds X (Reconciliation.compute r f current new).1 (Reconciliation.compute s f current new).1 := by
  have hbuild := h.buildAll f .empty (Reconciliation.select new
    ((DataSourceChanges.compute current.parameters new).modified ++
      (DataSourceChanges.compute current.parameters new).added))
  obtain ⟨r₁, s₁, built, hx, hy, _⟩ := (Alike.buildAll h.inventory f .empty (Reconciliation.select new
    ((DataSourceChanges.compute current.parameters new).modified ++
      (DataSourceChanges.compute current.parameters new).added))).result
  rw [hx, hy] at hbuild
  simp only [Reconciliation.compute, hx, hy]
  cases built <;> exact hbuild

theorem finishSchema (p : PendingSchema) (loaded : SortedMap Tables) :
    Exceeds X (r.finishSchema p loaded).1 (s.finishSchema p loaded).1 :=
  h.of_pools (pools_finishSchema r p loaded) (pools_finishSchema s p loaded)
    (Alike.finishSchema h.inventory p loaded).1

end Exceeds

end Resources

/-! ### Parts of changes -/

namespace Registry
variable {X : PoolId → Prop} {g g' : Registry} {env env' : Environment}

/-- `g` is as `g'` for changes, and has the pools closed that are closed there, and those of `X`. -/
structure Exceeds (X : PoolId → Prop) (g g' : Registry) : Prop where
  face : g.face = g'.face
  closed : ∀ p, g.resources.PoolClosed p ↔ X p ∨ g'.resources.PoolClosed p

namespace Exceeds

theorem resources (h : Exceeds X g g') : Resources.Exceeds X g.resources g'.resources :=
  ⟨Alike.inventory h.face, h.closed⟩

variable (h : Exceeds X g g')
include h

theorem owning {r s : Resources} (hr : Resources.Exceeds X r s) : Exceeds X (g.owning r) (g'.owning s) :=
  ⟨Alike.owning h.face hr.inventory, hr.closed⟩

theorem publish (s : Snapshot) : Exceeds X (g.publish s) (g'.publish s) :=
  ⟨Alike.publish h.face s, h.closed⟩

theorem closeContexts (cs : List SchemaContext) : Exceeds X (g.closeContexts cs) (g'.closeContexts cs) :=
  h.owning (h.resources.closeContexts cs)

theorem finishReset (a : Authentication) (p : Properties) (d : Dialect) (built : List (Stamped SchemaContext)) :
    Exceeds X (g.finishReset a p d built).1 (g'.finishReset a p d built).1 := by
  refine ⟨(Alike.finishReset h.face a p d built).1, ?_⟩
  have hstamped : Resources.Exceeds X { g.resources with stamps := g.resources.stamps + 3 }
      { g'.resources with stamps := g'.resources.stamps + 3 } :=
    h.resources.of_pools rfl rfl (by
      have hi := Alike.inventory h.face
      simp only [Resources.inventory, Inventory.mk.injEq] at hi ⊢
      simp [hi])
  have hclosed := (hstamped.closeContexts g'.current.contexts).closed
  simp only [Registry.finishReset, Alike.current h.face]
  exact hclosed

theorem nextSchema (henv : env.factory = env'.factory) (a : Authentication) (p : Properties) (d : Dialect)
    (built : List (Stamped SchemaContext)) (rest : List (String × SchemaConfiguration)) :
    Exceeds X (g.nextSchema env a p d built rest).1 (g'.nextSchema env' a p d built rest).1 := by
  cases rest with
  | nil => exact h.finishReset a p d built
  | cons e rest =>
    have hbuild := h.resources.buildAll env.factory .empty e.2.dataSources.entries
    obtain ⟨r, s, sources, hx, hy, _⟩ :=
      (Resources.Alike.buildAll h.resources.inventory env.factory .empty e.2.dataSources.entries).result
    rw [hx, hy] at hbuild
    simp only [Registry.nextSchema, Resources.createDataSources, ← henv, hx, hy]
    cases sources with
    | error e => exact (h.owning hbuild).closeContexts _
    | ok sources =>
      simp only
      split
      · exact (h.owning (hbuild.closeDataSources sources)).closeContexts _
      · exact h.owning hbuild

theorem addSchema (henv : env.factory = env'.factory) (name : String) (sources : ParameterMap)
    (rules : List RuleConfiguration) :
    Exceeds X (g.addSchema env name sources rules).1 (g'.addSchema env' name sources rules).1 := by
  have hbuild := h.resources.buildAll env.factory .empty sources.entries
  obtain ⟨r, s, built, hx, hy, _⟩ :=
    (Resources.Alike.buildAll h.resources.inventory env.factory .empty sources.entries).result
  rw [hx, hy] at hbuild
  simp only [Registry.addSchema, Resources.createDataSources, ← henv, hx, hy, Alike.current h.face]
  split
  · exact h
  · cases built with
    | error e => exact h.owning hbuild
    | ok built =>
      simp only
      split
      · exact h.owning (hbuild.closeDataSources built)
      · exact h.owning hbuild

theorem setDataSources (henv : env.factory = env'.factory) (name : String) (new : ParameterMap) :
    Exceeds X (g.setDataSources env name new).1 (g'.setDataSources env' name new).1 := by
  simp only [Registry.setDataSources, getSchema, Alike.current h.face]
  split
  · exact h
  · rename_i c _
    have hbuild := h.resources.compute env.factory c.value.dataSources new
    obtain ⟨r, s, x, hx, hy, _⟩ :=
      (Resources.Alike.compute h.resources.inventory env.factory c.value.dataSources new).result
    rw [hx, hy] at hbuild
    simp only [← henv, hx, hy]
    cases x with
    | error e => exact h.owning hbuild
    | ok x =>
      simp only
      split
      · exact h.owning (hbuild.closeDataSources x.built)
      · exact h.owning hbuild

/-- Work that leaves the pools alone. -/
theorem closed_of_pools {x x' : Registry} (hx : x.resources.pools = g.resources.pools)
    (hx' : x'.resources.pools = g'.resources.pools) (p : PoolId) :
    x.resources.PoolClosed p ↔ X p ∨ x'.resources.PoolClosed p := by
  rw [Resources.poolClosed_of_pools hx, Resources.poolClosed_of_pools hx', h.closed]

theorem closed_of_quiet {x x' : Registry} (hx : g.Quiet x) (hx' : g'.Quiet x') (p : PoolId) :
    x.resources.PoolClosed p ↔ X p ∨ x'.resources.PoolClosed p := by
  obtain ⟨_, _, hr⟩ := hx.resources
  obtain ⟨_, _, hr'⟩ := hx'.resources
  exact h.closed_of_pools (by rw [hr]) (by rw [hr']) p

/-- The first part of a change closes the same pools of both. -/
theorem begin (henv : env.factory = env'.factory) (change : Change) :
    Exceeds X (g.begin env change).1 (g'.begin env' change).1 := by
  refine ⟨(Alike.begin h.face henv change).1, ?_⟩
  cases change with
  | reset schemas a p d => exact (h.nextSchema henv a p d [] schemas.entries).closed
  | addSchema name sources rules => exact (h.addSchema henv name sources rules).closed
  | deleteSchema name =>
    simp only [Registry.begin, Alike.current h.face]
    split
    · exact h.closed
    · exact ((h.publish _).closeContexts _).closed
  | setProperties p => exact h.closed_of_quiet (.setProperties g p) (.setProperties g' p)
  | setAuthentication a => exact h.closed_of_quiet (.setAuthentication env g a) (.setAuthentication env' g' a)
  | setTables names tables => exact h.closed_of_quiet (.setTables g names tables) (.setTables g' names tables)
  | setRules name rules => exact h.closed_of_quiet (.setRules g name rules) (.setRules g' name rules)
  | setDisabled name backend off =>
    simp only [Registry.begin, getSchema, Alike.current h.face]
    split
    · exact h.closed
    · exact h.closed_of_quiet (.setDisabled g backend off _) (.setDisabled g' backend off _)
  | setDataSources name new => exact (h.setDataSources henv name new).closed
  | setCircuit _ | heartbeat => exact h.closed
  | close =>
    have hclosed := ((h.publish (g'.current.successor .empty)).closeContexts g'.current.contexts).closed
    simp only [Registry.begin, Registry.close, Alike.current h.face]
    exact hclosed

theorem abandon (purpose : Purpose) (pending : PendingSchema) :
    Exceeds X (g.abandon purpose pending) (g'.abandon purpose pending) := by
  have hsources (m : DataSourceMap) :
      Exceeds X (g.withResources (·.closeDataSources m)) (g'.withResources (·.closeDataSources m)) :=
    h.owning (h.resources.closeDataSources m)
  cases purpose with
  | reset a p d rest built => exact (hsources pending.dataSources).closeContexts _
  | add => exact hsources pending.dataSources
  | reconcile x previous => exact hsources x.built

/-- So does every further part. -/
theorem resume (henv : env.factory = env'.factory) (purpose : Purpose) (pending : PendingSchema)
    (answer : Except Error (SortedMap Tables)) :
    Exceeds X (g.resume env purpose pending answer).1 (g'.resume env' purpose pending answer).1 := by
  refine ⟨(Alike.resume h.face henv purpose pending answer).1, ?_⟩
  cases answer with
  | error e => exact (h.abandon purpose pending).closed
  | ok tables =>
    have hfinish := h.resources.finishSchema pending tables
    obtain ⟨r, s, context, hx, hy, _⟩ :=
      (Resources.Alike.finishSchema h.resources.inventory pending tables).result
    rw [hx, hy] at hfinish
    have howning := h.owning hfinish
    simp only [Registry.resume, hx, hy]
    cases context with
    | error stop =>
      cases stop with
      | crashed => exact howning.closed
      | rejected e => exact (howning.abandon purpose pending).closed
    | ok context =>
      cases purpose with
      | reset a p d rest built => exact (howning.nextSchema henv a p d _ rest).closed
      | add =>
        simp only [Alike.current howning.face]
        have hpublish := howning.publish ((g'.owning s).current.withSchema context)
        split
        · exact hpublish.closed
        · exact (hpublish.closeContexts _).closed
      | reconcile x previous =>
        simp only [Alike.current howning.face]
        have hpublish := howning.publish ((g'.owning s).current.withSchema context)
        exact ((hpublish.resources.closePools (x.superseded.map (·.pool))).closeEngine previous.engine).closed

end Exceeds

end Registry

end ShardRegistry
