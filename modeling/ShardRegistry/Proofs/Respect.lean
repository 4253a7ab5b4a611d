import ShardRegistry.Proofs.Publication

/-! Relations that changes respect. Whatever a change does to the resources of a registry, it builds
pools and engines, closes them, gives identities and writes sets of disabled replicas. A preorder that
these operations respect is respected by every part of every change. -/
namespace ShardRegistry

/-- A preorder that the operations which changes are made of respect. -/
structure Resources.Respected (R : Resources → Resources → Prop) : Prop where
  refl : ∀ r, R r r
  trans : ∀ {r r' r''}, R r r' → R r' r'' → R r r''
  marks : ∀ r disabled stamps, R r { r with disabled, stamps }
  addPool : ∀ r f name p, R r (Resources.addPool r f name p).1
  closePool : ∀ r p, R r (Resources.closePool r p)
  addEngine : ∀ r pools, R r (Resources.addEngine r pools).1
  closeEngine : ∀ r e, R r (Resources.closeEngineQuietly r e)

namespace Resources.Respected
variable {R : Resources → Resources → Prop} (h : Respected R)
include h

theorem stamps (r : Resources) (n : Nat) : R r { r with stamps := n } := h.marks r r.disabled n

theorem disabled (r : Resources) (ds : List (List String)) : R r { r with disabled := ds } :=
  h.marks r ds r.stamps

theorem foldl {α : Type} {f : Resources → α → Resources} (hf : ∀ r x, R r (f r x)) (xs : List α)
    (r : Resources) : R r (xs.foldl f r) := by
  induction xs generalizing r with
  | nil => exact h.refl r
  | cons x xs ih => exact h.trans (hf r x) (ih (f r x))

theorem closePools (r : Resources) (ps : List PoolId) : R r (r.closePools ps) :=
  h.foldl h.closePool ps r

theorem closeDataSources (r : Resources) (m : DataSourceMap) : R r (r.closeDataSources m) :=
  h.closePools r _

theorem closeContext (r : Resources) (c : SchemaContext) : R r (c.close r) :=
  h.trans (h.closeDataSources r _) (h.closeEngine _ _)

theorem closeContexts (r : Resources) (cs : List SchemaContext) :
    R r (cs.foldl (fun r c => c.close r) r) := h.foldl h.closeContext cs r

theorem buildDataSource (r : Resources) (f : Factory) (name : String) (p : ConnectionParameters) :
    R r (r.buildDataSource f name p).1 := by
  have hadd := h.addPool r f name p
  simp only [Resources.buildDataSource]
  split
  · exact h.refl r
  · split <;> rename_i heq <;> simpa [heq] using hadd

theorem buildAll (f : Factory) (es : List (String × ConnectionParameters)) (r : Resources)
    (built : DataSourceMap) : R r (r.buildAll f built es).1 := by
  induction es generalizing r built with
  | nil => exact h.refl r
  | cons e es ih =>
    have hbuild := h.buildDataSource r f e.1 e.2
    simp only [Resources.buildAll]
    split <;> rename_i heq <;> simp only [heq] at hbuild
    · exact h.trans hbuild (h.closePools _ _)
    · exact h.trans hbuild (ih _ _)

theorem compute (f : Factory) (r : Resources) (current : DataSourceMap) (new : ParameterMap) :
    R r (Reconciliation.compute r f current new).1 := by
  simp only [Reconciliation.compute]
  split
  all_goals
    rename_i heq
    have hfst := congrArg Prod.fst heq
    simp only at hfst
    rw [← hfst]
    exact h.buildAll f _ r .empty

theorem finishSchema (r : Resources) (p : PendingSchema) (loaded : SortedMap Tables) :
    R r (r.finishSchema p loaded).1 := by
  generalize heq : r.finishSchema p loaded = x
  obtain ⟨r', result⟩ := x
  rcases finishSchema_cases heq with
    ⟨_, _, rfl⟩ | ⟨_, _, sets, stamps, rfl⟩ | ⟨_, _, _, _, _, sets, stamps, rfl⟩
  · exact h.refl _
  · exact h.marks r _ stamps
  · exact h.trans (h.addEngine r p.dataSources.pools) (h.marks _ _ stamps)

theorem tellRules (r : Resources) (backend : String) (off : Bool) (rules : List BuiltRule) :
    R r (Registry.tellRules r backend off rules) :=
  h.foldl (fun r _ => h.disabled r _) rules r

/-! ### Parts of changes -/

variable (g : Registry)

theorem publish (s : Snapshot) : R g.resources (g.publish s).resources := h.stamps _ _

/-- What is published first is closed around afterwards. -/
theorem publish_close (s : Snapshot) (cs : List SchemaContext) :
    R g.resources ((g.publish s).closeContexts cs).resources :=
  h.trans (h.publish g s) (h.closeContexts _ cs)

theorem nextSchema (env : Environment) (a : Authentication) (p : Properties) (d : Dialect)
    (built : List (Stamped SchemaContext)) (rest : List (String × SchemaConfiguration)) :
    R g.resources (g.nextSchema env a p d built rest).1.resources := by
  cases rest with
  | nil =>
    simp only [Registry.nextSchema, Registry.finishReset]
    refine h.trans (h.stamps g.resources (g.resources.stamps + 2)) ?_
    exact h.publish_close ((g.owning { g.resources with
      stamps := g.resources.stamps + 2 }).clearLocks) _ _
  | cons e rest =>
    have hbuild := h.buildAll env.factory e.2.dataSources.entries g.resources .empty
    simp only [Registry.nextSchema, createDataSources]
    split <;> rename_i heq <;> simp only [heq] at hbuild
    · exact h.trans hbuild (h.closeContexts _ _)
    · split
      · exact h.trans hbuild (h.trans (h.closeDataSources _ _) (h.closeContexts _ _))
      · exact hbuild

theorem addSchema (env : Environment) (name : String) (sources : ParameterMap)
    (rules : List RuleConfiguration) :
    R g.resources (g.addSchema env name sources rules).1.resources := by
  have hbuild := h.buildAll env.factory sources.entries g.resources .empty
  simp only [Registry.addSchema, createDataSources]
  split
  · exact h.refl _
  · split <;> rename_i heq <;> simp only [heq] at hbuild
    · exact hbuild
    · split
      · exact h.trans hbuild (h.closeDataSources _ _)
      · exact hbuild

theorem setDataSources (env : Environment) (name : String) (new : ParameterMap) :
    R g.resources (g.setDataSources env name new).1.resources := by
  simp only [Registry.setDataSources]
  split
  · exact h.refl _
  · rename_i c _
    have hbuild := h.compute env.factory g.resources c.value.dataSources new
    split <;> rename_i heq <;> simp only [heq] at hbuild
    · exact hbuild
    · split
      · exact h.trans hbuild (h.closeDataSources _ _)
      · exact hbuild

theorem begin (env : Environment) (change : Change) :
    R g.resources (g.begin env change).1.resources := by
  cases change with
  | reset schemas a p d => exact h.nextSchema g env a p d [] schemas.entries
  | addSchema name sources rules => exact h.addSchema g env name sources rules
  | deleteSchema name =>
    simp only [Registry.begin]
    split
    · exact h.refl _
    · exact h.publish_close g _ _
  | setProperties p =>
    obtain ⟨⟨stamps, hg⟩, _⟩ := Registry.Publishes.resizeAll_eq p.executorSize
      g.current.schemas.values (g.owning (g.resources.stamped p).1)
    simp only [Registry.begin, Registry.setProperties]
    split
    · exact h.refl _
    · rw [hg]
      exact h.stamps g.resources _
  | setAuthentication a => exact h.stamps g.resources _
  | setTables names tables =>
    obtain ⟨⟨stamps, hg⟩, _⟩ := Registry.Publishes.retable_eq tables names g
    simp only [Registry.begin, Registry.setTables]
    split
    · exact h.refl _
    · rename_i heq
      rw [heq] at hg
      simp only at hg
      subst hg
      exact h.stamps g.resources _
  | setRules name rules =>
    simp only [Registry.begin, Registry.setRules]
    split
    · exact h.refl _
    · split
      · exact h.refl _
      · rename_i rules _
        obtain ⟨sets, hsets⟩ := instantiate_fst rules g.resources
        have hinstantiate : R g.resources (g.resources.instantiate rules).1 := by
          rw [hsets]
          exact h.disabled g.resources _
        exact h.trans hinstantiate (h.stamps _ _)
  | setDisabled name backend off =>
    simp only [Registry.begin]
    split
    · exact h.refl _
    · exact h.tellRules _ _ _ _
  | setDataSources name new => exact h.setDataSources g env name new
  | setCircuit _ | heartbeat => exact h.refl _
  | close => exact h.trans (h.publish g (g.current.successor .empty)) (h.closeContexts _ _)

theorem abandon (purpose : Purpose) (pending : PendingSchema) :
    R g.resources (g.abandon purpose pending).resources := by
  cases purpose with
  | reset a p d rest built => exact h.trans (h.closeDataSources _ _) (h.closeContexts _ _)
  | add => exact h.closeDataSources _ _
  | reconcile x previous => exact h.closeDataSources _ _

theorem resume (env : Environment) (purpose : Purpose) (pending : PendingSchema)
    (answer : Except Error (SortedMap Tables)) :
    R g.resources (g.resume env purpose pending answer).1.resources := by
  cases answer with
  | error e => exact h.abandon g purpose pending
  | ok tables =>
    have hfinish := h.finishSchema g.resources pending tables
    simp only [Registry.resume]
    split <;> rename_i heq <;> simp only [heq] at hfinish
    · exact hfinish
    · exact h.trans hfinish (h.abandon (g.owning _) purpose pending)
    · refine h.trans hfinish ?_
      rename_i r context
      cases purpose with
      | reset a p d rest built => exact h.nextSchema (g.owning r) env a p d _ rest
      | add =>
        simp only
        split
        · exact h.publish (g.owning r) _
        · exact h.publish_close (g.owning r) _ _
      | reconcile x previous =>
        refine h.trans (h.publish (g.owning r) ((g.owning r).current.withSchema context)) ?_
        exact h.trans (h.closePools _ _) (h.closeEngine _ _)

end Resources.Respected

end ShardRegistry
