import ShardRegistry.Proofs.Building
import ShardRegistry.Registry.Change

/-! What a registry holds. A published schema holds the pools of its data sources and its engine; a
change that waits for tables holds what it built. A registry keeps good custody when its schemas and
whatever is under way hold, between them, all that is open. -/
namespace ShardRegistry

/-- The part of a published schema that has to be closed one day. -/
structure Holding where
  name : String
  dataSources : DataSourceMap
  engine : EngineId

def Holding.pools (h : Holding) : List PoolId := h.dataSources.held

/-- The managers of the engine pin connections of the very data sources. -/
def Holding.Wired (h : Holding) (r : Resources) : Prop :=
  ∃ x, r.engines[h.engine]? = some x ∧ ∀ kind m, x.manager? kind = some m →
    ∃ y, r.managers[m]? = some y ∧ y.kind = kind ∧ y.pools = h.dataSources.pools

theorem Holding.Wired.evolves {h : Holding} {r r' : Resources} (hw : h.Wired r)
    (he : Evolves Engine.Ages r.engines r'.engines)
    (hm : Evolves Manager.Ages r.managers r'.managers) : h.Wired r' := by
  obtain ⟨x, hx, hmanagers⟩ := hw
  obtain ⟨x', hx', hages⟩ := he _ x hx
  refine ⟨x', hx', ?_⟩
  intro kind m hkind
  rw [hages.manager?] at hkind
  obtain ⟨y, hy, hy₁, hy₂⟩ := hmanagers kind m hkind
  obtain ⟨y', hy', hages'⟩ := hm m y hy
  exact ⟨y', hy', hages'.1.1.trans hy₁, hages'.1.2.trans hy₂⟩

theorem Holding.Wired.grows {h : Holding} {r r' : Resources} (hw : h.Wired r) (hg : r.Grows r') :
    h.Wired r' := hw.evolves hg.engines hg.managers

def SchemaContext.holding (c : SchemaContext) : Holding := ⟨c.name, c.dataSources, c.engine⟩

/-- Holdings by schema. -/
abbrev Holdings := SortedMap Holding

namespace Holdings

def pools (m : Holdings) : List PoolId := m.values.flatMap (·.pools)

def engines (m : Holdings) : List EngineId := m.values.map (·.engine)

/-- Every schema and backend with the pool that is published there. -/
def slots (m : Holdings) : List ((String × String) × PoolId) :=
  m.entries.flatMap fun e => e.2.dataSources.entries.map fun d => ((e.1, d.1), d.2.pool)

def pool? (m : Holdings) (schema backend : String) : Option PoolId :=
  (m.find? schema).bind fun h => (h.dataSources.find? backend).map (·.pool)

theorem map_slots (m : Holdings) : m.slots.map (·.2) = pools m := by
  simp [slots, pools, SortedMap.values, Holding.pools, DataSourceMap.held, OrderedMap.values,
    List.map_flatMap, List.flatMap_map, Function.comp_def]

theorem mem_slots_iff (m : Holdings) (schema backend : String) (p : PoolId) :
    ((schema, backend), p) ∈ m.slots ↔ m.pool? schema backend = some p := by
  simp only [slots, pool?, List.mem_flatMap, List.mem_map, Prod.mk.injEq, Option.bind_eq_some_iff,
    Option.map_eq_some_iff]
  constructor
  · rintro ⟨⟨k, h⟩, he, ⟨b, d⟩, hd, ⟨rfl, rfl⟩, rfl⟩
    exact ⟨h, (SortedMap.mem_entries_iff m k h).1 he, d,
      (OrderedMap.mem_entries_iff _ b d).1 hd, rfl⟩
  · rintro ⟨h, he, d, hd, rfl⟩
    exact ⟨(schema, h), (SortedMap.mem_entries_iff m _ _).2 he, (backend, d),
      (OrderedMap.mem_entries_iff _ _ _).2 hd, ⟨rfl, rfl⟩, rfl⟩

theorem mem_pools_iff (m : Holdings) (p : PoolId) :
    p ∈ m.pools ↔ ∃ schema backend, m.pool? schema backend = some p := by
  rw [← map_slots, List.mem_map]
  constructor
  · rintro ⟨⟨⟨schema, backend⟩, _⟩, hm, rfl⟩
    exact ⟨schema, backend, (mem_slots_iff m schema backend _).1 hm⟩
  · rintro ⟨schema, backend, h⟩
    exact ⟨_, (mem_slots_iff m schema backend p).2 h, rfl⟩

/-- A pool stands in one slot at most when no pool is counted twice. -/
theorem pool?_injective {m : Holdings} (hn : m.pools.Nodup) {k k' : String × String} {p : PoolId}
    (h : m.pool? k.1 k.2 = some p) (h' : m.pool? k'.1 k'.2 = some p) : k = k' := by
  rw [← map_slots] at hn
  have hmem := (mem_slots_iff m k.1 k.2 p).2 h
  have hmem' := (mem_slots_iff m k'.1 k'.2 p).2 h'
  exact congrArg (·.1) (List.inj_on_of_nodup_map hn hmem hmem' rfl)

theorem mem_engines_iff (m : Holdings) (e : EngineId) :
    e ∈ m.engines ↔ ∃ schema h, m.find? schema = some h ∧ h.engine = e := by
  simp only [engines, SortedMap.values, List.mem_map]
  constructor
  · rintro ⟨_, ⟨⟨k, h⟩, hm, rfl⟩, rfl⟩
    exact ⟨k, h, (SortedMap.mem_entries_iff m k h).1 hm, rfl⟩
  · rintro ⟨k, h, hf, rfl⟩
    exact ⟨h, ⟨(k, h), (SortedMap.mem_entries_iff m k h).2 hf, rfl⟩, rfl⟩

theorem engine_injective {m : Holdings} (hn : m.engines.Nodup) {k k' : String} {h h' : Holding}
    (hf : m.find? k = some h) (hf' : m.find? k' = some h') (he : h.engine = h'.engine) :
    k = k' := by
  have hn' : (m.entries.map fun e => e.2.engine).Nodup := by
    simpa [engines, SortedMap.values, List.map_map, Function.comp_def] using hn
  have hmem := (SortedMap.mem_entries_iff m k h).2 hf
  have hmem' := (SortedMap.mem_entries_iff m k' h').2 hf'
  exact congrArg (·.1) (List.inj_on_of_nodup_map hn' hmem hmem' he)

/-! ### Changing holdings -/

theorem pools_of_perm {m m' : Holdings} {k : String} {h : Holding}
    (hp : m.entries.Perm ((k, h) :: m'.entries)) : m.pools.Perm (h.pools ++ m'.pools) := by
  have hmap := (hp.map (·.2)).flatMap_right (·.pools)
  simpa [pools, SortedMap.values] using hmap

theorem engines_of_perm {m m' : Holdings} {k : String} {h : Holding}
    (hp : m.entries.Perm ((k, h) :: m'.entries)) : m.engines.Perm (h.engine :: m'.engines) := by
  simpa [engines, SortedMap.values, Function.comp_def] using hp.map (·.2.engine)

end Holdings

namespace Snapshot

def holdings (s : Snapshot) : Holdings := s.schemas.map (·.value.holding)

/-- The pool that is published for a schema and backend. -/
def pool? (s : Snapshot) (schema backend : String) : Option PoolId :=
  (s.schema? schema).bind fun c => (c.value.dataSources.find? backend).map (·.pool)

theorem find?_holdings (s : Snapshot) (schema : String) :
    s.holdings.find? schema = (s.schema? schema).map (·.value.holding) :=
  SortedMap.find?_map _ _ _

theorem find?_of_schema? {s : Snapshot} {schema : String} {c : Stamped SchemaContext}
    (h : s.schema? schema = some c) : s.holdings.find? schema = some c.value.holding := by
  simp [find?_holdings, h]

theorem pool?_holdings (s : Snapshot) (schema backend : String) :
    s.holdings.pool? schema backend = s.pool? schema backend := by
  cases h : s.schema? schema <;>
    simp [Holdings.pool?, pool?, find?_holdings, h, SchemaContext.holding]

theorem contexts_pools (s : Snapshot) : s.contexts.flatMap (·.pools) = s.holdings.pools := by
  simp [contexts, holdings, Holdings.pools, SortedMap.values, SortedMap.map, List.flatMap_map,
    SchemaContext.holding, Holding.pools, SchemaContext.pools]

theorem contexts_engines (s : Snapshot) : s.contexts.map (·.engine) = s.holdings.engines := by
  simp [contexts, holdings, Holdings.engines, SortedMap.values, SortedMap.map,
    SchemaContext.holding]

theorem holdings_withSchema (s : Snapshot) (c : Stamped SchemaContext) :
    (s.withSchema c).holdings = s.holdings.insert c.value.name c.value.holding :=
  SortedMap.map_insert _ _ _ _

theorem holdings_withoutSchema (s : Snapshot) (schema : String) :
    (s.withoutSchema schema).holdings = s.holdings.erase schema :=
  SortedMap.map_erase _ _ _

/-- Replacing schemas by ones that hold the same changes no holding. -/
theorem holdings_withSchemas (s : Snapshot) {cs : List (Stamped SchemaContext)}
    (h : ∀ c ∈ cs, s.holdings.find? c.value.name = some c.value.holding) :
    (s.withSchemas cs).holdings = s.holdings := by
  have hfold : ∀ m : SortedMap (Stamped SchemaContext), m.map (·.value.holding) = s.holdings →
      (cs.foldl (fun m c => m.insert c.value.name c) m).map (·.value.holding) = s.holdings := by
    induction cs with
    | nil => exact fun m hm => hm
    | cons c cs ih =>
      intro m hm
      refine ih (fun c' hc' => h c' (List.mem_cons_of_mem c hc')) _ ?_
      rw [SortedMap.map_insert, hm]
      exact SortedMap.insert_of_find? (h c (by simp))
  exact hfold s.schemas rfl

end Snapshot

/-! ### Changes under way -/

namespace Purpose

/-- The pools that a change holds while the tables of a schema are loaded. -/
def pools (pending : PendingSchema) : Purpose → List PoolId
  | .reset _ _ _ _ built => pending.dataSources.held ++ built.flatMap (·.value.pools)
  | .add => pending.dataSources.held
  | .reconcile x _ => x.built.held

def engines : Purpose → List EngineId
  | .reset _ _ _ _ built => built.map (·.value.engine)
  | .add | .reconcile _ _ => []

/-- What a purpose owes to the registry whose change it is part of. -/
def Fits (g : Registry) (pending : PendingSchema) : Purpose → Prop
  | .reset _ _ _ rest built =>
    (built.map (·.value.name) ++ pending.name :: rest.map (·.1)).Nodup ∧
      ∀ c ∈ built, c.value.holding.Wired g.resources
  | .add => True
  | .reconcile x previous =>
    (∃ c, g.current.schema? pending.name = some c ∧ c.value = previous) ∧
      pending.dataSources = x.dataSources ∧ x.Balances previous.dataSources

theorem Fits.of_current {g g' : Registry} {pending : PendingSchema} {purpose : Purpose}
    (h : purpose.Fits g pending) (hs : g'.current = g.current)
    (he : Evolves Engine.Ages g.resources.engines g'.resources.engines)
    (hm : Evolves Manager.Ages g.resources.managers g'.resources.managers) :
    purpose.Fits g' pending := by
  cases purpose with
  | reset _ _ _ rest built => exact ⟨h.1, fun c hc => (h.2 c hc).evolves he hm⟩
  | add => trivial
  | reconcile x previous => simpa only [Fits, hs] using h

end Purpose

namespace Step

def pools : Step → List PoolId
  | .done _ => []
  | .load purpose pending => purpose.pools pending

def engines : Step → List EngineId
  | .done _ => []
  | .load purpose _ => purpose.engines

/-- A step that has published nothing: a rejection, or a load for a purpose that fits. -/
def Fits (g : Registry) : Step → Prop
  | .done (.error (.rejected _)) => True
  | .done _ => False
  | .load purpose pending => purpose.Fits g pending

end Step

/-! ### Custody of a registry -/

namespace Registry

@[simp] theorem resources_owning (g : Registry) (r : Resources) : (g.owning r).resources = r := rfl

@[simp] theorem current_owning (g : Registry) (r : Resources) :
    (g.owning r).current = g.current := rfl

/-- The open pools and engines are those of the published schemas, besides `ps` and `es`. -/
structure Keeps (g : Registry) (ps es : List Nat) : Prop where
  custody : Resources.Custody {} g.resources (ps ++ g.current.holdings.pools)
    (es ++ g.current.holdings.engines)
  named : ∀ k h, g.current.holdings.find? k = some h → h.name = k
  wired : ∀ k h, g.current.holdings.find? k = some h → h.Wired g.resources

namespace Keeps
variable {g g' : Registry} {ps qs es fs : List Nat}

theorem nodup_pools (h : g.Keeps ps es) : g.current.holdings.pools.Nodup :=
  (List.nodup_append'.1 h.custody.pools.nodup).2.1

theorem nodup_engines (h : g.Keeps ps es) : g.current.holdings.engines.Nodup :=
  (List.nodup_append'.1 h.custody.engines.nodup).2.1

theorem perm (h : g.Keeps ps es) (hp : ps.Perm qs) (he : es.Perm fs) : g.Keeps qs fs :=
  { h with custody := h.custody.perm (hp.append_right _) (he.append_right _) }

/-- The same schemas and the same objects are in the same custody. -/
theorem of_holdings (h : g.Keeps ps es) (hh : g'.current.holdings = g.current.holdings)
    (hp : g'.resources.pools = g.resources.pools) (he : g'.resources.engines = g.resources.engines)
    (hm : g'.resources.managers = g.resources.managers)
    (hi : g'.resources.pins = g.resources.pins) : g'.Keeps ps es where
  custody := by
    rw [hh]
    refine ⟨hp ▸ h.custody.pools, h.custody.engines.of_eq he hm hi, List.nil_prefix⟩
  named k x hx := h.named k x (hh ▸ hx)
  wired k x hx := (h.wired k x (hh ▸ hx)).evolves (he ▸ .refl Engine.Ages.refl _)
    (hm ▸ .refl Manager.Ages.refl _)

/-- A published pool is open, and nobody asked it to close. -/
theorem closing_of_pool? (h : g.Keeps ps es) {schema backend : String} {p : PoolId}
    (hp : g.current.holdings.pool? schema backend = some p) :
    ∃ x, g.resources.pools[p]? = some x ∧ x.closing = (false, 0) := by
  have hmem : p ∈ ps ++ g.current.holdings.pools :=
    List.mem_append_right _ ((Holdings.mem_pools_iff _ _).2 ⟨schema, backend, hp⟩)
  obtain ⟨_, hlt⟩ := h.custody.pools.since p hmem
  refine ⟨_, List.getElem?_eq_getElem hlt, ?_⟩
  have hc := h.custody.pools.closing p _ (Nat.zero_le _) (List.getElem?_eq_getElem hlt)
  simpa only [hmem, if_true] using hc

end Keeps

end Registry

end ShardRegistry
