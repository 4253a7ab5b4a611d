import Mathlib.Data.List.Forall2
import ShardRegistry.Proofs.Publication

/-! Coherence. The parts of a schema fit each other: its rules are those of its configurations, its
runtime is of its dialect and of the size that the properties ask for, and its metadata is about its own
data sources. Every part of a change leaves all published schemas coherent. -/
namespace ShardRegistry

/-! ### Rules and their configurations -/

def TableRule.Realizes (t : TableRule) (c : TableConfiguration) : Prop :=
  t.logicTable = normalTable c.logicTable ∧
    List.Forall₂ (fun n text => DataNode.read text = some n) t.dataNodes c.actualDataNodes

/-- A rule of the kind and contents of a configuration. -/
def Rule.Realizes : Rule → RuleConfiguration → Prop
  | .sharding r, .sharding c =>
    List.Forall₂ TableRule.Realizes r.tables c.tables ∧ r.defaultDataSource = c.defaultDataSource
  | .readWrite r, .readWrite c => r.name = c.name ∧ r.primary = c.primary ∧ r.replicas = c.replicas
  | _, _ => False

/-- The backends that a rule names. -/
def Rule.backends : Rule → List String
  | .sharding r => r.tables.flatMap (fun t => t.dataNodes.map (·.dataSource)) ++
      r.defaultDataSource.toList
  | .readWrite r => r.primary :: r.replicas

theorem bind_eq_ok {ε α β : Type} {x : Except ε α} {f : α → Except ε β} {b : β}
    (h : x >>= f = .ok b) : ∃ a, x = .ok a ∧ f a = .ok b := by
  cases x with
  | error e => cases h
  | ok a => exact ⟨a, rfl, h⟩

theorem forall₂_of_mapM {ε α β : Type} {f : α → Except ε β} {xs : List α} {ys : List β}
    (h : xs.mapM f = .ok ys) : List.Forall₂ (fun y x => f x = .ok y) ys xs := by
  induction xs generalizing ys with
  | nil =>
    cases h
    exact .nil
  | cons x xs ih =>
    rw [List.mapM_cons] at h
    obtain ⟨y, hx, h⟩ := bind_eq_ok h
    obtain ⟨zs, hxs, h⟩ := bind_eq_ok h
    cases h
    exact .cons hx (ih hxs)

section
variable {α β : Type} {R : α → β → Prop} {xs : List α} {ys : List β}

theorem forall₂_mem_left (h : List.Forall₂ R xs ys) {x : α} (hx : x ∈ xs) : ∃ y ∈ ys, R x y := by
  induction h with
  | nil => cases hx
  | cons hr _ ih =>
    rcases List.mem_cons.1 hx with rfl | hx
    · exact ⟨_, List.mem_cons_self, hr⟩
    · obtain ⟨y, hy, hr⟩ := ih hx
      exact ⟨y, List.mem_cons_of_mem _ hy, hr⟩

theorem forall₂_mem_right (h : List.Forall₂ R xs ys) {y : β} (hy : y ∈ ys) : ∃ x ∈ xs, R x y :=
  forall₂_mem_left h.flip hy

end

theorem readNode_ok {text : String} {n : DataNode} (h : readNode text = .ok n) :
    DataNode.read text = some n := by
  simp only [readNode] at h
  split at h <;> cases h
  assumption

theorem mem_of_find?_unknown {names : List String} {α : Type} {f : α → String} {xs : List α}
    (h : ∀ x, xs.find? (fun x => !names.contains (f x)) = some x → False) :
    ∀ x ∈ xs, f x ∈ names := by
  have hnone := List.find?_eq_none.1 (Option.eq_none_iff_forall_ne_some.2 h)
  simpa using hnone

theorem TableRule.ofConfiguration_ok {names seen : List String} {c : TableConfiguration}
    {t : TableRule} (h : ofConfiguration names seen c = .ok t) :
    t.Realizes c ∧ ∀ n ∈ t.dataNodes, n.dataSource ∈ names := by
  simp only [ofConfiguration] at h
  split at h
  · cases h
  · split at h
    · cases h
    · split at h
      · cases h
      · obtain ⟨nodes, hnodes, h⟩ := bind_eq_ok h
        split at h
        · cases h
        · rename_i hknown
          have ht : _ = t := Except.ok.inj h
          subst ht
          refine ⟨⟨rfl, ?_⟩, mem_of_find?_unknown hknown⟩
          exact (forall₂_of_mapM hnodes).imp fun _ _ => readNode_ok

theorem ShardingRule.tablesOf_ok {names seen : List String} {cs : List TableConfiguration}
    {ts : List TableRule} (h : tablesOf names seen cs = .ok ts) :
    List.Forall₂ TableRule.Realizes ts cs ∧
      ∀ t ∈ ts, ∀ n ∈ t.dataNodes, n.dataSource ∈ names := by
  induction cs generalizing seen ts with
  | nil =>
    cases h
    exact ⟨.nil, by simp⟩
  | cons c cs ih =>
    obtain ⟨t, ht, h⟩ := bind_eq_ok h
    obtain ⟨us, hus, h⟩ := bind_eq_ok h
    cases h
    obtain ⟨hrealizes, hnames⟩ := TableRule.ofConfiguration_ok ht
    obtain ⟨hrest, hrestNames⟩ := ih hus
    exact ⟨.cons hrealizes hrest, by simpa using ⟨hnames, hrestNames⟩⟩

theorem ShardingRule.ofConfiguration_ok {names : List String} {c : ShardingConfiguration}
    {r : ShardingRule} (h : ofConfiguration names c = .ok r) :
    (Rule.sharding r).Realizes (.sharding c) ∧ ∀ b ∈ (Rule.sharding r).backends, b ∈ names := by
  obtain ⟨ts, hts, h⟩ := bind_eq_ok h
  obtain ⟨hrealizes, hnames⟩ := tablesOf_ok hts
  have hr : r = ⟨ts, c.defaultDataSource⟩ ∧ ∀ b ∈ c.defaultDataSource, b ∈ names := by
    split at h
    · rename_i name hname
      split at h
      · cases h
      · rename_i hknown
        cases h
        refine ⟨rfl, ?_⟩
        simpa [hname] using hknown
    · rename_i hnone
      cases h
      exact ⟨rfl, fun b hb => (hnone b hb).elim⟩
  obtain ⟨rfl, hdefault⟩ := hr
  refine ⟨⟨hrealizes, rfl⟩, ?_⟩
  intro b hb
  rcases List.mem_append.1 hb with hb | hb
  · obtain ⟨t, ht, hb⟩ := List.mem_flatMap.1 hb
    obtain ⟨n, hn, rfl⟩ := List.mem_map.1 hb
    exact hnames t ht n hn
  · exact hdefault b (by simpa using hb)

theorem ReadWriteRule.ofConfiguration_ok {names : List String} {c : ReadWriteConfiguration}
    {r : ReadWriteRule} (h : ofConfiguration names c = .ok r) :
    (Rule.readWrite r).Realizes (.readWrite c) ∧ ∀ b ∈ (Rule.readWrite r).backends, b ∈ names := by
  simp only [ofConfiguration] at h
  split at h
  · cases h
  · split at h
    · cases h
    · rename_i hknown
      split at h
      · cases h
      · cases h
        exact ⟨⟨rfl, rfl, rfl⟩, mem_of_find?_unknown (f := id) hknown⟩

theorem Rule.ofConfiguration_ok {names : List String} {c : RuleConfiguration} {r : Rule}
    (h : ofConfiguration names c = .ok r) : r.Realizes c ∧ ∀ b ∈ r.backends, b ∈ names := by
  cases c with
  | sharding c =>
    obtain ⟨s, hs, h⟩ := bind_eq_ok (f := fun x => .ok (Rule.sharding x)) h
    cases h
    exact ShardingRule.ofConfiguration_ok hs
  | readWrite c =>
    obtain ⟨s, hs, h⟩ := bind_eq_ok (f := fun x => .ok (Rule.readWrite x)) h
    cases h
    exact ReadWriteRule.ofConfiguration_ok hs

theorem Rule.exists_configuration {names : List String} {cs : List RuleConfiguration} {rs : List Rule}
    (h : build names cs = .ok rs) {r : Rule} (hr : r ∈ rs) :
    ∃ c ∈ cs, ofConfiguration names c = .ok r :=
  forall₂_mem_left (forall₂_of_mapM h) hr

/-- Rules are built one of each configuration, in their order, for backends of the names. -/
theorem Rule.build_ok {names : List String} {cs : List RuleConfiguration} {rs : List Rule}
    (h : build names cs = .ok rs) :
    List.Forall₂ Rule.Realizes rs cs ∧ ∀ r ∈ rs, ∀ b ∈ r.backends, b ∈ names := by
  have hmade := (forall₂_of_mapM h).imp fun _ _ hr => ofConfiguration_ok hr
  refine ⟨hmade.imp fun _ _ hr => hr.1, ?_⟩
  clear h
  induction hmade with
  | nil => simp
  | cons hr _ ih => exact List.forall_mem_cons.2 ⟨hr.2, ih⟩

/-! ### Schemas -/

/-- The parts of a schema fit each other, for a dialect and a size of executors. -/
structure SchemaContext.Coherent (c : SchemaContext) (d : Dialect) (size : Nat) : Prop where
  dialect : c.dialect = d
  parser : c.runtime.value.parser.value = d
  executor : c.runtime.value.executorSize = size
  rules : List.Forall₂ Rule.Realizes (c.rules.map (·.rule)) c.configurations
  backends : ∀ b ∈ c.rules, ∀ name ∈ b.rule.backends, name ∈ c.dataSources.keys
  locations : ∀ name l, c.metaData.locations.find? name = some l ↔ ∃ s x,
    c.dataSources.find? name = some s ∧ s.parameters.endpoint = .ok x ∧
      l = ⟨x.host, x.port, x.database⟩
  cached : c.runtime.value.cached.map (·.value) = c.dataSources.values.head?.map fun s =>
    ⟨d, s.parameters.displayUrl, s.parameters.username, s.parameters.readOnly,
      s.parameters.maxPoolSize⟩

/-- Every schema stands under its own name, has the dialect of the snapshot, and an executor of the
size that the properties ask for. -/
def Snapshot.Coherent (s : Snapshot) : Prop :=
  ∀ k c, s.schema? k = some c → c.value.name = k ∧ ∃ d, s.dialect = some d ∧
    c.value.Coherent d s.properties.value.executorSize

theorem Snapshot.Coherent.empty : Registry.empty.current.Coherent := nofun

theorem SortedMap.find?_ofList {α : Type} {es : List (String × α)} (h : (es.map (·.1)).Nodup)
    (k : String) (v : α) : (ofList es).find? k = some v ↔ (k, v) ∈ es := by
  rw [← mem_entries_iff, (entries_ofList_perm h).mem_iff]

namespace MetaData

theorem keys_filterMap_sublist {α β : Type} (f : α → Option β) (es : List (String × α)) :
    ((es.filterMap fun e => (f e.2).map fun y => (e.1, y)).map (·.1)).Sublist (es.map (·.1)) := by
  induction es with
  | nil => exact .slnil
  | cons e es ih =>
    cases h : f e.2 with
    | none => simpa [h] using ih.cons e.1
    | some y => simpa [h] using ih.cons_cons e.1

/-- Where a backend lives, if its parameters resolve. -/
def locate (p : ConnectionParameters) : Option BackendLocation :=
  match p.endpoint with
  | .ok x => some ⟨x.host, x.port, x.database⟩
  | .error _ => none

theorem locate_eq_some {p : ConnectionParameters} {l : BackendLocation} :
    locate p = some l ↔ ∃ x, p.endpoint = .ok x ∧ l = ⟨x.host, x.port, x.database⟩ := by
  cases h : p.endpoint <;> simp [locate, h, eq_comm]

theorem locationsOf_eq (ps : ParameterMap) : locationsOf ps =
    .ofList (ps.entries.filterMap fun e => (locate e.2).map fun l => (e.1, l)) := by
  rw [locationsOf]
  congr 2
  funext e
  cases h : e.2.endpoint <;> simp [locate, h]

theorem find?_locationsOf_eq (ps : ParameterMap) (name : String) :
    (locationsOf ps).find? name = (ps.find? name).bind locate := by
  have hn := ps.nodup.sublist (keys_filterMap_sublist locate _)
  refine Option.ext fun l => ?_
  rw [locationsOf_eq, SortedMap.find?_ofList hn, List.mem_filterMap, Option.bind_eq_some_iff]
  constructor
  · rintro ⟨⟨k, p⟩, hmem, hl⟩
    obtain ⟨l', hl', heq⟩ := Option.map_eq_some_iff.1 hl
    cases heq
    exact ⟨p, (OrderedMap.mem_entries_iff ps _ p).1 hmem, hl'⟩
  · rintro ⟨p, hp, hl⟩
    exact ⟨(name, p), (OrderedMap.mem_entries_iff ps name p).2 hp, by simp [hl]⟩

/-- The locations are those of the data sources whose parameters resolve. -/
theorem find?_locationsOf (m : DataSourceMap) (name : String) (l : BackendLocation) :
    (locationsOf m.parameters).find? name = some l ↔ ∃ s x, m.find? name = some s ∧
      s.parameters.endpoint = .ok x ∧ l = ⟨x.host, x.port, x.database⟩ := by
  rw [find?_locationsOf_eq, DataSourceMap.parameters, OrderedMap.find?_map, Option.bind_eq_some_iff]
  constructor
  · rintro ⟨p, hp, hl⟩
    obtain ⟨s, hs, rfl⟩ := Option.map_eq_some_iff.1 hp
    obtain ⟨x, hx, rfl⟩ := locate_eq_some.1 hl
    exact ⟨s, x, hs, hx, rfl⟩
  · rintro ⟨s, x, hs, hx, rfl⟩
    exact ⟨s.parameters, by rw [hs]; rfl, locate_eq_some.2 ⟨x, hx, rfl⟩⟩

end MetaData

/-- The first data source is the one that is cached. -/
theorem CachedBackend.ofParameters_eq (d : Dialect) (m : DataSourceMap) :
    ofParameters d m.parameters = m.values.head?.map fun s => ⟨d, s.parameters.displayUrl,
      s.parameters.username, s.parameters.readOnly, s.parameters.maxPoolSize⟩ := by
  simp [ofParameters, DataSourceMap.parameters, OrderedMap.values, OrderedMap.map,
    Function.comp_def]

namespace Resources

theorem instantiate_snd (rules : List Rule) (r : Resources) :
    (r.instantiate rules).2.map (·.rule) = rules := by
  induction rules generalizing r with
  | nil => rfl
  | cons rule rules ih => simp [instantiate, ih]

/-- A runtime is of the dialect and the size that it was started with, and knows the first data
source. -/
theorem startRuntime_ok {r r' : Resources} {d : Dialect} {m : DataSourceMap} {size : Nat}
    {x : Stamped Runtime} (h : r.startRuntime d m size = (r', .ok x)) :
    x.value.parser.value = d ∧ x.value.executorSize = size ∧
      x.value.cached.map (·.value) = CachedBackend.ofParameters d m.parameters := by
  simp only [startRuntime] at h
  split at h
  · cases h
  · rename_i executor hexecutor
    obtain ⟨_, rfl⟩ := Executor.ofSize?_eq_some_iff.1 hexecutor
    cases hc : CachedBackend.ofParameters d m.parameters with
    | none =>
      simp only [hc, Prod.mk.injEq, Except.ok.injEq] at h
      rw [← h.2]
      exact ⟨rfl, rfl, rfl⟩
    | some c =>
      simp only [hc, Prod.mk.injEq, Except.ok.injEq] at h
      rw [← h.2]
      exact ⟨rfl, rfl, rfl⟩

/-- A schema that is completed is coherent if its rules were built for its data sources. -/
theorem finishSchema_coherent {r r' : Resources} {p : PendingSchema} {loaded : SortedMap Tables}
    {c : Stamped SchemaContext} (h : r.finishSchema p loaded = (r', .ok c))
    (hr : Rule.build p.dataSources.keys p.configurations = .ok p.rules) :
    c.value.name = p.name ∧ c.value.Coherent p.dialect p.properties.executorSize := by
  simp only [finishSchema] at h
  split at h
  · cases h
  · split at h
    · cases h
    · rename_i tables _ _ x hx
      cases h
      obtain ⟨hparser, hsize, hcached⟩ := startRuntime_ok hx
      obtain ⟨hrealize, hnames⟩ := Rule.build_ok hr
      refine ⟨rfl, rfl, hparser, hsize, ?_, ?_, ?_, ?_⟩
      · exact (instantiate_snd p.rules r).symm ▸ hrealize
      · intro b hb
        refine hnames b.rule ?_
        rw [← instantiate_snd p.rules r]
        exact List.mem_map_of_mem hb
      · exact MetaData.find?_locationsOf p.dataSources
      · exact hcached.trans (CachedBackend.ofParameters_eq p.dialect p.dataSources)

end Resources

/-! ### Snapshots -/

theorem SortedMap.find?_foldl_insert {α : Type} {es : List (String × α)} {m : SortedMap α}
    {k : String} {v : α} (h : (es.foldl (fun m e => m.insert e.1 e.2) m).find? k = some v) :
    (k, v) ∈ es ∨ (m.find? k = some v ∧ k ∉ es.map (·.1)) := by
  induction es generalizing m with
  | nil => exact .inr ⟨h, List.not_mem_nil⟩
  | cons e es ih =>
    rcases ih h with hmem | ⟨hfind, hnot⟩
    · exact .inl (List.mem_cons_of_mem e hmem)
    · by_cases hk : e.1 = k
      · subst hk
        rw [find?_insert_self] at hfind
        obtain rfl : e.2 = v := Option.some.inj hfind
        exact .inl List.mem_cons_self
      · rw [find?_insert_of_ne m e.2 hk] at hfind
        refine .inr ⟨hfind, ?_⟩
        simpa using ⟨Ne.symm hk, by simpa using hnot⟩

namespace Snapshot
variable {s : Snapshot}

theorem schema?_withSchemas {cs : List (Stamped SchemaContext)} {k : String}
    {c : Stamped SchemaContext} (h : (s.withSchemas cs).schema? k = some c) :
    (c ∈ cs ∧ c.value.name = k) ∨
      (s.schema? k = some c ∧ ∀ x ∈ cs, x.value.name ≠ k) := by
  have hfold : ((cs.map fun c => (c.value.name, c)).foldl (fun m e => m.insert e.1 e.2)
      s.schemas).find? k = some c := by
    rw [List.foldl_map]
    exact h
  rcases SortedMap.find?_foldl_insert hfold with hmem | ⟨hfind, hnot⟩
  · obtain ⟨x, hx, heq⟩ := List.mem_map.1 hmem
    cases heq
    exact .inl ⟨hx, rfl⟩
  · refine .inr ⟨hfind, fun x hx hk => hnot ?_⟩
    exact List.mem_map.2 ⟨_, List.mem_map.2 ⟨x, hx, rfl⟩, hk⟩

namespace Coherent

/-- A schema of the dialect of the snapshot, if that has one, may be published. -/
theorem withSchema (h : s.Coherent) {c : Stamped SchemaContext} {d : Dialect}
    (hc : c.value.Coherent d s.properties.value.executorSize)
    (hd : ∀ d', s.dialect = some d' → d = d') : (s.withSchema c).Coherent := by
  have hdialect : (s.withSchema c).dialect = some d := by
    cases hs : s.dialect with
    | none => simp [Snapshot.withSchema, hs, hc.dialect]
    | some d' => simp [Snapshot.withSchema, hs, hd d' hs]
  intro k x hx
  by_cases hk : c.value.name = k
  · subst hk
    have hfind : (s.withSchema c).schema? c.value.name = some c :=
      SortedMap.find?_insert_self _ _ _
    rw [hfind] at hx
    cases hx
    exact ⟨rfl, d, hdialect, hc⟩
  · have hfind : (s.withSchema c).schema? k = s.schema? k :=
      SortedMap.find?_insert_of_ne _ _ hk
    rw [hfind] at hx
    obtain ⟨hname, d', hs, hcoherent⟩ := h k x hx
    obtain rfl := hd d' hs
    exact ⟨hname, d, hdialect, hcoherent⟩

theorem withoutSchema (h : s.Coherent) (name : String) : (s.withoutSchema name).Coherent := by
  intro k c hc
  by_cases hk : k = name
  · subst hk
    have hnone : (s.withoutSchema k).schema? k = none := SortedMap.find?_erase_self _ _
    rw [hnone] at hc
    cases hc
  · have hsame : (s.withoutSchema name).schema? k = s.schema? k :=
      SortedMap.find?_erase_of_ne _ hk
    exact h k c (hsame.symm.trans hc)

/-- Schemas may be replaced by ones that are coherent as well. -/
theorem withSchemas (h : s.Coherent) {cs : List (Stamped SchemaContext)}
    (hcs : ∀ c ∈ cs, ∃ d, s.dialect = some d ∧
      c.value.Coherent d s.properties.value.executorSize) : (s.withSchemas cs).Coherent := by
  intro k c hc
  rcases schema?_withSchemas hc with ⟨hmem, hname⟩ | ⟨hold, _⟩
  · exact ⟨hname, hcs c hmem⟩
  · exact h k c hold

/-- Properties may be replaced together with all schemas. -/
theorem withProperties {cs : List (Stamped SchemaContext)} {properties : Stamped Properties}
    (hcs : ∀ c ∈ cs, ∃ d, s.dialect = some d ∧ c.value.Coherent d properties.value.executorSize)
    (hall : ∀ k c, s.schema? k = some c → ∃ x ∈ cs, x.value.name = k) :
    { s.withSchemas cs with properties }.Coherent := by
  intro k c hc
  rcases schema?_withSchemas hc with ⟨hmem, hname⟩ | ⟨hold, hnot⟩
  · exact ⟨hname, hcs c hmem⟩
  · obtain ⟨x, hx, hk⟩ := hall k c hold
    exact absurd hk (hnot x hx)

end Coherent

end Snapshot

/-! ### Parts of changes -/

/-- A schema whose rules are built, for the properties and the dialect that it will be published
under. -/
structure PendingSchema.Coherent (p : PendingSchema) (properties : Properties) (d : Dialect) :
    Prop where
  rules : Rule.build p.dataSources.keys p.configurations = .ok p.rules
  properties : p.properties = properties
  dialect : p.dialect = d

def Purpose.Coheres (g : Registry) (pending : PendingSchema) : Purpose → Prop
  | .reset _ p d _ built => pending.Coherent p d ∧ ∀ c ∈ built, c.value.Coherent d p.executorSize
  | .add | .reconcile _ _ => pending.Coherent g.current.properties.value pending.dialect ∧
      ∀ d, g.current.dialect = some d → pending.dialect = d

/-- The schemas are coherent, and so is what the step has in hand. -/
def Step.Coheres (g : Registry) : Step → Prop
  | .done _ => True
  | .load purpose pending => purpose.Coheres g pending

theorem PendingSchema.start_coherent {name : String} {m : DataSourceMap} {d : Dialect}
    {cs : List RuleConfiguration} {properties : Properties} {p : PendingSchema}
    (h : start name m d cs properties = .ok p) : p.Coherent properties d := by
  simp only [start] at h
  split at h
  · rename_i hr
    cases h
    exact ⟨hr, rfl, rfl⟩
  · cases h

namespace Registry

theorem coheres_nextSchema (env : Environment) {g : Registry} (h : g.current.Coherent)
    (a : Authentication) (p : Properties) (d : Dialect) {built : List (Stamped SchemaContext)}
    (hb : ∀ c ∈ built, c.value.Coherent d p.executorSize)
    (rest : List (String × SchemaConfiguration)) :
    (g.nextSchema env a p d built rest).1.current.Coherent ∧
      (g.nextSchema env a p d built rest).2.Coheres (g.nextSchema env a p d built rest).1 := by
  cases rest with
  | nil =>
    refine ⟨?_, trivial⟩
    intro k c hc
    have hofList : (SortedMap.ofList (built.map fun c => (c.value.name, c))).find? k = some c := hc
    rcases SortedMap.find?_foldl_insert hofList with hmem | ⟨hempty, _⟩
    · obtain ⟨x, hx, heq⟩ := List.mem_map.1 hmem
      cases heq
      exact ⟨rfl, d, rfl, hb c hx⟩
    · cases hempty
  | cons e rest =>
    simp only [nextSchema]
    split
    · exact ⟨h, trivial⟩
    · split
      · exact ⟨h, trivial⟩
      · rename_i hs
        exact ⟨h, PendingSchema.start_coherent hs, hb⟩

/-- Resized schemas are the old ones but for the size of the executor. -/
theorem coheres_resizeAll (size : Nat) (cs : List (Stamped SchemaContext)) (g : Registry) :
    (∀ x ∈ (g.resizeAll size cs).2, ∃ c ∈ cs, ∀ d old, c.value.Coherent d old →
      x.value.Coherent d size) ∧
    ∀ c ∈ cs, ∃ x ∈ (g.resizeAll size cs).2, x.value.name = c.value.name := by
  induction cs generalizing g with
  | nil => exact ⟨nofun, nofun⟩
  | cons c cs ih =>
    simp only [resizeAll]
    obtain ⟨hnew, hall⟩ := ih (g.owning ((g.resources.stamped
      { c.value.runtime.value with executorSize := size }).1.stamped { c.value with
        runtime := (g.resources.stamped
          { c.value.runtime.value with executorSize := size }).2 }).1)
    constructor
    · intro x hx
      rcases List.mem_cons.1 hx with rfl | hx
      · exact ⟨c, List.mem_cons_self, fun d old hc =>
          ⟨hc.dialect, hc.parser, rfl, hc.rules, hc.backends, hc.locations, hc.cached⟩⟩
      · obtain ⟨y, hy, hcoherent⟩ := hnew x hx
        exact ⟨y, List.mem_cons_of_mem c hy, hcoherent⟩
    · intro y hy
      rcases List.mem_cons.1 hy with rfl | hy
      · exact ⟨_, List.mem_cons_self, rfl⟩
      · obtain ⟨x, hx, hname⟩ := hall y hy
        exact ⟨x, List.mem_cons_of_mem _ hx, hname⟩

/-- Schemas with other tables are the old ones but for the tables. -/
theorem coheres_retable (tables : SchemaTables) (names : List String) (g : Registry) :
    ∀ x ∈ (g.retable tables names).2, ∃ k c, g.current.schema? k = some c ∧
      ∀ d size, c.value.Coherent d size → x.value.Coherent d size := by
  induction names generalizing g with
  | nil => nofun
  | cons name names ih =>
    simp only [retable]
    split
    · exact ih g
    · rename_i c hc
      intro x hx
      rcases List.mem_cons.1 hx with rfl | hx
      · exact ⟨name, c, hc, fun d size h => ⟨h.dialect, h.parser, h.executor, h.rules,
          h.backends, h.locations, h.cached⟩⟩
      · obtain ⟨k, y, hy, hcoherent⟩ := ih _ x hx
        exact ⟨k, y, hy, hcoherent⟩

theorem coheres_setProperties {g : Registry} (h : g.current.Coherent) (p : Properties) :
    (g.setProperties p).1.current.Coherent ∧
      (g.setProperties p).2.Coheres (g.setProperties p).1 := by
  simp only [setProperties]
  split
  · exact ⟨h, trivial⟩
  · refine ⟨?_, trivial⟩
    obtain ⟨⟨stamps, hg⟩, _⟩ := Publishes.resizeAll_eq p.executorSize g.current.schemas.values
      (g.owning (g.resources.stamped p).1)
    obtain ⟨hnew, hall⟩ := coheres_resizeAll p.executorSize g.current.schemas.values
      (g.owning (g.resources.stamped p).1)
    refine Snapshot.Coherent.withProperties ?_ ?_
    · intro x hx
      obtain ⟨c, hc, hcoherent⟩ := hnew x hx
      obtain ⟨⟨k, _⟩, hmem, rfl⟩ := List.mem_map.1 hc
      obtain ⟨_, d, hd, hold⟩ := h k _ ((SortedMap.mem_entries_iff _ _ _).1 hmem)
      exact ⟨d, by rw [hg]; exact hd, hcoherent d _ hold⟩
    · intro k c hc
      rw [hg] at hc
      have hmem : c ∈ g.current.schemas.values :=
        List.mem_map.2 ⟨(k, c), (SortedMap.mem_entries_iff _ _ _).2 hc, rfl⟩
      obtain ⟨x, hx, hname⟩ := hall c hmem
      exact ⟨x, hx, hname.trans (h k c hc).1⟩

theorem coheres_setTables {g : Registry} (h : g.current.Coherent) (names : List String)
    (tables : SchemaTables) :
    (g.setTables names tables).1.current.Coherent ∧
      (g.setTables names tables).2.Coheres (g.setTables names tables).1 := by
  obtain ⟨⟨stamps, hg⟩, _⟩ := Publishes.retable_eq tables names g
  have hnew := coheres_retable tables names g
  simp only [setTables]
  split
  · exact ⟨h, trivial⟩
  · rename_i g' replaced _ heq
    rw [heq] at hg hnew
    simp only at hg hnew
    subst hg
    refine ⟨Snapshot.Coherent.withSchemas h ?_, trivial⟩
    intro x hx
    obtain ⟨k, c, hc, hcoherent⟩ := hnew x hx
    obtain ⟨_, d, hd, hold⟩ := h k c hc
    exact ⟨d, hd, hcoherent d _ hold⟩

theorem schema?_of_getSchema {g : Registry} {name : String} {c : Stamped SchemaContext}
    (h : g.getSchema name = .ok c) : g.current.schema? name = some c := by
  simp only [getSchema] at h
  split at h <;> cases h
  assumption

theorem coheres_setRules {g : Registry} (h : g.current.Coherent) (name : String)
    (configurations : List RuleConfiguration) :
    (g.setRules name configurations).1.current.Coherent ∧
      (g.setRules name configurations).2.Coheres (g.setRules name configurations).1 := by
  simp only [setRules]
  split
  · exact ⟨h, trivial⟩
  · rename_i c hc
    split
    · exact ⟨h, trivial⟩
    · rename_i rules hr
      obtain ⟨_, d, hd, hold⟩ := h name c (schema?_of_getSchema hc)
      obtain ⟨hrealize, hnames⟩ := Rule.build_ok hr
      refine ⟨Snapshot.Coherent.withSchema h (d := d) ?_ fun d' hd' => ?_, trivial⟩
      · refine ⟨hold.dialect, hold.parser, hold.executor, ?_, ?_, hold.locations, hold.cached⟩
        · exact (Resources.instantiate_snd rules g.resources).symm ▸ hrealize
        · intro b hb
          refine hnames b.rule ?_
          rw [← Resources.instantiate_snd rules g.resources]
          exact List.mem_map_of_mem hb
      · exact Option.some.inj (hd.symm.trans hd')

theorem coheres_begin (env : Environment) {g : Registry} (h : g.current.Coherent)
    (change : Change) :
    (g.begin env change).1.current.Coherent ∧
      (g.begin env change).2.Coheres (g.begin env change).1 := by
  cases change with
  | reset schemas a p d =>
    exact coheres_nextSchema env h a p d (fun _ hc => absurd hc List.not_mem_nil) schemas.entries
  | addSchema name ds rules =>
    simp only [begin, Registry.addSchema]
    split
    · exact ⟨h, trivial⟩
    · rename_i d hd
      split
      · exact ⟨h, trivial⟩
      · split
        · exact ⟨h, trivial⟩
        · rename_i hs
          have hpending := PendingSchema.start_coherent hs
          refine ⟨h, ⟨hpending.rules, hpending.properties, rfl⟩, fun d' hd' => ?_⟩
          have hd' : g.current.dialect = some d' := hd'
          rw [hd'] at hd
          exact hpending.dialect.trans (Except.ok.inj hd).symm
  | deleteSchema name =>
    simp only [begin]
    split
    · exact ⟨h, trivial⟩
    · exact ⟨h.withoutSchema name, trivial⟩
  | setProperties p => exact coheres_setProperties h p
  | setTables names tables => exact coheres_setTables h names tables
  | setRules name rules => exact coheres_setRules h name rules
  | setDisabled name backend off =>
    simp only [begin]
    split
    · exact ⟨h, trivial⟩
    · exact ⟨h, trivial⟩
  | setDataSources name new =>
    simp only [begin, Registry.setDataSources]
    split
    · exact ⟨h, trivial⟩
    · rename_i c hc
      split
      · exact ⟨h, trivial⟩
      · split
        · exact ⟨h, trivial⟩
        · rename_i hs
          have hpending := PendingSchema.start_coherent hs
          obtain ⟨_, d, hd, hold⟩ := h name c (schema?_of_getSchema hc)
          refine ⟨h, ⟨hpending.rules, hpending.properties, rfl⟩, fun d' hd' => ?_⟩
          have hd' : g.current.dialect = some d' := hd'
          rw [hd] at hd'
          exact hpending.dialect.trans (hold.dialect.trans (Option.some.inj hd'))
  | close =>
    refine ⟨fun k c hc => ?_, trivial⟩
    have hnone : (none : Option (Stamped SchemaContext)) = some c := hc
    cases hnone
  | setAuthentication _ | setCircuit _ | heartbeat => exact ⟨h, trivial⟩

theorem coheres_resume (env : Environment) {g : Registry} (h : g.current.Coherent)
    {purpose : Purpose} {pending : PendingSchema} (hp : purpose.Coheres g pending)
    (answer : Except Error (SortedMap Tables)) :
    (g.resume env purpose pending answer).1.current.Coherent ∧
      (g.resume env purpose pending answer).2.Coheres (g.resume env purpose pending answer).1 := by
  simp only [resume]
  split
  · cases purpose <;> exact ⟨h, trivial⟩
  · split
    · exact ⟨h, trivial⟩
    · cases purpose <;> exact ⟨h, trivial⟩
    · rename_i r context hb
      cases purpose with
      | reset a p d rest built =>
        obtain ⟨hpending, hbuilt⟩ := hp
        obtain ⟨_, hcontext⟩ := Resources.finishSchema_coherent hb hpending.rules
        rw [hpending.dialect, hpending.properties] at hcontext
        have hg : (g.owning r).current.Coherent := h
        refine coheres_nextSchema env hg a p d ?_ rest
        simpa [or_imp, forall_and] using ⟨hbuilt, hcontext⟩
      | add =>
        obtain ⟨hpending, hdialect⟩ := hp
        obtain ⟨_, hcontext⟩ := Resources.finishSchema_coherent hb hpending.rules
        rw [hpending.properties] at hcontext
        have hnext := h.withSchema hcontext hdialect
        simp only
        split <;> exact ⟨hnext, trivial⟩
      | reconcile x previous =>
        obtain ⟨hpending, hdialect⟩ := hp
        obtain ⟨_, hcontext⟩ := Resources.finishSchema_coherent hb hpending.rules
        rw [hpending.properties] at hcontext
        exact ⟨h.withSchema hcontext hdialect, trivial⟩

end Registry

end ShardRegistry
