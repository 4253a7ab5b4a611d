import ShardRegistry.Proofs.Coherence

/-! Setups. A schema is set up with the parameters of its backends, in whatever order, and with rule
configurations. -/
namespace ShardRegistry

/-! ### Maps -/

namespace OrderedMap
variable {α : Type}

/-- The same map with its entries in the order of their keys. -/
def sorted (m : OrderedMap α) : SortedMap α := .ofList m.entries

theorem find?_sorted (m : OrderedMap α) (k : String) : m.sorted.find? k = m.find? k := by
  refine Option.ext fun v => ?_
  rw [sorted, SortedMap.find?_ofList m.nodup, mem_entries_iff]

theorem sorted_congr {m m' : OrderedMap α} (h : ∀ k, m.find? k = m'.find? k) :
    m.sorted = m'.sorted :=
  SortedMap.ext_find? fun k => by rw [find?_sorted, find?_sorted, h]

end OrderedMap

/-! ### Schemas -/

/-- What a schema is set up with: the parameters of each backend, and rule configurations. -/
structure SchemaSetup where
  parameters : SortedMap ConnectionParameters
  configurations : List RuleConfiguration
  deriving DecidableEq

def SchemaConfiguration.setup (c : SchemaConfiguration) : SchemaSetup :=
  ⟨c.dataSources.sorted, c.rules⟩

def PendingSchema.setup (p : PendingSchema) : SchemaSetup :=
  ⟨p.dataSources.parameters.sorted, p.configurations⟩

def SchemaContext.setup (c : SchemaContext) : SchemaSetup :=
  ⟨c.dataSources.parameters.sorted, c.configurations⟩

theorem PendingSchema.start_setup {name : String} {m : DataSourceMap} {d : Dialect}
    {cs : List RuleConfiguration} {properties : Properties} {p : PendingSchema}
    (h : start name m d cs properties = .ok p) :
    p.name = name ∧ p.setup = ⟨m.parameters.sorted, cs⟩ := by
  simp only [start] at h
  split at h <;> cases h
  exact ⟨rfl, rfl⟩

theorem Resources.finishSchema_setup {r r' : Resources} {p : PendingSchema}
    {loaded : SortedMap Tables} {c : Stamped SchemaContext}
    (h : r.finishSchema p loaded = (r', .ok c)) :
    c.value.name = p.name ∧ c.value.setup = p.setup := by
  simp only [finishSchema] at h
  split at h
  · cases h
  · split at h <;> cases h
    exact ⟨rfl, rfl⟩

end ShardRegistry
