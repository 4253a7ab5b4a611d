import ShardRegistry.Schema.Build

/-! What the operations on resources come to, in closed form. Operations that work through several
others are said here to change a few fields and nothing else; later proofs cite these statements and
open no definition. -/
namespace ShardRegistry

namespace Resources

theorem addEngine_eq (r : Resources) (pools : OrderedMap PoolId) :
    r.addEngine pools =
      ({ r with managers := r.managers ++ [{ kind := .xa, pools }, { kind := .base, pools }]
                engines := r.engines ++ [{ xa := r.managers.length, base := r.managers.length + 1 }] },
        r.engines.length) := by
  simp [addEngine, addManager]

/-- Clearing pins changes the pins of the transactions in question at most. -/
theorem clearFree_fst (ts : List TransactionId) (r : Resources) :
    ∃ pins, (r.clearFree ts).1 = { r with pins } ∧ pins.length = r.pins.length ∧
      ∀ i : Nat, (∀ t ∈ ts, t.serial ≠ i) → pins[i]? = r.pins[i]? := by
  induction ts generalizing r with
  | nil => exact ⟨r.pins, rfl, rfl, fun _ _ => rfl⟩
  | cons t ts ih =>
    simp only [clearFree]
    split
    · obtain ⟨pins, he, hl, hp⟩ := ih (r.clearPins t)
      refine ⟨pins, he, by simpa [clearPins, modifyPins] using hl, ?_⟩
      intro i hi
      rw [hp i fun t' ht' => hi t' (List.mem_cons_of_mem t ht')]
      exact List.getElem?_modify_ne _ _ (hi t (by simp))
    · obtain ⟨pins, he, hl, hp⟩ := ih r
      exact ⟨pins, he, hl, fun i hi => hp i fun t' ht' => hi t' (List.mem_cons_of_mem t ht')⟩

/-- Closing a manager, once it is open, empties its table; only pins of its own transactions go. -/
theorem closeManager_fst {r : Resources} {m : ManagerId} {x : Manager}
    (hm : r.managers[m]? = some x) (hx : x.isClosed = false) :
    ∃ pins, (r.closeManager m).1 =
        { r with
          managers := r.managers.modify m fun y => { y with isClosed := true, active := [] }
          pins } ∧
      pins.length = r.pins.length ∧
      ∀ i : Nat, (∀ t ∈ x.active, t.serial ≠ i) → pins[i]? = r.pins[i]? := by
  simp only [closeManager, hm, hx]
  exact clearFree_fst x.active _

theorem closeManager_only (r : Resources) (m : ManagerId) :
    ∃ managers pins, (r.closeManager m).1 = { r with managers, pins } := by
  simp only [closeManager]
  split
  · exact ⟨_, _, rfl⟩
  · split
    · exact ⟨_, _, rfl⟩
    · rename_i x _ _
      obtain ⟨pins, h, _⟩ := clearFree_fst x.active
        (r.modifyManager m fun y => { y with isClosed := true, active := [] })
      exact ⟨_, pins, h⟩

theorem closeEngineQuietly_only (r : Resources) (e : EngineId) :
    ∃ engines managers pins, r.closeEngineQuietly e = { r with engines, managers, pins } := by
  simp only [closeEngineQuietly, closeEngine]
  split
  · exact ⟨_, _, _, rfl⟩
  · split
    · exact ⟨_, _, _, rfl⟩
    · rename_i x _ _
      let r₁ := { r with engines := r.engines.modify e fun y => { y with isClosed := true } }
      obtain ⟨managers₁, pins₁, h₁⟩ := closeManager_only r₁ x.xa
      obtain ⟨managers₂, pins₂, h₂⟩ := closeManager_only (r₁.closeManager x.xa).1 x.base
      exact ⟨_, managers₂, pins₂, h₂.trans (by rw [h₁])⟩

/-- Closing an open engine with its two managers open empties both tables. -/
theorem closeEngineQuietly_eq {r : Resources} {e : EngineId} {x : Engine} {a b : Manager}
    (he : r.engines[e]? = some x) (hx : x.isClosed = false) (hne : x.xa ≠ x.base)
    (ha : r.managers[x.xa]? = some a) (hca : a.isClosed = false)
    (hb : r.managers[x.base]? = some b) (hcb : b.isClosed = false) :
    ∃ pins, r.closeEngineQuietly e =
        { r with
          engines := r.engines.modify e fun y => { y with isClosed := true }
          managers := (r.managers.modify x.xa fun y => { y with isClosed := true, active := [] }).modify
            x.base fun y => { y with isClosed := true, active := [] }
          pins } ∧
      pins.length = r.pins.length ∧
      ∀ i : Nat, (∀ t ∈ a.active ++ b.active, t.serial ≠ i) → pins[i]? = r.pins[i]? := by
  let r₁ := { r with engines := r.engines.modify e fun y => { y with isClosed := true } }
  obtain ⟨pins₁, h₁, hl₁, hp₁⟩ := closeManager_fst (r := r₁) ha hca
  obtain ⟨pins₂, h₂, hl₂, hp₂⟩ := closeManager_fst (r := (r₁.closeManager x.xa).1) (m := x.base)
    (x := b) (by rw [h₁]; simpa [hne] using hb) hcb
  refine ⟨pins₂, ?_, ?_, ?_⟩
  · simp only [closeEngineQuietly, closeEngine, he, hx]
    exact h₂.trans (by rw [h₁])
  · rw [hl₂, h₁]
    exact hl₁
  · intro i hi
    rw [hp₂ i fun t ht => hi t (List.mem_append_right _ ht), h₁]
    exact hp₁ i fun t ht => hi t (List.mem_append_left _ ht)

theorem instantiate_fst (rules : List Rule) (r : Resources) :
    ∃ sets, (r.instantiate rules).1 = { r with disabled := r.disabled ++ sets } := by
  induction rules generalizing r with
  | nil => exact ⟨[], by simp [instantiate]⟩
  | cons rule rules ih =>
    obtain ⟨sets, h⟩ := ih r.addDisabled.1
    refine ⟨[] :: sets, ?_⟩
    simp only [instantiate]
    rw [h]
    simp [addDisabled]

/-- Starting a runtime fails for want of size only, and else starts an engine. -/
theorem startRuntime_cases (r : Resources) (dialect : Dialect) (m : DataSourceMap) (size : Nat) :
    (size > Executor.limit ∧ r.startRuntime dialect m size = (r, .error .crashed)) ∨
    (size ≤ Executor.limit ∧ ∃ stamps runtime, runtime.value.engine = r.engines.length ∧
      r.startRuntime dialect m size =
        ({ (r.addEngine m.pools).1 with stamps }, .ok runtime)) := by
  by_cases hs : size > Executor.limit
  · exact .inl ⟨hs, by simp [startRuntime, Executor.ofSize?, hs]⟩
  · refine .inr ⟨Nat.le_of_not_gt hs, ?_⟩
    simp only [startRuntime, Executor.ofSize?_eq_some_iff.2 ⟨Nat.le_of_not_gt hs, rfl⟩]
    split
    · exact ⟨_, _, rfl, rfl⟩
    · exact ⟨_, _, rfl, rfl⟩

/-- A schema is completed with an engine of its own, or there is no engine: it is rejected without a
trace, or its executor is too large. -/
theorem finishSchema_cases {r r' : Resources} {p : PendingSchema} {loaded : SortedMap Tables}
    {result : Except Stop (Stamped SchemaContext)} (h : r.finishSchema p loaded = (r', result)) :
    (∃ e, result = .error (.rejected e) ∧ r' = r) ∨
    (result = .error .crashed ∧ p.properties.executorSize > Executor.limit ∧
      ∃ sets stamps, r' = { r with disabled := r.disabled ++ sets, stamps }) ∨
    (∃ c, result = .ok c ∧ c.value.name = p.name ∧ c.value.dataSources = p.dataSources ∧
      c.value.engine = r.engines.length ∧
      ∃ sets stamps, r' =
        { (r.addEngine p.dataSources.pools).1 with disabled := r.disabled ++ sets, stamps }) := by
  simp only [finishSchema] at h
  split at h
  · cases h
    exact .inl ⟨_, rfl, rfl⟩
  · obtain ⟨sets, hsets⟩ := instantiate_fst p.rules r
    rw [hsets] at h
    rcases startRuntime_cases _ p.dialect p.dataSources p.properties.executorSize with
      ⟨hsize, hrun⟩ | ⟨_, stamps, runtime, hengine, hrun⟩
    · rw [hrun] at h
      cases h
      exact .inr (.inl ⟨rfl, hsize, sets, _, rfl⟩)
    · rw [hrun] at h
      cases h
      exact .inr (.inr ⟨_, rfl, rfl, rfl, hengine, sets, _, rfl⟩)

theorem finishSchema_names {r r' : Resources} {p : PendingSchema} {loaded : SortedMap Tables}
    {c : Stamped SchemaContext} (h : r.finishSchema p loaded = (r', .ok c)) :
    c.value.name = p.name ∧ c.value.dataSources = p.dataSources := by
  rcases finishSchema_cases h with ⟨_, herr, _⟩ | ⟨herr, _⟩ | ⟨_, hok, hname, hsources, _⟩
  · cases herr
  · cases herr
  · cases hok
    exact ⟨hname, hsources⟩

end Resources

end ShardRegistry
