import ShardRegistry.Proofs.Handling

/-! Ownership over whole runs. As long as no executor is too large, a change ends without a crash, and
between changes what is open is what is published. -/
namespace ShardRegistry

open Resources (Custody)

/-! ### Sizes of executors -/

/-- The properties that a change brings. -/
def Change.properties? : Change → Option Properties
  | .reset _ _ p _ | .setProperties p => some p
  | _ => none

/-- No executor of the size that the properties ask for is too large. -/
def Properties.Moderate (p : Properties) : Prop := p.executorSize ≤ Executor.limit

def Change.Moderate (c : Change) : Prop := ∀ p, c.properties? = some p → p.Moderate

def Purpose.Moderate : Purpose → Prop
  | .reset _ p _ _ _ => p.Moderate
  | .add | .reconcile _ _ => True

/-- A part of a change that did not crash, and will not. -/
def Step.Moderate : Step → Prop
  | .done outcome => outcome ≠ .error .crashed
  | .load purpose pending => pending.properties.Moderate ∧ purpose.Moderate

namespace Step.Moderate

theorem ok (n : Nat) : Step.Moderate (.done (.ok n)) := by
  intro h
  cases h

theorem rejected (e : Error) : Step.Moderate (.done (.error (.rejected e))) := by
  intro h
  cases h

theorem not_crashed {s : Step} (h : s.Moderate) : s ≠ .done (.error .crashed) := by
  rintro rfl
  exact h rfl

end Step.Moderate

namespace Registry

def Moderate (g : Registry) : Prop := g.current.properties.value.Moderate

theorem moderate_nextSchema (env : Environment) {g : Registry} (h : g.Moderate)
    (a : Authentication) {p : Properties} (hp : p.Moderate) (d : Dialect)
    (built : List (Stamped SchemaContext)) (rest : List (String × SchemaConfiguration)) :
    (g.nextSchema env a p d built rest).1.Moderate ∧
      (g.nextSchema env a p d built rest).2.Moderate := by
  cases rest with
  | nil => exact ⟨hp, .ok _⟩
  | cons e rest =>
    simp only [nextSchema]
    split
    · exact ⟨h, .rejected _⟩
    · split
      · exact ⟨h, .rejected _⟩
      · rename_i hs
        obtain ⟨_, _, hproperties⟩ := Withholds.pending_start hs
        refine ⟨h, ?_, hp⟩
        rw [hproperties]
        exact hp

theorem moderate_setProperties (g : Registry) {p : Properties} (hp : p.Moderate) :
    (g.setProperties p).1.Moderate ∧ (g.setProperties p).2.Moderate := by
  simp only [setProperties]
  split
  · rename_i hlarge
    simp only [Executor.isNone_ofSize?, Bool.and_eq_true, decide_eq_true_eq] at hlarge
    exact absurd hp (Nat.not_le_of_gt hlarge.1)
  · exact ⟨hp, .ok _⟩

theorem moderate_begin (env : Environment) {g : Registry} (h : g.Moderate) {change : Change}
    (hc : change.Moderate) : (g.begin env change).1.Moderate ∧ (g.begin env change).2.Moderate := by
  cases change with
  | reset schemas a p d => exact moderate_nextSchema env h a (hc p rfl) d [] schemas.entries
  | addSchema name ds rules =>
    simp only [begin, Registry.addSchema]
    split
    · exact ⟨h, .rejected _⟩
    · split
      · exact ⟨h, .rejected _⟩
      · split
        · exact ⟨h, .rejected _⟩
        · rename_i hs
          obtain ⟨_, _, hproperties⟩ := Withholds.pending_start hs
          refine ⟨h, ?_, trivial⟩
          rw [hproperties]
          exact h
  | deleteSchema name =>
    simp only [begin]
    split <;> exact ⟨h, .ok _⟩
  | setProperties p => exact moderate_setProperties g (hc p rfl)
  | setTables names tables =>
    obtain ⟨⟨stamps, hg⟩, _⟩ := Publishes.retable_eq tables names g
    simp only [begin, setTables]
    split
    · exact ⟨h, .ok _⟩
    · rename_i g' _ _ heq
      rw [heq] at hg
      simp only at hg
      subst hg
      exact ⟨h, .ok _⟩
  | setRules name rules =>
    simp only [begin, Registry.setRules]
    split
    · exact ⟨h, .rejected _⟩
    · split
      · exact ⟨h, .rejected _⟩
      · exact ⟨h, .ok _⟩
  | setDisabled name backend off =>
    simp only [begin]
    split
    · exact ⟨h, .rejected _⟩
    · exact ⟨h, .ok _⟩
  | setDataSources name new =>
    simp only [begin, Registry.setDataSources]
    split
    · exact ⟨h, .rejected _⟩
    · split
      · exact ⟨h, .rejected _⟩
      · split
        · exact ⟨h, .rejected _⟩
        · rename_i hs
          obtain ⟨_, _, hproperties⟩ := Withholds.pending_start hs
          refine ⟨h, ?_, trivial⟩
          rw [hproperties]
          exact h
  | setAuthentication _ | setCircuit _ | heartbeat | close => exact ⟨h, .ok _⟩

theorem moderate_resume (env : Environment) {g : Registry} (h : g.Moderate) {purpose : Purpose}
    {pending : PendingSchema} (hs : (Step.load purpose pending).Moderate)
    (answer : Except Error (SortedMap Tables)) :
    (g.resume env purpose pending answer).1.Moderate ∧
      (g.resume env purpose pending answer).2.Moderate := by
  simp only [resume]
  split
  · cases purpose <;> exact ⟨h, .rejected _⟩
  · split
    · rename_i hb
      rcases Resources.finishSchema_cases hb with ⟨_, herr, _⟩ | ⟨_, hlarge, _⟩ | ⟨_, hok, _⟩
      · cases herr
      · exact absurd hs.1 (Nat.not_le_of_gt hlarge)
      · cases hok
    · cases purpose <;> exact ⟨h, .rejected _⟩
    · rename_i r context _
      have hr : (g.owning r).Moderate := h
      cases purpose with
      | reset a p d rest built => exact moderate_nextSchema env hr a hs.2 d (built ++ [context]) rest
      | add =>
        simp only
        split
        · exact ⟨h, .ok _⟩
        · exact ⟨h, .ok _⟩
      | reconcile x previous => exact ⟨h, .ok _⟩

/-! ### Runs -/

/-- The registries that come of handling events, one after the other, and of closing. Each event has
its own factory and its own answers to loads, and none that is accepted asks for an executor that is
too large. -/
inductive Reached : Registry → Prop where
  | empty : Reached .empty
  | handled {env : Environment} {g : Registry} {event : Event} {r : Registry × Except Stop Nat}
      (h : Reached g) (hm : ∀ change, Change.ofEvent event = .ok change → change.Moderate)
      (hr : Handles env g event r) : Reached r.1
  | closed {g : Registry} (h : Reached g) : Reached g.close.1

theorem Ends.keeps {env : Environment} {x : Registry × Step} {r : Registry × Except Stop Nat}
    (h : Ends env x r) (hk : x.1.Keeps x.2.pools x.2.engines)
    (hf : ∀ purpose pending, x.2 = .load purpose pending → purpose.Fits x.1 pending)
    (hm : x.1.Moderate ∧ x.2.Moderate) : r.1.Keeps [] [] ∧ r.1.Moderate := by
  induction h with
  | done g outcome => exact ⟨hk, hm.1⟩
  | load answer h ih =>
    rename_i g purpose pending r
    have hm' := moderate_resume env hm.1 hm.2 answer
    have hp := Proceeds.resume env (hf purpose pending rfl) answer
    have hk' : g.Keeps (purpose.pools pending ++ []) (purpose.engines ++ []) := by
      rw [List.append_nil, List.append_nil]
      exact hk
    obtain ⟨hkeeps, _, hfits⟩ := hp.keeps hk' (Step.Moderate.not_crashed hm'.2)
    rw [List.append_nil, List.append_nil] at hkeeps
    exact ih hkeeps hfits hm'

theorem Reached.keeps {g : Registry} (h : Reached g) : g.Keeps [] [] ∧ g.Moderate := by
  induction h with
  | empty =>
    refine ⟨⟨?_, nofun, nofun⟩, Nat.zero_le _⟩
    exact (Custody.start {}).of_eq rfl rfl rfl rfl (List.prefix_refl _)
  | handled _ hm hr ih =>
    rename_i env g event r _
    obtain ⟨hk, hg⟩ := ih
    cases hr with
    | refused _ => exact ⟨hk, hg⟩
    | applied hc hr =>
      have hm' := moderate_begin env hg (hm _ hc)
      obtain ⟨hkeeps, _, hfits⟩ := (Proceeds.begin env g _).keeps hk (Step.Moderate.not_crashed hm'.2)
      rw [List.append_nil, List.append_nil] at hkeeps
      exact hr.keeps hkeeps hfits hm'
  | closed _ ih =>
    obtain ⟨hk, hg⟩ := ih
    exact ⟨(Publishes.close _ [] [] hk).1, hg⟩

/-- Between events a pool is published in one slot and nobody asked it to close, or it is in no slot
and was asked once; an engine is that of one published schema, or it is closed. -/
theorem owned_or_closed {g : Registry} (h : Reached g) :
    (∀ (p : PoolId) (x : Pool), g.resources.pools[p]? = some x →
      (x.isClosed = false ∧ x.closeAttempts = 0 ∧
        ∃! slot : String × String, g.current.pool? slot.1 slot.2 = some p) ∨
      (x.isClosed = true ∧ x.closeAttempts = 1 ∧
        ∀ schema backend, g.current.pool? schema backend ≠ some p)) ∧
    (∀ (e : EngineId) (x : Engine), g.resources.engines[e]? = some x →
      (x.isClosed = false ∧
        ∃! schema, ∃ c, g.current.schema? schema = some c ∧ c.value.engine = e) ∨
      (x.isClosed = true ∧
        ∀ schema c, g.current.schema? schema = some c → c.value.engine ≠ e)) := by
  have hk := h.keeps.1
  refine ⟨?_, ?_⟩
  · intro p x hx
    have hclosing := hk.custody.pools.closing p x (Nat.zero_le _) hx
    rw [List.nil_append, Pool.closing] at hclosing
    by_cases hp : p ∈ g.current.holdings.pools
    · simp only [hp, if_true, Prod.mk.injEq] at hclosing
      obtain ⟨schema, backend, hslot⟩ := (Holdings.mem_pools_iff _ p).1 hp
      refine .inl ⟨hclosing.1, hclosing.2, (schema, backend), ?_, ?_⟩
      · exact (Snapshot.pool?_holdings _ _ _).symm.trans hslot
      · intro slot hs
        have hs' := (Snapshot.pool?_holdings _ _ _).trans hs
        exact Holdings.pool?_injective hk.nodup_pools hs' hslot
    · simp only [hp, if_false, Prod.mk.injEq] at hclosing
      refine .inr ⟨hclosing.1, hclosing.2, ?_⟩
      intro schema backend hslot
      rw [← Snapshot.pool?_holdings] at hslot
      exact hp ((Holdings.mem_pools_iff _ p).2 ⟨schema, backend, hslot⟩)
  · intro e x hx
    have hclosed := hk.custody.engines.closed e x (Nat.zero_le _) hx
    rw [List.nil_append] at hclosed
    by_cases he : e ∈ g.current.holdings.engines
    · obtain ⟨schema, holding, hf, hengine⟩ := (Holdings.mem_engines_iff _ e).1 he
      refine .inl ⟨by simpa [he] using hclosed, schema, ?_, ?_⟩
      · have hfound := hf
        rw [Snapshot.find?_holdings] at hfound
        obtain ⟨c, hc, rfl⟩ := Option.map_eq_some_iff.1 hfound
        exact ⟨c, hc, hengine⟩
      · rintro schema' ⟨c, hc, hsame⟩
        have hf' : g.current.holdings.find? schema' = some c.value.holding :=
          Snapshot.find?_of_schema? hc
        exact Holdings.engine_injective hk.nodup_engines hf' hf (hsame.trans hengine.symm)
    · refine .inr ⟨hclosed.2 he, ?_⟩
      intro schema c hc hsame
      have hf := Snapshot.find?_of_schema? hc
      exact he ((Holdings.mem_engines_iff _ e).2 ⟨schema, c.value.holding, hf, hsame⟩)

/-- A schema of two backends, of which one is then modified and the other one deleted. -/
def reconciled : Registry :=
  let env : Environment := { factory := .immediate [] [] }
  let load : Loader := fun _ _ => .ok .empty
  let added := Registry.empty.handle env load (.schemaAdded "s" twoBackends [])
  (added.1.handle env load
    (.dataSourcesChanged "s" (.ofList [("b0", { url := "postgresql://other/d" })]))).1

theorem owned_or_closed_reconciled :
    Reached reconciled ∧ reconciled.resources.pools.map (·.isClosed) = [true, true, false] ∧
    ∀ x, reconciled.resources.pools[2]? = some x →
      (x.isClosed = false ∧ x.closeAttempts = 0 ∧
        ∃! slot : String × String, reconciled.current.pool? slot.1 slot.2 = some 2) ∨
      (x.isClosed = true ∧ x.closeAttempts = 1 ∧
        ∀ schema backend, reconciled.current.pool? schema backend ≠ some 2) := by
  have h : Reached reconciled := by
    refine .handled (.handled .empty ?_ (handles_handle _ _ _ _)) ?_ (handles_handle _ _ _ _)
    · rintro _ ⟨⟩ _ ⟨⟩
    · rintro _ ⟨⟩ _ ⟨⟩
  exact ⟨h, by decide, (owned_or_closed h).1 2⟩

end Registry

end ShardRegistry
