import ShardRegistry.Proofs.Publication
import ShardRegistry.Registry.Handle

/-! Handling events, whatever the loads of tables answer. A rejected event leaves the registry as it
was, with all that was built closed; and between events every pool and every engine is published or
closed. -/
namespace ShardRegistry

open Resources (Custody)

namespace Registry

/-- The ends of a change that stands at a step, for any answers to its loads. -/
inductive Ends (env : Environment) : Registry × Step → Registry × Except Stop Nat → Prop where
  | done (g : Registry) (outcome : Except Stop Nat) : Ends env (g, .done outcome) (g, outcome)
  | load {g : Registry} {purpose : Purpose} {pending : PendingSchema}
      {r : Registry × Except Stop Nat} (answer : Except Error (SortedMap Tables))
      (h : Ends env (g.resume env purpose pending answer) r) :
      Ends env (g, .load purpose pending) r

/-- The ways in which an event can be handled. -/
inductive Handles (env : Environment) (g : Registry) (event : Event) :
    Registry × Except Stop Nat → Prop where
  | refused {e : Error} (h : Change.ofEvent event = .error e) :
      Handles env g event (g, .error (.rejected e))
  | applied {change : Change} {r : Registry × Except Stop Nat}
      (h : Change.ofEvent event = .ok change) (hr : Ends env (g.begin env change) r) :
      Handles env g event r

theorem Ends.of_done {env : Environment} {x : Registry × Step} {outcome : Except Stop Nat}
    {r : Registry × Except Stop Nat} (h : Ends env x r) (hx : x.2 = .done outcome) :
    r = (x.1, outcome) := by
  cases h with
  | done g o =>
    cases hx
    rfl
  | load _ _ => cases hx

/-! ### One way of handling -/

theorem loads_nextSchema (env : Environment) (g : Registry) (a : Authentication) (p : Properties)
    (d : Dialect) (built : List (Stamped SchemaContext))
    (rest : List (String × SchemaConfiguration)) :
    (g.nextSchema env a p d built rest).2.loads ≤ rest.length := by
  cases rest with
  | nil => exact Nat.le_refl 0
  | cons e rest =>
    simp only [nextSchema]
    split
    · exact Nat.zero_le _
    · split
      · exact Nat.zero_le _
      · simp [Step.loads]

theorem loads_resume (env : Environment) (g : Registry) (purpose : Purpose)
    (pending : PendingSchema) (answer : Except Error (SortedMap Tables)) :
    (g.resume env purpose pending answer).2.loads < (Step.load purpose pending).loads := by
  have hpos : 0 < (Step.load purpose pending).loads := by cases purpose <;> simp [Step.loads]
  simp only [resume]
  split
  · exact hpos
  · split
    · exact hpos
    · exact hpos
    · cases purpose with
      | reset a p d rest built => exact Nat.lt_succ_of_le (loads_nextSchema env _ a p d _ rest)
      | add =>
        simp only
        split <;> exact hpos
      | reconcile x previous => exact hpos

theorem ends_drive (env : Environment) (load : Loader) {fuel : Nat} {x : Registry × Step}
    (h : x.2.loads ≤ fuel) : Ends env x (drive env load fuel x) := by
  induction fuel generalizing x with
  | zero =>
    obtain ⟨g, s⟩ := x
    cases s with
    | done outcome => exact .done g outcome
    | load purpose pending => cases purpose <;> simp [Step.loads] at h
  | succ fuel ih =>
    obtain ⟨g, s⟩ := x
    cases s with
    | done outcome => exact .done g outcome
    | load purpose pending =>
      refine .load (load pending.dialect pending.dataSources) (ih ?_)
      have hlt := loads_resume env g purpose pending (load pending.dialect pending.dataSources)
      simp only at h
      omega

/-- Handling with a loader is one of the ways to handle an event. -/
theorem handles_handle (env : Environment) (load : Loader) (g : Registry) (event : Event) :
    Handles env g event (g.handle env load event) := by
  simp only [handle]
  split
  · exact .refused ‹_›
  · exact .applied ‹_› (ends_drive env load (Nat.le_refl _))

/-! ### Rejections -/

theorem Withholds.trans {g g' : Registry} {purpose : Purpose} {pending : PendingSchema}
    {ps es : List Nat} {x : Registry × Step} (h : g.Withholds ps es (g', .load purpose pending))
    (h' : g'.Withholds (purpose.pools pending) purpose.engines x) : g.Withholds ps es x where
  face := by
    have hface : g' = g.owning g'.resources := h.face
    calc x.1 = g'.owning x.1.resources := h'.face
      _ = g.owning x.1.resources := by
        rw [hface]
        rfl
  grows := h.grows.trans h'.grows
  fits := h'.fits
  custody r₀ qs fs hk := h'.custody r₀ qs fs (h.custody r₀ qs fs hk)

theorem Ends.withholds {env : Environment} {g : Registry} {x : Registry × Step}
    {r : Registry × Except Stop Nat} {e : Error} (h : Ends env x r) (hx : g.Withholds [] [] x)
    (hr : r.2 = .error (.rejected e)) : g.Withholds [] [] (r.1, .done r.2) := by
  induction h with
  | done g' outcome => exact hx
  | load answer h ih =>
    rcases Proceeds.resume env hx.fits answer with hw | hcrash | ⟨⟨n, hok⟩, _⟩
    · exact ih (hx.trans hw) hr
    · rw [h.of_done hcrash] at hr
      cases hr
    · rw [h.of_done hok] at hr
      cases hr

theorem Handles.withholds {env : Environment} {g g' : Registry} {event : Event} {e : Error}
    (h : Handles env g event (g', .error (.rejected e))) :
    g.Withholds [] [] (g', .done (.error (.rejected e))) := by
  cases h with
  | refused h => exact .reject g e
  | applied h hr =>
    rcases Proceeds.begin env g _ with hw | hcrash | ⟨⟨n, hok⟩, _⟩
    · exact hr.withholds hw rfl
    · cases hr.of_done hcrash
    · cases hr.of_done hok

/-- A rejected event leaves the snapshot, the circuit breaker, the locks, and all pools, engines,
managers, pins and disabled replicas as they were; what was built on the way is closed. -/
theorem unchanged_of_rejected {env : Environment} {g g' : Registry} {event : Event} {e : Error}
    (h : Handles env g event (g', .error (.rejected e))) :
    (g'.snapshot = g.snapshot ∧ g'.circuitOpen = g.circuitOpen ∧ g'.heartbeats = g.heartbeats ∧
      g'.lockTable = g.lockTable ∧ g'.resources.locks = g.resources.locks) ∧
    (g.resources.pools <+: g'.resources.pools ∧ g.resources.engines <+: g'.resources.engines ∧
      g.resources.managers <+: g'.resources.managers ∧ g.resources.pins <+: g'.resources.pins ∧
      g.resources.disabled <+: g'.resources.disabled) ∧
    (∀ (p : PoolId) (x : Pool), g.resources.pools.length ≤ p → g'.resources.pools[p]? = some x →
      x.isClosed = true ∧ x.closeAttempts = 1) ∧
    (∀ (i : EngineId) (x : Engine), g.resources.engines.length ≤ i →
      g'.resources.engines[i]? = some x → x.isClosed = true) := by
  have hw := h.withholds
  have hc : Custody g.resources g'.resources [] [] :=
    hw.custody g.resources [] [] (Custody.start g.resources)
  have hface : g' = g.owning g'.resources := hw.face
  refine ⟨?_, ⟨hc.pools.kept, hc.engines.engines_kept, hc.engines.managers_kept,
    hc.engines.pins_kept, hc.disabled_kept⟩, ?_, ?_⟩
  · refine ⟨?_, ?_, ?_, ?_, hw.grows.locks⟩ <;> rw [hface] <;> rfl
  · intro p x hp hx
    have hclosing := hc.pools.closing p x hp hx
    simpa [Pool.closing] using hclosing
  · intro i x hi hx
    exact (hc.engines.closed i x hi hx).2 List.not_mem_nil

/-- Two backends of one host. -/
def twoBackends : ParameterMap :=
  .ofList [("b0", { url := "postgresql://host/d0" }), ("b1", { url := "postgresql://host/d1" })]

/-- The pool of the second backend cannot be built: that of the first one is closed again. -/
theorem unchanged_of_rejected_pool :
    let x := Registry.empty.handle { factory := .immediate ["b1"] [] } (fun _ _ => .ok .empty)
      (.schemaAdded "s" twoBackends [])
    x.1.resources.pools.length = 1 ∧ x.1.snapshot = Registry.empty.snapshot ∧
      ∀ y, x.1.resources.pools[0]? = some y → y.isClosed = true ∧ y.closeAttempts = 1 := by
  intro x
  have hx : ∃ e, x.2 = .error (.rejected e) := ⟨_, rfl⟩
  obtain ⟨e, he⟩ := hx
  have h : Handles { factory := .immediate ["b1"] [] } .empty (.schemaAdded "s" twoBackends [])
      (x.1, .error (.rejected e)) := by
    rw [← he]
    exact handles_handle _ (fun _ _ => .ok .empty) _ _
  have hsame := unchanged_of_rejected h
  exact ⟨by decide, hsame.1.1, fun y => hsame.2.2.1 0 y (Nat.zero_le _)⟩

end Registry

end ShardRegistry
