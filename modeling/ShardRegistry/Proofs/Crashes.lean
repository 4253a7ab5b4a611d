import ShardRegistry.Proofs.Ownership

/-! Crashes. Of all that a change can do, only the start of an executor can crash the process, and
only for a size beyond what can be served. Such sizes are found acceptable when properties are read,
so the crash comes when a schema is built or resized under them. -/
namespace ShardRegistry

/-- The properties that a change builds or resizes schemas under. -/
def Change.governing (c : Change) (g : Registry) : Properties :=
  c.properties?.getD g.current.properties.value

/-- The properties of all schemas of a reset. -/
def Purpose.properties? : Purpose → Option Properties
  | .reset _ p _ _ _ => some p
  | .add | .reconcile _ _ => none

/-- The tables of the schema are loaded and fit its rules: only its runtime is left to start. -/
def PendingSchema.Completes (p : PendingSchema) (loaded : Except Error (SortedMap Tables)) : Prop :=
  ∃ tables decorated, loaded = .ok tables ∧
    decorate tables p.rules p.properties.checkTableMetadataEnabled = .ok decorated

/-- A part of a change that did not crash, and goes on to build schemas under `p` only. -/
def Step.Governed (p : Properties) : Step → Prop
  | .done outcome => outcome ≠ .error .crashed
  | .load purpose pending => pending.properties = p ∧ ∀ q, purpose.properties? = some q → q = p

namespace Step.Governed

theorem ok (p : Properties) (n : Nat) : Step.Governed p (.done (.ok n)) := by
  intro h
  cases h

theorem rejected (p : Properties) (e : Error) :
    Step.Governed p (.done (.error (.rejected e))) := by
  intro h
  cases h

end Step.Governed

/-- A schema that completes gets its executor or crashes for its size; any other is rejected. -/
theorem Resources.finishSchema_outcome (r : Resources) (p : PendingSchema)
    (tables : SortedMap Tables) :
    (¬ p.Completes (.ok tables) ∧ ∃ e, (r.finishSchema p tables).2 = .error (.rejected e)) ∨
    (p.Completes (.ok tables) ∧ Executor.limit < p.properties.executorSize ∧
      (r.finishSchema p tables).2 = .error .crashed) ∨
    (p.Completes (.ok tables) ∧ p.properties.executorSize ≤ Executor.limit ∧
      ∃ c, (r.finishSchema p tables).2 = .ok c) := by
  cases hd : decorate tables p.rules p.properties.checkTableMetadataEnabled with
  | error f =>
    refine .inl ⟨?_, f.error, by simp [finishSchema, hd]⟩
    rintro ⟨_, decorated, ⟨⟩, hok⟩
    rw [hd] at hok
    cases hok
  | ok decorated =>
    have hcompletes : p.Completes (.ok tables) := ⟨tables, decorated, rfl, hd⟩
    simp only [finishSchema, hd]
    rcases startRuntime_cases _ p.dialect p.dataSources p.properties.executorSize with
      ⟨hsize, hrun⟩ | ⟨hsize, _, _, _, hrun⟩
    · rw [hrun]
      exact .inr (.inl ⟨hcompletes, hsize, rfl⟩)
    · rw [hrun]
      exact .inr (.inr ⟨hcompletes, hsize, _, rfl⟩)

namespace Registry

theorem governed_nextSchema (env : Environment) (g : Registry) (a : Authentication)
    (p : Properties) (d : Dialect) (built : List (Stamped SchemaContext))
    (rest : List (String × SchemaConfiguration)) :
    (g.nextSchema env a p d built rest).2.Governed p := by
  cases rest with
  | nil => exact .ok _ _
  | cons e rest =>
    simp only [nextSchema]
    split
    · exact .rejected _ _
    · split
      · exact .rejected _ _
      · rename_i hs
        obtain ⟨_, _, hproperties⟩ := Withholds.pending_start hs
        exact ⟨hproperties, fun q hq => (Option.some.inj hq).symm⟩

/-- The first part of a change crashes when there are executors to resize, and never else. -/
theorem begin_cases (env : Environment) (g : Registry) (change : Change) :
    ((g.begin env change).2 = .done (.error .crashed) ∧ ∃ p, change = .setProperties p ∧
      Executor.limit < p.executorSize ∧ g.current.schemas.isEmpty = false) ∨
    ((g.begin env change).2.Governed (change.governing g) ∧ ∀ p, change = .setProperties p →
      (g.begin env change).2.loads = 0 ∧
        ¬ (Executor.limit < p.executorSize ∧ g.current.schemas.isEmpty = false)) := by
  have hother : (∀ p, change ≠ .setProperties p) → ∀ p, change = .setProperties p →
      (g.begin env change).2.loads = 0 ∧
        ¬ (Executor.limit < p.executorSize ∧ g.current.schemas.isEmpty = false) :=
    fun h p hp => absurd hp (h p)
  cases change with
  | setProperties p =>
    simp only [begin, setProperties, Executor.isNone_ofSize?]
    by_cases hlarge : (decide (p.executorSize > Executor.limit) &&
        !g.current.schemas.isEmpty) = true
    · rw [if_pos hlarge]
      simp only [Bool.and_eq_true, decide_eq_true_eq, Bool.not_eq_true'] at hlarge
      exact .inl ⟨rfl, p, rfl, hlarge⟩
    · rw [if_neg hlarge]
      simp only [Bool.and_eq_true, decide_eq_true_eq, Bool.not_eq_true'] at hlarge
      refine .inr ⟨.ok _ _, ?_⟩
      rintro _ ⟨⟩
      exact ⟨rfl, hlarge⟩
  | reset schemas a p d =>
    exact .inr ⟨governed_nextSchema env g a p d [] schemas.entries, hother (by simp)⟩
  | addSchema name ds rules =>
    refine .inr ⟨?_, hother (by simp)⟩
    simp only [begin, Registry.addSchema]
    split
    · exact .rejected _ _
    · split
      · exact .rejected _ _
      · split
        · exact .rejected _ _
        · rename_i hs
          exact ⟨(Withholds.pending_start hs).2.2, by simp [Purpose.properties?]⟩
  | setDataSources name new =>
    refine .inr ⟨?_, hother (by simp)⟩
    simp only [begin, Registry.setDataSources]
    split
    · exact .rejected _ _
    · split
      · exact .rejected _ _
      · split
        · exact .rejected _ _
        · rename_i hs
          exact ⟨(Withholds.pending_start hs).2.2, by simp [Purpose.properties?]⟩
  | deleteSchema name =>
    refine .inr ⟨?_, hother (by simp)⟩
    simp only [begin]
    split <;> exact .ok _ _
  | setTables names tables =>
    refine .inr ⟨?_, hother (by simp)⟩
    simp only [begin, setTables]
    split <;> exact .ok _ _
  | setRules name rules =>
    refine .inr ⟨?_, hother (by simp)⟩
    simp only [begin, Registry.setRules]
    split
    · exact .rejected _ _
    · split
      · exact .rejected _ _
      · exact .ok _ _
  | setDisabled name backend off =>
    refine .inr ⟨?_, hother (by simp)⟩
    simp only [begin]
    split
    · exact .rejected _ _
    · exact .ok _ _
  | setAuthentication _ | setCircuit _ | heartbeat | close => exact .inr ⟨.ok _ _, hother (by simp)⟩

/-- A further part crashes when the schema at hand is complete but for an executor that is too large;
under a size that can be served it goes on under the same properties. -/
theorem resume_cases (env : Environment) (g : Registry) (purpose : Purpose)
    (pending : PendingSchema) (answer : Except Error (SortedMap Tables)) :
    ((g.resume env purpose pending answer).2 = .done (.error .crashed) ∧
      pending.Completes answer ∧ Executor.limit < pending.properties.executorSize) ∨
    (∃ e, (g.resume env purpose pending answer).2 = .done (.error (.rejected e)) ∧
      ¬ pending.Completes answer) ∨
    (pending.properties.executorSize ≤ Executor.limit ∧ ∀ p,
      (Step.load purpose pending).Governed p → (g.resume env purpose pending answer).2.Governed p) := by
  cases answer with
  | error e => exact .inr (.inl ⟨e, rfl, fun ⟨_, _, h, _⟩ => by cases h⟩)
  | ok tables =>
    simp only [resume]
    rcases g.resources.finishSchema_outcome pending tables with
      ⟨hnot, e, hb⟩ | ⟨hcompletes, hlarge, hb⟩ | ⟨_, hsize, c, hb⟩
    · rw [← Prod.eta (g.resources.finishSchema pending tables), hb]
      exact .inr (.inl ⟨e, rfl, hnot⟩)
    · rw [← Prod.eta (g.resources.finishSchema pending tables), hb]
      exact .inl ⟨rfl, hcompletes, hlarge⟩
    · rw [← Prod.eta (g.resources.finishSchema pending tables), hb]
      refine .inr (.inr ⟨hsize, ?_⟩)
      rintro p ⟨_, hp⟩
      cases purpose with
      | reset a q d rest built =>
        obtain rfl := hp q rfl
        exact governed_nextSchema env _ a q d _ rest
      | add =>
        simp only
        split <;> exact .ok _ _
      | reconcile x previous => exact .ok _ _

theorem Ends.not_crashed {env : Environment} {x : Registry × Step} {r : Registry × Except Stop Nat}
    {p : Properties} (h : Ends env x r) (hx : x.2.Governed p)
    (hp : p.executorSize ≤ Executor.limit) : r.2 ≠ .error .crashed := by
  induction h with
  | done g outcome => exact hx
  | load answer h ih =>
    rename_i g purpose pending r
    rcases g.resume_cases env purpose pending answer with
      ⟨_, _, hlarge⟩ | ⟨e, hrejected, _⟩ | ⟨_, hnext⟩
    · obtain ⟨rfl, _⟩ := hx
      omega
    · rw [h.of_done hrejected]
      simp
    · exact ih (hnext p hx)

/-- A change builds or resizes an executor: there are schemas to resize, or the first schema that it
builds completes. -/
def StartsExecutor (env : Environment) (load : Loader) (g : Registry) (change : Change) : Prop :=
  (∃ p, change = .setProperties p ∧ g.current.schemas.isEmpty = false) ∨
  ∃ purpose pending, (g.begin env change).2 = .load purpose pending ∧
    pending.Completes (load pending.dialect pending.dataSources)

/-- What follows the first load of a change. -/
theorem ends_apply {env : Environment} (load : Loader) {g : Registry} {change : Change}
    {purpose : Purpose} {pending : PendingSchema}
    (h : (g.begin env change).2 = .load purpose pending) :
    Ends env ((g.begin env change).1.resume env purpose pending
      (load pending.dialect pending.dataSources)) (g.apply env load change) := by
  simp only [apply]
  generalize g.begin env change = begun at h ⊢
  obtain ⟨g', s⟩ := begun
  subst h
  have hlt := loads_resume env g' purpose pending (load pending.dialect pending.dataSources)
  obtain ⟨fuel, hfuel⟩ := Nat.exists_eq_succ_of_ne_zero (Nat.ne_zero_of_lt hlt)
  rw [hfuel] at hlt ⊢
  exact ends_drive env load (Nat.le_of_lt_succ hlt)

/-- A change crashes exactly when it comes to start an executor of a size that cannot be served; for
such a size none of the steps before that stops it. -/
theorem apply_crashed_iff (env : Environment) (load : Loader) (g : Registry) (change : Change) :
    (g.apply env load change).2 = .error .crashed ↔
      Executor.limit < (change.governing g).executorSize ∧ g.StartsExecutor env load change := by
  have hends : Ends env (g.begin env change) (g.apply env load change) :=
    ends_drive env load (Nat.le_refl _)
  rcases g.begin_cases env change with ⟨hcrashed, p, rfl, hlarge, hnonempty⟩ | ⟨hgoverned, hresized⟩
  · rw [hends.of_done hcrashed]
    exact iff_of_true rfl ⟨hlarge, .inl ⟨p, rfl, hnonempty⟩⟩
  · cases hstep : (g.begin env change).2 with
    | done outcome =>
      rw [hends.of_done hstep]
      rw [hstep] at hgoverned
      refine iff_of_false hgoverned ?_
      rintro ⟨hlarge, ⟨p, rfl, hnonempty⟩ | ⟨_, _, hload, _⟩⟩
      · exact (hresized p rfl).2 ⟨hlarge, hnonempty⟩
      · rw [hstep] at hload
        cases hload
    | load purpose pending =>
      have hnext := ends_apply load hstep
      rw [hstep] at hgoverned
      rcases resume_cases env (g.begin env change).1 purpose pending
        (load pending.dialect pending.dataSources) with
        ⟨hcrashed, hcompletes, hlarge⟩ | ⟨e, hrejected, hnot⟩ | ⟨hsize, hgoes⟩
      · rw [hnext.of_done hcrashed]
        rw [hgoverned.1] at hlarge
        exact iff_of_true rfl ⟨hlarge, .inr ⟨purpose, pending, hstep, hcompletes⟩⟩
      · rw [hnext.of_done hrejected]
        refine iff_of_false (by simp) ?_
        rintro ⟨_, ⟨p, rfl, _⟩ | ⟨purpose', pending', hload, hcompletes⟩⟩
        · have hzero := (hresized p rfl).1
          cases purpose <;> simp [hstep, Step.loads] at hzero
        · rw [hstep] at hload
          cases hload
          exact hnot hcompletes
      · rw [hgoverned.1] at hsize
        refine iff_of_false (hnext.not_crashed (hgoes _ hgoverned) hsize) ?_
        exact fun h => absurd hsize (Nat.not_le_of_gt h.1)

/-- Whatever its state and its loader, a registry crashes on an event exactly when the event is
acceptable and builds or resizes an executor for properties whose size is too large. -/
theorem handle_crashed_iff (env : Environment) (load : Loader) (g : Registry) (event : Event) :
    (g.handle env load event).2 = .error .crashed ↔
      ∃ change, Change.ofEvent event = .ok change ∧
        Executor.limit < (change.governing g).executorSize ∧ g.StartsExecutor env load change := by
  simp only [handle]
  cases hc : Change.ofEvent event with
  | error e => simp
  | ok change => simp [apply_crashed_iff]

/-- The first size that cannot be served is accepted, and crashes a registry with a schema. -/
theorem handle_crashed_iff_resized :
    let env : Environment := { factory := .immediate [] [] }
    let load : Loader := fun _ _ => .ok .empty
    let raw : RawProperties := SortedMap.empty.insert "executor.size" (.natural (Nat.pow 2 61))
    let g := (Registry.empty.handle env load (.schemaAdded "s" twoBackends [])).1
    g.schemaNames = ["s"] ∧ (∃ p, Properties.read raw = .ok p) ∧
      (g.handle env load (.propertiesChanged raw)).2 = .error .crashed := by
  intro env load raw g
  exact ⟨by decide, ⟨_, rfl⟩, (handle_crashed_iff env load g _).2
    ⟨.setProperties { raw, executorSize := Nat.pow 2 61 }, rfl, by decide, .inl ⟨_, rfl, by decide⟩⟩⟩

end Registry

end ShardRegistry
