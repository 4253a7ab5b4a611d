import ShardRegistry.Proofs.Configuration
import ShardRegistry.Proofs.Making

/-! Dialects. A registry learns its dialect from the first data source that it is given, by a reset or by
the first schema that is added, and keeps it: neither the deletion of its last schema nor its closing takes
the dialect back. So an empty registry takes the dialect of the schema that is added to it only as long as
no reset and no schema was ever accepted. -/
namespace ShardRegistry

/-- The dialect of the first data source. -/
def ParameterMap.dialect? (ds : ParameterMap) : Option Dialect :=
  ds.values.head?.bind fun p => p.dialect.toOption

/-- Whether an event brings schemas. -/
def Event.brings : Event → Bool
  | .reset .. | .schemaAdded .. => true
  | _ => false

/-- The dialect after something happened: a reset tells it anew, and a schema that is added tells it to a
registry without one. -/
def Occurrence.dialectAfter (d : Option Dialect) : Occurrence → Option Dialect
  | .event (.reset schemas _ _) (.ok _) =>
    (Change.firstParameters schemas).bind fun p => p.dialect.toOption
  | .event (.schemaAdded _ ds _) (.ok _) => d.or (ParameterMap.dialect? ds)
  | _ => d

/-- A snapshot of coherent schemas keeps its dialect when one of them is replaced. -/
theorem Snapshot.dialect_withSchema {s : Snapshot} (h : s.Coherent) {k : String}
    {c : Stamped SchemaContext} (hc : s.schema? k = some c) (c' : Stamped SchemaContext) :
    (s.withSchema c').dialect = s.dialect := by
  obtain ⟨_, d, hd, _⟩ := h k c hc
  simp [Snapshot.withSchema, hd]

namespace Registry
variable {env : Environment} {g g' : Registry} {name : String} {ds : ParameterMap}
  {rules : List RuleConfiguration} {n : Nat} {d : Dialect}

/-! ### Added schemas -/

theorem Speaks.or_dialect? (h : g.Speaks d ds) : g.current.dialect.or ds.dialect? = some d := by
  rcases h with hknown | ⟨hnone, p, hp, hd⟩
  · rw [hknown]
    rfl
  · simp [hnone, ParameterMap.dialect?, hp, hd, Except.toOption]

/-- The first schema brings its dialect along, and another one has that of the snapshot. -/
theorem Speaks.dialect_withSchema (h : g.Speaks d ds) {c : Stamped SchemaContext}
    (hc : c.value.dialect = d) : (g.current.withSchema c).dialect = some d := by
  rcases h with hknown | ⟨hnone, _⟩
  · simp [Snapshot.withSchema, hknown]
  · simp [Snapshot.withSchema, hnone, hc]

theorem addSchema_unspoken (env : Environment) (h : ∀ d, ¬ g.Speaks d ds) (name : String)
    (rules : List RuleConfiguration) : ∃ e, g.addSchema env name ds rules = g.reject e := by
  have hnone : g.current.dialect = none :=
    Option.eq_none_iff_forall_ne_some.2 fun d hd => h d (.inl hd)
  cases hp : ds.values.head? with
  | none =>
    simp only [addSchema, hnone, hp]
    exact ⟨_, rfl⟩
  | some p =>
    cases hd : p.dialect with
    | error e => exact ⟨e, by simp only [addSchema, hnone, hp, hd]⟩
    | ok d => exact absurd (.inr ⟨hnone, p, hp, hd⟩) (h d)

/-- A schema is refused at once, or its tables are asked for under the dialect that the registry speaks. -/
theorem addSchema_cases (env : Environment) (g : Registry) (name : String) (ds : ParameterMap)
    (rules : List RuleConfiguration) :
    (∃ g' e, g.addSchema env name ds rules = (g', .done (.error (.rejected e)))) ∨
    ∃ d r pending, g.Speaks d ds ∧ g.addSchema env name ds rules = (g.owning r, .load .add pending) ∧
      pending.name = name ∧ pending.dialect = d := by
  by_cases hspeaks : ∃ d, g.Speaks d ds
  · obtain ⟨d, hd⟩ := hspeaks
    cases hb : g.resources.createDataSources env.factory ds with
    | mk r built =>
      cases built with
      | error e => exact .inl ⟨_, e, addSchema_unbuilt hd name rules hb⟩
      | ok m =>
        obtain ⟨hunruled, hruled⟩ := addSchema_built hd name rules hb
        cases hs : PendingSchema.start name m d rules g.current.properties.value with
        | error e => exact .inl ⟨_, e, hunruled e hs⟩
        | ok pending =>
          exact .inr ⟨d, r, pending, hd, hruled pending hs, (PendingSchema.start_setup hs).1,
            (PendingSchema.start_coherent hs).dialect⟩
  · obtain ⟨e, he⟩ := addSchema_unspoken env (fun d hd => hspeaks ⟨d, hd⟩) name rules
    exact .inl ⟨_, e, he⟩

/-- The one schema of a change that is accepted is published in the dialect that was begun with. -/
theorem Ends.publishes {purpose : Purpose} {pending : PendingSchema}
    (h : Ends env (g, .load purpose pending) (g', .ok n)) (hp : purpose.properties? = none) :
    ∃ c, g'.current = g.current.withSchema c ∧ c.value.name = pending.name ∧
      c.value.dialect = pending.dialect := by
  cases h with
  | load answer h =>
    rcases resume_complete env g purpose pending answer with
      ⟨_, _, _, hresume⟩ | ⟨tables, _, c, rfl, hfinish, hcomplete, _⟩
    · rw [hresume] at h
      cases h.of_done rfl
    · obtain ⟨_, _, hresume, hcurrent, _⟩ := resume_publishes env hp hfinish
      rw [hresume] at h
      cases h.of_done rfl
      exact ⟨c, hcurrent, SchemaContents.complete_eq_some hcomplete⟩

/-- A schema that is accepted is published under the dialect that the registry speaks for it. -/
theorem Handles.of_schemaAdded (h : Handles env g (.schemaAdded name ds rules) (g', .ok n)) :
    ∃ d c, g.Speaks d ds ∧ g'.current = g.current.withSchema c ∧ c.value.name = name ∧
      c.value.dialect = d := by
  cases h with
  | applied hchange hr =>
    cases hchange
    rw [begin] at hr
    rcases g.addSchema_cases env name ds rules with ⟨_, e, hrefused⟩ | ⟨d, r, pending, hd, hload, rfl, rfl⟩
    · rw [hrefused] at hr
      cases hr.of_done rfl
    · rw [hload] at hr
      obtain ⟨c, hcurrent, hname, hc⟩ := hr.publishes rfl
      exact ⟨_, c, hd, hcurrent, hname, hc⟩

end Registry

/-! ### Other events -/

/-- What an event yields that brings no schemas has the dialect that there was. -/
theorem Change.Yields.dialect {change : Change} {s s' : Stamped Snapshot} {e : Event}
    (h : change.Yields s s') (hchange : ofEvent e = .ok change) (hs : s.value.Coherent)
    (he : e.brings = false) : s'.value.dialect = s.value.dialect := by
  cases e with
  | reset | schemaAdded => cases he
  | schemaDeleted name =>
    cases hchange
    cases h with
    | deleteUnknown _ => rfl
    | deleteSchema _ heq => rw [heq]; rfl
  | propertiesChanged raw =>
    obtain ⟨p, _, hchange⟩ := bind_eq_ok hchange
    cases hchange
    cases h with
    | setProperties _ heq => rw [heq]; rfl
  | authenticationChanged a =>
    cases hchange
    cases h with
    | setAuthentication heq => rw [heq]; rfl
  | metaDataChanged names tables =>
    cases hchange
    cases h with
    | setNoTables _ _ => rfl
    | setTables _ _ heq => rw [heq]; rfl
  | rulesChanged name rules =>
    cases hchange
    cases h with
    | setRules hold _ _ heq => rw [heq, Snapshot.dialect_withSchema hs hold]
  | dataSourcesChanged name ds =>
    cases hchange
    cases h with
    | setDataSources hold _ _ heq => rw [heq, Snapshot.dialect_withSchema hs hold]
  | circuitStateChanged | disabledStateChanged | heartbeat =>
    cases hchange
    cases h
    rfl

/-- A reset is of the dialect of its first data source. -/
theorem Change.Yields.dialect_reset {change : Change} {s s' : Stamped Snapshot}
    {schemas : OrderedMap SchemaConfiguration} {a : Authentication} {raw : RawProperties}
    (h : change.Yields s s') (hchange : ofEvent (.reset schemas a raw) = .ok change) :
    ∃ p d, firstParameters schemas = some p ∧ p.dialect = .ok d ∧ s'.value.dialect = some d := by
  obtain ⟨_, _, hchange⟩ := bind_eq_ok hchange
  split at hchange
  · cases hchange
  · rename_i p hp
    obtain ⟨d, hd, hchange⟩ := bind_eq_ok hchange
    cases hchange
    cases h with
    | reset _ heq => exact ⟨p, d, hp, hd, by rw [heq]⟩

namespace Registry
variable {env : Environment} {g g' : Registry} {name : String} {ds : ParameterMap}
  {rules : List RuleConfiguration} {n : Nat} {d : Dialect}

/-! ### Histories -/

/-- What was handled has the dialect that the outcome tells. -/
theorem Handles.dialect {e : Event} {r : Registry × Except Stop Nat} (h : Handles env g e r)
    (hg : g.current.Coherent) :
    r.1.current.dialect = Occurrence.dialectAfter g.current.dialect (.event e r.2) := by
  obtain ⟨g', outcome⟩ := r
  cases outcome with
  | error stop =>
    have hs : g'.current.dialect = g.current.dialect := congrArg (·.value.dialect) h.same_of_error.1
    cases e <;> exact hs
  | ok n =>
    obtain ⟨change, hchange, hyields, _⟩ := h.yields
    cases e with
    | reset schemas a raw =>
      obtain ⟨p, d, hp, hd, hdialect⟩ := hyields.dialect_reset hchange
      simp only [Occurrence.dialectAfter, hp, Option.bind_some, hd]
      exact hdialect
    | schemaAdded name ds rules =>
      obtain ⟨d, c, hspeaks, hcurrent, _, hc⟩ := h.of_schemaAdded
      rw [Occurrence.dialectAfter, hspeaks.or_dialect?, hcurrent]
      exact hspeaks.dialect_withSchema hc
    | schemaDeleted | propertiesChanged | authenticationChanged | circuitStateChanged
      | metaDataChanged | rulesChanged | disabledStateChanged | dataSourcesChanged | heartbeat =>
      exact hyields.dialect hchange hg rfl

theorem dialect_eq_foldl {log : List Occurrence} (h : Logged log g) :
    g.current.dialect = log.foldl Occurrence.dialectAfter none := by
  induction h with
  | new => rfl
  | event h hr ih =>
    rw [List.foldl_append, ← ih, hr.dialect h.coherent, List.foldl_cons, List.foldl_nil]
  | closed h ih =>
    rw [List.foldl_append, ← ih]
    rfl

/-- An accepted event that brings schemas leaves a dialect. -/
theorem Handles.exists_dialect {e : Event} (h : Handles env g e (g', .ok n)) (he : e.brings = true) :
    ∃ d, g'.current.dialect = some d := by
  cases e with
  | reset schemas a raw =>
    obtain ⟨change, hchange, hyields, _⟩ := h.yields
    obtain ⟨_, d, _, _, hd⟩ := hyields.dialect_reset hchange
    exact ⟨d, hd⟩
  | schemaAdded name ds rules =>
    obtain ⟨d, c, hspeaks, hcurrent, _, hc⟩ := h.of_schemaAdded
    exact ⟨d, hcurrent ▸ hspeaks.dialect_withSchema hc⟩
  | schemaDeleted | propertiesChanged | authenticationChanged | circuitStateChanged
    | metaDataChanged | rulesChanged | disabledStateChanged | dataSourcesChanged | heartbeat => cases he

/-- There is no dialect after an event if there was none before it and it brought no schemas. -/
theorem Handles.dialect_eq_none_iff {e : Event} {r : Registry × Except Stop Nat}
    (h : Handles env g e r) (hg : g.current.Coherent) : r.1.current.dialect = none ↔
      g.current.dialect = none ∧ ∀ n, r.2 = .ok n → e.brings = false := by
  obtain ⟨g', outcome⟩ := r
  cases outcome with
  | error stop =>
    have hsame : g'.current.dialect = g.current.dialect :=
      congrArg (·.value.dialect) h.same_of_error.1
    simp [hsame]
  | ok n =>
    cases hbrings : e.brings with
    | false =>
      obtain ⟨change, hchange, hyields, _⟩ := h.yields
      have hsame : g'.current.dialect = g.current.dialect := hyields.dialect hchange hg hbrings
      simp [hsame]
    | true =>
      obtain ⟨d, hd⟩ := h.exists_dialect hbrings
      simp [hd]

/-- Only a registry that never accepted a reset or a schema has no dialect. -/
theorem dialect_eq_none_iff {log : List Occurrence} (h : Logged log g) :
    g.current.dialect = none ↔ ∀ e n, .event e (.ok n) ∈ log → e.brings = false := by
  induction h with
  | new => exact iff_of_true rfl fun _ _ he => absurd he List.not_mem_nil
  | @event log env g e r h hr ih =>
    rw [hr.dialect_eq_none_iff h.coherent, ih]
    simp only [List.mem_append, List.mem_singleton]
    constructor
    · rintro ⟨hlog, hlast⟩ e' n (he | he)
      · exact hlog e' n he
      · obtain ⟨rfl, hn⟩ := Occurrence.event.inj he
        exact hlast n hn.symm
    · intro hall
      exact ⟨fun e' n he => hall e' n (.inl he), fun n hn => hall e n (.inr (by rw [hn]))⟩
  | @closed log g h ih =>
    have hsame : g.close.1.current.dialect = g.current.dialect := rfl
    rw [hsame, ih]
    simp only [List.mem_append, List.mem_singleton, reduceCtorEq, or_false]

/-! ### Empty registries -/

/-- A schema is published, and it and the snapshot have the dialect. -/
def ServesIn (g : Registry) (name : String) (d : Dialect) : Prop :=
  g.current.dialect = some d ∧ ∃ c, g.current.schema? name = some c ∧ c.value.dialect = d

/-- A registry takes the dialect of each schema that is added: that of its first data source, and without
data sources it is rejected. -/
structure TakesDialect (g : Registry) : Prop where
  first : ∀ env name ds rules g' n p, Handles env g (.schemaAdded name ds rules) (g', .ok n) →
    ds.values.head? = some p → ∃ d, p.dialect = .ok d ∧ ServesIn g' name d
  unsourced : ∀ env name rules r, Handles env g (.schemaAdded name .empty rules) r →
    ∃ e, r.2 = .error (.rejected e)

/-- A schema that is accepted is served in the dialect that the registry has, or else with that of its
first data source. -/
theorem Handles.servesIn (h : Handles env g (.schemaAdded name ds rules) (g', .ok n)) :
    ∃ d, g.current.dialect.or ds.dialect? = some d ∧ g'.ServesIn name d := by
  obtain ⟨d, c, hspeaks, hcurrent, rfl, hc⟩ := h.of_schemaAdded
  refine ⟨d, hspeaks.or_dialect?, ?_, c, ?_, hc⟩
  · rw [hcurrent, hspeaks.dialect_withSchema hc]
  · rw [hcurrent]
    exact SortedMap.find?_insert_self _ _ _

/-- A registry that has a dialect does not reject a schema for its lack of data sources. -/
theorem exists_handles_unsourced (hd : g.current.dialect = some d) (env : Environment) (name : String) :
    ∃ r, Handles env g (.schemaAdded name .empty []) r ∧ ∀ e, r.2 ≠ .error (.rejected e) := by
  have hbuilt : g.resources.createDataSources env.factory .empty = (g.resources, .ok .empty) := rfl
  let pending : PendingSchema := ⟨name, .empty, d, [], [], g.current.properties.value⟩
  have hadd : g.begin env (.addSchema name .empty []) = (g.owning g.resources, .load .add pending) :=
    (addSchema_built (.inl hd) name [] hbuilt).2 pending rfl
  have hends {g' : Registry} {outcome : Except Stop Nat}
      (h : (g.owning g.resources).resume env .add pending (.ok .empty) = (g', .done outcome)) :
      Handles env g (.schemaAdded name .empty []) (g', outcome) := by
    refine .applied rfl ?_
    rw [hadd]
    refine .load (.ok .empty) ?_
    rw [h]
    exact .done g' outcome
  have hcompletes : pending.Completes (.ok .empty) := ⟨.empty, _, rfl, rfl⟩
  cases hb : (g.owning g.resources).resources.finishSchema pending .empty with
  | mk r outcome =>
    have houtcome := (g.owning g.resources).resources.finishSchema_outcome pending .empty
    rw [hb] at houtcome
    rcases houtcome with ⟨hnot, _⟩ | ⟨_, _, rfl⟩ | ⟨_, _, c, rfl⟩
    · exact absurd hcompletes hnot
    · have hresume : (g.owning g.resources).resume env .add pending (.ok .empty) =
          ((g.owning g.resources).owning r, .done (.error .crashed)) := by
        simp only [resume, hb]
      exact ⟨_, hends hresume, fun _ h => by cases h⟩
    · have hadds : Purpose.add.properties? = none := rfl
      obtain ⟨g', n, hresume, _⟩ := resume_publishes env hadds hb
      exact ⟨_, hends hresume, fun _ h => by cases h⟩

/-- A registry takes the dialect of what is added as long as it has none of its own. -/
theorem takesDialect_iff : g.TakesDialect ↔ g.current.dialect = none := by
  constructor
  · intro h
    refine Option.eq_none_iff_forall_ne_some.2 fun d hd => ?_
    obtain ⟨r, hr, hnot⟩ := exists_handles_unsourced hd { factory := .immediate [] [] } ""
    obtain ⟨e, he⟩ := h.unsourced _ _ _ _ hr
    exact hnot e he
  · intro hnone
    constructor
    · intro env name ds rules g' n p h hp
      obtain ⟨d, hd, hserves⟩ := h.servesIn
      simp only [hnone, Option.none_or, ParameterMap.dialect?, hp, Option.bind_some] at hd
      cases hdialect : p.dialect with
      | error e => rw [hdialect] at hd; cases hd
      | ok d' =>
        rw [hdialect] at hd
        cases hd
        exact ⟨d, rfl, hserves⟩
    · intro env name rules r h
      have hreject : g.addSchema env name .empty rules =
          g.reject (.configuration s!"Schema `{name}` has no data source") := by
        simp only [addSchema, hnone]
        rfl
      cases h with
      | refused h => cases h
      | applied hchange hr =>
        cases hchange
        rw [begin, hreject] at hr
        exact ⟨_, congrArg Prod.snd (hr.of_done rfl)⟩

/-- A schema that is added to an empty registry is the only one. -/
theorem Handles.schemaNames_of_empty (h : Handles env g (.schemaAdded name ds rules) (g', .ok n))
    (hempty : g.schemaNames = []) : g'.schemaNames = [name] := by
  obtain ⟨d, c, _, hcurrent, rfl, _⟩ := h.of_schemaAdded
  have hentries : g.current.schemas.entries = [] := List.map_eq_nil_iff.1 hempty
  have hinsert : g'.current.schemas.entries = [(c.value.name, c)] := by
    rw [hcurrent]
    show Entries.insertSorted c.value.name c g.current.schemas.entries = _
    rw [hentries]
    rfl
  rw [schemaNames, SortedMap.keys, hinsert]
  rfl

/-- What an empty registry makes of the dialect of a schema that is added to it. The dialect that earlier
resets and schemas told stays in force after they are gone, so the registry takes the dialect of the schema
if and only if it never accepted any of them. -/
theorem empty_takes_dialect_iff {log : List Occurrence} (h : Logged log g)
    (hempty : g.schemaNames = []) :
    (∀ env name ds rules g' n, Handles env g (.schemaAdded name ds rules) (g', .ok n) →
      g'.schemaNames = [name] ∧
      ∃ d, (log.foldl Occurrence.dialectAfter none).or (ParameterMap.dialect? ds) = some d ∧
        g'.ServesIn name d) ∧
    (g.TakesDialect ↔ ∀ e n, .event e (.ok n) ∈ log → e.brings = false) := by
  refine ⟨fun env name ds rules g' n hr => ⟨hr.schemaNames_of_empty hempty, ?_⟩, ?_⟩
  · rw [← dialect_eq_foldl h]
    exact hr.servesIn
  · rw [takesDialect_iff, dialect_eq_none_iff h]

/-- The only schema is deleted, and the next one is of another dialect. -/
theorem empty_takes_dialect_iff_deleted :
    let env : Environment := { factory := .immediate [] [] }
    let load : Loader := fun _ _ => .ok .empty
    let first : OrderedMap SchemaConfiguration :=
      .ofList [("s1", ⟨.ofList [("b0", { url := "postgres://h/b0" })], []⟩)]
    let other : ParameterMap := .ofList [("b1", { url := "mysql://h/b1" })]
    let log : List Occurrence := [.event (.reset first {} .empty) (.ok 1),
      .event (.schemaDeleted "s1") (.ok 2)]
    let g := ((Registry.empty.handle env load (.reset first {} .empty)).1.handle env load
      (.schemaDeleted "s1")).1
    (Logged log g ∧ g.schemaNames = []) ∧ ¬ g.TakesDialect ∧
      other.dialect? = some .mySQL ∧
      (g.handle env load (.schemaAdded "s2" other [])).1.ServesIn "s2" .postgreSQL := by
  intro env load first other log g
  have hreset : Logged [.event (.reset first {} .empty) (.ok 1)]
      (Registry.empty.handle env load (.reset first {} .empty)).1 :=
    Logged.new.event (handles_handle env load _ _)
  have h : Logged log g := hreset.event (handles_handle env load _ (.schemaDeleted "s1"))
  have hempty : g.schemaNames = [] := by decide
  obtain ⟨hserves, htakes⟩ := empty_takes_dialect_iff h hempty
  have hadded : Handles env g (.schemaAdded "s2" other [])
      ((g.handle env load (.schemaAdded "s2" other [])).1, .ok 3) :=
    handles_handle env load g (.schemaAdded "s2" other [])
  have hremembered : (log.foldl Occurrence.dialectAfter none).or other.dialect? = some .postgreSQL := by
    decide
  obtain ⟨_, d, hd, hserved⟩ := hserves _ _ _ _ _ _ hadded
  rw [hremembered] at hd
  cases hd
  refine ⟨⟨h, hempty⟩, fun ht => ?_, by decide, hserved⟩
  cases htakes.1 ht _ 1 List.mem_cons_self

end Registry

end ShardRegistry
