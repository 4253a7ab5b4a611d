import ShardRegistry.Proofs.Making

/-! Resets. A reset of a new registry comes to the same as the events that bring its properties, its users
and its schemas one after the other. The schemas are built in the same order by either, under the dialect
of the first one; where one of them cannot be built, both fail. What is shown next comes of what the
backends answer, for a schema as for all of them, so either way is compared with that, and not with the
other way. -/
namespace ShardRegistry

/-! ### Snapshots -/

/-- What a snapshot shows, but for its generation and the identities of its objects. -/
structure SnapshotContents where
  schemas : SortedMap SchemaContents
  properties : Properties
  authentication : Authentication
  dialect : Option Dialect

def Snapshot.contents (s : Snapshot) : SnapshotContents :=
  ⟨s.schemas.map (·.value.contents), s.properties.value, s.authentication.value, s.dialect⟩

/-- Schemas by name. -/
def SchemaContents.collect (xs : List SchemaContents) (m : SortedMap SchemaContents) :
    SortedMap SchemaContents :=
  xs.foldl (fun m x => m.insert x.name x) m

namespace SnapshotContents

/-- One schema more; it gives its dialect to a snapshot without one. -/
def withSchema (s : SnapshotContents) (x : SchemaContents) : SnapshotContents :=
  { s with schemas := s.schemas.insert x.name x, dialect := some (s.dialect.getD x.dialect) }

theorem contents_withSchema (s : Snapshot) (c : Stamped SchemaContext) :
    (s.withSchema c).contents = s.contents.withSchema c.value.contents := by
  simp only [Snapshot.contents, Snapshot.withSchema, Snapshot.successor, SortedMap.map_insert]
  rfl

/-- Schemas that come one after the other leave a dialect that is known. -/
theorem foldl_withSchema {s : SnapshotContents} {d : Dialect} (h : s.dialect = some d)
    (xs : List SchemaContents) :
    xs.foldl withSchema s = { s with schemas := SchemaContents.collect xs s.schemas } := by
  induction xs generalizing s with
  | nil => rfl
  | cons x xs ih =>
    have hnext : (s.withSchema x).dialect = some d := by simp [withSchema, h]
    rw [List.foldl_cons, ih hnext]
    simp [withSchema, SchemaContents.collect, h]

end SnapshotContents

/-- The schemas that are made of configurations, if all of them can be made. -/
def Backends.makeAll (b : Backends) (d : Dialect) (properties : Properties) :
    List (String × SchemaConfiguration) → Option (List SchemaContents)
  | [] => some []
  | (name, c) :: rest => (b.make name d c.dataSources c.rules properties).bind fun x =>
      (b.makeAll d properties rest).map (x :: ·)

/-- What a registry shows after a reset. -/
def Backends.makeReset (b : Backends) (schemas : OrderedMap SchemaConfiguration)
    (a : Authentication) (p : Properties) (d : Dialect) : Option SnapshotContents :=
  (b.makeAll d p schemas.entries).map fun xs => ⟨SchemaContents.collect xs .empty, p, a, some d⟩

/-- The event that adds a schema. -/
def Event.addition (e : String × SchemaConfiguration) : Event :=
  .schemaAdded e.1 e.2.dataSources e.2.rules

/-- The events that come to a reset of a new registry. -/
def Event.stepwise (schemas : OrderedMap SchemaConfiguration) (a : Authentication)
    (raw : RawProperties) : List Event :=
  .propertiesChanged raw :: .authenticationChanged a :: schemas.entries.map addition

namespace Registry
variable {b : Backends} {env : Environment} {load : Loader}

/-! ### All at once -/

/-- A change of everything that is shown. -/
structure Shows (g : Registry) (x : SnapshotContents) (r : Registry × Except Stop Nat) : Prop where
  accepted : ∃ n, r.2 = .ok n
  disabled : r.1.resources.disabledOf = g.resources.disabledOf
  contents : r.1.current.contents = x

theorem shows_finishReset (g : Registry) (a : Authentication) (p : Properties) (d : Dialect)
    (built : List (Stamped SchemaContext)) :
    ∃ g' n, g.finishReset a p d built = (g', .done (.ok n)) ∧
      g.Shows ⟨SchemaContents.collect (built.map (·.value.contents)) .empty, p, a, some d⟩
        (g', .ok n) := by
  refine ⟨_, _, rfl, ⟨_, rfl⟩, (disabledOf_of_face (face_closeContexts _ _)).trans rfl, ?_⟩
  have hschemas : (SortedMap.ofList (built.map fun c => (c.value.name, c))).map (·.value.contents) =
      SchemaContents.collect (built.map (·.value.contents)) .empty := by
    rw [SortedMap.ofList, SortedMap.map_foldl_insert, SchemaContents.collect, List.map_map,
      List.foldl_map, List.foldl_map]
    rfl
  rw [← hschemas]
  rfl

/-- What comes of a change of everything: it is shown if it can be made, and else it is not accepted. -/
def Turns (g : Registry) (made : Option SnapshotContents) (r : Registry × Except Stop Nat) : Prop :=
  match made with
  | none => ∃ stop, r.2 = .error stop
  | some x => g.Shows x r

theorem Turns.of_disabled {g g' : Registry} {made : Option SnapshotContents}
    {r : Registry × Except Stop Nat} (h : g'.Turns made r)
    (hd : g'.resources.disabledOf = g.resources.disabledOf) : g.Turns made r := by
  cases made with
  | none => exact h
  | some x => exact ⟨h.accepted, h.disabled.trans hd, h.contents⟩

/-- What comes of the schemas of a reset that are left to build. -/
theorem turns_nextSchema (hf : b.Decide env.factory) (hl : b.Tell load) (a : Authentication)
    (p : Properties) (d : Dialect) (rest : List (String × SchemaConfiguration)) {g : Registry}
    {built : List (Stamped SchemaContext)} {fuel : Nat}
    (hfuel : (g.nextSchema env a p d built rest).2.loads ≤ fuel) :
    g.Turns ((b.makeAll d p rest).map fun xs =>
        ⟨SchemaContents.collect (built.map (·.value.contents) ++ xs) .empty, p, a, some d⟩)
      (drive env load fuel (g.nextSchema env a p d built rest)) := by
  induction rest generalizing g built fuel with
  | nil =>
    obtain ⟨g', n, hfinish, hshows⟩ := g.shows_finishReset a p d built
    rw [nextSchema, hfinish, drive_done]
    simpa [Backends.makeAll, Turns] using hshows
  | cons e rest ih =>
    obtain ⟨name, c⟩ := e
    rw [nextSchema] at hfuel ⊢
    rw [Backends.makeAll]
    rcases g.resources.createDataSources_cases hf c.dataSources with
      ⟨hnot, r, e, hb⟩ | ⟨r, m, hb, hdisabled, hm, hsuits⟩
    · rw [hb, b.make_of_not_suit hnot]
      exact ⟨_, congrArg Prod.snd (drive_done env load fuel _ _)⟩
    · rw [← hm] at hsuits
      rw [hb, ← hm]
      rcases PendingSchema.start_cases name d c.rules p hl hsuits with
        ⟨e, hs, hnone⟩ | ⟨pending, hs, rfl, rfl, hmake⟩
      · simp only [hs, hnone]
        exact ⟨_, congrArg Prod.snd (drive_done env load fuel _ _)⟩
      · simp only [hb, hs, Step.loads] at hfuel
        obtain ⟨fuel, rfl⟩ : ∃ n, fuel = n + 1 := ⟨fuel - 1, by omega⟩
        simp only [hs, ← hmake, drive]
        rcases resume_complete env (g.owning r) (.reset a p d rest built) pending
          (load pending.dialect pending.dataSources) with
          ⟨hnone, g', stop, hresume⟩ | ⟨tables, r', x, hload, hfinish, hsome, hsame, _⟩
        · rw [hnone, hresume]
          exact ⟨_, congrArg Prod.snd (drive_done env load fuel _ _)⟩
        · have hleft : (((g.owning r).owning r').nextSchema env a p d (built ++ [x]) rest).2.loads ≤
              fuel :=
            Nat.le_trans (loads_nextSchema env _ a p d _ rest) (Nat.le_of_succ_le_succ hfuel)
          have hnext := ih hleft
          rw [hload] at hsome ⊢
          rw [hsome]
          simp only [resume, hfinish]
          have hkept : ((g.owning r).owning r').resources.disabledOf = g.resources.disabledOf :=
            hsame.trans (Resources.disabledOf_congr hdisabled)
          refine Turns.of_disabled ?_ hkept
          simpa [Function.comp_def] using hnext

/-! ### One by one -/

/-- Handles events one after the other, up to the first that is not accepted. -/
def handleAll (env : Environment) (load : Loader) : Registry → List Event → Registry × Except Stop Nat
  | g, [] => (g, .ok g.generation)
  | g, e :: es =>
    match g.handle env load e with
    | (g, .ok _) => handleAll env load g es
    | (g, .error stop) => (g, .error stop)

theorem handle_unprepared (env : Environment) (load : Loader) (g : Registry) {e : Event} {x : Error}
    (h : Change.ofEvent e = .error x) : g.handle env load e = (g, .error (.rejected x)) := by
  simp only [handle, h]

theorem handle_prepared (env : Environment) (load : Loader) (g : Registry) {e : Event}
    {change : Change} (h : Change.ofEvent e = .ok change) :
    g.handle env load e = g.apply env load change := by
  simp only [handle, h]

section
variable {g : Registry} {e : Event}

theorem handleAll_accepted {n : Nat} (h : (g.handle env load e).2 = .ok n) (es : List Event) :
    g.handleAll env load (e :: es) = (g.handle env load e).1.handleAll env load es := by
  cases hx : g.handle env load e with
  | mk g' outcome =>
    rw [hx] at h
    cases h
    simp only [handleAll, hx]

theorem handleAll_stopped {stop : Stop} (h : (g.handle env load e).2 = .error stop)
    (es : List Event) : (g.handleAll env load (e :: es)).2 = .error stop := by
  cases hx : g.handle env load e with
  | mk g' outcome =>
    rw [hx] at h
    cases h
    simp only [handleAll, hx]

end

section
variable {g : Registry} {x : SchemaContents} {r : Registry × Except Stop Nat} (h : g.Adds x r)
include h

theorem Adds.contents : r.1.current.contents = g.current.contents.withSchema x := by
  obtain ⟨c, hcurrent, hc, _⟩ := h.schema
  rw [hcurrent, SnapshotContents.contents_withSchema, hc]

theorem Adds.properties : r.1.current.properties.value = g.current.properties.value :=
  congrArg (·.properties) h.contents

theorem Adds.dialect {ps : ParameterMap} (hd : g.Speaks x.dialect ps) :
    r.1.current.dialect = some x.dialect := by
  have hcontents : r.1.current.dialect = some (g.current.dialect.getD x.dialect) :=
    congrArg (·.dialect) h.contents
  rcases hd with hknown | ⟨hnone, _⟩
  · rw [hcontents, hknown]
    rfl
  · rw [hcontents, hnone]
    rfl

end

/-- What comes of schemas that are added one after the other. -/
theorem turns_additions (hf : b.Decide env.factory) (hl : b.Tell load) {d : Dialect}
    (es : List (String × SchemaConfiguration)) {g : Registry}
    (hd : ∀ e ∈ es.head?, g.Speaks d e.2.dataSources) :
    g.Turns ((b.makeAll d g.current.properties.value es).map
        (·.foldl SnapshotContents.withSchema g.current.contents))
      (g.handleAll env load (es.map Event.addition)) := by
  induction es generalizing g with
  | nil => exact ⟨⟨_, rfl⟩, rfl, rfl⟩
  | cons e es ih =>
    have hadded : g.Comes (b.make e.1 d e.2.dataSources e.2.rules g.current.properties.value)
        (g.handle env load (Event.addition e)) :=
      comes_addSchema hf hl e.1 e.2.rules (hd e rfl)
    rw [List.map_cons, Backends.makeAll]
    cases hmade : b.make e.1 d e.2.dataSources e.2.rules g.current.properties.value with
    | none =>
      rw [hmade] at hadded
      obtain ⟨stop, hstop⟩ := hadded
      exact ⟨stop, handleAll_stopped hstop _⟩
    | some x =>
      rw [hmade] at hadded
      obtain ⟨_, rfl⟩ := Backends.make_eq_some hmade
      obtain ⟨n, hn⟩ := hadded.accepted
      have hnext := ih fun e' _ => .inl (hadded.dialect (hd e rfl))
      rw [hadded.properties, hadded.contents] at hnext
      rw [handleAll_accepted hn]
      refine Turns.of_disabled ?_ hadded.disabled
      simpa [Function.comp_def] using hnext

/-! ### Resets -/

theorem turns_reset (hf : b.Decide env.factory) (hl : b.Tell load) (g : Registry)
    (schemas : OrderedMap SchemaConfiguration) (a : Authentication) (p : Properties) (d : Dialect) :
    g.Turns (b.makeReset schemas a p d) (g.apply env load (.reset schemas a p d)) :=
  @turns_nextSchema b env load hf hl a p d schemas.entries g [] _ (Nat.le_refl _)

/-- A new registry takes properties and users as they come. -/
theorem handleAll_settings (env : Environment) (load : Loader) {raw : RawProperties} {p : Properties}
    (hp : Change.readProperties raw = .ok p) (a : Authentication) (es : List Event) :
    ∃ g : Registry, empty.handleAll env load (.propertiesChanged raw :: .authenticationChanged a :: es) =
        g.handleAll env load es ∧
      g.current.contents = ⟨.empty, p, a, none⟩ ∧
      g.resources.disabledOf = empty.resources.disabledOf := by
  have hchange : Change.ofEvent (.propertiesChanged raw) = .ok (.setProperties p) := by
    rw [Change.ofEvent, hp]
    rfl
  have hset := handle_prepared env load empty hchange
  have happly : empty.apply env load (.setProperties p) =
      ((empty.owning (empty.resources.stamped p).1).publish
        { empty.current.withSchemas [] with properties := (empty.resources.stamped p).2 },
        .ok 1) := by
    have hnone : (!empty.current.schemas.isEmpty) = false := rfl
    simp only [apply, begin, setProperties, hnone, Bool.and_false]
    rfl
  rw [happly] at hset
  rw [handleAll_accepted (congrArg Prod.snd hset), hset]
  exact ⟨_, handleAll_accepted rfl es, rfl, rfl⟩

section
variable {schemas : OrderedMap SchemaConfiguration} {first : String × SchemaConfiguration}
  {rest : List (String × SchemaConfiguration)} (hs : schemas.entries = first :: rest)
  {q : ConnectionParameters} (hq : first.2.dataSources.values.head? = some q)
include hs hq

/-- The first data source of the first schema tells the dialect. -/
theorem ofEvent_reset (a : Authentication) (raw : RawProperties) :
    Change.ofEvent (.reset schemas a raw) = do
      let p ← Change.readProperties raw
      return .reset schemas a p (← q.dialect) := by
  have hvalues : schemas.values = first.2 :: rest.map (·.2) := by
    rw [OrderedMap.values, hs, List.map_cons]
  obtain ⟨qs, hqs⟩ := List.head?_eq_some_iff.1 hq
  have hfirst : Change.firstParameters schemas = some q := by
    rw [Change.firstParameters, hvalues, List.flatMap_cons, hqs]
    rfl
  simp only [Change.ofEvent, hfirst]

/-- What comes of the events one after the other. -/
theorem turns_stepwise (hf : b.Decide env.factory) (hl : b.Tell load) {d : Dialect}
    (hd : q.dialect = .ok d) (a : Authentication) {raw : RawProperties} {p : Properties}
    (hp : Change.readProperties raw = .ok p) :
    empty.Turns (b.makeReset schemas a p d)
      (empty.handleAll env load (Event.stepwise schemas a raw)) := by
  obtain ⟨g, hg, hcontents, hdisabled⟩ :=
    handleAll_settings env load hp a (schemas.entries.map Event.addition)
  have hproperties : g.current.properties.value = p := congrArg (·.properties) hcontents
  have hnone : g.current.dialect = none := congrArg (·.dialect) hcontents
  have hspeaks : ∀ e ∈ schemas.entries.head?, g.Speaks d e.2.dataSources := by
    rw [hs]
    rintro e ⟨⟩
    exact .inr ⟨hnone, q, hq, hd⟩
  have hall := turns_additions hf hl schemas.entries hspeaks
  rw [hproperties, hcontents] at hall
  rw [Event.stepwise, hg]
  refine Turns.of_disabled ?_ hdisabled
  suffices hmade : (b.makeAll d p schemas.entries).map
      (·.foldl SnapshotContents.withSchema ⟨.empty, p, a, none⟩) = b.makeReset schemas a p d by
    rwa [hmade] at hall
  rw [Backends.makeReset, hs, Backends.makeAll]
  cases hfirst : b.make first.1 d first.2.dataSources first.2.rules p with
  | none => rfl
  | some x =>
    obtain ⟨_, rfl⟩ := Backends.make_eq_some hfirst
    have hdialect : (SnapshotContents.withSchema ⟨.empty, p, a, none⟩ x).dialect =
      some x.dialect := rfl
    have hknown := SnapshotContents.foldl_withSchema hdialect
    simp only [Option.bind_some, Option.map_map, Function.comp_def, List.foldl_cons, hknown]
    rfl

/-- Without a dialect not even the first schema is added. -/
theorem stepwise_stopped {x : Error} (hd : q.dialect = .error x) (a : Authentication)
    {raw : RawProperties} {p : Properties} (hp : Change.readProperties raw = .ok p) :
    ∃ stop, (empty.handleAll env load (Event.stepwise schemas a raw)).2 = .error stop := by
  obtain ⟨g, hg, hcontents, _⟩ :=
    handleAll_settings env load hp a (schemas.entries.map Event.addition)
  have hnone : g.current.dialect = none := congrArg (·.dialect) hcontents
  have hfirst : (g.handle env load (Event.addition first)).2 = .error (.rejected x) := by
    rw [handle_prepared env load g rfl, apply, begin]
    simp only [addSchema, hnone, hq, hd]
    rfl
  rw [Event.stepwise, hg, hs, List.map_cons]
  exact ⟨_, handleAll_stopped hfirst _⟩

end

theorem Turns.agree {g : Registry} {made : Option SnapshotContents}
    {r r' : Registry × Except Stop Nat} (h : g.Turns made r) (h' : g.Turns made r') :
    ((∃ n, r.2 = .ok n) ↔ ∃ n, r'.2 = .ok n) ∧
    ((∃ n, r.2 = .ok n) → r.1.current.contents = r'.1.current.contents ∧
      r.1.resources.disabledOf = g.resources.disabledOf ∧
      r'.1.resources.disabledOf = g.resources.disabledOf) := by
  cases made with
  | none =>
    obtain ⟨stop, hstop⟩ := h
    obtain ⟨stop', hstop'⟩ := h'
    simp [hstop, hstop']
  | some x =>
    exact ⟨iff_of_true h.accepted h'.accepted, fun _ =>
      ⟨h.contents.trans h'.contents.symm, h.disabled, h'.disabled⟩⟩

/-- A reset of a new registry is accepted if and only if the events that bring its properties, its users
and its schemas one after the other are all accepted. Then both come to the same snapshot, and nothing is
disabled in any rule. -/
theorem reset_as_events (hf : b.Decide env.factory) (hl : b.Tell load)
    {schemas : OrderedMap SchemaConfiguration} {first : String × SchemaConfiguration}
    {rest : List (String × SchemaConfiguration)} (hs : schemas.entries = first :: rest)
    (hn : first.2.dataSources.entries ≠ []) (a : Authentication) (raw : RawProperties) :
    let whole := empty.handle env load (.reset schemas a raw)
    let each := empty.handleAll env load (Event.stepwise schemas a raw)
    ((∃ n, whole.2 = .ok n) ↔ ∃ n, each.2 = .ok n) ∧
    ((∃ n, whole.2 = .ok n) → whole.1.current.contents = each.1.current.contents ∧
      ∀ i, whole.1.resources.disabledOf i = [] ∧ each.1.resources.disabledOf i = []) := by
  intro whole each
  obtain ⟨e, es, he⟩ := List.exists_cons_of_ne_nil hn
  have hq : first.2.dataSources.values.head? = some e.2 := by
    rw [OrderedMap.values, he]
    rfl
  have hchange := ofEvent_reset hs hq a raw
  suffices hturns : ∃ made, empty.Turns made whole ∧ empty.Turns made each by
    obtain ⟨made, hreset, hstepwise⟩ := hturns
    obtain ⟨haccepted, hsame⟩ := hreset.agree hstepwise
    refine ⟨haccepted, fun h => ⟨(hsame h).1, fun i => ?_⟩⟩
    rw [(hsame h).2.1, (hsame h).2.2]
    exact ⟨rfl, rfl⟩
  cases hp : Change.readProperties raw with
  | error x =>
    rw [hp] at hchange
    have hwhole : whole = _ := handle_unprepared env load empty hchange
    have hfirst : Change.ofEvent (.propertiesChanged raw) = .error x := by
      rw [Change.ofEvent, hp]
      rfl
    have hstopped := congrArg Prod.snd (handle_unprepared env load empty hfirst)
    exact ⟨none, ⟨_, congrArg Prod.snd hwhole⟩, _, handleAll_stopped hstopped _⟩
  | ok p =>
    cases hd : e.2.dialect with
    | error x =>
      rw [hp, hd] at hchange
      have hwhole : whole = _ := handle_unprepared env load empty hchange
      exact ⟨none, ⟨_, congrArg Prod.snd hwhole⟩, stepwise_stopped hs hq hd a hp⟩
    | ok d =>
      rw [hp, hd] at hchange
      have hwhole : whole = _ := handle_prepared env load empty hchange
      refine ⟨b.makeReset schemas a p d, ?_, turns_stepwise hs hq hf hl hd a hp⟩
      rw [hwhole]
      exact turns_reset hf hl empty schemas a p d

/-- A schema with a replica, one without data sources, and one with another backend. -/
def threeSchemas : OrderedMap SchemaConfiguration :=
  .ofList [("t", ⟨twoBackends, [.readWrite ⟨"r", "b0", ["b1"]⟩]⟩), ("s", {}),
    ("u", ⟨.ofList [("b2", { url := "postgresql://host/d2" })], []⟩)]

/-- The schema without data sources is shown with the size of the others. Where the last schema cannot be
built, neither the reset nor the events are accepted. -/
theorem reset_as_events_three :
    let load : Loader := fun _ _ => .ok .empty
    let a : Authentication := { users := SortedMap.empty.insert "root" { password := "secret" } }
    let raw : RawProperties := SortedMap.empty.insert "executor.size" (.natural 3)
    let whole (failing : List String) :=
      empty.handle { factory := .immediate failing [] } load (.reset threeSchemas a raw)
    let each (failing : List String) :=
      empty.handleAll { factory := .immediate failing [] } load (Event.stepwise threeSchemas a raw)
    (whole []).1.current.contents = (each []).1.current.contents ∧
      (each []).1.schemaNames = ["s", "t", "u"] ∧
      ((each []).1.current.schema? "s").map (·.value.contents.executorSize) = some 3 ∧
      (∀ n, (whole ["b2"]).2 ≠ .ok n) ∧ ∀ n, (each ["b2"]).2 ≠ .ok n := by
  intro load a raw whole each
  have h (failing : List String) := @reset_as_events (.answering failing)
    { factory := .immediate failing [] } load (Backends.decide_immediate failing []) (fun _ _ => rfl)
    threeSchemas _ _ rfl (List.cons_ne_nil _ _) a raw
  have hstopped (n : Nat) : (whole ["b2"]).2 ≠ .ok n := fun hn => by cases hn
  refine ⟨((h []).2 ⟨1, rfl⟩).1, by decide, by decide, hstopped, fun n hn => ?_⟩
  obtain ⟨n, hn⟩ := (h ["b2"]).1.2 ⟨n, hn⟩
  exact hstopped n hn

end Registry

end ShardRegistry
