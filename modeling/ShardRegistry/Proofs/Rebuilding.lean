import ShardRegistry.Proofs.Serialization
import ShardRegistry.Proofs.Sharing

/-! Rebuilding. Some changes make a schema anew or take it away: they close the engine that it had. All
others, whether they are accepted or not, leave the schema the engine that it has. -/
namespace ShardRegistry

/-- Whether a change closes the engine of a schema when it is accepted. -/
def Change.Rebuilds (name : String) : Change → Prop
  | .reset .. | .close => True
  | .addSchema n .. | .deleteSchema n | .setDataSources n _ => n = name
  | .setProperties _ | .setAuthentication _ | .setCircuit _ | .setTables .. | .setRules ..
  | .setDisabled .. | .heartbeat => False

/-- Whether a call is for such a change. -/
def Call.Rebuilds (name : String) (call : Call) : Prop :=
  ∃ change, call.change? = some (.ok change) ∧ change.Rebuilds name

/-! ### Changes that leave the engine -/

/-- What an event spares is shared with the next snapshot, and the engine of a schema that it does not
rebuild is. -/
theorem Event.Spares.engine {e : Event} {change : Change} {s s' : Stamped Snapshot} {name : String}
    {c : Stamped SchemaContext} (h : e.Spares s s') (he : Change.ofEvent e = .ok change)
    (hr : ¬ change.Rebuilds name) (hc : s.value.schema? name = some c) :
    ∃ c', s'.value.schema? name = some c' ∧ c'.value.engine = c.value.engine := by
  have hshares {n : String} (hs : s.value.Shares s'.value [n]) (hn : n ≠ name) :
      ∃ c', s'.value.schema? name = some c' ∧ c'.value.engine = c.value.engine :=
    ⟨c, (hs.schemas name (by simpa using Ne.symm hn)).trans hc, rfl⟩
  cases e with
  | reset schemas a raw =>
    obtain ⟨p, _, he⟩ := bind_eq_ok he
    split at he
    · cases he
    · obtain ⟨d, _, he⟩ := bind_eq_ok he
      cases he
      exact absurd trivial hr
  | schemaAdded n ds rules | dataSourcesChanged n ds =>
    cases he
    exact hshares h hr
  | schemaDeleted n =>
    cases he
    exact hshares h.1 hr
  | rulesChanged n rules =>
    obtain ⟨hs, c₁, c', hc₁, hc', hkeeps⟩ := h
    by_cases hn : n = name
    · subst hn
      cases hc.symm.trans hc₁
      exact ⟨c', hc', by rw [SchemaContext.engine, hkeeps.runtime, SchemaContext.engine]⟩
    · exact hshares hs hn
  | metaDataChanged names tables =>
    obtain ⟨hs, hnamed, _, _⟩ := h
    by_cases hn : name ∈ names
    · obtain ⟨c', hc', hkeeps⟩ := hnamed name hn c hc
      exact ⟨c', hc', by rw [SchemaContext.engine, hkeeps.runtime, SchemaContext.engine]⟩
    · exact ⟨c, (hs.schemas name hn).trans hc, rfl⟩
  | authenticationChanged a =>
    refine ⟨c, ?_, rfl⟩
    rw [Snapshot.schema?, h.1]
    exact hc
  | propertiesChanged raw =>
    obtain ⟨c', hc', hkeeps⟩ := h.2.2 name c hc
    exact ⟨c', hc', hkeeps.engine⟩
  | circuitStateChanged _ | disabledStateChanged _ _ _ | heartbeat =>
    have h : s' = s := h
    exact ⟨c, h ▸ hc, rfl⟩

/-- So the change of a call leaves a schema its engine, if it does not rebuild it. -/
theorem Change.Yields.engine {call : Call} {change : Change} {s s' : Stamped Snapshot} {name : String}
    {c : Stamped SchemaContext} (h : change.Yields s s') (hcall : call.change? = some (.ok change))
    (hr : ¬ change.Rebuilds name) (hn : ∀ k c, s.value.schema? k = some c → c.value.name = k)
    (hc : s.value.schema? name = some c) :
    ∃ c', s'.value.schema? name = some c' ∧ c'.value.engine = c.value.engine := by
  cases call with
  | event e =>
    have he : ofEvent e = .ok change := Option.some.inj hcall
    exact (h.spares he hn).engine he hr hc
  | close =>
    cases hcall
    exact absurd trivial hr
  | acquire _ | pinned _ _ _ | settle _ _ => cases hcall

/-! ### Changes that close the engine -/

theorem Resources.engineClosed_closeContexts {r : Resources} {c : SchemaContext}
    {cs : List SchemaContext} (hc : c ∈ cs) (hlt : c.engine < r.engines.length) :
    (cs.foldl (fun r c => c.close r) r).EngineClosed c.engine := by
  induction cs generalizing r with
  | nil => cases hc
  | cons d cs ih =>
    rcases List.mem_cons.1 hc with rfl | hc
    · exact (engineClosed_closeContext hlt).grows (.foldl Grows.closeContext cs _)
    · exact ih hc (Nat.lt_of_lt_of_le hlt (Grows.closeContext r d).engines.length_le)

namespace Registry

/-- A part of a change closes an engine if it is the last one and the change is accepted. -/
def Closes (e : EngineId) (x : Registry × Step) : Prop :=
  ∀ n, x.2 = .done (.ok n) → x.1.resources.EngineClosed e

variable {g : Registry} {name : String} {c : Stamped SchemaContext}

theorem closes_nextSchema (env : Environment) (a : Authentication) (p : Properties) (d : Dialect)
    (built : List (Stamped SchemaContext)) (rest : List (String × SchemaConfiguration))
    (hc : g.current.schema? name = some c) (hlt : c.value.engine < g.resources.engines.length) :
    Closes c.value.engine (g.nextSchema env a p d built rest) := by
  cases rest with
  | nil =>
    intro _ _
    have hmem : c.value ∈ g.current.contexts :=
      List.mem_map_of_mem ((g.current.mem_values_iff c).2 ⟨name, hc⟩)
    exact Resources.engineClosed_closeContexts hmem hlt
  | cons e rest =>
    simp only [nextSchema]
    split
    · exact fun _ hn => by cases hn
    · split <;> exact fun _ hn => by cases hn

theorem closes_begin (env : Environment) {change : Change} (hr : change.Rebuilds name)
    (hc : g.current.schema? name = some c) (hlt : c.value.engine < g.resources.engines.length) :
    Closes c.value.engine (g.begin env change) := by
  cases change with
  | reset schemas a p d => exact closes_nextSchema env a p d [] schemas.entries hc hlt
  | addSchema n ds rules =>
    simp only [begin, Registry.addSchema]
    split
    · exact fun _ hn => by cases hn
    · split
      · exact fun _ hn => by cases hn
      · split <;> exact fun _ hn => by cases hn
  | deleteSchema n =>
    obtain rfl : n = name := hr
    simp only [begin, hc]
    exact fun _ _ => Resources.engineClosed_closeContexts List.mem_cons_self hlt
  | setDataSources n ds =>
    simp only [begin, Registry.setDataSources]
    split
    · exact fun _ hn => by cases hn
    · split
      · exact fun _ hn => by cases hn
      · split <;> exact fun _ hn => by cases hn
  | close =>
    have hmem : c.value ∈ g.current.contexts :=
      List.mem_map_of_mem ((g.current.mem_values_iff c).2 ⟨name, hc⟩)
    exact fun _ _ => Resources.engineClosed_closeContexts hmem hlt
  | setProperties _ | setAuthentication _ | setCircuit _ | setTables _ _ | setRules _ _
  | setDisabled _ _ _ | heartbeat => exact hr.elim

theorem closes_resume (env : Environment) {purpose : Purpose} {pending : PendingSchema}
    {change : Change} (hp : purpose.Pursues g.current pending change) (hr : change.Rebuilds name)
    (answer : Except Error (SortedMap Tables)) (hc : g.current.schema? name = some c)
    (hlt : c.value.engine < g.resources.engines.length) :
    Closes c.value.engine (g.resume env purpose pending answer) := by
  cases answer with
  | error e => exact fun _ hn => by cases hn
  | ok tables =>
    simp only [resume]
    split
    · exact fun _ hn => by cases hn
    · exact fun _ hn => by cases hn
    · rename_i r context hfinish
      have hlt' := Nat.lt_of_lt_of_le hlt (Resources.Grows.finishSchema hfinish).engines.length_le
      cases hp with
      | reset => exact closes_nextSchema (g := g.owning r) env _ _ _ _ _ hc hlt'
      | add =>
        obtain rfl : pending.name = name := hr
        have hc : (g.owning r).current.schema? pending.name = some c := hc
        simp only [hc]
        exact fun _ _ => Resources.engineClosed_closeContexts List.mem_cons_self hlt'
      | @reconcile x _ c' _ hold _ =>
        obtain rfl : pending.name = name := hr
        cases hc.symm.trans hold
        intro _ _
        have hcommit (s : Snapshot) := Resources.Grows.closePools ((g.owning r).publish s).resources
          (x.superseded.map (·.pool))
        exact Resources.engineClosed_closeEngineQuietly
          (Nat.lt_of_lt_of_le hlt' (hcommit _).engines.length_le)

end Registry

/-- A schema that is reconciled is the published one. -/
theorem Purpose.Pursues.current {s : Snapshot} {g : Registry} {purpose : Purpose}
    {pending : PendingSchema} {change : Change} (h : purpose.Pursues s pending change)
    (hf : purpose.Fits g pending) : purpose.Pursues g.current pending change := by
  cases h with
  | reset he hb hp => exact .reset he hb hp
  | add hp => exact .add hp
  | @reconcile x new c _ _ hp =>
    obtain ⟨⟨c', hc', heq⟩, _⟩ := hf
    rw [← heq] at hp ⊢
    exact .reconcile hc' hp

namespace World

/-! ### Moves -/

/-- Where a call for a change stands, and where other calls stand. -/
def Carries (_ : World) (call : Call) : TaskState → Prop
  | .turn change => call.change? = some (.ok change)
  | .loading purpose pending _ =>
    ∃ change s, call.change? = some (.ok change) ∧ purpose.Pursues s pending change
  | .lock _ _ _ | .acquiring _ _ _ | .settling _ => call.change? = none

/-- A change that goes on is still the one of its call. -/
theorem carries_changed {w w' : World} {call : Call} {change : Change} {s : Stamped Snapshot}
    {isOpen : Bool} {y : Registry × Step} {st : TaskState}
    (hcall : call.change? = some (.ok change)) (hl : change.Leads s isOpen y)
    (h : (w.changed y).2.state? = some st) : w'.Carries call st := by
  obtain ⟨g, step⟩ := y
  obtain ⟨purpose, pending, rfl, rfl⟩ := state_changed h
  exact ⟨change, s.value, hcall, hl.2⟩

theorem kept_carries : Kept Carries where
  begins {keys w call s} hs hc h := by
    have hintends := intends_begin (w.move (.start call)) h
    cases s with
    | loading purpose pending query => exact absurd h (begin_ne_loading _ _ call)
    | lock _ _ _ | acquiring _ _ _ | settling _ | turn _ => exact hintends
  goesOn {keys w t call s s'} hs hc hlookup hgo hp h := by
    have hpart := Part.advance (w := w.without t) t s
    have hfine := hs.fine _ ((lookup_some_iff hs.nodup t s).1 hlookup)
    generalize (w.without t).advance t s = x at hpart h
    cases hpart with
    | quiet hturn _ _ _ hload hstate =>
      rcases hstate s' h with ⟨_, _, _, rfl⟩ | ⟨purpose, pending, query, query', rfl, rfl⟩
      · cases s with
        | turn change => exact absurd rfl (hturn change)
        | loading purpose pending query =>
          obtain ⟨_, hnext⟩ := hload purpose pending query rfl
          rw [h] at hnext
          cases hnext
        | lock _ _ _ | acquiring _ _ _ | settling _ => exact hp
      · exact hp
    | opens change => exact carries_changed hp (Registry.leads_begin _ _ change) h
    | answers w' _ hface _ _ =>
      obtain ⟨change, s₀, hcall, hpursues⟩ := hp
      have hpursues' := hpursues.current hfine.2
      rw [show w.registry.current = w'.registry.current from
        (Registry.current_of_face hface).symm] at hpursues'
      exact carries_changed hcall (Registry.leads_resume _ w'.registry hpursues' _) h
  stays {keys w m call s} _ _ hp := by
    cases s <;> exact hp

/-- A part of a change that a task runs in its turn, and where it leaves the registry. -/
inductive Runs (w : World) (k : TaskId) (change : Change) : Registry × Step → Prop where
  | opens (env : Environment) : Runs w k change (w.registry.begin env change)
  | answers {env : Environment} {g : Registry} {purpose : Purpose} {pending : PendingSchema}
      {query : Option Query} (hmem : (k, .loading purpose pending query) ∈ w.tasks)
      (hface : g.face = w.registry.face) (hp : purpose.Pursues g.current pending change)
      (answer : Except Error (SortedMap Tables)) :
      Runs w k change (g.resume env purpose pending answer)

theorem Runs.leads {w : World} {k : TaskId} {change : Change} {y : Registry × Step}
    (h : w.Runs k change y) : change.Leads w.registry.snapshot w.registry.circuitOpen y := by
  cases h with
  | opens env => exact Registry.leads_begin env w.registry change
  | @answers env g _ _ _ _ hface hp answer =>
    have hl := Registry.leads_resume env g hp answer
    rwa [show g.snapshot = w.registry.snapshot from congrArg (·.snapshot) hface,
      show g.circuitOpen = w.registry.circuitOpen from congrArg (·.circuitOpen) hface] at hl

/-- What a move does to changes: it runs a part of one, or the registry sees nothing of it and no call
for a change is accepted. -/
inductive Progresses (w : World) (cs : List (TaskId × Call)) (m : Move) : Prop where
  | runs {k : TaskId} {call : Call} {change : Change} {w' : World} {y : Registry × Step}
      (hmem : (k, call) ∈ cs) (hcall : call.change? = some (.ok change)) (hrun : w.Runs k change y)
      (hpart : w.part? m = some (k, w'.changed y)) : Progresses w cs m
  | rests (hface : (w.move m).registry.face = w.registry.face)
      (hnone : ∀ k call n, (k, call) ∈ cs → call.change? ≠ none →
        w.reply? m ≠ some (k, .generation n)) : Progresses w cs m

section
variable {keys : List (String × String)} {w : World} {cs : List (TaskId × Call)} {k : TaskId}

theorem Sound.progresses_goOn (h : Sound keys w) (ha : Assigned Carries cs w) {s : TaskState}
    (hlookup : w.tasks.lookup k = some s) (hgo : w.mayGoOn k s = true) :
    w.Progresses cs (.goOn k) := by
  have hmem := (lookup_some_iff h.nodup k s).1 hlookup
  obtain ⟨call, hcall, hcarries⟩ := ha.tasks _ hmem
  have hpart := part_of_goOn hlookup hgo
  have hadvance := Part.advance (w := w.without k) k s
  generalize (w.without k).advance k s = x at hpart hadvance
  cases hadvance with
  | quiet hturn hface _ _ hload _ =>
    refine .rests ?_ fun k' call' n hmem' hchange hreply => ?_
    · rw [move_of_part hpart, registry_put]
      exact hface
    rw [reply?, hpart] at hreply
    obtain ⟨o, ho, heq⟩ := Option.map_eq_some_iff.1 hreply
    cases heq
    cases ha.unique hcall hmem'
    cases s with
    | turn change => exact absurd rfl (hturn change)
    | loading purpose pending query =>
      -- it goes on with its load
      obtain ⟨query', hnext⟩ := hload purpose pending query rfl
      rw [outcome?_eq_some ho] at hnext
      cases hnext
    | lock _ _ _ | acquiring _ _ _ | settling _ => exact hchange hcarries
  | opens change => exact .runs hcall hcarries (.opens _) hpart
  | answers w' _ hface _ _ =>
    obtain ⟨change, s₀, hchange, hpursues⟩ := hcarries
    have hface : w'.registry.face = w.registry.face := hface
    have hpursues' := hpursues.current (h.fine _ hmem).2
    rw [← Registry.current_of_face hface] at hpursues'
    exact .runs hcall hchange (.answers hmem hface hpursues' _) hpart

theorem Sound.progresses (h : Sound keys w) (ha : Assigned Carries cs w) (m : Move) :
    w.Progresses cs m := by
  cases hpart : w.part? m with
  | none =>
    refine .rests (face_move_of_part_none hpart) fun _ _ _ _ _ hreply => ?_
    rw [reply?, hpart] at hreply
    cases hreply
  | some x =>
    obtain ⟨k, x⟩ := x
    cases m with
    | start call =>
      obtain ⟨rfl, rfl⟩ := Prod.mk.inj (Option.some.inj hpart)
      refine .rests ?_ fun k' call' n hmem _ hreply => ?_
      · rw [World.move, registry_put]
        exact face_begin _ w.started call
      · rw [reply?, hpart] at hreply
        obtain ⟨o, _, heq⟩ := Option.map_eq_some_iff.1 hreply
        cases heq
        exact absurd (ha.started _ hmem) (Nat.lt_irrefl _)
    | goOn t =>
      obtain ⟨s, hlookup, hgo, rfl, _⟩ := goOn_of_part hpart
      exact h.progresses_goOn ha hlookup hgo
    | cancel _ | beginTransaction _ | surround _ _ _ | tune _ _ _ | collect _ _ => cases hpart

end

/-- A call to rebuild the schema is accepted in a move. -/
def Rebuilds (w : World) (calls : List (TaskId × Call)) (schema : String) (m : Move) : Prop :=
  ∃ k call n, (k, call) ∈ calls ∧ w.reply? m = some (k, .generation n) ∧ call.Rebuilds schema

/-- Either a schema is rebuilt in a move, which closes its engine, or it is published with it. -/
def Retains (w : World) (calls : List (TaskId × Call)) (schema : String) (m : Move) (e : EngineId) :
    Prop :=
  (w.Rebuilds calls schema m ∧ (w.move m).resources.EngineClosed e) ∨
    (¬ w.Rebuilds calls schema m ∧
      ∃ c, (w.move m).registry.current.schema? schema = some c ∧ c.value.engine = e)

section
variable {keys : List (String × String)} {w : World} {cs : List (TaskId × Call)} {schema : String}
  {c : Stamped SchemaContext} {k : TaskId} {call : Call}

theorem retains_of_snapshot {m : Move} (hr : ¬ w.Rebuilds cs schema m)
    (hs : (w.move m).registry.snapshot = w.registry.snapshot)
    (hc : w.registry.current.schema? schema = some c) : w.Retains cs schema m c.value.engine := by
  refine .inr ⟨hr, c, ?_, rfl⟩
  rw [Registry.current, hs]
  exact hc

/-- A part of a task rebuilds nothing, if it ends no call that does. -/
theorem not_rebuilds_of_part {m : Move} {x : World × Next} (hpart : w.part? m = some (k, x))
    (h : ∀ call change n, (k, call) ∈ cs → call.change? = some (.ok change) →
      x.2.outcome? = some (.generation n) → ¬ change.Rebuilds schema) :
    ¬ w.Rebuilds cs schema m := by
  rintro ⟨k', call, n, hmem, hreply, change, hcall, hr⟩
  rw [reply?, hpart] at hreply
  obtain ⟨o, ho, heq⟩ := Option.map_eq_some_iff.1 hreply
  cases heq
  exact h call change n hmem hcall ho hr

/-- A part of a change that is accepted. -/
theorem Sound.retains_accepted (h : Sound keys w) (ha : Assigned Carries cs w)
    (hmem : (k, call) ∈ cs) {change : Change} (hcall : call.change? = some (.ok change)) {m : Move}
    {w' : World} {g : Registry} {n : Nat}
    (hpart : w.part? m = some (k, w'.changed (g, .done (.ok n))))
    (hl : change.Leads w.registry.snapshot w.registry.circuitOpen (g, .done (.ok n)))
    (hcloses : change.Rebuilds schema → Registry.Closes c.value.engine (g, .done (.ok n)))
    (hc : w.registry.current.schema? schema = some c) : w.Retains cs schema m c.value.engine := by
  by_cases hr : change.Rebuilds schema
  · have hreply : w.reply? m = some (k, .generation n) := by
      rw [reply?, hpart]
      rfl
    obtain ⟨x, hx, hclosed⟩ := hcloses hr n rfl
    refine .inl ⟨⟨k, call, n, hmem, hreply, change, hcall, hr⟩, x, ?_, hclosed⟩
    rw [move_of_part hpart, resources, registry_put]
    exact hx
  · refine .inr ⟨not_rebuilds_of_part hpart fun call' change' _ hmem' hcall' _ => ?_, ?_⟩
    · cases ha.unique hmem hmem'
      cases hcall.symm.trans hcall'
      exact hr
    · obtain ⟨ps, es, hk⟩ := h.keeps
      obtain ⟨c', hc', he⟩ := hl.1.engine hcall hr
        (fun n _ hd => hk.named n _ (Snapshot.find?_of_schema? hd)) hc
      have hmove : (w.move m).registry.snapshot = g.snapshot := by
        rw [move_of_part hpart, registry_put]
        rfl
      exact ⟨c', by rw [Registry.current, hmove]; exact hc', he⟩

/-- A part of a change, which may not be over, or be rejected. -/
theorem Sound.retains_changed (h : Sound keys w) (ha : Assigned Carries cs w)
    (hmem : (k, call) ∈ cs) {change : Change} (hcall : call.change? = some (.ok change)) {m : Move}
    {w' : World} {y : Registry × Step} (hpart : w.part? m = some (k, w'.changed y))
    (hl : change.Leads w.registry.snapshot w.registry.circuitOpen y)
    (hcloses : change.Rebuilds schema → Registry.Closes c.value.engine y)
    (hc : w.registry.current.schema? schema = some c) : w.Retains cs schema m c.value.engine := by
  have hmove : (w.move m).registry.snapshot = y.1.snapshot := by
    rw [move_of_part hpart, registry_put]
    exact congrArg (·.snapshot) (face_changed w' y)
  have hquiet (hnone : ∀ n, y.2.outcome? ≠ some (.generation n))
      (hsame : y.1.snapshot = w.registry.snapshot) : w.Retains cs schema m c.value.engine := by
    refine retains_of_snapshot (not_rebuilds_of_part hpart ?_) (hmove.trans hsame) hc
    intro _ _ n _ _ hend
    rw [outcome_changed] at hend
    exact absurd hend (hnone n)
  obtain ⟨g, step⟩ := y
  cases step with
  | load purpose pending => exact hquiet (by simp [Step.outcome?]) hl.1.1
  | done outcome =>
    cases outcome with
    | ok n => exact h.retains_accepted ha hmem hcall hpart hl hcloses hc
    | error stop => cases stop <;> exact hquiet (by simp [Step.outcome?]) hl.1

/-- In every move a published schema keeps its engine, unless it is rebuilt. -/
theorem Sound.retains (h : Sound keys w) (ha : Assigned Carries cs w)
    (hc : w.registry.current.schema? schema = some c) (m : Move) :
    w.Retains cs schema m c.value.engine := by
  cases h.progresses ha m with
  | rests hface hnone =>
    refine retains_of_snapshot ?_ (congrArg Face.snapshot hface) hc
    rintro ⟨k, call, n, hmem, hreply, change, hcall, _⟩
    exact hnone k call n hmem (by simp [hcall]) hreply
  | runs hmem hcall hrun hpart =>
    obtain ⟨ps, es, hk⟩ := h.keeps
    have hlt : c.value.engine < w.registry.resources.engines.length :=
      hk.engine_lt (Snapshot.find?_of_schema? hc)
    refine h.retains_changed ha hmem hcall hpart hrun.leads (fun hr => ?_) hc
    cases hrun with
    | opens env => exact Registry.closes_begin env hr hc hlt
    | answers _ hface hp answer =>
      have hlength := congrArg (·.inventory.engines) hface
      exact Registry.closes_resume _ hp hr answer ((Registry.current_of_face hface) ▸ hc)
        (Nat.lt_of_lt_of_eq hlt hlength.symm)

end

end World

end ShardRegistry
