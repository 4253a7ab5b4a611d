import ShardRegistry.Proofs.Lookups
import ShardRegistry.Proofs.Rosters

/-! Availability of replicas. A read/write splitting rule that is published goes by the last word on each
of its replicas since it was built, whatever was said before that, of others, or was not accepted. -/
namespace ShardRegistry

/-! ### Calls -/

/-- Whether a call builds the rules of a schema, if it is accepted. -/
def Call.Renews (name : String) : Call → Prop
  | .event (.reset schemas _ _) => name ∈ schemas.keys
  | .event (.schemaAdded n _ _) | .event (.dataSourcesChanged n _) | .event (.rulesChanged n _) =>
    n = name
  | _ => False

/-- Whether a call says of a backend of a schema that it is disabled, or that it is not. -/
def Call.Tells (name backend : String) (off : Bool) (call : Call) : Prop :=
  call = .event (.disabledStateChanged name backend off)

/-- A call does so if the change does that it asks for. -/
theorem Call.asks {call : Call} {change : Change} (h : call.change? = some (.ok change))
    (name : String) : (call.Renews name ↔ change.Renews name) ∧ ∀ backend off,
      (call.Tells name backend off ↔ change = .setDisabled name backend off) := by
  cases call with
  | event e =>
    have he : Change.ofEvent e = .ok change := Option.some.inj h
    cases e with
    | reset schemas a raw =>
      obtain ⟨p, _, he⟩ := bind_eq_ok he
      split at he
      · cases he
      · obtain ⟨d, _, he⟩ := bind_eq_ok he
        cases he
        exact ⟨Iff.rfl, by simp [Tells]⟩
    | propertiesChanged raw =>
      obtain ⟨p, _, he⟩ := bind_eq_ok he
      cases he
      exact ⟨Iff.rfl, by simp [Tells]⟩
    | schemaAdded _ _ _ | schemaDeleted _ | authenticationChanged _ | circuitStateChanged _
    | metaDataChanged _ _ | rulesChanged _ _ | disabledStateChanged _ _ _ | dataSourcesChanged _ _
    | heartbeat =>
      cases he
      exact ⟨Iff.rfl, by simp [Tells]⟩
  | close =>
    cases h
    exact ⟨Iff.rfl, by simp [Tells]⟩
  | acquire _ | pinned _ _ _ | settle _ _ => cases h

theorem Change.mem_told_iff (change : Change) (schema : String) (r : ReadWriteRule)
    (disabled : List String) (b : String) : b ∈ change.told schema (.readWrite r) disabled ↔
      (b ∈ r.replicas ∧ change = .setDisabled schema b true) ∨
      (b ∈ disabled ∧ ¬ (b ∈ r.replicas ∧ ∃ off, change = .setDisabled schema b off)) := by
  cases change with
  | setDisabled n backend off =>
    by_cases hn : n = schema
    · subst hn
      by_cases hb : backend = b
      · subst hb
        by_cases hreplica : backend ∈ r.replicas <;>
          simp [told, Rule.told, r.mem_told_iff, hreplica]
      · simp [told, Rule.told, r.mem_told_iff, hb]
    · simp [told, hn]
  | _ => simp [told]

/-! ### Turns -/

namespace Turn

/-- Where a turn stands that began with a registry whose schemas are coherent and whose rules have sets
of their own. -/
structure Marked (change : Change) (g : Registry) (x : Registry × Step) : Prop where
  leads : change.Leads g.snapshot g.circuitOpen x
  coherent : x.1.current.Coherent
  coheres : x.2.Coheres x.1
  apart : x.1.current.Apart x.1.resources.disabled.length
  ready : ∀ purpose pending, x.2 = .load purpose pending → purpose.Ready x.1.resources pending

variable {g : Registry}

theorem Marked.answered {change : Change} {x : Registry × Step} (h : Marked change g x)
    (a : Factory × Except Error (SortedMap Tables)) : Marked change g (answered x a) := by
  obtain ⟨g', step⟩ := x
  cases step with
  | done outcome => exact h
  | load purpose pending =>
    obtain ⟨⟨⟨hsnapshot, hopen⟩, hpursues⟩, hcoherent, hcoheres, hapart, hready⟩ := h
    have hsnapshot : g'.snapshot = g.snapshot := hsnapshot
    have hopen : g'.circuitOpen = g.circuitOpen := hopen
    have hpursues' : purpose.Pursues g'.current pending change := by
      rw [Registry.current, hsnapshot]
      exact hpursues
    have hleads := Registry.leads_resume { factory := a.1 } g' hpursues' a.2
    rw [hsnapshot, hopen] at hleads
    have hmarks := Registry.marks_resume { factory := a.1 } hapart hpursues'
      (hready _ _ rfl) a.2
    obtain ⟨hcoherent', hcoheres'⟩ :=
      Registry.coheres_resume { factory := a.1 } hcoherent hcoheres a.2
    exact ⟨hleads, hcoherent', hcoheres', hmarks.apart, hmarks.ready⟩

variable (hg : g.current.Coherent) (ha : g.current.Apart g.resources.disabled.length)
include hg ha

theorem marked_run (u : Turn) : Marked u.change g (u.run g) := by
  obtain ⟨hcoherent, hcoheres⟩ := Registry.coheres_begin { factory := u.factory } hg u.change
  have hmarks := Registry.marks_begin { factory := u.factory } hg ha u.change
  have hbegin : Marked u.change g (g.begin { factory := u.factory } u.change) :=
    ⟨Registry.leads_begin _ g u.change, hcoherent, hcoheres, hmarks.apart, hmarks.ready⟩
  have hfold (as : List (Factory × Except Error (SortedMap Tables))) {x : Registry × Step}
      (hx : Marked u.change g x) : Marked u.change g (as.foldl Turn.answered x) := by
    induction as generalizing x with
    | nil => exact hx
    | cons a as ih => exact ih (hx.answered a)
  exact hfold u.answers hbegin

omit hg ha

theorem marked_after (us : List Turn) : (after .empty us).current.Coherent ∧
    (after .empty us).current.Apart (after .empty us).resources.disabled.length := by
  induction us using List.reverseRecOn with
  | nil => exact ⟨.empty, .empty⟩
  | append_singleton us u ih =>
    rw [after_snoc]
    have h := marked_run ih.1 ih.2 u
    exact ⟨h.coherent, h.apart⟩

end Turn

/-! ### Moves -/

theorem Purpose.Ready.retains {purpose : Purpose} {pending : PendingSchema} {r r' : Resources}
    (h : purpose.Ready r pending) (hr : r.Retains r') : purpose.Ready r' pending :=
  ⟨h.parted, h.issues.retains hr⟩

/-- What the registry sees of a change is the same. -/
theorem Change.Marks.of_face {change : Change} {g g' y y' : Registry} {step : Step}
    (h : change.Marks g (y, step)) (hg : g'.face = g.face) (hy : y'.face = y.face) :
    change.Marks g' (y', step) := by
  have hold := Registry.disabledOf_of_face hg
  have hnew := Registry.disabledOf_of_face hy
  have hcurrent := Registry.current_of_face hy
  have hlength : y'.resources.disabled.length = y.resources.disabled.length :=
    congrArg (·.inventory.disabled.length) hy
  obtain ⟨hapart, hkeeps, htold, hrenewed, hready⟩ := h
  refine ⟨?_, ?_, ?_, ?_, fun purpose pending hload => ?_⟩
  · simp only [hcurrent, hlength]
    exact hapart
  · simp only [hold, hnew]
    exact hkeeps
  · simp only [hold, hnew, Registry.current_of_face hg]
    exact htold
  · simp only [hnew, hcurrent]
    exact hrenewed
  · exact (hready purpose pending hload).retains
      (.of_disabled (congrArg (·.inventory.disabled) hy))

namespace World

/-- The schemas are coherent, their rules have sets of their own, and so have those in hand. -/
structure Marked (w : World) : Prop where
  coherent : w.registry.current.Coherent
  apart : w.registry.current.Apart w.registry.resources.disabled.length
  ready : ∀ t purpose pending query, (t, .loading purpose pending query) ∈ w.tasks →
    purpose.Ready w.registry.resources pending

/-- Every run is like its turns, one after the other. -/
theorem marked_play {moves : List Move} (hc : (play {} moves).crashed = false) :
    (play {} moves).Marked := by
  have hs := Serialized.of_play moves
  obtain ⟨hcoherent, hapart⟩ := Turn.marked_after (turns moves)
  have hdisabled := congrArg (·.inventory.disabled) hs.face
  refine ⟨?_, ?_, fun t purpose pending query hmem => ?_⟩
  · rw [Registry.current_of_face hs.face.symm]
    exact hcoherent
  · rw [Registry.current_of_face hs.face.symm, ← show _ = (play {} moves).registry.resources.disabled
      from hdisabled]
    exact hapart
  · obtain ⟨vs, v, hturns, _, hload⟩ := hs.loading hc t purpose pending query hmem
    obtain ⟨hcoherent, hapart⟩ := Turn.marked_after vs
    rw [hturns, Turn.after_snoc] at hdisabled
    exact ((Turn.marked_run hcoherent hapart v).ready _ _ hload).retains (.of_disabled hdisabled.symm)

section
variable {keys : List (String × String)} {w : World} {cs : List (TaskId × Call)}

/-- What a move does to the rules: a call is accepted whose change marks their sets, or they are left as
they are. -/
theorem Marked.move (hw : w.Marked) (h : Sound keys w) (ha : Assigned Carries cs w) (m : Move) :
    (∃ k call change n, (k, call) ∈ cs ∧ call.change? = some (.ok change) ∧
      w.reply? m = some (k, .generation n) ∧
      change.Yields w.registry.snapshot (w.move m).registry.snapshot ∧
      change.Marks w.registry ((w.move m).registry, .done (.ok n))) ∨
    ((w.move m).registry.current = w.registry.current ∧
      (w.move m).resources.disabledOf = w.resources.disabledOf ∧
      ∀ P : Call → Prop, (∀ call, P call → call.change? ≠ none) → ¬ w.Accepts cs P m) := by
  cases h.progresses ha m with
  | rests hface hnone =>
    refine .inr ⟨Registry.current_of_face hface, Registry.disabledOf_of_face hface, ?_⟩
    rintro P hP ⟨k, call, n, hmem, hreply, hp⟩
    exact hnone k call n hmem (hP call hp) hreply
  | @runs k call change w' y hmem hcall hrun hpart =>
    have hface : (w.move m).registry.face = y.1.face := by
      rw [move_of_part hpart, registry_put]
      exact face_changed w' y
    have hreply : w.reply? m = y.2.outcome?.map fun o => (k, o) := by
      rw [reply?, hpart, Option.bind_some, outcome_changed]
    have hleads := hrun.leads
    have hmarks : change.Marks w.registry y := by
      cases hrun with
      | opens env => exact Registry.marks_begin env hw.coherent hw.apart change
      | @answers env g _ _ _ hload hg hp answer =>
        have hcurrent := Registry.current_of_face hg
        have hdisabled : g.resources.disabled = w.registry.resources.disabled :=
          congrArg (·.inventory.disabled) hg
        have hapart : g.current.Apart g.resources.disabled.length := by
          rw [hcurrent, hdisabled]
          exact hw.apart
        have hready := (hw.ready _ _ _ _ hload).retains (.of_disabled hdisabled)
        exact (Registry.marks_resume env hapart hp hready answer).of_face hg.symm rfl
    obtain ⟨g, step⟩ := y
    have hkeeps (hstep : ∀ n, step ≠ .done (.ok n)) (hsame : g.snapshot = w.registry.snapshot) :
        (w.move m).registry.current = w.registry.current ∧
        (w.move m).resources.disabledOf = w.resources.disabledOf ∧
        ∀ P : Call → Prop, (∀ call, P call → call.change? ≠ none) → ¬ w.Accepts cs P m := by
      refine ⟨?_, (Registry.disabledOf_of_face hface).trans (hmarks.keeps hstep), ?_⟩
      · exact (Registry.current_of_face hface).trans (congrArg (·.value) hsame)
      · rintro P _ ⟨k', call', n, _, hreply', _⟩
        rw [hreply] at hreply'
        obtain ⟨o, ho, heq⟩ := Option.map_eq_some_iff.1 hreply'
        cases heq
        cases step with
        | load purpose pending => cases ho
        | done outcome =>
          cases outcome with
          | ok n => exact hstep n rfl
          | error stop => cases stop <;> cases ho
    cases step with
    | load purpose pending => exact .inr (hkeeps (fun _ h => by cases h) hleads.1.1)
    | done outcome =>
      cases outcome with
      | error stop => exact .inr (hkeeps (fun _ h => by cases h) hleads.1)
      | ok n =>
        have hsnapshot : (w.move m).registry.snapshot = g.snapshot := congrArg (·.snapshot) hface
        exact .inl ⟨k, call, change, n, hmem, hcall, hreply, hsnapshot ▸ hleads.1,
          hmarks.of_face rfl hface⟩

end

/-! ### Runs -/

/-- The last word on a backend of a schema, since the rules of the schema were built, is that it is
disabled. -/
def Off (moves : List Move) (schema backend : String) : Prop :=
  Since (fun ms => (play {} ms).Accepts (calls {} ms) (Call.Tells schema backend true))
    (fun ms => (play {} ms).Accepts (calls {} ms)
      fun call => call.Renews schema ∨ ∃ off, call.Tells schema backend off) moves

theorem off_snoc_iff (moves : List Move) (m : Move) (schema backend : String) :
    Off (moves ++ [m]) schema backend ↔
      (play {} moves).Accepts (calls {} moves) (Call.Tells schema backend true) m ∨
      (Off moves schema backend ∧ ¬ (play {} moves).Accepts (calls {} moves)
        (fun call => call.Renews schema ∨ ∃ off, call.Tells schema backend off) m) :=
  since_snoc_iff _ _ moves m

theorem change?_of_renews {call : Call} {schema : String} (h : call.Renews schema) :
    call.change? ≠ none := by
  cases call with
  | event e => exact Option.some_ne_none _
  | acquire _ | close | pinned _ _ _ | settle _ _ => exact h.elim

theorem change?_of_tells {call : Call} {schema backend : String} {off : Bool}
    (h : call.Tells schema backend off) : call.change? ≠ none := by
  rw [h]
  exact Option.some_ne_none _

/-- A rule of a published schema has those replicas disabled on which that is the last word. -/
theorem mem_disabledOf_iff {moves : List Move} (hc : (play {} moves).crashed = false)
    {schema : String} {bs : List BuiltRule}
    (hb : (play {} moves).registry.current.rules? schema = some bs) {x : BuiltRule} (hx : x ∈ bs)
    {r : ReadWriteRule} (hr : x.rule = .readWrite r) (b : String) :
    b ∈ (play {} moves).registry.resources.disabledOf x.status ↔
      b ∈ r.replicas ∧ Off moves schema b := by
  induction moves using List.reverseRecOn generalizing bs with
  | nil => cases hb
  | append_singleton moves m ih =>
    have hc' := not_crashed_of_append hc
    obtain ⟨keys, _, hs⟩ := Sound.start.play moves hc'
    have hw := marked_play hc'
    have ha := Assigned.of_play kept_carries moves hc'
    rw [off_snoc_iff]
    rw [play_snoc_move hc'] at hb ⊢
    rcases hw.move hs ha m with ⟨k, call, change, n, hmem, hcall, hreply, hyields, hmarks⟩ |
      ⟨hcurrent, hdisabled, hnone⟩
    · obtain ⟨hrenews, htells⟩ := call.asks hcall schema
      rw [accepts_iff ha hmem hreply, accepts_iff ha hmem hreply]
      simp only [hrenews, htells]
      by_cases hnew : change.Renews schema
      · -- its rules are built, and nothing is disabled
        have hne : change ≠ .setDisabled schema b true := by
          rintro rfl
          exact hnew
        rw [hmarks.renewed n schema bs rfl hnew hb x hx]
        simp [hne, hnew]
      · have hold := hyields.rules?_of_not_renews (fun k c hc => (hw.coherent k c hc).1) hnew hb
        rw [hmarks.told schema bs hold x hx, hr, change.mem_told_iff, ih hc' hold hx]
        by_cases hreplica : b ∈ r.replicas <;> simp [hreplica, hnew]
    · have hold : (play {} moves).registry.current.rules? schema = some bs := hcurrent ▸ hb
      have hquiet := hnone (Call.Tells schema b true) fun _ => change?_of_tells
      have hkept := hnone (fun call => call.Renews schema ∨ ∃ off, call.Tells schema b off)
        fun call h => h.elim change?_of_renews fun ⟨_, h⟩ => change?_of_tells h
      rw [show ((play {} moves).move m).registry.resources.disabledOf =
        (play {} moves).registry.resources.disabledOf from hdisabled, ih hc' hold hx]
      simp only [hquiet, hkept, false_or, not_false_iff, and_true]

/-- The rules of a published schema, each with what it holds disabled. -/
def roster? (w : World) (schema : String) : Option (List (BuiltRule × List String)) :=
  (w.registry.current.rules? schema).map fun bs =>
    bs.map fun x => (x, w.registry.resources.disabledOf x.status)

/-- A move leaves a schema its rules, and them what they hold disabled, unless a call is accepted that
builds the rules, takes the schema away or tells of one of its backends. -/
theorem roster?_move {moves : List Move} {m : Move}
    (hc : (play {} (moves ++ [m])).crashed = false) {schema : String}
    (hnone : ¬ (play {} moves).Accepts (calls {} moves) (fun call => call.Renews schema ∨
      call.Takes schema ∨ ∃ backend off, call.Tells schema backend off) m) :
    (play {} (moves ++ [m])).roster? schema = (play {} moves).roster? schema := by
  have hc' := not_crashed_of_append hc
  obtain ⟨keys, _, hs⟩ := Sound.start.play moves hc'
  have hw := marked_play hc'
  have ha := Assigned.of_play kept_carries moves hc'
  rw [play_snoc_move hc']
  rcases hw.move hs ha m with ⟨k, call, change, n, hmem, hcall, hreply, hyields, hmarks⟩ |
    ⟨hcurrent, hdisabled, _⟩
  · obtain ⟨hrenews, htells⟩ := call.asks hcall schema
    rw [accepts_iff ha hmem hreply, not_or, not_or, hrenews] at hnone
    obtain ⟨hnew, htakes, htold⟩ := hnone
    have hnamed : ∀ k c, (play {} moves).registry.current.schema? k = some c → c.value.name = k :=
      fun k c hc => (hw.coherent k c hc).1
    have hback {bs : List BuiltRule}
        (hb : ((play {} moves).move m).registry.current.rules? schema = some bs) :=
      hyields.rules?_of_not_renews hnamed hnew hb
    have hkeys := hyields.mem_keys hcall hnamed schema
    have hrules : ((play {} moves).move m).registry.current.rules? schema =
        (play {} moves).registry.current.rules? schema := by
      cases hafter : ((play {} moves).move m).registry.current.rules? schema with
      | some bs => exact (hback hafter).symm
      | none =>
        cases hbefore : (play {} moves).registry.current.rules? schema with
        | none => rfl
        | some bs =>
          obtain ⟨c, hfound, _⟩ := Snapshot.rules?_eq_some.1 hbefore
          have hmem : schema ∈ (play {} moves).registry.current.schemas.keys := by
            rw [SortedMap.mem_keys_iff]
            exact fun hnone => by cases hfound.symm.trans hnone
          have hmem' := (SortedMap.mem_keys_iff _ _).1 (hkeys.2 (.inr ⟨hmem, htakes⟩))
          exact absurd (Option.map_eq_none_iff.1 hafter) hmem'
    simp only [roster?, hrules]
    cases hb : (play {} moves).registry.current.rules? schema with
    | none => rfl
    | some bs =>
      refine congrArg some (List.map_congr_left fun x hx => congrArg (Prod.mk x) ?_)
      rw [hmarks.told schema bs hb x hx]
      cases change with
      | setDisabled n backend off =>
        have hne : n ≠ schema := by
          rintro rfl
          exact htold ⟨backend, off, (htells backend off).2 rfl⟩
        simp only [Change.told, hne, if_false]
      | _ => rfl
  · have hdisabled : ((play {} moves).move m).registry.resources.disabledOf =
      (play {} moves).registry.resources.disabledOf := hdisabled
    simp only [roster?, hcurrent, hdisabled]

end World

open Classical in
/-- What a rule reports, if it holds `disabled` and `off` are the backends that were said to be
disabled. -/
structure ReadWriteRule.Reports (r : ReadWriteRule) (disabled : List String) (off : String → Prop) :
    Prop where
  members : ∀ b, b ∈ disabled ↔ b ∈ r.replicas ∧ off b
  /-- In the order of the configuration, as often as they stand there. -/
  available : r.available disabled = r.replicas.filter fun b => ¬ off b
  primary : r.primary ∉ disabled

theorem ReadWriteRule.reports_of_disabled {r : ReadWriteRule} {disabled : List String}
    {off : String → Prop} (h : ∀ b, b ∈ disabled ↔ b ∈ r.replicas ∧ off b)
    (hr : r.primary ∉ r.replicas) : r.Reports disabled off where
  members := h
  available := by
    refine List.filter_congr fun b hb => ?_
    simp [h, hb]
  primary hmem := hr ((h _).1 hmem).1

namespace World

/-- In every run that does not crash the read/write splitting rules of each published schema are those
that it is configured with, and report the replicas disabled that were last said to be, since the rules
were built. Nothing else has an effect on that. -/
theorem replicas_last_told {moves : List Move} (hc : (play {} moves).crashed = false)
    (schema : String) :
    (∀ c, (play {} moves).registry.current.schema? schema = some c → ∀ x ∈ c.value.rules, ∀ r,
      x.rule = .readWrite r → .readWrite ⟨r.name, r.primary, r.replicas⟩ ∈ c.value.configurations ∧
        r.Reports ((play {} moves).registry.resources.disabledOf x.status) (Off moves schema)) ∧
    ∀ m, (play {} (moves ++ [m])).crashed = false →
      ¬ (play {} moves).Accepts (calls {} moves) (fun call => call.Renews schema ∨
        call.Takes schema ∨ ∃ backend off, call.Tells schema backend off) m →
      (play {} (moves ++ [m])).roster? schema = (play {} moves).roster? schema := by
  refine ⟨fun c hschema x hx r hr => ⟨?_, ?_⟩, fun m hm hnone => roster?_move hm hnone⟩
  · obtain ⟨_, d, _, hcoherent⟩ := (marked_play hc).coherent schema c hschema
    obtain ⟨conf, hmem, hrealizes⟩ := forall₂_mem_left hcoherent.rules (List.mem_map_of_mem hx)
    rw [hr] at hrealizes
    cases conf with
    | sharding _ => exact hrealizes.elim
    | readWrite conf =>
      obtain ⟨hname, hprimary, hreplicas⟩ := hrealizes
      rw [hname, hprimary, hreplicas]
      exact hmem
  · have hb := Snapshot.rules?_eq_some.2 ⟨c, hschema, rfl⟩
    have hparted := (marked_play hc).apart.parted schema _ hb x hx
    rw [hr] at hparted
    exact ReadWriteRule.reports_of_disabled (mem_disabledOf_iff hc hb hx hr) hparted

/-- The replica of a rule is said to be disabled, and so is its primary; then an unknown schema is
named, and new properties are on their way. -/
def outage : List Move :=
  [.start (.event (.schemaAdded "s" Registry.twoBackends [.readWrite ⟨"rw", "b0", ["b1", "b1"]⟩])),
    .goOn 0, .goOn 0,
    .start (.event (.disabledStateChanged "s" "b1" true)), .goOn 1,
    .start (.event (.disabledStateChanged "s" "b0" true)), .goOn 2,
    .start (.event (.disabledStateChanged "t" "b1" false)), .goOn 3,
    .start (.event (.propertiesChanged .empty))]

theorem replicas_last_told_outage : ∃ c x r,
    (play {} outage).registry.current.schema? "s" = some c ∧ x ∈ c.value.rules ∧
    x.rule = .readWrite r ∧ Off outage "s" "b1" ∧
    r.available ((play {} outage).registry.resources.disabledOf x.status) = [] ∧
    r.primary ∉ (play {} outage).registry.resources.disabledOf x.status ∧
    (play {} (outage ++ [.goOn 4])).roster? "s" = some [(x, ["b1"])] := by
  have hc : (play {} outage).crashed = false := rfl
  obtain ⟨htold, hkept⟩ := replicas_last_told hc "s"
  have hdisabled : (play {} outage).registry.resources.disabledOf 0 = ["b1"] := rfl
  obtain ⟨_, hreports⟩ := htold _ rfl ⟨.readWrite ⟨"rw", "b0", ["b1", "b1"]⟩, 0⟩ (.head _) _ rfl
  have hoff := (hreports.members "b1").1 (hdisabled ▸ List.mem_singleton_self _)
  refine ⟨_, ⟨_, 0⟩, _, rfl, .head _, rfl, hoff.2, by rw [hdisabled]; rfl, hreports.primary, ?_⟩
  refine (hkept (.goOn 4) rfl ?_).trans rfl
  rintro ⟨k, call, n, hmem, hreply, h⟩
  have hcalls : calls {} outage =
    [(0, _), (1, _), (2, _), (3, _), (4, .event (.propertiesChanged .empty))] := rfl
  have hanswer : (play {} outage).reply? (.goOn 4) = some (4, .generation 2) := rfl
  cases hanswer.symm.trans hreply
  obtain rfl : call = .event (.propertiesChanged .empty) := by simpa [hcalls] using hmem
  simp [Call.Renews, Call.Takes, Call.Tells] at h

end World

end ShardRegistry
