import ShardRegistry.Proofs.Tenure

/-! Lookups. A registry tells in several ways whether it has a schema. A name is known from an accepted
event that brings its schema to one that takes it away, and all ways tell so alike, but that a schema
without a name is said not to exist. -/
namespace ShardRegistry

/-! ### What calls do to names -/

/-- Whether a call brings a schema of that name, if it is accepted. -/
def Call.Brings (name : String) : Call → Prop
  | .event (.reset schemas _ _) => name ∈ schemas.keys
  | .event (.schemaAdded n _ _) => n = name
  | _ => False

/-- Whether a call takes the schema of that name away, if it is accepted. -/
def Call.Takes (name : String) : Call → Prop
  | .event (.reset schemas _ _) => name ∉ schemas.keys
  | .event (.schemaDeleted n) => n = name
  | .close => True
  | _ => False

namespace Configuration
variable (c : Configuration) (name : String)

theorem keys_revise (schema : String) (f : SchemaSetup → SchemaSetup) :
    name ∈ (c.revise schema f).schemas.keys ↔ name ∈ c.schemas.keys := by
  simp only [revise]
  split
  · rfl
  · rename_i s hs
    rw [SortedMap.mem_keys_insert, or_iff_right_of_imp]
    rintro rfl
    rw [SortedMap.mem_keys_iff, hs]
    exact Option.some_ne_none s

theorem mem_keys_apply (e : Event) : name ∈ (c.apply e).schemas.keys ↔
    (Call.event e).Brings name ∨ (name ∈ c.schemas.keys ∧ ¬ (Call.event e).Takes name) := by
  cases e with
  | reset schemas a raw =>
    have hkeys : name ∈ (c.apply (.reset schemas a raw)).schemas.keys ↔ name ∈ schemas.keys := by
      simp [apply, SortedMap.mem_keys_ofList, OrderedMap.keys]
    rw [hkeys]
    simp [Call.Brings, Call.Takes]
  | schemaAdded n ds rules =>
    rw [apply, SortedMap.mem_keys_insert]
    simp [Call.Brings, Call.Takes, eq_comm]
  | schemaDeleted n =>
    rw [apply, SortedMap.mem_keys_erase]
    simp [Call.Brings, Call.Takes, eq_comm]
  | rulesChanged n rules =>
    rw [apply, keys_revise]
    simp [Call.Brings, Call.Takes]
  | dataSourcesChanged n ds =>
    rw [apply, keys_revise]
    simp [Call.Brings, Call.Takes]
  | propertiesChanged _ | authenticationChanged _ | circuitStateChanged _ | metaDataChanged _ _
  | disabledStateChanged _ _ _ | heartbeat => simp [apply, Call.Brings, Call.Takes]

end Configuration

/-- The names after an accepted change are those that its call brings, and those that were there and
that it does not take. -/
theorem Change.Yields.mem_keys {call : Call} {change : Change} {s s' : Stamped Snapshot}
    (h : change.Yields s s') (hcall : call.change? = some (.ok change))
    (hn : ∀ k c, s.value.schema? k = some c → c.value.name = k) (name : String) :
    name ∈ s'.value.schemas.keys ↔
      call.Brings name ∨ (name ∈ s.value.schemas.keys ∧ ¬ call.Takes name) := by
  cases call with
  | event e =>
    have he : ofEvent e = .ok change := Option.some.inj hcall
    have hsetups : s'.value.setups = ((s.value.configuration false).apply e).schemas :=
      congrArg Configuration.schemas (h.configuration he hn false)
    have hkeys : (s.value.configuration false).schemas.keys = s.value.schemas.keys :=
      SortedMap.keys_map _ s.value.schemas
    have hkeys' : s'.value.setups.keys = s'.value.schemas.keys :=
      SortedMap.keys_map _ s'.value.schemas
    rw [← hkeys', hsetups, Configuration.mem_keys_apply, hkeys]
  | close =>
    cases hcall
    cases h with
    | close hs => simp [hs, Snapshot.successor, SortedMap.keys, SortedMap.empty, Call.Brings,
        Call.Takes]
  | acquire _ | pinned _ _ _ | settle _ _ => cases hcall

namespace World

/-! ### One move -/

section Moves
variable {keys : List (String × String)} {w : World} {cs : List (TaskId × Call)} {name : String}
  {k : TaskId} {call : Call}

/-- What a move does to the snapshot: it publishes what the change of a call yields that it accepts, or
it accepts no change and publishes nothing. -/
def YieldsOrKeeps (w : World) (cs : List (TaskId × Call)) (m : Move) : Prop :=
  (∃ k call change n, (k, call) ∈ cs ∧ call.change? = some (.ok change) ∧
    w.reply? m = some (k, .generation n) ∧
    change.Yields w.registry.snapshot (w.move m).registry.snapshot) ∨
  ((w.move m).registry.snapshot = w.registry.snapshot ∧
    ∀ k call n, (k, call) ∈ cs → call.change? ≠ none → w.reply? m ≠ some (k, .generation n))

theorem yieldsOrKeeps_changed (hmem : (k, call) ∈ cs) {change : Change}
    (hcall : call.change? = some (.ok change)) {m : Move} {w' : World} {y : Registry × Step}
    (hpart : w.part? m = some (k, w'.changed y))
    (hl : change.Leads w.registry.snapshot w.registry.circuitOpen y) : w.YieldsOrKeeps cs m := by
  have hmove : (w.move m).registry.snapshot = y.1.snapshot := by
    rw [move_of_part hpart, registry_put]
    exact congrArg Face.snapshot (face_changed w' y)
  have hreply : w.reply? m = y.2.outcome?.map fun o => (k, o) := by
    rw [reply?, hpart, Option.bind_some, outcome_changed]
  have hkeeps (hnone : ∀ n, y.2.outcome? ≠ some (.generation n))
      (hsame : y.1.snapshot = w.registry.snapshot) : w.YieldsOrKeeps cs m := by
    refine .inr ⟨hmove.trans hsame, fun k' call' n _ _ hgeneration => ?_⟩
    rw [hreply] at hgeneration
    obtain ⟨o, ho, heq⟩ := Option.map_eq_some_iff.1 hgeneration
    cases heq
    exact hnone n ho
  obtain ⟨g, step⟩ := y
  cases step with
  | load purpose pending => exact hkeeps (by simp [Step.outcome?]) hl.1.1
  | done outcome =>
    cases outcome with
    | ok n => exact .inl ⟨k, call, change, n, hmem, hcall, hreply, hmove ▸ hl.1⟩
    | error stop => cases stop <;> exact hkeeps (by simp [Step.outcome?]) hl.1

theorem Sound.yieldsOrKeeps (h : Sound keys w) (ha : Assigned Carries cs w) (m : Move) :
    w.YieldsOrKeeps cs m := by
  cases h.progresses ha m with
  | rests hface hnone => exact .inr ⟨congrArg Face.snapshot hface, hnone⟩
  | runs hmem hcall hrun hpart => exact yieldsOrKeeps_changed hmem hcall hpart hrun.leads

/-- A call of that kind is accepted in a move. -/
def Accepts (w : World) (calls : List (TaskId × Call)) (P : Call → Prop) (m : Move) : Prop :=
  ∃ k call n, (k, call) ∈ calls ∧ w.reply? m = some (k, .generation n) ∧ P call

/-- At most one call is accepted. -/
theorem accepts_iff (ha : Assigned Carries cs w) {m : Move} {n : Nat} (hmem : (k, call) ∈ cs)
    (hreply : w.reply? m = some (k, .generation n)) {P : Call → Prop} :
    w.Accepts cs P m ↔ P call := by
  refine ⟨fun ⟨k', call', n', hmem', hreply', hp⟩ => ?_, fun hp => ⟨k, call, n, hmem, hreply, hp⟩⟩
  cases hreply.symm.trans hreply'
  exact ha.unique hmem' hmem ▸ hp

/-- A call that brings a schema of that name is accepted in a move. -/
def Brings (w : World) (calls : List (TaskId × Call)) (name : String) (m : Move) : Prop :=
  w.Accepts calls (·.Brings name) m

/-- A call that takes the schema of that name away is accepted in a move. -/
def Takes (w : World) (calls : List (TaskId × Call)) (name : String) (m : Move) : Prop :=
  w.Accepts calls (·.Takes name) m

theorem change?_of_brings (h : call.Brings name) : call.change? ≠ none := by
  cases call with
  | event e => exact Option.some_ne_none _
  | acquire _ | close | pinned _ _ _ | settle _ _ => exact h.elim

theorem change?_of_takes (h : call.Takes name) : call.change? ≠ none := by
  cases call with
  | event e => exact Option.some_ne_none _
  | close => exact Option.some_ne_none _
  | acquire _ | pinned _ _ _ | settle _ _ => exact h.elim

/-- The published names after a move are those that are brought in it, and those that were published
and are not taken away in it. -/
theorem Sound.mem_schemaNames_move (h : Sound keys w) (ha : Assigned Carries cs w) (m : Move)
    (name : String) : name ∈ (w.move m).registry.schemaNames ↔
      w.Brings cs name m ∨ (name ∈ w.registry.schemaNames ∧ ¬ w.Takes cs name m) := by
  rcases h.yieldsOrKeeps ha m with ⟨k, call, change, n, hmem, hcall, hreply, hyields⟩ | ⟨hsame, hno⟩
  · obtain ⟨ps, es, hk⟩ := h.keeps
    have hbrings : w.Brings cs name m ↔ call.Brings name := accepts_iff ha hmem hreply
    have htakes : w.Takes cs name m ↔ call.Takes name := accepts_iff ha hmem hreply
    rw [hbrings, htakes]
    exact hyields.mem_keys hcall (fun n _ hd => hk.named n _ (Snapshot.find?_of_schema? hd)) name
  · have hbrings : ¬ w.Brings cs name m := fun ⟨k, call, n, hmem, hreply, hb⟩ =>
      hno k call n hmem (change?_of_brings hb) hreply
    have htakes : ¬ w.Takes cs name m := fun ⟨k, call, n, hmem, hreply, ht⟩ =>
      hno k call n hmem (change?_of_takes ht) hreply
    simp only [Registry.schemaNames, Registry.current, hsame, hbrings, htakes, false_or,
      not_false_iff, and_true]

end Moves

/-! ### Runs -/

/-- Something of the first kind happened in some move, and nothing of the second kind in a later one. -/
def Since (P Q : List Move → Move → Prop) (moves : List Move) : Prop :=
  ∃ ms m ms', moves = ms ++ m :: ms' ∧ P ms m ∧
    ∀ ms₁ m₁ ms₂, ms' = ms₁ ++ m₁ :: ms₂ → ¬ Q (ms ++ m :: ms₁) m₁

theorem since_snoc_iff (P Q : List Move → Move → Prop) (moves : List Move) (m : Move) :
    Since P Q (moves ++ [m]) ↔ P moves m ∨ (Since P Q moves ∧ ¬ Q moves m) := by
  constructor
  · rintro ⟨ms, m₀, ms', heq, hlast, hkept⟩
    rcases List.eq_nil_or_concat ms' with rfl | ⟨ms', m', rfl⟩
    · obtain ⟨rfl, rfl⟩ := List.append_singleton_inj.1 heq
      exact .inl hlast
    · rw [List.concat_eq_append] at hkept heq
      rw [← List.cons_append, ← List.append_assoc] at heq
      obtain ⟨rfl, rfl⟩ := List.append_singleton_inj.1 heq
      refine .inr ⟨⟨ms, m₀, ms', rfl, hlast, ?_⟩, hkept ms' m [] rfl⟩
      rintro ms₁ m₁ ms₂ rfl
      exact hkept ms₁ m₁ (ms₂ ++ [m]) (by simp)
  · rintro (hlast | ⟨⟨ms, m₀, ms', rfl, hlast, hkept⟩, hnot⟩)
    · exact ⟨moves, m, [], rfl, hlast, fun ms₁ m₁ ms₂ heq => by simp at heq⟩
    · refine ⟨ms, m₀, ms' ++ [m], by simp, hlast, fun ms₁ m₁ ms₂ heq => ?_⟩
      rcases List.eq_nil_or_concat ms₂ with rfl | ⟨ms₂, m₂, rfl⟩
      · obtain ⟨rfl, rfl⟩ := List.append_singleton_inj.1 heq
        exact hnot
      · rw [List.concat_eq_append, ← List.cons_append, ← List.append_assoc] at heq
        obtain ⟨rfl, rfl⟩ := List.append_singleton_inj.1 heq
        exact hkept ms₁ m₁ ms₂ rfl

/-- A call that brings the name was accepted in some move, and none that takes it away in a later one. -/
def Stands (moves : List Move) (name : String) : Prop :=
  Since (fun ms => (play {} ms).Brings (calls {} ms) name)
    (fun ms => (play {} ms).Takes (calls {} ms) name) moves

theorem stands_snoc_iff (moves : List Move) (m : Move) (name : String) :
    Stands (moves ++ [m]) name ↔ (play {} moves).Brings (calls {} moves) name m ∨
      (Stands moves name ∧ ¬ (play {} moves).Takes (calls {} moves) name m) :=
  since_snoc_iff _ _ moves m

/-- The published names are those that stand. -/
theorem mem_schemaNames_iff {moves : List Move} (hc : (play {} moves).crashed = false)
    (name : String) : name ∈ (play {} moves).registry.schemaNames ↔ Stands moves name := by
  induction moves using List.reverseRecOn with
  | nil =>
    refine iff_of_false List.not_mem_nil ?_
    rintro ⟨ms, m, ms', heq, _⟩
    simp at heq
  | append_singleton moves m ih =>
    have hc' := not_crashed_of_append hc
    obtain ⟨keys, _, hs⟩ := Sound.start.play moves hc'
    rw [play_snoc_move hc', hs.mem_schemaNames_move (.of_play kept_carries moves hc') m name,
      stands_snoc_iff, ih hc']

/-! ### Lookups -/

/-- What the lookups of a name tell, whether it is known or not. Only the question whether the schema
exists looks at the name itself. -/
structure Tells (w : World) (name : String) (known : Prop) : Prop where
  names : name ∈ w.registry.schemaNames ↔ known
  get : (∃ c, w.registry.getSchema name = .ok c) ↔ known
  getUnknown : w.registry.getSchema name = .error (.schemaNotFound name) ↔ ¬ known
  /-- A request for no connections is answered at once. -/
  acquire : ∀ q : AcquireRequest, q.schema = name → q.count = 0 → ∃ o,
    w.reply? (.start (.acquire q)) = some (w.started, o) ∧
      ∀ n, o = .failed (.schemaNotFound n) ↔ n = name ∧ ¬ known
  existence : w.registry.schemaExists name = true ↔ known ∧ name ≠ ""

theorem reply_acquire_empty (w : World) {q : AcquireRequest} (hq : q.count = 0) : ∃ o,
    w.reply? (.start (.acquire q)) = some (w.started, o) ∧
      ∀ n, o = .failed (.schemaNotFound n) ↔
        n = q.schema ∧ w.registry.current.schema? q.schema = none := by
  simp only [reply?, part?, World.begin, beginAcquire, Registry.admit, Registry.resolve,
    Option.bind_some]
  cases hschema : w.registry.current.schema? q.schema with
  | none => exact ⟨_, rfl, fun n => by simp [eq_comm]⟩
  | some c =>
    simp only
    cases hpool : c.value.dataSources.find? q.backend with
    | none => exact ⟨_, rfl, fun n => by simp⟩
    | some d => exact ⟨_, by simp [bind, Except.bind, pure, Except.pure, hq]; rfl, fun n => by simp⟩

theorem tells (w : World) (name : String) : w.Tells name (name ∈ w.registry.schemaNames) := by
  have hknown : name ∈ w.registry.schemaNames ↔ w.registry.current.schema? name ≠ none :=
    SortedMap.mem_keys_iff w.registry.current.schemas name
  refine ⟨Iff.rfl, ?_, ?_, ?_, ?_⟩
  · rw [hknown, Registry.getSchema]
    split <;> simp [*]
  · rw [hknown, Registry.getSchema]
    split <;> simp [*]
  · rintro q rfl hcount
    obtain ⟨o, hreply, ho⟩ := w.reply_acquire_empty hcount
    exact ⟨o, hreply, fun n => by rw [ho, hknown, not_not]⟩
  · rw [hknown, Registry.schemaExists, SortedMap.contains]
    simp [Option.isSome_iff_ne_none, and_comm, Snapshot.schema?]

/-- In every run that does not crash all lookups of a name agree that it is known from the acceptance of
a call that brings it to that of one that takes it away; but for the empty name, which is said not to
exist even then. -/
theorem lookups_agree {moves : List Move} (hc : (play {} moves).crashed = false) (name : String) :
    (play {} moves).Tells name (Stands moves name) := by
  rw [← propext (mem_schemaNames_iff hc name)]
  exact tells _ name

/-- A schema without a name is brought together with another one, which is deleted again. -/
def unnaming : List Move :=
  [.start (.event (.reset (.ofList [("s", ⟨Registry.twoBackends, []⟩), ("", {})]) {} .empty)),
    .goOn 0, .goOn 0, .goOn 0, .start (.event (.schemaDeleted "s")), .goOn 1]

theorem lookups_agree_unnaming :
    let w := play {} unnaming
    w.Tells "" (Stands unnaming "") ∧ w.Tells "s" (Stands unnaming "s") ∧
      Stands unnaming "" ∧ ¬ Stands unnaming "s" ∧ w.registry.schemaExists "" = false := by
  intro w
  have hc : (play {} unnaming).crashed = false := rfl
  have hunnamed := lookups_agree hc ""
  have hs := lookups_agree hc "s"
  have hnames : w.registry.schemaNames = [""] := rfl
  refine ⟨hunnamed, hs, hunnamed.names.1 ?_, fun hstands => ?_, rfl⟩
  · simp [w, hnames]
  · have hmem := hs.names.2 hstands
    simp [w, hnames] at hmem

end World

end ShardRegistry
