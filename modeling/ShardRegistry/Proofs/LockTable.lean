import Mathlib.Data.List.Induction
import ShardRegistry.Proofs.Exclusion
import ShardRegistry.Proofs.Setups
import ShardRegistry.Proofs.Upkeep

/-! The table of locks. A lock is put into the table by a batch that is started for a published backend,
and by nothing else; whatever takes the backend away takes its lock out of the table too. So in every
run the table has locks of published backends only, one for each. -/
namespace ShardRegistry

/-! ### Published backends -/

namespace Snapshot

/-- The backends that a snapshot publishes, each with its schema. -/
def backends (s : Snapshot) : List (String × String) :=
  s.schemas.entries.flatMap fun e => e.2.value.dataSources.keys.map fun b => (e.1, b)

theorem mem_backends_iff (s : Snapshot) (k : String × String) :
    k ∈ s.backends ↔ ∃ h, s.holdings.find? k.1 = some h ∧ k.2 ∈ h.dataSources.keys := by
  simp only [backends, find?_holdings, List.mem_flatMap, List.mem_map, Option.map_eq_some_iff]
  constructor
  · rintro ⟨⟨schema, c⟩, hc, b, hb, rfl⟩
    exact ⟨_, ⟨c, (SortedMap.mem_entries_iff _ _ _).1 hc, rfl⟩, hb⟩
  · rintro ⟨_, ⟨c, hc, rfl⟩, hb⟩
    exact ⟨(k.1, c), (SortedMap.mem_entries_iff _ _ _).2 hc, k.2, hb, rfl⟩

/-- Under another name nothing changes. -/
theorem mem_backends_of_ne {s s' : Snapshot} {k : String × String}
    (h : s'.holdings.find? k.1 = s.holdings.find? k.1) : k ∈ s'.backends ↔ k ∈ s.backends := by
  rw [mem_backends_iff, mem_backends_iff, h]

end Snapshot

namespace Registry

/-- What is left of the table of locks, and that it is for what is left of the published backends. -/
structure Tidies (g g' : Registry) : Prop where
  entries : g'.lockTable.Sublist g.lockTable
  published : ∀ e ∈ g'.lockTable, e.1 ∈ g.current.backends → e.1 ∈ g'.current.backends

namespace Tidies
variable {g g' g'' : Registry}

theorem of_current (hs : g'.current = g.current) (hl : g'.lockTable.Sublist g.lockTable) :
    g.Tidies g' where
  entries := hl
  published _ _ h := hs ▸ h

theorem refl (g : Registry) : g.Tidies g := of_current rfl (List.Sublist.refl _)

theorem trans (h : g.Tidies g') (h' : g'.Tidies g'') : g.Tidies g'' where
  entries := h'.entries.trans h.entries
  published e he hp := h'.published e he (h.published e (h'.entries.subset he) hp)

theorem of_quiet (h : g.Quiet g')
    (hn : ∀ k x, g.current.holdings.find? k = some x → x.name = k) : g.Tidies g' where
  entries := h.locks ▸ List.Sublist.refl _
  published e _ hp := (Snapshot.mem_backends_of_ne (by rw [h.holdings hn])).2 hp

end Tidies

/-! ### Changes -/

/-- Where a schema is taken away, its locks are. -/
theorem tidies_deleteSchema (g : Registry) (name : String) (cs : List SchemaContext) :
    g.Tidies (((g.publish (g.current.withoutSchema name)).closeContexts cs).pruneSchema name) where
  entries := List.filter_sublist
  published e he hp := by
    have hne : e.1.1 ≠ name := by simpa using (List.mem_filter.1 he).2
    refine (Snapshot.mem_backends_of_ne ?_).2 hp
    exact (congrArg (·.find? e.1.1) (Snapshot.holdings_withoutSchema _ _)).trans
      (SortedMap.find?_erase_of_ne _ hne)

/-- Where a schema takes the place of another one, the locks that stay are of other schemas or of
backends that it has. -/
theorem Tidies.withSchema {g g' : Registry} {c : Stamped SchemaContext}
    (hs : g'.current = g.current.withSchema c) (hl : g'.lockTable.Sublist g.lockTable)
    (hkept : ∀ e ∈ g'.lockTable, e.1.1 = c.value.name → e.1 ∈ g.current.backends →
      e.1.2 ∈ c.value.dataSources.keys) : g.Tidies g' where
  entries := hl
  published e he hp := by
    have hfind : g'.current.holdings =
        g.current.holdings.insert c.value.name c.value.holding := by
      rw [hs]
      exact Snapshot.holdings_withSchema _ _
    by_cases hname : e.1.1 = c.value.name
    · refine (Snapshot.mem_backends_iff _ _).2 ⟨c.value.holding, ?_, hkept e he hname hp⟩
      rw [hfind, hname]
      exact SortedMap.find?_insert_self _ _ _
    · refine (Snapshot.mem_backends_of_ne ?_).2 hp
      rw [hfind]
      exact SortedMap.find?_insert_of_ne _ _ (Ne.symm hname)

end Registry

/-- A reconciliation under way keeps every backend of the schema or has it among the deleted ones. -/
def Purpose.Replaces : Purpose → Prop
  | .reconcile x previous => ∀ b ∈ previous.dataSources.keys,
      b ∈ x.dataSources.keys ∨ b ∈ x.changes.deleted
  | .reset .. | .add => True

namespace Registry

theorem tidies_nextSchema (env : Environment) (g : Registry) (a : Authentication) (p : Properties)
    (d : Dialect) (built : List (Stamped SchemaContext))
    (rest : List (String × SchemaConfiguration)) :
    g.Tidies (g.nextSchema env a p d built rest).1 := by
  cases rest with
  | nil => exact ⟨List.nil_sublist _, fun _ he => absurd he List.not_mem_nil⟩
  | cons e rest =>
    simp only [nextSchema]
    split
    · exact .of_current rfl (List.Sublist.refl _)
    · split <;> exact .of_current rfl (List.Sublist.refl _)

theorem tidies_begin (env : Environment) {g : Registry}
    (hn : ∀ k h, g.current.holdings.find? k = some h → h.name = k) (change : Change) :
    g.Tidies (g.begin env change).1 := by
  have hsame {g' : Registry} (hs : g'.current = g.current) (hl : g'.lockTable = g.lockTable) :
      g.Tidies g' := .of_current hs (hl ▸ List.Sublist.refl _)
  cases change with
  | reset schemas a p d => exact tidies_nextSchema env g a p d [] schemas.entries
  | addSchema name ds rules =>
    simp only [begin, addSchema]
    split
    · exact hsame rfl rfl
    · split
      · exact hsame rfl rfl
      · split <;> exact hsame rfl rfl
  | deleteSchema name =>
    simp only [begin]
    split
    · exact .refl g
    · exact tidies_deleteSchema g name _
  | setProperties p => exact .of_quiet (.setProperties g p) hn
  | setAuthentication a => exact .of_quiet (.setAuthentication env g a) hn
  | setCircuit isOpen => exact hsame rfl rfl
  | setTables names tables => exact .of_quiet (.setTables g names tables) hn
  | setRules name rules => exact .of_quiet (.setRules g name rules) hn
  | setDisabled name backend off =>
    simp only [begin]
    split
    · exact .refl g
    · exact .of_quiet (.setDisabled g backend off _) hn
  | setDataSources name new =>
    simp only [begin, setDataSources]
    split
    · exact .refl g
    · split
      · exact hsame rfl rfl
      · split <;> exact hsame rfl rfl
  | heartbeat => exact hsame rfl rfl
  | close => exact ⟨List.nil_sublist _, fun _ he => absurd he List.not_mem_nil⟩

theorem tidies_abandon (g : Registry) (purpose : Purpose) (pending : PendingSchema) :
    g.Tidies (g.abandon purpose pending) := by
  cases purpose <;> exact .of_current rfl (List.Sublist.refl _)

theorem tidies_resume (env : Environment) {g : Registry} {purpose : Purpose}
    {pending : PendingSchema} (hf : purpose.Fits g pending) (hx : purpose.Replaces)
    (answer : Except Error (SortedMap Tables)) :
    g.Tidies (g.resume env purpose pending answer).1 := by
  simp only [resume]
  split
  · exact tidies_abandon g purpose pending
  · split
    · exact .of_current rfl (List.Sublist.refl _)
    · have hsame {r : Resources} : g.Tidies (g.owning r) := .of_current rfl (List.Sublist.refl _)
      exact hsame.trans (tidies_abandon _ purpose pending)
    · rename_i r context hb
      obtain ⟨hname, hsources⟩ := Resources.finishSchema_names hb
      have howning : g.Tidies (g.owning r) := .of_current rfl (List.Sublist.refl _)
      refine howning.trans ?_
      cases purpose with
      | reset a p d rest built => exact tidies_nextSchema env _ a p d _ rest
      | add =>
        simp only
        split
        · rename_i hnone
          refine .withSchema rfl (List.Sublist.refl _) fun e he hk hp => ?_
          obtain ⟨h, hfind, _⟩ := (Snapshot.mem_backends_iff _ _).1 hp
          rw [hk, hname, Snapshot.find?_holdings, hnone] at hfind
          cases hfind
        · refine .withSchema rfl List.filter_sublist fun e he hk _ => ?_
          have hne : e.1.1 ≠ pending.name := by simpa using (List.mem_filter.1 he).2
          exact absurd (hk.trans hname) hne
      | reconcile x previous =>
        obtain ⟨⟨c, hc, rfl⟩, hpending, _⟩ := hf
        refine .withSchema rfl List.filter_sublist fun e he hk hp => ?_
        obtain ⟨h, hfind, hb⟩ := (Snapshot.mem_backends_iff _ _).1 hp
        have hold : (g.owning r).current.holdings.find? e.1.1 = some c.value.holding := by
          rw [hk, hname]
          exact Snapshot.find?_of_schema? hc
        cases hold.symm.trans hfind
        rw [hsources, hpending]
        refine (hx e.1.2 hb).resolve_right fun hdel => ?_
        simpa [hk, hname, hdel] using (List.mem_filter.1 he).2

/-- A reset loads for itself. -/
theorem replaces_nextSchema (env : Environment) (g : Registry) (a : Authentication) (p : Properties)
    (d : Dialect) (built : List (Stamped SchemaContext))
    (rest : List (String × SchemaConfiguration)) :
    Upholds (fun _ => True) (fun _ purpose _ => purpose.Replaces)
      (g.nextSchema env a p d built rest) := by
  cases rest with
  | nil => exact .done trivial
  | cons e rest =>
    simp only [nextSchema]
    split
    · exact .done trivial
    · split
      · exact .done trivial
      · exact .load trivial trivial

theorem replaces_begin (env : Environment) (g : Registry) (change : Change) :
    Upholds (fun _ => True) (fun _ purpose _ => purpose.Replaces) (g.begin env change) := by
  cases change with
  | reset schemas a p d => exact replaces_nextSchema env g a p d [] schemas.entries
  | addSchema name ds rules =>
    simp only [begin, addSchema]
    split
    · exact .done trivial
    · split
      · exact .done trivial
      · split
        · exact .done trivial
        · exact .load trivial trivial
  | setDataSources name new =>
    simp only [begin, setDataSources]
    split
    · exact .done trivial
    · split
      · exact .done trivial
      · rename_i hx
        split
        · exact .done trivial
        · exact .load trivial fun b hb => Reconciliation.kept_or_deleted hx hb
  | deleteSchema name =>
    simp only [begin]
    split <;> exact .done trivial
  | setProperties p =>
    simp only [begin, setProperties]
    split <;> exact .done trivial
  | setTables names tables =>
    simp only [begin, setTables]
    split <;> exact .done trivial
  | setRules name rules =>
    simp only [begin, setRules]
    split
    · exact .done trivial
    · split <;> exact .done trivial
  | setDisabled name backend off =>
    simp only [begin]
    split <;> exact .done trivial
  | setAuthentication _ | setCircuit _ | heartbeat | close => exact .done trivial

/-- Whatever is reconciled in a run replaces the backends of its schema. -/
theorem Upkeep.replacement : Upkeep (fun _ => True) (fun _ => True)
    fun _ purpose _ => purpose.Replaces where
  congr _ h := h
  begin change _ _ := replaces_begin _ _ change
  resume answer _ _ _ := by
    simp only [Registry.resume]
    split
    · exact .done trivial
    · split
      · exact .done trivial
      · exact .done trivial
      · split
        · exact replaces_nextSchema _ _ _ _ _ _ _
        · split <;> exact .done trivial
        · exact .done trivial

end Registry

namespace World
variable {w : World} {t : TaskId}

/-! ### Tasks -/

section Tasks

@[simp] theorem lockTable_releaseLock (w : World) (l : LockId) :
    (w.releaseLock l).registry.lockTable = w.registry.lockTable := by
  simp only [releaseLock]
  split <;> rfl

@[simp] theorem lockTable_releaseHeld (w : World) (held : Option LockId) :
    (w.releaseHeld held).registry.lockTable = w.registry.lockTable := by
  cases held with
  | none => rfl
  | some l => exact lockTable_releaseLock w l

@[simp] theorem lockTable_acquired (w : World) (held : Option LockId) (y : Resources × Progress) :
    (w.acquired held y).1.registry.lockTable = w.registry.lockTable := by
  obtain ⟨r, progress⟩ := y
  cases progress with
  | waits stage a | passes stage a => rfl
  | done outcome =>
    cases outcome with
    | ok cs => exact lockTable_releaseHeld (w.owning r) held
    | error stop =>
      cases stop with
      | rejected e => exact lockTable_releaseHeld (w.owning r) held
      | crashed => rfl

theorem lockTable_withdraw (w : World) (t : TaskId) (s : TaskState) :
    (w.withdraw t s).registry.lockTable = w.registry.lockTable := by
  cases s with
  | lock q l a =>
    simp only [withdraw]
    split
    · exact lockTable_releaseLock w l
    · rfl
  | acquiring held stage a => exact lockTable_releaseHeld _ held
  | settling transaction => rfl
  | turn change =>
    simp only [withdraw]
    split <;> rfl
  | loading purpose pending query => cases query <;> rfl

theorem tidies_changed {y : Registry × Step} (h : w.registry.Tidies y.1) :
    w.registry.Tidies (w.changed y).1.registry := by
  obtain ⟨g, step⟩ := y
  cases step with
  | load purpose pending => exact h
  | done outcome =>
    have hreleased : g.Tidies (World.releaseWriter { w with registry := g }).registry :=
      .of_current rfl (List.Sublist.refl _)
    cases outcome with
    | ok n => exact h.trans hreleased
    | error stop =>
      cases stop with
      | rejected e => exact h.trans hreleased
      | crashed => exact h

/-- A waiting batch takes at most its own lock out of the table. -/
theorem tidies_afterLock (w : World) (t : TaskId) (q : AcquireRequest) (l : LockId)
    (a : Acquisition) : w.registry.Tidies (w.afterLock t q l a).1.registry := by
  simp only [afterLock]
  split
  · refine .of_current (Registry.current_of_face (face_releaseLock _ l)) ?_
    rw [lockTable_releaseLock]
    exact List.filter_sublist
  · refine .of_current (Registry.current_of_face (face_acquired w _ (a.inventory_start _ t))) ?_
    rw [lockTable_acquired]

section Loading
variable {keys : List (String × String)} {purpose : Purpose} {pending : PendingSchema}
  {query : Option Query}

theorem tidies_loaded (hf : purpose.Fits w.registry pending) (hx : purpose.Replaces)
    (tables : Except Error (SortedMap Tables)) :
    w.registry.Tidies (w.loaded purpose pending tables).1.registry :=
  tidies_changed (Registry.tidies_resume w.environment hf hx tables)

theorem tidies_askBackend (hf : purpose.Fits w.registry pending) (hx : purpose.Replaces)
    (tables : SortedMap Tables) (rest : List (String × DataSource)) :
    w.registry.Tidies (w.askBackend t purpose pending tables rest).1.registry := by
  cases rest with
  | nil => exact tidies_loaded hf hx _
  | cons e rest =>
    exact .of_current rfl (List.Sublist.refl _)

theorem tidies_load (hf : purpose.Fits w.registry pending) (hx : purpose.Replaces) :
    w.registry.Tidies (w.load t purpose pending).1.registry := by
  simp only [load]
  split
  · exact tidies_loaded hf hx _
  · split
    · exact tidies_askBackend hf hx _ _
    · exact tidies_loaded hf hx _

theorem tidies_afterQuery (hf : purpose.Fits w.registry pending) (hx : purpose.Replaces)
    (q : Query) : w.registry.Tidies (w.afterQuery t purpose pending q).1.registry := by
  have hs := Resources.Steady.leavePool w.resources w.server q.pool q.attempt
  have hf' : purpose.Fits (w.owning (w.resources.leavePool w.server q.pool q.attempt).1).registry
      pending := hf.of_current rfl hs.grows.engines hs.grows.managers
  have howning : w.registry.Tidies
      (w.owning (w.resources.leavePool w.server q.pool q.attempt).1).registry :=
    .of_current rfl (List.Sublist.refl _)
  refine howning.trans ?_
  simp only [afterQuery]
  split
  · exact tidies_loaded hf' hx _
  · exact tidies_askBackend hf' hx _ _

end Loading

/-- The next part of a task tidies the table. -/
theorem tidies_advance {keys : List (String × String)} {s : TaskState} (hf : w.Fine keys t s)
    (hx : ∀ purpose pending query, s = .loading purpose pending query → purpose.Replaces)
    (hn : ∀ k h, w.registry.current.holdings.find? k = some h → h.name = k) :
    w.registry.Tidies (w.advance t s).1.registry := by
  cases s with
  | lock q l a => exact tidies_afterLock w t q l a
  | acquiring held stage a =>
    have hface := face_acquired w held (a.inventory_resume w.resources t w.server stage)
    refine .of_current (Registry.current_of_face hface) ?_
    simp [advance]
  | settling transaction => exact .of_current rfl (List.Sublist.refl _)
  | turn change => exact tidies_changed (Registry.tidies_begin w.environment hn change)
  | loading purpose pending query =>
    cases query with
    | none => exact tidies_load hf.2 (hx _ _ _ rfl)
    | some q => exact tidies_afterQuery hf.2 (hx _ _ _ rfl) q

/-- The lock of a published backend is put at the end of the table. -/
structure Adds (w w' : World) (q : AcquireRequest) (l : LockId) : Prop where
  mode : q.mode = .sharedMemory
  count : q.count ≠ 0
  published : (q.schema, q.backend) ∈ w.registry.current.backends
  unlocked : w.registry.lockTable.lookup (q.schema, q.backend) = none
  current : w'.registry.current = w.registry.current
  entries : w'.registry.lockTable = w.registry.lockTable ++ [((q.schema, q.backend), l)]

theorem mem_backends_of_admit {g : Registry} {q : AcquireRequest} {a : Acquisition}
    (h : g.admit q = .ok a) : (q.schema, q.backend) ∈ g.current.backends := by
  simp only [bind, Except.bind, Registry.admit] at h
  split at h
  · cases h
  · rename_i x hr
    obtain ⟨hf, hp⟩ := Registry.resolve_ok hr
    refine (Snapshot.mem_backends_iff _ _).2 ⟨_, hf, ?_⟩
    rw [OrderedMap.mem_keys_iff]
    intro hnone
    simp only [SchemaContext.holding] at hnone
    simp [hnone] at hp

/-- Only a batch that is taken under a lock puts one into the table, when it is started. -/
theorem begin_table (w : World) (t : TaskId) (call : Call) :
    (w.begin t call).1.registry.lockTable = w.registry.lockTable ∨
      ∃ q l, call = .acquire q ∧ w.Adds (w.begin t call).1 q l := by
  cases call with
  | acquire q =>
    have hcurrent : (w.begin t (.acquire q)).1.registry.current = w.registry.current :=
      Registry.current_of_face (face_begin w t (.acquire q))
    cases ha : w.registry.admit q with
    | error e =>
      simp only [World.begin, beginAcquire, ha]
      exact .inl trivial
    | ok a =>
      by_cases hcount : q.count = 0
      · simp only [World.begin, beginAcquire, ha, if_pos hcount]
        exact .inl trivial
      · cases hmode : q.mode with
        | strictPerConnection =>
          simp only [World.begin, beginAcquire, ha, if_neg hcount, hmode]
          exact .inl (lockTable_acquired w none _)
        | sharedMemory =>
          cases hl : w.registry.lockTable.lookup (q.schema, q.backend) with
          | some l =>
            simp only [World.begin, beginAcquire, ha, if_neg hcount, hmode, Registry.lockFor, hl]
            exact .inl rfl
          | none =>
            refine .inr ⟨q, w.registry.resources.locks.length, rfl, hmode, hcount,
              mem_backends_of_admit ha, hl, hcurrent, ?_⟩
            simp only [World.begin, beginAcquire, ha, if_neg hcount, hmode, Registry.lockFor, hl]
            rfl
  | event event =>
    simp only [World.begin, beginEvent]
    split <;> exact .inl rfl
  | close => exact .inl rfl
  | pinned m transaction backend => exact .inl (lockTable_acquired w none _)
  | settle m transaction =>
    simp only [World.begin, beginSettle]
    split <;> exact .inl rfl

end Tasks

/-! ### Moves -/

/-- What changes under way reconcile replaces the backends of its schema. -/
def Replacing (w : World) : Prop :=
  w.Upholds (fun _ => True) fun _ purpose _ => purpose.Replaces

/-- A move tidies the table, or puts the lock of a published backend into it. -/
theorem Sound.tidies_move {keys : List (String × String)} (h : Sound keys w) (hx : w.Replacing)
    (m : Move) : w.registry.Tidies (w.move m).registry ∨
      ∃ q l, m = .start (.acquire q) ∧ w.Adds (w.move m) q l := by
  obtain ⟨ps, es, hk⟩ := h.keeps
  have hsame (hface : (w.move m).registry.face = w.registry.face)
      (htable : (w.move m).registry.lockTable = w.registry.lockTable) :
      w.registry.Tidies (w.move m).registry :=
    .of_current (Registry.current_of_face hface) (htable ▸ List.Sublist.refl _)
  cases m with
  | start call =>
    have hface := face_begin { w with started := w.started + 1 } w.started call
    have htable := begin_table { w with started := w.started + 1 } w.started call
    simp only [World.move] at hsame ⊢
    rw [registry_put] at hsame ⊢
    rcases htable with htable | ⟨q, l, rfl, hadds⟩
    · exact .inl (hsame hface htable)
    · refine .inr ⟨q, l, rfl, hadds.mode, hadds.count, hadds.published, hadds.unlocked, ?_, ?_⟩
      · rw [registry_put]
        exact hadds.current
      · rw [registry_put]
        exact hadds.entries
  | goOn t =>
    refine .inl ?_
    simp only [World.move]
    split
    · exact .refl _
    · rename_i s hs
      split
      · rw [registry_put]
        obtain ⟨_, hf, _⟩ := h.without hs
        refine tidies_advance hf ?_ hk.named
        rintro purpose pending query rfl
        exact hx.loads ((lookup_some_iff h.nodup t _).1 hs)
      · exact .refl _
  | cancel t =>
    refine .inl (hsame (face_move_of_part_none rfl) ?_)
    simp only [World.move]
    split
    · rfl
    · exact lockTable_withdraw (w.without t) t _
  | beginTransaction _ | surround _ _ _ | tune _ _ _ | collect _ _ =>
    exact .inl (hsame (face_move_of_part_none rfl) rfl)

/-- The table has locks of published backends only, one for each. -/
structure Tidy (w : World) : Prop where
  nodup : (w.registry.lockTable.map (·.1)).Nodup
  published : ∀ e ∈ w.registry.lockTable, e.1 ∈ w.registry.current.backends

theorem Tidy.tidies {w' : World} (h : w.Tidy) (ht : w.registry.Tidies w'.registry) : w'.Tidy where
  nodup := h.nodup.sublist (ht.entries.map _)
  published e he := ht.published e he (h.published e (ht.entries.subset he))

theorem Tidy.adds {w' : World} {q : AcquireRequest} {l : LockId} (h : w.Tidy)
    (ha : w.Adds w' q l) : w'.Tidy where
  nodup := by
    rw [ha.entries, List.map_append]
    refine List.nodup_append'.2 ⟨h.nodup, List.nodup_singleton _, ?_⟩
    rw [List.map_singleton, List.disjoint_singleton]
    intro hmem
    obtain ⟨e, he, hk⟩ := List.mem_map.1 hmem
    have hne := List.lookup_eq_none_iff.1 ha.unlocked e he
    simp [hk] at hne
  published e he := by
    rw [ha.current]
    rw [ha.entries] at he
    rcases List.mem_append.1 he with he | he
    · exact h.published e he
    · rw [List.mem_singleton.1 he]
      exact ha.published

theorem Tidy.length_le (h : w.Tidy) :
    w.registry.lockTable.length ≤ w.registry.current.backends.length := by
  have hsub : w.registry.lockTable.map (·.1) ⊆ w.registry.current.backends := by
    intro k hk
    obtain ⟨e, he, rfl⟩ := List.mem_map.1 hk
    exact h.published e he
  simpa using (List.subperm_of_subset h.nodup hsub).length_le

/-! ### Runs -/

theorem tidies_tick (moves : List Move) (m : Move) :
    (play {} moves).registry.Tidies (play {} (moves ++ [m])).registry ∨
      ∃ q l, m = .start (.acquire q) ∧ (play {} moves).Adds (play {} (moves ++ [m])) q l := by
  rw [play_snoc, tick]
  cases hc : (play {} moves).crashed with
  | true => exact .inl (.refl _)
  | false =>
    obtain ⟨keys, _, hs⟩ := Sound.start.play moves hc
    have hx : (play {} moves).Replacing := (Upholds.start trivial).play Registry.Upkeep.replacement
      Sound.start (fun _ _ _ _ => trivial) hc
    exact hs.tidies_move hx m

theorem tidy_play (moves : List Move) : (play {} moves).Tidy := by
  induction moves using List.reverseRecOn with
  | nil => exact ⟨List.nodup_nil, fun _ he => absurd he List.not_mem_nil⟩
  | append_singleton moves m ih =>
    rcases tidies_tick moves m with ht | ⟨q, l, _, ha⟩
    · exact ih.tidies ht
    · exact ih.adds ha

/-- Whatever happens, a lock that is in the table later and was not before is that of a batch that was
started in between. -/
theorem mem_lockTable_append (moves moves' : List Move) :
    ∀ e ∈ (play {} (moves ++ moves')).registry.lockTable,
      e ∈ (play {} moves).registry.lockTable ∨ ∃ q, .start (.acquire q) ∈ moves' ∧
        q.mode = .sharedMemory ∧ q.count ≠ 0 ∧ e.1 = (q.schema, q.backend) := by
  induction moves' using List.reverseRecOn with
  | nil =>
    rw [List.append_nil]
    exact fun e he => .inl he
  | append_singleton moves' m ih =>
    intro e he
    have hstay (hmem : e ∈ (play {} (moves ++ moves')).registry.lockTable) :
        e ∈ (play {} moves).registry.lockTable ∨ ∃ q, .start (.acquire q) ∈ moves' ++ [m] ∧
          q.mode = .sharedMemory ∧ q.count ≠ 0 ∧ e.1 = (q.schema, q.backend) :=
      (ih e hmem).imp_right fun ⟨q, hq, hrest⟩ => ⟨q, List.mem_append_left _ hq, hrest⟩
    rw [← List.append_assoc] at he
    rcases tidies_tick (moves ++ moves') m with ht | ⟨q, l, rfl, ha⟩
    · exact hstay (ht.entries.subset he)
    · rw [ha.entries] at he
      rcases List.mem_append.1 he with he | he
      · exact hstay he
      · rw [List.mem_singleton.1 he]
        exact .inr ⟨q, by simp, ha.mode, ha.count, rfl⟩

/-- After any moves every lock in the table is that of a published backend, so there are at most as many
of them as published backends; and from then on locks come into the table only with nonempty batches
that are started under a lock, so that no task that waits brings one back. -/
theorem locks_published (moves : List Move) :
    (∀ e ∈ (play {} moves).registry.lockTable,
      e.1 ∈ (play {} moves).registry.current.backends) ∧
    (play {} moves).registry.lockTable.length ≤
      (play {} moves).registry.current.backends.length ∧
    ∀ moves', ∀ e ∈ (play {} (moves ++ moves')).registry.lockTable,
      e ∈ (play {} moves).registry.lockTable ∨ ∃ q, .start (.acquire q) ∈ moves' ∧
        q.mode = .sharedMemory ∧ q.count ≠ 0 ∧ e.1 = (q.schema, q.backend) :=
  ⟨(tidy_play moves).published, (tidy_play moves).length_le, mem_lockTable_append moves⟩

/-- The schema is deleted while two batches stand at the lock of its first backend. -/
def withdrawn : List Move := contended ++ [.start (.event (.schemaDeleted "s")), .goOn 3]

/-- It is added again before they go on. -/
def readded : List Move :=
  [.start (.event (.schemaAdded "s" Registry.twoBackends [])), .goOn 4, .goOn 4, .goOn 1, .goOn 2]

theorem locks_published_readded :
    (("s", "b0"), 0) ∈ (play {} contended).registry.lockTable ∧
    ("s", "b0") ∈ (play {} contended).registry.current.backends ∧
    (play {} withdrawn).registry.lockTable = [] ∧
    (play {} (withdrawn ++ readded)).registry.current.backends = [("s", "b0"), ("s", "b1")] ∧
    (play {} (withdrawn ++ readded)).registry.lockTable = [] := by
  have htable : (play {} contended).registry.lockTable = [(("s", "b0"), 0)] := rfl
  have hmem : (("s", "b0"), 0) ∈ (play {} contended).registry.lockTable := by
    rw [htable]
    exact List.mem_singleton_self _
  have hbackends : (play {} withdrawn).registry.current.backends = [] := rfl
  have hempty : (play {} withdrawn).registry.lockTable = [] := by
    have hle := (locks_published withdrawn).2.1
    rw [hbackends] at hle
    exact List.eq_nil_of_length_eq_zero (Nat.le_zero.1 hle)
  refine ⟨hmem, (locks_published contended).1 _ hmem, hempty, rfl, ?_⟩
  rw [List.eq_nil_iff_forall_not_mem]
  intro e he
  rcases (locks_published withdrawn).2.2 readded e he with hold | ⟨q, hq, _⟩
  · rw [hempty] at hold
    exact List.not_mem_nil hold
  · simp [readded] at hq

end World

end ShardRegistry
