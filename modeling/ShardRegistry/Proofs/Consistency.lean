import ShardRegistry.Proofs.Coherence
import ShardRegistry.Proofs.Upkeep

/-! Consistency of what is published. In every run, with any tasks under way, each schema of the
published snapshot is coherent and its managers know the pools of its own data sources. So a request
that the snapshot admits never fails for the sake of a transaction. -/
namespace ShardRegistry

/-- The failure itself, of a batch that of the connection that failed. -/
def Error.root : Error → Error
  | .batch _ _ e => e.root
  | e => e

/-! ### Snapshots in runs -/

theorem Purpose.Coheres.of_current {g g' : Registry} {pending : PendingSchema} {purpose : Purpose}
    (h : purpose.Coheres g pending) (hs : g'.current = g.current) : purpose.Coheres g' pending := by
  cases purpose with
  | reset a p d rest built => exact h
  | add => simpa only [Purpose.Coheres, hs] using h
  | reconcile x previous => simpa only [Purpose.Coheres, hs] using h

/-- Every part of a change leaves the schemas coherent, and takes only coherent ones in hand. -/
theorem Registry.Upkeep.coherence : Upkeep (fun _ => True) Snapshot.Coherent
    fun g purpose pending => purpose.Coheres g pending where
  congr hs h := h.of_current hs
  begin change _ h := by
    obtain ⟨hcurrent, hstep⟩ := coheres_begin _ h change
    exact ⟨hcurrent, fun _ _ hload => by rwa [hload] at hstep⟩
  resume answer _ h hp := by
    obtain ⟨hcurrent, hstep⟩ := coheres_resume _ h hp answer
    exact ⟨hcurrent, fun _ _ hload => by rwa [hload] at hstep⟩

/-- The schemas are coherent, and so is what changes under way have in hand. -/
def World.Coherent (w : World) : Prop :=
  w.Upholds Snapshot.Coherent fun g purpose pending => purpose.Coheres g pending

namespace World

namespace Coherent
variable {keys : List (String × String)} {w : World}

theorem current (h : w.Coherent) : w.registry.current.Coherent := Upholds.current h

theorem start : World.Coherent {} := Upholds.start Snapshot.Coherent.empty

theorem play (h : w.Coherent) (hs : Sound keys w) (moves : List Move)
    (hc : (w.play moves).crashed = false) : (w.play moves).Coherent :=
  Upholds.play h Registry.Upkeep.coherence hs (fun _ _ _ _ => trivial) hc

end Coherent

end World

/-! ### Requests that were admitted -/

/-- An acquisition of a published backend: the pool is known, and the manager it may ask knows the
backend. -/
structure Acquisition.Supplied (a : Acquisition) (r : Resources) : Prop where
  pool : a.source.pool? ≠ none
  manager : ∀ m t otherwise, a.source = .transaction m t otherwise →
    ∃ y p, r.managers[m]? = some y ∧ y.pools.find? a.backend = some p

/-- The pins of a transaction are asked for only when there is one. -/
def Stage.Suits (a : Acquisition) (stage : Stage) : Prop :=
  ∀ t, stage = .pins t → a.source.transaction? ≠ none

/-- A part of such an acquisition: it goes on, or fails for other reasons than a transaction. -/
def Progress.Clean (r : Resources) : Progress → Prop
  | .waits stage a | .passes stage a => a.Supplied r ∧ stage.Suits a
  | .done (.error (.rejected e)) => ∀ reason, e.root ≠ .transaction reason
  | .done _ => True

namespace Acquisition
variable {a : Acquisition} {r r' : Resources} {task : TaskId}

theorem Supplied.evolves (h : a.Supplied r) (he : Evolves Manager.Ages r.managers r'.managers) :
    a.Supplied r' where
  pool := h.pool
  manager m t otherwise hs := by
    obtain ⟨y, p, hy, hp⟩ := h.manager m t otherwise hs
    obtain ⟨z, hz, hages⟩ := he m y hy
    exact ⟨z, p, hz, by rw [hages.1.2]; exact hp⟩

theorem failure_clean {e : Error} (h : ∀ reason, e.root ≠ .transaction reason) :
    (a.failure e).Clean r := by
  simp only [failure]
  split
  · exact h
  · exact h

theorem askPool_clean (h : a.Supplied r) (p : PoolId) (pins : Option TransactionId) :
    (a.askPool r' task p pins).2.Clean r := by
  simp only [askPool]
  split <;> exact ⟨h, fun _ hp => by cases hp⟩

theorem ask_clean (h : a.Supplied r) : (a.ask r' task).2.Clean r := by
  simp only [ask]
  split
  · trivial
  · split
    · exact askPool_clean h _ none
    · rename_i m t otherwise hs
      split
      · split <;> exact ⟨h, fun _ _ => by simp [hs, Source.transaction?]⟩
      · split
        · exact askPool_clean h _ none
        · exact absurd (by rw [hs]; rfl) h.pool
        · exact absurd (by rw [hs]; rfl) h.pool

theorem start_clean (h : a.Supplied r) : (a.start r' task).2.Clean r := by
  simp only [start]
  split
  · trivial
  · exact ask_clean h

theorem obtain_clean (h : a.Supplied r) (c : Connection) : (a.obtain r' task c).2.Clean r :=
  ask_clean (a := { a with acquired := a.acquired ++ [c] }) ⟨h.pool, h.manager⟩

theorem fault?_root {x : Pool} {attempt : Nat} {e : Error} (h : x.fault? attempt = some e)
    (reason : String) : e.root ≠ .transaction reason := by
  simp only [Pool.fault?] at h
  split at h
  · cases h
    split <;> simp [Error.root]
  · split at h
    · cases h
      simp [Error.root]
    · cases h

theorem connectFault?_root {s : Server} {backend : String} {e : Error}
    (h : s.connectFault? backend = some e) (reason : String) : e.root ≠ .transaction reason := by
  simp only [Server.connectFault?] at h
  split at h
  · cases h
    simp [Server.fault, Error.root]
  · cases h
    simp [Server.fault, Error.root]
  · cases h

/-- A pool or its server refuses for reasons of its own. -/
theorem leavePool_error {server : Option Server} {p : PoolId} {attempt : Nat} {e : Error}
    (h : r.leavePool server p attempt = (r', .error e)) (reason : String) :
    e.root ≠ .transaction reason := by
  simp only [Resources.leavePool] at h
  split at h
  · cases h
    simp [Error.root]
  · rename_i pool _
    split at h
    · rename_i e' he
      cases h
      cases hf : pool.fault? attempt with
      | some e' =>
        rw [hf] at he
        cases he
        exact fault?_root hf reason
      | none =>
        rw [hf] at he
        obtain ⟨s, _, hs⟩ := Option.bind_eq_some_iff.1 he
        exact connectFault?_root hs reason
    · cases h

theorem resume_clean (h : a.Supplied r) (server : Option Server) {stage : Stage}
    (hstage : stage.Suits a) : (a.resume r server task stage).2.Clean r := by
  cases stage with
  | pins t =>
    simp only [resume, afterPins]
    split
    · exact obtain_clean h _
    · cases hs : a.source with
      | pool p =>
        refine absurd ?_ (hstage t rfl)
        rw [hs]
        rfl
      | transaction m t' otherwise =>
        obtain ⟨y, p, hy, hp⟩ := h.manager m t' otherwise hs
        simp only [hy, Option.bind_some, hp]
        exact askPool_clean h p (some t)
  | gate p attempt pins =>
    simp only [resume, afterGate]
    split
    · rename_i heq
      exact failure_clean (leavePool_error heq)
    · exact obtain_clean h _

end Acquisition

/-- What the registry admits is supplied. -/
theorem Registry.admit_supplied {g : Registry} {ps es : List Nat} (hk : g.Keeps ps es)
    {q : AcquireRequest} {a : Acquisition} (h : g.admit q = .ok a) : a.Supplied g.resources := by
  obtain ⟨p, hp, _, _, hserves⟩ := admit_cases hk h
  simp only [ Registry.admit, bind, Except.bind] at h
  split at h
  · cases h
  · rename_i x hr
    obtain ⟨c, own⟩ := x
    obtain ⟨hf, hown⟩ := resolve_ok hr
    obtain ⟨x, hx, hkinds, hmanagers⟩ := hk.managers hf
    refine ⟨by simp [hp], fun m t otherwise hs => ?_⟩
    simp only [pure, Except.pure, Except.ok.injEq] at h
    subst h
    simp only at hs
    split at hs
    · rename_i hm
      cases hs
      obtain ⟨y, hy, hpools⟩ := hmanagers q.kind m ((hkinds q.kind).symm.trans hm)
      refine ⟨y, own, hy, ?_⟩
      rw [hpools, DataSourceMap.pools, OrderedMap.find?_map]
      exact hown
    · cases hs

namespace World

/-- A request stands where it was admitted, or where its acquisition is. -/
def Supplies (w : World) : Call → TaskState → Prop
  | .acquire _, .lock _ _ a => a.Supplied w.resources
  | .acquire _, .acquiring _ stage a => a.Supplied w.resources ∧ stage.Suits a
  | .acquire _, _ => False
  | _, _ => True

theorem Supplies.evolves {w w' : World} {call : Call} {s : TaskState} (h : w.Supplies call s)
    (he : Evolves Manager.Ages w.resources.managers w'.resources.managers) :
    w'.Supplies call s := by
  cases call with
  | acquire q =>
    cases s with
    | lock _ _ a => exact Acquisition.Supplied.evolves h he
    | acquiring _ stage a => exact ⟨h.1.evolves he, h.2⟩
    | settling _ | turn _ | loading _ _ _ => exact h
  | event _ | close | pinned _ _ _ | settle _ _ => trivial

/-- Where a part of a clean acquisition leaves its task. -/
theorem supplies_acquired {w : World} {held : Option LockId} {y : Resources × Progress}
    (q : AcquireRequest) (h : y.2.Clean w.resources) :
    (∀ s, (w.acquired held y).2.state? = some s → w.Supplies (.acquire q) s) ∧
      ∀ e, (w.acquired held y).2 = .ends (.failed e) → ∀ reason, e.root ≠ .transaction reason := by
  obtain ⟨r, progress⟩ := y
  cases progress with
  | waits stage a | passes stage a =>
    refine ⟨?_, fun e he => by cases he⟩
    rintro _ ⟨⟩
    exact h
  | done outcome =>
    cases outcome with
    | ok cs => exact ⟨fun _ hs => (by cases hs), fun _ he => (by cases he)⟩
    | error stop =>
      cases stop with
      | crashed => exact ⟨fun _ hs => (by cases hs), fun _ he => (by cases he)⟩
      | rejected e =>
        refine ⟨fun _ hs => (by cases hs), ?_⟩
        rintro _ ⟨⟩
        exact h

/-- No schema or no backend of that name is published, which is no fault of a transaction. -/
theorem resolve_root {s : Snapshot} {schema backend : String} {e : Error}
    (h : Registry.resolve s schema backend = .error e) (reason : String) :
    e.root ≠ .transaction reason := by
  simp only [Registry.resolve] at h
  split at h
  · cases h
    simp [Error.root]
  · split at h
    · cases h
      simp [Error.root]
    · cases h

theorem supplies_begin {w : World} {ps es : List Nat} (hk : w.registry.Keeps ps es) (t : TaskId)
    (q : AcquireRequest) :
    (∀ s, (w.beginAcquire t q).2.state? = some s → w.Supplies (.acquire q) s) ∧
      ∀ e, (w.beginAcquire t q).2 = .ends (.failed e) → ∀ reason, e.root ≠ .transaction reason := by
  simp only [beginAcquire]
  split
  · rename_i e he
    refine ⟨fun _ hs => (by cases hs), ?_⟩
    rintro _ ⟨⟩
    simp only [ Registry.admit, bind, Except.bind] at he
    split at he
    · rename_i e' hr
      cases he
      exact resolve_root hr
    · cases he
  · rename_i a ha
    have hsupplied := Registry.admit_supplied hk ha
    split
    · exact ⟨fun _ hs => (by cases hs), fun _ he => (by cases he)⟩
    · split
      · exact supplies_acquired q (Acquisition.start_clean hsupplied)
      · split <;> exact ⟨fun _ hs => (by cases hs; exact hsupplied), fun _ he => (by cases he)⟩

theorem supplies_advance {w : World} {t : TaskId} {q : AcquireRequest} {s : TaskState}
    (h : w.Supplies (.acquire q) s) :
    (∀ s', (w.advance t s).2.state? = some s' → w.Supplies (.acquire q) s') ∧
      ∀ e, (w.advance t s).2 = .ends (.failed e) → ∀ reason, e.root ≠ .transaction reason := by
  cases s with
  | lock q' l a =>
    simp only [World.advance, afterLock]
    split
    · rename_i e he
      refine ⟨fun _ hs => (by cases hs), ?_⟩
      rintro _ ⟨⟩
      exact resolve_root he
    · exact supplies_acquired q (Acquisition.start_clean h)
  | acquiring held stage a => exact supplies_acquired q (Acquisition.resume_clean h.1 w.server h.2)
  | settling _ | turn _ | loading _ _ _ => exact h.elim

theorem kept_supplies : Kept Supplies where
  begins {keys w call s} hs hc hstate := by
    have hmanagers := (hs.follows_move (.start call) hc).managers
    cases call with
    | acquire q =>
      obtain ⟨ps, es, hk⟩ := hs.keeps
      have hsupplies := (supplies_begin (w := { w with started := w.started + 1 }) hk w.started q).1
        s hstate
      exact Supplies.evolves hsupplies hmanagers
    | event _ | close | pinned _ _ _ | settle _ _ => trivial
  goesOn {keys w t call s s'} hs hc hlookup hgo hp hstate := by
    have hmanagers := (hs.follows_move (.goOn t) hc).managers
    cases call with
    | acquire q =>
      have hsupplies := (supplies_advance (w := w.without t) (t := t) hp).1 s' hstate
      exact Supplies.evolves hsupplies hmanagers
    | event _ | close | pinned _ _ _ | settle _ _ => trivial
  stays hs hc hp := hp.evolves (hs.follows_move _ hc).managers

/-- A published schema has an open manager of each distributed kind, with its own pools. -/
theorem Sound.manager {keys : List (String × String)} {w : World} (h : Sound keys w) {k : String}
    {c : Stamped SchemaContext} (hc : w.registry.current.schema? k = some c)
    {kind : TransactionKind} (hkind : kind ≠ .local) :
    ∃ m y, w.registry.managerOf? c.value kind = some m ∧ w.resources.managers[m]? = some y ∧
      y.kind = kind ∧ y.isClosed = false ∧ y.pools = c.value.dataSources.pools := by
  obtain ⟨ps, es, hk⟩ := h.keeps
  have hf := Snapshot.find?_of_schema? hc
  obtain ⟨x, hx, hmanagers⟩ := hk.wired k _ hf
  have hx : w.registry.resources.engines[c.value.engine]? = some x := hx
  obtain ⟨m, hm⟩ : ∃ m, x.manager? kind = some m := by
    cases kind with
    | «local» => exact absurd rfl hkind
    | xa => exact ⟨_, rfl⟩
    | base => exact ⟨_, rfl⟩
  obtain ⟨y, hy, hykind, hpools⟩ := hmanagers kind m hm
  refine ⟨m, y, ?_, hy, hykind, ?_, hpools⟩
  · simp [Registry.managerOf?, hx, hm]
  · exact (hk.manager_closed hx hm hy).trans (hk.engine_open hf hx)

/-- A transaction begins on every published schema, for each kind that has managers. -/
theorem Sound.beginTransaction_error {keys : List (String × String)} {w : World}
    (h : Sound keys w) {k : String} {kind : TransactionKind} {e : Error}
    (he : (w.registry.beginTransaction k kind).2 = .error e) :
    e = .schemaNotFound k ∨
      (kind = .local ∧ e = .transaction "LOCAL transactions need no manager") := by
  cases hc : w.registry.current.schema? k with
  | none =>
    refine .inl ?_
    simp [Registry.beginTransaction, Registry.transactionManager, Registry.getSchema, hc, bind,
      Except.bind] at he
    exact he.symm
  | some c =>
    by_cases hkind : kind = .local
    · refine .inr ⟨hkind, ?_⟩
      subst hkind
      have hnone : w.registry.managerOf? c.value .local = none := by
        cases hx : w.registry.resources.engines[c.value.engine]? <;>
          simp [Registry.managerOf?, Engine.manager?, hx]
      simp only [Registry.beginTransaction, Registry.transactionManager, Registry.getSchema, hc,
        hnone, bind, Except.bind] at he
      exact (Except.error.inj he).symm
    · obtain ⟨m, y, hm, hy, _, hopen, _⟩ := h.manager hc hkind
      have hy : w.registry.resources.managers[m]? = some y := hy
      simp [Registry.beginTransaction, Registry.transactionManager, Registry.getSchema, hc, hm,
        bind, Except.bind, pure, Except.pure, Resources.beginTransaction, hy, hopen] at he

/-- In every run, whatever is under way, the published snapshot is consistent: every schema is
coherent, and it has an open manager of each distributed kind, with the pools of its own data sources.
So a transaction begins on any published schema whose kind has managers, and a request fails for no
reason that has to do with a transaction. -/
theorem consistent (moves : List Move) (hc : (play {} moves).crashed = false) :
    (∀ k c, (play {} moves).registry.current.schema? k = some c →
      (c.value.name = k ∧ ∃ d, (play {} moves).registry.current.dialect = some d ∧
        c.value.Coherent d (play {} moves).registry.current.properties.value.executorSize) ∧
      ∀ kind, kind ≠ .local → ∃ m y, (play {} moves).registry.managerOf? c.value kind = some m ∧
        (play {} moves).resources.managers[m]? = some y ∧ y.kind = kind ∧ y.isClosed = false ∧
        y.pools = c.value.dataSources.pools) ∧
    (∀ k kind e, ((play {} moves).registry.beginTransaction k kind).2 = .error e →
      e = .schemaNotFound k ∨
        (kind = .local ∧ e = .transaction "LOCAL transactions need no manager")) ∧
    (∀ t q e, (t, .acquire q) ∈ calls {} moves → (t, .failed e) ∈ replies {} moves →
      ∀ reason, e.root ≠ .transaction reason) := by
  obtain ⟨keys, _, hs⟩ := Sound.start.play moves hc
  have hcoherent := Coherent.start.play Sound.start moves hc
  refine ⟨fun k c hk => ⟨hcoherent.current k c hk, fun kind hkind => hs.manager hk hkind⟩,
    fun k kind e he => hs.beginTransaction_error he, ?_⟩
  intro t q e hcall hreply
  obtain ⟨ms, keys', hs', hcase⟩ := kept_supplies.reply hc hcall hreply
  rcases hcase with ⟨rfl, hend⟩ | ⟨s, _, _, hsupplies, hend⟩
  · obtain ⟨ps, es, hk⟩ := hs'.keeps
    exact (supplies_begin (w := { play {} ms with started := (play {} ms).started + 1 }) hk _ q).2
      e hend
  · exact (supplies_advance (w := (play {} ms).without t) (t := t) hsupplies).2 e hend

/-- The batch of a transaction whose pool was replaced while it waited goes on to its end. -/
def superseded : List Move := superseding ++ [.goOn 2, .goOn 2]

/-- It fails on the pool, which was closed, and the schema has managers for the new one. -/
theorem consistent_superseded :
    (play {} superseded).crashed = false ∧
    (∃ c m y, (play {} superseded).registry.current.schema? "s" = some c ∧ c.value.name = "s" ∧
      (play {} superseded).registry.managerOf? c.value .xa = some m ∧
      (play {} superseded).resources.managers[m]? = some y ∧
      y.pools = c.value.dataSources.pools) ∧
    (∀ k e, ((play {} superseded).registry.beginTransaction k .base).2 = .error e →
      e = .schemaNotFound k) ∧
    ∃ e, (2, .failed e) ∈ replies {} superseded ∧ ∀ reason, e.root ≠ .transaction reason := by
  have halive : (play {} superseded).crashed = false := rfl
  obtain ⟨hschemas, hbegins, hrequests⟩ := consistent superseded halive
  obtain ⟨c, hc⟩ : ∃ c, (play {} superseded).registry.current.schema? "s" = some c := ⟨_, rfl⟩
  obtain ⟨⟨hname, _⟩, hmanagers⟩ := hschemas "s" c hc
  obtain ⟨m, y, hm, hy, _, _, hpools⟩ := hmanagers .xa (by decide)
  refine ⟨halive, ⟨c, m, y, hc, hname, hm, hy, hpools⟩, ?_, ?_⟩
  · intro k e he
    exact (hbegins k .base e he).resolve_right fun h => absurd h.1 (by decide)
  · have hcall : (calls {} superseded)[2]? = some (2, .acquire transactional) := rfl
    have hreply : ∃ e, (replies {} superseded)[3]? = some (2, .failed e) := ⟨_, rfl⟩
    obtain ⟨e, he⟩ := hreply
    have hmem : (2, Outcome.failed e) ∈ replies {} superseded := List.mem_of_getElem? he
    exact ⟨e, hmem, hrequests 2 transactional e (List.mem_of_getElem? hcall) hmem⟩

end World

end ShardRegistry
