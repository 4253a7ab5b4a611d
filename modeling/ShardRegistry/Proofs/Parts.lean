import ShardRegistry.Proofs.Histories

/-! Parts of tasks. What the changes of a registry read and write of it is its face: the snapshot, the
flag, the disabled replicas, and how much was made so far. Every part of a task leaves the face as it
was, but for the first part of a change and those that go on with an answer to a load of tables. -/
namespace ShardRegistry

/-- What changes of a registry read of its resources: how much was made, and what is disabled. -/
structure Inventory where
  pools : Nat
  requests : List String
  managers : Nat
  engines : Nat
  disabled : List (List String)
  stamps : Nat

namespace Resources

def inventory (r : Resources) : Inventory :=
  ⟨r.pools.length, r.requests, r.managers.length, r.engines.length, r.disabled, r.stamps⟩

variable (r : Resources)

@[simp] theorem inventory_modifyPool (p : PoolId) (f : Pool → Pool) :
    (r.modifyPool p f).inventory = r.inventory := by
  simp [inventory, modifyPool]

@[simp] theorem inventory_modifyManager (m : ManagerId) (f : Manager → Manager) :
    (r.modifyManager m f).inventory = r.inventory := by
  simp [inventory, modifyManager]

@[simp] theorem inventory_modifyPins (t : TransactionId) (f : Pins → Pins) :
    (r.modifyPins t f).inventory = r.inventory := rfl

@[simp] theorem inventory_wake (ts : List TaskId) : (r.wake ts).inventory = r.inventory := rfl

@[simp] theorem inventory_requestPins (t : TransactionId) (task : TaskId) :
    (r.requestPins t task).inventory = r.inventory := rfl

@[simp] theorem inventory_pin (t : TransactionId) (backend : String) (c : Connection) :
    (r.pin t backend c).inventory = r.inventory := rfl

@[simp] theorem inventory_clearPins (t : TransactionId) :
    (r.clearPins t).inventory = r.inventory := rfl

@[simp] theorem inventory_releasePins (t : TransactionId) :
    (r.releasePins t).inventory = r.inventory := by
  simp only [releasePins]
  split <;> simp

@[simp] theorem inventory_beginTransaction (m : ManagerId) :
    (r.beginTransaction m).1.inventory = r.inventory := by
  simp only [beginTransaction]
  split
  · rfl
  · split
    · rfl
    · exact inventory_modifyManager _ m _

theorem inventory_dropTransaction {r r' : Resources} {m : ManagerId} {t : TransactionId}
    (h : r.dropTransaction m t = .ok r') : r'.inventory = r.inventory := by
  simp only [dropTransaction] at h
  split at h
  · cases h
  · split at h <;> cases h
    exact inventory_modifyManager r m _

@[simp] theorem inventory_enterPool (task : TaskId) (p : PoolId) :
    (r.enterPool task p).1.inventory = r.inventory := by
  simp only [enterPool]
  split
  · rfl
  · split <;> simp

@[simp] theorem inventory_leavePool (server : Option Server) (p : PoolId) (attempt : Nat) :
    (r.leavePool server p attempt).1.inventory = r.inventory := by
  simp only [leavePool]
  split
  · rfl
  · split <;> simp

@[simp] theorem inventory_quitPool (task : TaskId) (p : PoolId) :
    (r.quitPool task p).inventory = r.inventory := inventory_modifyPool r p _

end Resources

namespace Acquisition
variable (a : Acquisition) (r : Resources) (task : TaskId)

@[simp] theorem inventory_askPool (p : PoolId) (pins : Option TransactionId) :
    (a.askPool r task p pins).1.inventory = r.inventory := by
  have h := r.inventory_enterPool task p
  simp only [askPool]
  split <;> rename_i heq <;> rw [heq] at h <;> exact h

@[simp] theorem inventory_ask : (a.ask r task).1.inventory = r.inventory := by
  simp only [ask]
  split
  · rfl
  · split
    · simp
    · split
      · simp
      · split <;> simp

@[simp] theorem inventory_start : (a.start r task).1.inventory = r.inventory := by
  simp only [start]
  split
  · rfl
  · exact inventory_ask a r task

@[simp] theorem inventory_resume (server : Option Server) (stage : Stage) :
    (a.resume r server task stage).1.inventory = r.inventory := by
  cases stage with
  | pins t =>
    simp only [resume, afterPins]
    split
    · simp [obtain]
    · split <;> simp
  | gate p attempt pins =>
    have h := r.inventory_leavePool server p attempt
    simp only [resume, afterGate]
    split <;> rename_i heq <;> rw [heq] at h
    · cases pins <;> simpa using h
    · cases pins <;> simpa [obtain] using h

end Acquisition

/-- What a change reads and writes of a registry. -/
structure Face where
  snapshot : Stamped Snapshot
  circuitOpen : Bool
  inventory : Inventory

def Registry.face (g : Registry) : Face := ⟨g.snapshot, g.circuitOpen, g.resources.inventory⟩

theorem Registry.face_owning {g : Registry} {r : Resources}
    (h : r.inventory = g.resources.inventory) : (g.owning r).face = g.face := by
  simp [face, owning, h]

theorem Registry.current_of_face {g g' : Registry} (h : g'.face = g.face) :
    g'.current = g.current := congrArg (fun f : Face => f.snapshot.value) h

namespace World
variable (w : World)

theorem face_owning {r : Resources} (h : r.inventory = w.resources.inventory) :
    (w.owning r).registry.face = w.registry.face := Registry.face_owning h

@[simp] theorem face_modifyLock (l : LockId) (f : Mutex → Mutex) :
    (w.modifyLock l f).registry.face = w.registry.face := rfl

@[simp] theorem face_releaseWriter : w.releaseWriter.registry.face = w.registry.face := rfl

@[simp] theorem face_releaseLock (l : LockId) :
    (w.releaseLock l).registry.face = w.registry.face := by
  simp only [releaseLock]
  split <;> rfl

@[simp] theorem face_releaseHeld (held : Option LockId) :
    (w.releaseHeld held).registry.face = w.registry.face := by
  cases held with
  | none => rfl
  | some l => exact face_releaseLock w l

theorem face_acquired (held : Option LockId) {y : Resources × Progress}
    (h : y.1.inventory = w.resources.inventory) :
    (w.acquired held y).1.registry.face = w.registry.face := by
  obtain ⟨r, progress⟩ := y
  have howning := face_owning w h
  cases progress with
  | waits stage a | passes stage a => exact howning
  | done outcome =>
    cases outcome with
    | ok cs => exact (face_releaseHeld _ held).trans howning
    | error stop =>
      cases stop with
      | rejected e => exact (face_releaseHeld _ held).trans howning
      | crashed => exact howning

@[simp] theorem writer_releaseLock (l : LockId) : (w.releaseLock l).writer = w.writer := by
  simp only [releaseLock]
  split <;> rfl

@[simp] theorem writer_releaseHeld (held : Option LockId) :
    (w.releaseHeld held).writer = w.writer := by
  cases held with
  | none => rfl
  | some l => exact writer_releaseLock w l

theorem writer_acquired (held : Option LockId) (y : Resources × Progress) :
    (w.acquired held y).1.writer = w.writer := by
  obtain ⟨r, progress⟩ := y
  cases progress with
  | waits stage a | passes stage a => rfl
  | done outcome =>
    cases outcome with
    | ok cs => exact writer_releaseHeld (w.owning r) held
    | error stop =>
      cases stop with
      | rejected e => exact writer_releaseHeld (w.owning r) held
      | crashed => rfl

theorem state_acquired {held : Option LockId} {y : Resources × Progress} {s : TaskState}
    (h : (w.acquired held y).2.state? = some s) : ∃ stage a, s = .acquiring held stage a := by
  obtain ⟨r, progress⟩ := y
  cases progress with
  | waits stage a | passes stage a => exact ⟨stage, a, (Option.some.inj h).symm⟩
  | done outcome =>
    cases outcome with
    | ok cs => cases h
    | error stop => cases stop <;> cases h

/-- The beginning of a call leaves the face alone. -/
theorem face_begin (t : TaskId) (call : Call) :
    (w.begin t call).1.registry.face = w.registry.face := by
  cases call with
  | acquire q =>
    simp only [World.begin, beginAcquire]
    split
    · rfl
    · rename_i a _
      split
      · rfl
      · split
        · exact face_acquired w none (a.inventory_start w.resources t)
        · simp only [Registry.lockFor]
          split <;> rfl
  | event event =>
    simp only [World.begin, beginEvent]
    split <;> rfl
  | close => rfl
  | pinned m transaction backend => exact face_acquired w none (Acquisition.inventory_start _ _ _)
  | settle m transaction =>
    simp only [World.begin, beginSettle]
    split
    · rfl
    · rename_i r hr
      have hinventory := Resources.inventory_dropTransaction hr
      exact face_owning w hinventory

/-- A cancellation leaves the face alone. -/
theorem face_withdraw (t : TaskId) (s : TaskState) :
    (w.withdraw t s).registry.face = w.registry.face := by
  cases s with
  | lock q l a =>
    simp only [withdraw]
    split <;> simp
  | acquiring held stage a =>
    simp only [withdraw, face_releaseHeld]
    refine face_owning w ?_
    cases stage with
    | pins transaction =>
      simp only
      split <;> simp
    | gate p n pins => cases pins <;> simp
  | settling transaction =>
    simp only [withdraw]
    refine face_owning w ?_
    split <;> simp
  | turn change =>
    simp only [withdraw]
    split <;> rfl
  | loading purpose pending query =>
    cases query with
    | none => rfl
    | some q => exact face_owning w (Resources.inventory_quitPool _ t q.pool)

/-! ### Answers to loads -/

/-- The answer with which a task goes on that loads the tables of a schema, if it does not ask another
backend first. -/
def answer? : TaskState → Option (Except Error (SortedMap Tables))
  | .loading _ pending none => match w.tables with
    | .answering answer => some (answer pending.dialect pending.dataSources)
    | .querying =>
      if pending.dialect = .postgreSQL ∧ pending.dataSources.entries ≠ [] then none
      else some (.ok .empty)
  | .loading _ _ (some q) =>
    match (w.resources.leavePool w.server q.pool q.attempt).2 >>=
        fun _ => queryTables w.server q.backend with
    | .error e => some (.error (.build q.backend e))
    | .ok tables => if q.rest = [] then some (.ok (q.loaded.insert q.backend tables)) else none
  | _ => none

/-- A part of a task, as the registry sees it. -/
inductive Part (w : World) : TaskState → World × Next → Prop where
  /-- The registry sees nothing, and a load goes on. -/
  | quiet {s : TaskState} {x : World × Next} (hturn : ∀ change, s ≠ .turn change)
      (hface : x.1.registry.face = w.registry.face) (hwriter : x.1.writer = w.writer)
      (hanswer : w.answer? s = none)
      (hload : ∀ purpose pending query, s = .loading purpose pending query →
        ∃ query', x.2.state? = some (.loading purpose pending query'))
      (hstate : ∀ s', x.2.state? = some s' → (∃ held stage a, s' = .acquiring held stage a) ∨
        ∃ purpose pending query query', s = .loading purpose pending query ∧
          s' = .loading purpose pending query') : Part w s x
  /-- The first part of a change. -/
  | opens (change : Change) :
      Part w (.turn change) (w.changed (w.registry.begin w.environment change))
  /-- A further part of a change, with the answer to a load. -/
  | answers {purpose : Purpose} {pending : PendingSchema} {query : Option Query}
      {answer : Except Error (SortedMap Tables)} (w' : World)
      (hanswer : w.answer? (.loading purpose pending query) = some answer)
      (hface : w'.registry.face = w.registry.face) (hwriter : w'.writer = w.writer)
      (hfactory : w'.factory = w.factory) :
      Part w (.loading purpose pending query)
        (w'.changed (w'.registry.resume w'.environment purpose pending answer))

variable {w}

theorem Part.of_quiet {s : TaskState} {x : World × Next} (hturn : ∀ change, s ≠ .turn change)
    (hload : ∀ purpose pending query, s ≠ .loading purpose pending query)
    (hface : x.1.registry.face = w.registry.face) (hwriter : x.1.writer = w.writer)
    (hstate : ∀ s', x.2.state? = some s' → ∃ held stage a, s' = .acquiring held stage a) :
    Part w s x := by
  refine .quiet hturn hface hwriter ?_ (fun p q r h => absurd h (hload p q r))
    (fun s' h => .inl (hstate s' h))
  cases s with
  | loading p q r => exact absurd rfl (hload p q r)
  | lock _ _ _ | acquiring _ _ _ | settling _ | turn _ => rfl

/-- Asking the next backend is quiet, unless there is none. -/
theorem Part.askBackend {purpose : Purpose} {pending : PendingSchema} {query : Option Query}
    {t : TaskId} {tables : SortedMap Tables} {rest : List (String × DataSource)} (w' : World)
    (hface : w'.registry.face = w.registry.face) (hwriter : w'.writer = w.writer)
    (hfactory : w'.factory = w.factory)
    (hanswer : w.answer? (.loading purpose pending query) =
      if rest = [] then some (.ok tables) else none) :
    Part w (.loading purpose pending query) (w'.askBackend t purpose pending tables rest) := by
  cases rest with
  | nil => exact .answers w' hanswer hface hwriter hfactory
  | cons e rest =>
    have howning : (w'.owning (w'.resources.enterPool t e.2.pool).1).registry.face =
        w.registry.face :=
      (face_owning w' (Resources.inventory_enterPool _ t e.2.pool)).trans hface
    have hquiet : ∀ next : Next, (∃ query', next.state? = some (.loading purpose pending query')) →
        Part w (.loading purpose pending query)
          (w'.owning (w'.resources.enterPool t e.2.pool).1, next) := by
      rintro next ⟨query', hnext⟩
      refine .quiet (fun _ => TaskState.noConfusion) howning hwriter hanswer ?_ ?_
      · rintro _ _ _ ⟨⟩
        exact ⟨query', hnext⟩
      · intro _ hstate
        rw [hnext] at hstate
        cases hstate
        exact .inr ⟨purpose, pending, query, query', rfl, rfl⟩
    simp only [World.askBackend]
    split <;> exact hquiet _ ⟨_, rfl⟩

theorem Part.load (purpose : Purpose) (pending : PendingSchema) (t : TaskId) :
    Part w (.loading purpose pending none) (w.load t purpose pending) := by
  simp only [World.load]
  split
  · rename_i answer htables
    exact .answers w (by simp [answer?, htables]) rfl rfl rfl
  · rename_i htables
    split
    · rename_i hdialect
      refine .askBackend w rfl rfl rfl ?_
      cases hentries : pending.dataSources.entries <;> simp [answer?, htables, hdialect, hentries]
    · rename_i hdialect
      exact .answers w (by simp [answer?, htables, hdialect]) rfl rfl rfl

theorem Part.afterQuery (purpose : Purpose) (pending : PendingSchema) (q : Query) (t : TaskId) :
    Part w (.loading purpose pending (some q)) (w.afterQuery t purpose pending q) := by
  have hface : (w.owning (w.resources.leavePool w.server q.pool q.attempt).1).registry.face =
      w.registry.face := face_owning w (Resources.inventory_leavePool _ w.server q.pool q.attempt)
  simp only [World.afterQuery]
  split
  · rename_i e he
    have he : ((w.resources.leavePool w.server q.pool q.attempt).2 >>= fun _ =>
      queryTables w.server q.backend) = .error e := he
    exact .answers _ (by simp only [answer?, he]) hface rfl rfl
  · rename_i tables htables
    have htables : ((w.resources.leavePool w.server q.pool q.attempt).2 >>= fun _ =>
      queryTables w.server q.backend) = .ok tables := htables
    exact .askBackend _ hface rfl rfl (by simp only [answer?, htables])

theorem Part.afterLock (t : TaskId) (q : AcquireRequest) (l : LockId) (a : Acquisition) :
    Part w (.lock q l a) (w.afterLock t q l a) := by
  have hquiet : ∀ {x : World × Next}, x.1.registry.face = w.registry.face → x.1.writer = w.writer →
      (∀ s', x.2.state? = some s' → ∃ held stage a, s' = .acquiring held stage a) →
      Part w (.lock q l a) x :=
    .of_quiet (fun _ => TaskState.noConfusion) (fun _ _ _ => TaskState.noConfusion)
  simp only [World.afterLock]
  split
  · refine hquiet ?_ (writer_releaseLock _ l) (fun _ h => by cases h)
    rw [face_releaseLock]
    rfl
  · exact hquiet (face_acquired w _ (a.inventory_start _ t)) (writer_acquired w _ _)
      fun _ h => ⟨_, state_acquired w h⟩

/-- What a task does that goes on is one of these parts. -/
theorem Part.advance (t : TaskId) (s : TaskState) : Part w s (w.advance t s) := by
  cases s with
  | lock q l a => exact .afterLock t q l a
  | acquiring held stage a =>
    exact .of_quiet (fun _ => TaskState.noConfusion) (fun _ _ _ => TaskState.noConfusion)
      (face_acquired w held (a.inventory_resume _ t w.server stage)) (writer_acquired w held _)
      fun _ h => ⟨held, state_acquired w h⟩
  | settling transaction =>
    refine .of_quiet (fun _ => TaskState.noConfusion) (fun _ _ _ => TaskState.noConfusion)
      (face_owning w ?_) rfl (fun _ h => by cases h)
    rw [Resources.inventory_releasePins, Resources.inventory_clearPins]
  | turn change => exact .opens change
  | loading purpose pending query =>
    cases query with
    | none => exact .load purpose pending t
    | some q => exact .afterQuery purpose pending q t

/-- No call begins with a load. -/
theorem begin_ne_loading (w : World) (t : TaskId) (call : Call) {purpose : Purpose}
    {pending : PendingSchema} {query : Option Query} :
    (w.begin t call).2.state? ≠ some (.loading purpose pending query) := by
  cases call with
  | acquire q =>
    simp only [World.begin, beginAcquire]
    split
    · simp [Next.state?]
    · split
      · simp [Next.state?]
      · split
        · intro h
          obtain ⟨_, _, heq⟩ := state_acquired w h
          cases heq
        · split <;> simp [Next.state?]
  | event event =>
    simp only [World.begin, beginEvent]
    split
    · simp [Next.state?]
    · simp only [beginChange]
      split <;> simp [Next.state?]
  | close =>
    simp only [World.begin, beginChange]
    split <;> simp [Next.state?]
  | pinned m transaction backend =>
    intro h
    obtain ⟨_, _, heq⟩ := state_acquired w h
    cases heq
  | settle m transaction =>
    simp only [World.begin, beginSettle]
    split
    · simp [Next.state?]
    · split <;> simp [Next.state?]

/-- A move that runs no part of a task leaves the face alone. -/
theorem face_move_of_part_none {w : World} {m : Move} (h : w.part? m = none) :
    (w.move m).registry.face = w.registry.face := by
  cases m with
  | start call => cases h
  | goOn t =>
    simp only [part?] at h
    simp only [World.move]
    split
    · rfl
    · rename_i s hs
      simp only [hs] at h
      split
      · rename_i hgo
        simp [hgo] at h
      · rfl
  | cancel t =>
    simp only [World.move]
    split
    · rfl
    · rename_i s _
      exact face_withdraw (w.without t) t s
  | beginTransaction m => exact face_owning w (Resources.inventory_beginTransaction _ m)
  | tune p gate refused => exact face_owning w (Resources.inventory_modifyPool _ p _)
  | surround _ _ _ | collect _ _ => rfl

/-- The change that is under way belongs to the task that has the turn. -/
theorem Sound.writer_of_loading {keys : List (String × String)} {w : World} (h : Sound keys w)
    {t : TaskId} {purpose : Purpose} {pending : PendingSchema} {query : Option Query}
    (hmem : (t, .loading purpose pending query) ∈ w.tasks) : w.writer.holder = some t :=
  (h.fine _ hmem).1

end World

end ShardRegistry
