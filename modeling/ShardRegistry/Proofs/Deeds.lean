import ShardRegistry.Proofs.Serialization

/-! Deeds. Others who have a handle of a pool or of an engine may close it at any time, without the registry; a
run in which they do so is one of deeds. Of every part of a task it is told here what it does to the pools and
to the results of heartbeats: nothing, unless it is a part of a change. -/
namespace ShardRegistry

/-- What happens in a run: a move, or somebody else closes a pool or an engine. Managers and pools that callers
make for themselves are no part of a registry, and are left out. -/
inductive Deed where
  | move (m : Move)
  | closePool (p : PoolId)
  | closeEngine (e : EngineId)
  /-- The driver of remote pools has other counts from now on: it has opened connections, or given some up. -/
  | recount (driver : PoolDriver)

namespace World

def undergo (w : World) : Deed → World
  | .move m => w.move m
  | .closePool p => w.owning (w.resources.closePool p)
  | .closeEngine e => w.owning (w.resources.closeEngineQuietly e)
  | .recount driver => { w with driver }

/-- The world after some deeds; it stands still once it has crashed. -/
def enact (w : World) (ds : List Deed) : World :=
  ds.foldl (fun w d => if w.crashed then w else w.undergo d) w

end World

/-! ### What stays as it is -/

/-- No pool was closed, and all that changes look at is the same, and so are the results of heartbeats. -/
structure Registry.Still (g g' : Registry) : Prop where
  face : g'.face = g.face
  closing : g'.resources.pools.map Pool.closing = g.resources.pools.map Pool.closing
  heartbeats : g'.heartbeats = g.heartbeats

namespace Registry.Still
variable {g g' g'' : Registry}

theorem refl (g : Registry) : g.Still g := ⟨rfl, rfl, rfl⟩

theorem trans (h : g.Still g') (h' : g'.Still g'') : g.Still g'' :=
  ⟨h'.face.trans h.face, h'.closing.trans h.closing, h'.heartbeats.trans h.heartbeats⟩

end Registry.Still

namespace World

/-- The registry and the tasks are still, but for who waits for whom. -/
structure Still (w w' : World) : Prop where
  registry : w.registry.Still w'.registry
  tasks : w'.tasks = w.tasks
  started : w'.started = w.started

namespace Still
variable {w w' w'' : World}

theorem refl (w : World) : w.Still w := ⟨.refl _, rfl, rfl⟩

theorem trans (h : w.Still w') (h' : w'.Still w'') : w.Still w'' :=
  ⟨h.registry.trans h'.registry, h'.tasks.trans h.tasks, h'.started.trans h.started⟩

theorem owning {r : Resources} (hi : r.inventory = w.resources.inventory) (hs : w.resources.Steady r) :
    w.Still (w.owning r) := ⟨⟨face_owning w hi, hs.pools, rfl⟩, rfl, rfl⟩

theorem releaseWriter (w : World) : w.Still w.releaseWriter := ⟨⟨rfl, rfl, rfl⟩, rfl, rfl⟩

theorem modifyLock (w : World) (l : LockId) (f : Mutex → Mutex) : w.Still (w.modifyLock l f) :=
  ⟨⟨rfl, rfl, rfl⟩, rfl, rfl⟩

theorem releaseLock (w : World) (l : LockId) : w.Still (w.releaseLock l) := by
  simp only [World.releaseLock]
  split
  · exact refl w
  · exact ⟨⟨rfl, rfl, rfl⟩, rfl, rfl⟩

theorem releaseHeld (w : World) (held : Option LockId) : w.Still (w.releaseHeld held) := by
  cases held with
  | none => exact refl w
  | some l => exact releaseLock w l

theorem lockFor (w : World) (schema backend : String) :
    w.Still { w with registry := (w.registry.lockFor schema backend).1 } := by
  simp only [Registry.lockFor]
  split <;> exact ⟨⟨rfl, rfl, rfl⟩, rfl, rfl⟩

theorem acquired (held : Option LockId) {y : Resources × Progress}
    (hi : y.1.inventory = w.resources.inventory) (hs : w.resources.Steady y.1) :
    w.Still (w.acquired held y).1 := by
  obtain ⟨r, progress⟩ := y
  have howning := owning hi hs
  cases progress with
  | waits stage a | passes stage a => exact howning
  | done outcome =>
    cases outcome with
    | ok cs => exact howning.trans (releaseHeld _ held)
    | error stop =>
      cases stop with
      | rejected e => exact howning.trans (releaseHeld _ held)
      | crashed => exact howning

/-- The beginning of a call. -/
theorem begin (w : World) (t : TaskId) (call : Call) : w.Still (w.begin t call).1 := by
  cases call with
  | acquire q =>
    simp only [World.begin, beginAcquire]
    split
    · exact refl w
    · rename_i a _
      split
      · exact refl w
      · split
        · exact acquired none (a.inventory_start w.resources t) (a.start_steady w.resources t).1
        · exact (lockFor w q.schema q.backend).trans (modifyLock _ _ _)
  | event event =>
    simp only [World.begin, beginEvent]
    split <;> exact ⟨⟨rfl, rfl, rfl⟩, rfl, rfl⟩
  | close => exact ⟨⟨rfl, rfl, rfl⟩, rfl, rfl⟩
  | pinned m transaction backend =>
    exact acquired none (Acquisition.inventory_start _ _ t) (Acquisition.start_steady _ w.resources t).1
  | settle m transaction =>
    simp only [World.begin, beginSettle]
    split
    · exact refl w
    · rename_i r hr
      have hinventory := Resources.inventory_dropTransaction hr
      exact owning hinventory ((Resources.Steady.dropTransaction hr).trans (.modifyPins _ transaction _))

/-- A cancellation. -/
theorem withdraw (w : World) (t : TaskId) (s : TaskState) : w.Still (w.withdraw t s) := by
  cases s with
  | lock q l a =>
    simp only [World.withdraw]
    split
    · exact releaseLock w l
    · exact modifyLock w l _
  | acquiring held stage a =>
    refine .trans ?_ (releaseHeld _ held)
    cases stage with
    | pins transaction =>
      simp only
      split
      · exact owning (by simp) (.releasePins _ transaction)
      · exact owning (by simp) (.modifyPins _ transaction _)
    | gate p n pins =>
      cases pins with
      | none => exact owning (by simp) (.quitPool _ t p)
      | some transaction =>
        exact owning (by simp) ((Resources.Steady.quitPool _ t p).trans (.releasePins _ transaction))
  | settling transaction =>
    simp only [World.withdraw]
    split
    · exact owning (by simp) (.releasePins _ transaction)
    · exact owning (by simp) (.modifyPins _ transaction _)
  | turn change =>
    simp only [World.withdraw]
    split
    · exact releaseWriter w
    · exact ⟨⟨rfl, rfl, rfl⟩, rfl, rfl⟩
  | loading purpose pending query =>
    cases query with
    | none => exact releaseWriter w
    | some q => exact (owning (by simp) (.quitPool _ t q.pool)).trans (releaseWriter _)

/-- The end of a part of a change. -/
theorem changed (w : World) (y : Registry × Step) : Still { w with registry := y.1 } (w.changed y).1 := by
  obtain ⟨g, step⟩ := y
  cases step with
  | load purpose pending => exact refl _
  | done outcome =>
    cases outcome with
    | ok n => exact releaseWriter { w with registry := g }
    | error stop =>
      cases stop with
      | rejected e => exact releaseWriter { w with registry := g }
      | crashed => exact refl _

end Still

/-! ### Parts of tasks -/

/-- What a task does that goes on. Only the parts of changes do more than move the task. -/
inductive Course (w : World) : TaskState → World × Next → Prop where
  | still {s : TaskState} {x : World × Next} (h : w.Still x.1) (hwriter : x.1.writer = w.writer)
      (hload : ∀ purpose pending query, x.2.state? = some (.loading purpose pending query) →
        ∃ query', s = .loading purpose pending query') : Course w s x
  | opens (change : Change) :
      Course w (.turn change) (w.changed (w.registry.begin w.environment change))
  | answers {purpose : Purpose} {pending : PendingSchema} {query : Option Query} (w' : World)
      (answer : Except Error (SortedMap Tables)) (h : w.Still w') (hwriter : w'.writer = w.writer) :
      Course w (.loading purpose pending query)
        (w'.changed (w'.registry.resume w'.environment purpose pending answer))

namespace Course
variable {w : World}

theorem acquired {s : TaskState} (held : Option LockId) {y : Resources × Progress}
    (hi : y.1.inventory = w.resources.inventory) (hs : w.resources.Steady y.1) :
    Course w s (w.acquired held y) := by
  refine .still (.acquired held hi hs) (writer_acquired w held y) ?_
  intro purpose pending query h
  obtain ⟨_, _, heq⟩ := state_acquired w h
  cases heq

theorem afterLock (t : TaskId) (q : AcquireRequest) (l : LockId) (a : Acquisition) :
    Course w (.lock q l a) (w.afterLock t q l a) := by
  simp only [World.afterLock]
  split
  · have hdropped : w.Still { w with registry := w.registry.dropLock q.schema q.backend l } :=
      ⟨⟨rfl, rfl, rfl⟩, rfl, rfl⟩
    exact .still (hdropped.trans (.releaseLock _ l)) (writer_releaseLock _ l) fun _ _ _ hs => by cases hs
  · exact acquired (some l) (a.inventory_start _ t) (a.start_steady _ t).1

theorem askBackend {purpose : Purpose} {pending : PendingSchema} {query : Option Query} (w' : World)
    (h : w.Still w') (hwriter : w'.writer = w.writer) (t : TaskId) (tables : SortedMap Tables)
    (rest : List (String × DataSource)) :
    Course w (.loading purpose pending query) (w'.askBackend t purpose pending tables rest) := by
  cases rest with
  | nil => exact .answers w' _ h hwriter
  | cons e rest =>
    have hasked : w.Still (w'.owning (w'.resources.enterPool t e.2.pool).1) :=
      h.trans (.owning (Resources.inventory_enterPool _ t e.2.pool) (.enterPool _ t e.2.pool))
    simp only [World.askBackend]
    refine .still hasked hwriter ?_
    intro purpose' pending' query' hstate
    split at hstate <;> cases hstate <;> exact ⟨query, rfl⟩

theorem load (purpose : Purpose) (pending : PendingSchema) (t : TaskId) :
    Course w (.loading purpose pending none) (w.load t purpose pending) := by
  simp only [World.load]
  split
  · exact .answers w _ (.refl w) rfl
  · split
    · exact .askBackend w (.refl w) rfl t _ _
    · exact .answers w _ (.refl w) rfl

theorem afterQuery (purpose : Purpose) (pending : PendingSchema) (q : Query) (t : TaskId) :
    Course w (.loading purpose pending (some q)) (w.afterQuery t purpose pending q) := by
  have hleft : w.Still (w.owning (w.resources.leavePool w.server q.pool q.attempt).1) :=
    .owning (Resources.inventory_leavePool _ w.server q.pool q.attempt) (.leavePool _ w.server q.pool q.attempt)
  simp only [World.afterQuery]
  split
  · exact .answers _ _ hleft rfl
  · exact .askBackend _ hleft rfl t _ _

theorem advance (w : World) (t : TaskId) (s : TaskState) : Course w s (w.advance t s) := by
  cases s with
  | lock q l a => exact .afterLock t q l a
  | acquiring held stage a =>
    exact .acquired held (a.inventory_resume _ t w.server stage) (a.resume_steady _ w.server t stage).1
  | settling transaction =>
    refine .still (.owning ?_ ((Resources.Steady.modifyPins _ transaction _).trans (.releasePins _ _))) rfl
      fun _ _ _ hs => by cases hs
    rw [Resources.inventory_releasePins, Resources.inventory_clearPins]
  | turn change => exact .opens change
  | loading purpose pending query =>
    cases query with
    | none => exact .load purpose pending t
    | some q => exact .afterQuery purpose pending q t

end Course

/-! ### Effects of deeds -/

/-- A task loads tables for a change. -/
def Loads (w : World) (t : TaskId) (purpose : Purpose) (pending : PendingSchema) : Prop :=
  ∃ query, (t, .loading purpose pending query) ∈ w.tasks

/-- No two tasks have one number, and only a task whose turn it is loads tables. -/
structure Regular (w : World) : Prop where
  nodup : (w.tasks.map (·.1)).Nodup
  started : ∀ e ∈ w.tasks, e.1 < w.started
  turn : ∀ {t purpose pending}, w.Loads t purpose pending → w.writer.holder = some t

/-- A world after a part of a change by the task `t`. -/
structure AfterPart (t : TaskId) (x : Registry × Step) (w : World) : Prop where
  registry : x.1.Still w.registry
  loads : ∀ {t' purpose pending}, w.Loads t' purpose pending → t' = t ∧ x.2 = .load purpose pending
  crashed : x.2 = .done (.error .crashed) → w.crashed = true

/-- What a deed does to the registry and to the loads of tables. -/
inductive Effect (w : World) : Deed → World → Prop where
  | still {m : Move} {w' : World} (h : w.registry.Still w'.registry)
      (hloads : ∀ {t purpose pending}, w'.Loads t purpose pending → w.Loads t purpose pending) :
      Effect w (.move m) w'
  | begins {t : TaskId} {change : Change} {w' : World} (hs : w.tasks.lookup t = some (.turn change))
      (hturn : w.writer.holder = some t)
      (h : AfterPart t (w.registry.begin (w.without t).environment change) w') :
      Effect w (.move (.goOn t)) w'
  | resumes {t : TaskId} {purpose : Purpose} {pending : PendingSchema} {w' : World} (g : Registry)
      (env : Environment) (answer : Except Error (SortedMap Tables)) (hl : w.Loads t purpose pending)
      (hg : w.registry.Still g) (h : AfterPart t (g.resume env purpose pending answer) w') :
      Effect w (.move (.goOn t)) w'
  | closesPool {p : PoolId} {w' : World} (h : w'.registry = w.registry.owning (w.resources.closePool p))
      (hloads : ∀ {t purpose pending}, w'.Loads t purpose pending → w.Loads t purpose pending) :
      Effect w (.closePool p) w'
  | closesEngine {e : EngineId} {w' : World}
      (h : w'.registry = w.registry.owning (w.resources.closeEngineQuietly e))
      (hloads : ∀ {t purpose pending}, w'.Loads t purpose pending → w.Loads t purpose pending) :
      Effect w (.closeEngine e) w'
  | recounts {driver : PoolDriver} {w' : World} (h : w'.registry = w.registry)
      (hloads : ∀ {t purpose pending}, w'.Loads t purpose pending → w.Loads t purpose pending) :
      Effect w (.recount driver) w'

theorem writer_changed_of_load {w : World} {y : Registry × Step} {purpose : Purpose}
    {pending : PendingSchema} (h : y.2 = .load purpose pending) : (w.changed y).1.writer = w.writer := by
  obtain ⟨g, step⟩ := y
  obtain rfl : step = .load purpose pending := h
  rfl

theorem crashed_changed {w : World} {g : Registry} (t : TaskId) :
    (put t (w.changed (g, .done (.error .crashed)))).crashed = true := rfl

theorem Still.loads {w w' : World} (h : w.Still w') {t : TaskId} {purpose : Purpose}
    {pending : PendingSchema} (hl : w'.Loads t purpose pending) : w.Loads t purpose pending := by
  obtain ⟨query, hmem⟩ := hl
  exact ⟨query, h.tasks ▸ hmem⟩

theorem loads_without {w : World} {t t' : TaskId} {purpose : Purpose} {pending : PendingSchema}
    (h : (w.without t).Loads t' purpose pending) : t' ≠ t ∧ w.Loads t' purpose pending := by
  obtain ⟨query, hmem⟩ := h
  exact ⟨Sound.ne_of_mem_without _ hmem, query, List.filter_sublist.subset hmem⟩

namespace Regular
variable {w : World} {t : TaskId} {s : TaskState}

theorem start : Regular {} where
  nodup := List.nodup_nil
  started _ he := absurd he List.not_mem_nil
  turn := by
    rintro _ _ _ ⟨_, hmem⟩
    cases hmem

theorem without (h : w.Regular) (t : TaskId) : (w.without t).Regular where
  nodup := h.nodup.sublist (List.filter_sublist.map _)
  started e he := h.started e (List.filter_sublist.subset he)
  turn hl := h.turn (loads_without hl).2

/-- Others load no tables while a task has the turn. -/
theorem not_loads_without (h : w.Regular) (hturn : w.writer.holder = some t) {t' : TaskId}
    {purpose : Purpose} {pending : PendingSchema} : ¬ (w.without t).Loads t' purpose pending := by
  intro hl
  obtain ⟨hne, hl⟩ := loads_without hl
  exact hne (Option.some.inj ((h.turn hl).symm.trans hturn))

/-- What a part of a change by the task leaves behind that has the turn. -/
theorem afterPart (h : w.Regular) (hturn : w.writer.holder = some t) {w' : World}
    (hw : (w.without t).Still w') (y : Registry × Step) : AfterPart t y (put t (w'.changed y)) where
  registry := by
    rw [registry_put]
    exact (Still.changed w' y).registry
  loads := by
    rintro t' purpose pending ⟨query, hmem⟩
    rcases mem_put hmem with hold | ⟨ht, hstate⟩
    · rw [(Still.changed w' y).tasks] at hold
      exact absurd ⟨query, hw.tasks ▸ hold⟩ (h.not_loads_without hturn)
    · obtain ⟨_, _, hload, heq⟩ := state_changed hstate
      cases heq
      exact ⟨ht, hload⟩
  crashed hcrash := by
    obtain ⟨g, step⟩ := y
    obtain rfl : step = .done (.error .crashed) := hcrash
    exact crashed_changed t

/-- A part of a task moves it, or it is a part of a change. -/
theorem effect_goOn (h : w.Regular) (hs : w.tasks.lookup t = some s) (hgo : w.mayGoOn t s = true) :
    w.Effect (.move (.goOn t)) (put t ((w.without t).advance t s)) := by
  have hmem := (lookup_some_iff h.nodup t s).1 hs
  have hcourse := Course.advance (w.without t) t s
  generalize (w.without t).advance t s = x at hcourse
  cases hcourse with
  | still hstill _ hload =>
    refine .still ?_ ?_
    · rw [registry_put]
      exact hstill.registry
    · rintro t' purpose pending ⟨query, hmem'⟩
      rcases mem_put hmem' with hold | ⟨rfl, hstate⟩
      · exact (loads_without (hstill.loads ⟨query, hold⟩)).2
      · obtain ⟨query', rfl⟩ := hload _ _ _ hstate
        exact ⟨query', hmem⟩
  | opens change =>
    have hturn : w.writer.holder = some t := by simpa [mayGoOn, Mutex.isHeldBy] using hgo
    exact .begins hs hturn (h.afterPart hturn (.refl _) _)
  | answers w' answer hstill _ =>
    have hl : w.Loads t _ _ := ⟨_, hmem⟩
    exact .resumes w'.registry w'.environment answer hl hstill.registry (h.afterPart (h.turn hl) hstill _)

/-- Every deed has one of these effects. -/
theorem effect (h : w.Regular) (d : Deed) : w.Effect d (w.undergo d) := by
  cases d with
  | closePool p => exact .closesPool rfl id
  | closeEngine e => exact .closesEngine rfl id
  | recount driver => exact .recounts rfl id
  | move m =>
    cases m with
    | start call =>
      refine .still ?_ ?_
      · rw [undergo, World.move, registry_put]
        exact (Still.begin { w with started := w.started + 1 } w.started call).registry
      · rintro t purpose pending ⟨query, hmem⟩
        rcases mem_put hmem with hold | ⟨_, hstate⟩
        · rw [(Still.begin _ _ call).tasks] at hold
          exact ⟨query, hold⟩
        · exact absurd hstate (begin_ne_loading _ _ call)
    | goOn t =>
      simp only [undergo, World.move]
      split
      · exact .still (.refl _) id
      · rename_i s hs
        split
        · rename_i hgo
          exact h.effect_goOn hs hgo
        · exact .still (.refl _) id
    | cancel t =>
      simp only [undergo, World.move]
      split
      · exact .still (.refl _) id
      · rename_i s _
        have hstill := Still.withdraw (w.without t) t s
        exact .still hstill.registry fun hl => (loads_without (hstill.loads hl)).2
    | beginTransaction m =>
      have hstill : w.Still (w.owning (w.resources.beginTransaction m).1) :=
        .owning (by simp) (.beginTransaction _ m)
      exact .still hstill.registry id
    | tune p gate refused =>
      have hstill : w.Still (w.owning (w.resources.modifyPool p fun x => { x with gate, refused })) :=
        .owning (by simp) (.modifyPool _ p fun _ => rfl)
      exact .still hstill.registry id
    | surround _ _ _ | collect _ _ => exact .still (.refl _) id

/-! #### The tasks after a deed -/

/-- A task is put down after a part of it. -/
theorem put {x : World × Next} (h : w.Regular) (ht : ∀ e ∈ w.tasks, e.1 ≠ t) (hlt : t < w.started)
    (htasks : x.1.tasks = w.tasks) (hstarted : x.1.started = w.started)
    (hturn : ∀ {t' purpose pending}, (World.put t x).Loads t' purpose pending →
      x.1.writer.holder = some t') :
    (World.put t x).Regular := by
  obtain ⟨w', next⟩ := x
  have htasks : w'.tasks = w.tasks := htasks
  have hstarted : w'.started = w.started := hstarted
  have hsame : ∀ w'' : World, w''.tasks = w.tasks → w''.started = w.started →
      (∀ {t' purpose pending}, w''.Loads t' purpose pending → w''.writer.holder = some t') →
      w''.Regular :=
    fun w'' hw hs hl => ⟨hw ▸ h.nodup, fun e he => hs ▸ h.started e (hw ▸ he), hl⟩
  have hstands : ∀ s, (∀ {t' purpose pending},
      World.Loads { w' with tasks := w'.tasks ++ [(t, s)] } t' purpose pending →
        w'.writer.holder = some t') → World.Regular { w' with tasks := w'.tasks ++ [(t, s)] } := by
    intro s hl
    refine ⟨?_, ?_, hl⟩
    · simp only [htasks, List.map_append, List.map_cons, List.map_nil]
      refine List.nodup_append'.2 ⟨h.nodup, List.nodup_singleton t, ?_⟩
      rw [List.disjoint_singleton]
      intro hmem
      obtain ⟨e, he, rfl⟩ := List.mem_map.1 hmem
      exact ht e he rfl
    · intro e he
      simp only [htasks] at he
      show e.1 < w'.started
      rw [hstarted]
      rcases List.mem_append.1 he with he | he
      · exact h.started e he
      · rw [List.mem_singleton.1 he]
        exact hlt
  cases next with
  | waits s | passes s => exact hstands s hturn
  | ends o => exact hsame _ htasks hstarted hturn
  | crashes => exact hsame _ htasks hstarted hturn

theorem writer_begin_of_holder {w : World} {t t' : TaskId} (call : Call) (h : w.writer.holder = some t') :
    (w.begin t call).1.writer.holder = some t' := by
  rcases writer_begin w t call with hwriter | hwriter <;> rw [hwriter]
  · exact h
  · simp [Mutex.request, Mutex.isFree, h]

theorem writer_withdraw_of_holder (hne : t' ≠ t) (h : w.writer.holder = some t')
    (hload : ∀ purpose pending query, s ≠ .loading purpose pending query) :
    (w.withdraw t s).writer.holder = some t' := by
  cases s with
  | lock q l a =>
    simp only [World.withdraw]
    split
    · rw [writer_releaseLock]
      exact h
    · exact h
  | acquiring held stage a =>
    simp only [World.withdraw, writer_releaseHeld]
    exact h
  | settling transaction => exact h
  | turn change =>
    have hother : w.writer.isHeldBy t = false := by simpa [Mutex.isHeldBy, h] using hne
    simp only [World.withdraw, hother]
    exact h
  | loading purpose pending query => exact absurd rfl (hload purpose pending query)

theorem changed (h : w.Regular) (hlt : t < w.started) (hturn : w.writer.holder = some t) {w' : World}
    (hw : (w.without t).Still w') (hwriter : w'.writer = w.writer) (y : Registry × Step) :
    (World.put t (w'.changed y)).Regular := by
  have hchanged := Still.changed w' y
  refine (h.without t).put Sound.ne_of_mem_without hlt (hchanged.tasks.trans hw.tasks)
    (hchanged.started.trans hw.started) ?_
  intro t' purpose pending hl
  obtain ⟨rfl, hload⟩ := (h.afterPart hturn hw y).loads hl
  rw [writer_changed_of_load hload, hwriter]
  exact hturn

theorem goOn (h : w.Regular) (hs : w.tasks.lookup t = some s) (hgo : w.mayGoOn t s = true) :
    (World.put t ((w.without t).advance t s)).Regular := by
  have hmem := (lookup_some_iff h.nodup t s).1 hs
  have hrest := h.without t
  have hlt : t < w.started := h.started _ hmem
  have hcourse := Course.advance (w.without t) t s
  generalize (w.without t).advance t s = x at hcourse
  cases hcourse with
  | still hstill hwriter hload =>
    refine hrest.put Sound.ne_of_mem_without hlt hstill.tasks hstill.started ?_
    rintro t' purpose pending ⟨query, hmem'⟩
    rw [hwriter]
    rcases mem_put hmem' with hold | ⟨rfl, hstate⟩
    · exact hrest.turn (hstill.loads ⟨query, hold⟩)
    · obtain ⟨query', rfl⟩ := hload _ _ _ hstate
      exact h.turn ⟨query', hmem⟩
  | opens change =>
    have hturn : w.writer.holder = some t := by simpa [mayGoOn, Mutex.isHeldBy] using hgo
    exact h.changed hlt hturn (.refl _) rfl _
  | answers w' answer hstill hwriter =>
    exact h.changed hlt (h.turn ⟨_, hmem⟩) hstill hwriter _

theorem undergo (h : w.Regular) (d : Deed) : (w.undergo d).Regular := by
  cases d with
  | closePool _ | closeEngine _ | recount _ => exact ⟨h.nodup, h.started, h.turn⟩
  | move m =>
    cases m with
    | start call =>
      have hbegin := Still.begin { w with started := w.started + 1 } w.started call
      have hmore : World.Regular { w with started := w.started + 1 } :=
        ⟨h.nodup, fun e he => Nat.lt_succ_of_lt (h.started e he), h.turn⟩
      refine hmore.put (fun e he => Nat.ne_of_lt (h.started e he)) (Nat.lt_succ_self _) hbegin.tasks
        hbegin.started ?_
      rintro t purpose pending ⟨query, hmem⟩
      rcases mem_put hmem with hold | ⟨_, hstate⟩
      · exact writer_begin_of_holder call (h.turn ⟨query, hbegin.tasks ▸ hold⟩)
      · exact absurd hstate (begin_ne_loading _ _ call)
    | goOn t =>
      simp only [World.undergo, World.move]
      split
      · exact h
      · rename_i s hs
        split
        · rename_i hgo
          exact h.goOn hs hgo
        · exact h
    | cancel t =>
      simp only [World.undergo, World.move]
      split
      · exact h
      · rename_i s hs
        have hrest := h.without t
        have hwithdraw := Still.withdraw (w.without t) t s
        refine ⟨?_, ?_, ?_⟩
        · rw [hwithdraw.tasks]
          exact hrest.nodup
        · rw [hwithdraw.tasks, hwithdraw.started]
          exact hrest.started
        · intro t' purpose pending hl
          have hl' := hwithdraw.loads hl
          refine writer_withdraw_of_holder (loads_without hl').1 (hrest.turn hl') ?_
          rintro purpose' pending' query rfl
          have hmine : w.Loads t purpose' pending' := ⟨query, (lookup_some_iff h.nodup t _).1 hs⟩
          exact h.not_loads_without (h.turn hmine) hl'
    | beginTransaction _ | tune _ _ _ | surround _ _ _ | collect _ _ => exact ⟨h.nodup, h.started, h.turn⟩

end Regular

end World

end ShardRegistry
