import ShardRegistry.Proofs.Affinity
import ShardRegistry.Proofs.Handles

/-! Accounts of runs. The handles on connections and on pins are followed through whole runs. At any
moment a connection has as many handles as there are batches, results, callers and pins that it can be
reached from, so the connections that are counted as live are those that can be reached. -/
namespace ShardRegistry

namespace World

/-! ### What moves do with handles -/

/-- The connections that callers have, or will have when they take their results. -/
def held (w : World) : List Connection :=
  w.holds.flatMap (·.2) ++ w.outcomes.flatMap fun e => Outcome.connections e.2

/-- The connections that batches have got. -/
def batches (w : World) : List Connection := w.tasks.flatMap fun e => acquiredBy e.2

/-- The transactions that tasks deal with. -/
def deals (w : World) : List TransactionId := w.tasks.filterMap fun e => pinsOf e.2

def beginReferences (w : World) : Call → List Reference
  | .acquire q => match w.registry.admit q with
    | .error _ => []
    | .ok a =>
      if q.count = 0 then []
      else match q.mode with
        | .strictPerConnection => a.startReferences w.resources
        | .sharedMemory => []
  | .pinned m t backend =>
    Acquisition.startReferences { backend, count := 1, source := .transaction m t none } w.resources
  | .event _ | .close | .settle _ _ => []

def advanceReferences (w : World) (k : TaskId) : TaskState → List Reference
  | .lock q _ a => match Registry.resolve w.registry.current q.schema q.backend with
    | .error _ => a.drops
    | .ok _ => a.startReferences w.resources
  | .acquiring _ stage a => a.resumeReferences w.resources w.server stage
  | .settling t => [.cleared t, .left t]
  | .turn change => w.resources.departures (w.advance k (.turn change)).1.resources
  | .loading purpose pending none =>
    w.resources.departures (w.advance k (.loading purpose pending none)).1.resources
  | .loading purpose pending (some q) =>
    -- the connection that a backend is asked over is dropped with the answer
    (match (w.resources.leavePool w.server q.pool q.attempt).2 with
      | .error _ => []
      | .ok c => [.taken c, .dropped c]) ++
    w.resources.departures (w.advance k (.loading purpose pending (some q))).1.resources

def withdrawReferences (s : TaskState) : List Reference :=
  (acquiredBy s).map .dropped ++ (pinsOf s).toList.map .left

def references (w : World) : Action → List Reference
  | .move (.start call) => beginReferences { w with started := w.started + 1 } call
  | .move (.goOn k) => match w.tasks.lookup k with
    | none => []
    | some s => if w.mayGoOn k s then (w.without k).advanceReferences k s else []
  | .move (.cancel k) => match w.tasks.lookup k with
    | none => []
    | some s => withdrawReferences s
  | .move (.beginTransaction m) => match (w.resources.beginTransaction m).2 with
    | .error _ => []
    | .ok _ => [.begun]
  | .move (.collect outcomes holds) =>
    (held { w with outcomes, holds }).map .taken ++ w.held.map .dropped
  | .closeManager m => w.resources.departures (w.resources.closeManager m).1
  | .move (.surround _ _ _) | .move (.tune _ _ _) | .startManager _ _ | .addPool _ _
  | .closePool _ => []

/-- What the actions of a run do with handles, counted. -/
def ledger (as : List Action) : Ledger :=
  Ledger.posts {} (trail (fun w a => if w.crashed then w else w.act a)
    (fun w a => if w.crashed then [] else w.references a) ({} : World) as)

/-! ### Parts that have no handles -/

/-- Managers were closed at most, and callers have what they had. -/
structure Vacates (w w' : World) : Prop where
  resources : w.resources.Vacates w'.resources
  held : w'.held = w.held

namespace Vacates
variable {w w' w'' : World}

theorem trans (h : w.Vacates w') (h' : w'.Vacates w'') : w.Vacates w'' :=
  ⟨h.resources.trans h'.resources, h'.held.trans h.held⟩

theorem owning {r : Resources} (h : w.resources.Vacates r) : w.Vacates (w.owning r) := ⟨h, rfl⟩

theorem releaseWriter (w : World) : w.Vacates w.releaseWriter :=
  ⟨.of_retires (.of_eq rfl rfl rfl) rfl rfl, rfl⟩

theorem changed {y : Registry × Step} (h : w.resources.Vacates y.1.resources) :
    w.Vacates (w.changed y).1 := by
  obtain ⟨g, step⟩ := y
  have hown : w.Vacates { w with registry := g } := ⟨h, rfl⟩
  cases step with
  | load purpose pending => exact hown
  | done outcome =>
    cases outcome with
    | ok n => exact hown.trans (releaseWriter _)
    | error stop =>
      cases stop with
      | rejected e => exact hown.trans (releaseWriter _)
      | crashed => exact hown

theorem loaded (w : World) (purpose : Purpose) (pending : PendingSchema)
    (tables : Except Error (SortedMap Tables)) : w.Vacates (w.loaded purpose pending tables).1 :=
  changed (Resources.Vacates.respected.resume w.registry w.environment purpose pending tables)

theorem askBackend (w : World) (k : TaskId) (purpose : Purpose) (pending : PendingSchema)
    (tables : SortedMap Tables) (rest : List (String × DataSource)) :
    w.Vacates (w.askBackend k purpose pending tables rest).1 := by
  cases rest with
  | nil => exact loaded w purpose pending (.ok tables)
  | cons e rest => exact owning (.of_retires (.enterPool _ k e.2.pool)
      (Resources.table_enterPool _ k _) (Resources.contents_enterPool _ k _))

theorem load (w : World) (k : TaskId) (purpose : Purpose) (pending : PendingSchema) :
    w.Vacates (w.load k purpose pending).1 := by
  simp only [World.load]
  split
  · exact loaded w purpose pending _
  · split
    · exact askBackend w k purpose pending _ _
    · exact loaded w purpose pending _

end Vacates

/-- Nothing changed that has handles. -/
structure Alike (w w' : World) : Prop where
  engines : w'.resources.engines = w.resources.engines
  table : w'.resources.table = w.resources.table
  contents : w'.resources.contents = w.resources.contents
  held : w'.held = w.held
  tasks : w'.tasks = w.tasks

namespace Alike
variable {w w' w'' : World}

theorem refl (w : World) : w.Alike w := ⟨rfl, rfl, rfl, rfl, rfl⟩

theorem trans (h : w.Alike w') (h' : w'.Alike w'') : w.Alike w'' :=
  ⟨h'.engines.trans h.engines, h'.table.trans h.table, h'.contents.trans h.contents,
    h'.held.trans h.held, h'.tasks.trans h.tasks⟩

theorem owning {r : Resources} (he : r.engines = w.resources.engines)
    (ht : r.table = w.resources.table) (hc : r.contents = w.resources.contents) :
    w.Alike (w.owning r) := ⟨he, ht, hc, rfl, rfl⟩

theorem lockFor (w : World) (schema backend : String) :
    w.Alike { w with registry := (w.registry.lockFor schema backend).1 } := by
  obtain ⟨_, ⟨locks, hlocks⟩, _⟩ := lockFor_cases w.registry schema backend
  refine ⟨?_, ?_, ?_, rfl, rfl⟩ <;>
    · rw [resources, hlocks]
      rfl

theorem releaseHeld (w : World) (held : Option LockId) : w.Alike (w.releaseHeld held) := by
  cases held with
  | none => exact refl w
  | some l =>
    simp only [World.releaseHeld, World.releaseLock]
    split
    · exact refl w
    · exact ⟨rfl, rfl, rfl, rfl, rfl⟩

theorem withdraw (w : World) (k : TaskId) (s : TaskState) : w.Alike (w.withdraw k s) := by
  have hgiven : ∀ {r : Resources} (held : Option LockId), r.engines = w.resources.engines →
      r.table = w.resources.table → r.contents = w.resources.contents →
      w.Alike ((w.owning r).releaseHeld held) :=
    fun held he ht hc => (owning he ht hc).trans (releaseHeld _ held)
  have hreleased : ∀ t, (w.resources.releasePins t).engines = w.resources.engines :=
    fun t => (Resources.Steady.releasePins _ t).engines
  have hleft : ∀ t, (w.resources.modifyPins t fun p =>
      { p with mutex := p.mutex.leaveQueue k }).contents = w.resources.contents :=
    fun t => Resources.contents_modifyPins _ t fun _ => rfl
  cases s with
  | lock q l a =>
    simp only [World.withdraw]
    split
    · exact releaseHeld w (some l)
    · exact ⟨rfl, rfl, rfl, rfl, rfl⟩
  | acquiring held stage a =>
    cases stage with
    | pins t =>
      simp only [World.withdraw]
      split
      · exact hgiven held (hreleased t) (by simp) (by simp)
      · exact hgiven held rfl (by simp) (hleft t)
    | gate p n ts =>
      cases ts with
      | none => exact hgiven held rfl rfl rfl
      | some t =>
        refine hgiven held (Resources.Steady.releasePins _ t).engines ?_ ?_
        · rw [Resources.table_releasePins]
          rfl
        · rw [Resources.contents_releasePins]
          rfl
  | settling t =>
    simp only [World.withdraw]
    split
    · exact owning (hreleased t) (by simp) (by simp)
    · exact owning rfl (by simp) (hleft t)
  | turn change =>
    simp only [World.withdraw]
    split <;> exact ⟨rfl, rfl, rfl, rfl, rfl⟩
  | loading purpose pending query =>
    cases query <;> exact ⟨rfl, rfl, rfl, rfl, rfl⟩

end Alike

/-- A task that deals with a transaction has a role in it. -/
theorem role_of_pinsOf {s : TaskState} {t : TransactionId} (h : pinsOf s = some t) :
    ∃ ρ, s.role? = some ρ ∧ ρ.transaction = t := by
  cases s with
  | acquiring held stage a =>
    cases stage with
    | pins t' =>
      cases h
      exact ⟨_, rfl, rfl⟩
    | gate p n ts =>
      obtain rfl : ts = some t := h
      exact ⟨_, rfl, rfl⟩
  | settling t' =>
    cases h
    exact ⟨_, rfl, rfl⟩
  | lock _ _ _ | turn _ | loading _ _ _ => cases h

end World

/-! ### Parts of tasks -/

namespace Next

/-- The connections that a task has got, or that become of it. -/
def connections : Next → List Connection
  | .waits s | .passes s => World.acquiredBy s
  | .ends o => World.Outcome.connections o
  | .crashes => []

def transaction? (next : Next) : Option TransactionId := next.state?.bind World.pinsOf

/-- The task has no handles. -/
def Idle (next : Next) : Prop := next.connections = [] ∧ next.transaction? = none

end Next

namespace World

theorem idle_changed (w : World) (y : Registry × Step) : (w.changed y).2.Idle := by
  obtain ⟨g, step⟩ := y
  cases step with
  | load purpose pending => exact ⟨rfl, rfl⟩
  | done outcome =>
    cases outcome with
    | ok n => exact ⟨rfl, rfl⟩
    | error stop => cases stop <;> exact ⟨rfl, rfl⟩

theorem idle_askBackend (w : World) (k : TaskId) (purpose : Purpose) (pending : PendingSchema)
    (tables : SortedMap Tables) (rest : List (String × DataSource)) :
    (w.askBackend k purpose pending tables rest).2.Idle := by
  cases rest with
  | nil => exact idle_changed w _
  | cons e rest =>
    simp only [World.askBackend]
    split <;> exact ⟨rfl, rfl⟩

theorem idle_load (w : World) (k : TaskId) (purpose : Purpose) (pending : PendingSchema) :
    (w.load k purpose pending).2.Idle := by
  simp only [World.load]
  split
  · exact idle_changed w _
  · split
    · exact idle_askBackend w k purpose pending _ _
    · exact idle_changed w _

/-- After a part of a task the ledger tells of the handles of the task, and of those of the others,
which are `B` and `D`. -/
structure Covered (l : Ledger) (B : List Connection) (D : List TransactionId) (w : World)
    (x : World × Next) : Prop where
  covers : l.Covers x.1.resources (x.2.connections ++ B) (x.2.transaction?.toList ++ D)
  held : x.1.held = w.held

namespace Covered
variable {l : Ledger} {B : List Connection} {D : List TransactionId} {w w' : World}
  {x : World × Next} {H : List Delivery} {R : List (TaskId × Role)} {k : TaskId}

/-- What does not touch handles. -/
theorem of_alike (h : l.Covers w.resources B D) (ha : w.Alike x.1) (hidle : x.2.Idle) :
    Covered l B D w x where
  covers := by
    rw [hidle.1, hidle.2]
    exact h.of_eq ha.table ha.contents
  held := ha.held

theorem of_vacates (h : l.Covers w.resources B D) (hq : w.resources.Queued R) (hv : w.Vacates x.1)
    (hidle : x.2.Idle) : Covered (l.posts (w.resources.departures x.1.resources)) B D w x where
  covers := by
    rw [hidle.1, hidle.2]
    exact h.departs hv.resources hq
  held := hv.held

theorem acquired {y : Resources × Progress} (o : Option LockId)
    (h : l.Covers y.1 (y.2.connections ++ B) (y.2.transaction?.toList ++ D)) :
    Covered l B D w (w.acquired o y) := by
  obtain ⟨r, progress⟩ := y
  have hreleased := Alike.releaseHeld (w.owning r) o
  cases progress with
  | waits stage a | passes stage a =>
    cases stage <;> exact ⟨h, rfl⟩
  | done outcome =>
    cases outcome with
    | ok cs => exact ⟨h.of_eq hreleased.table hreleased.contents, hreleased.held⟩
    | error stop =>
      cases stop with
      | rejected e => exact ⟨h.of_eq hreleased.table hreleased.contents, hreleased.held⟩
      | crashed => exact ⟨h, rfl⟩

theorem begin (h : l.Covers w.resources B D) (ha : w.resources.Affine H w.roles) (call : Call) :
    Covered (l.posts (w.beginReferences call)) B D w (w.begin k call) := by
  have hknown : w.resources.Known := fun t ⟨m, hm⟩ => (ha.queued.active m t hm).1
  have hstill : ∀ e, Covered l B D w (w, .ends (.failed e)) := fun _ =>
    of_alike h (.refl w) ⟨rfl, rfl⟩
  have hchange : ∀ change, Covered l B D w (w.beginChange k change) := by
    intro change
    refine of_alike h ⟨rfl, rfl, rfl, rfl, rfl⟩ ?_
    simp only [beginChange]
    split <;> exact ⟨rfl, rfl⟩
  cases call with
  | acquire q =>
    simp only [World.begin, beginAcquire, beginReferences]
    cases hadmit : w.registry.admit q with
    | error e => exact hstill e
    | ok a =>
      by_cases hcount : q.count = 0
      · simp only [hcount, if_true]
        exact of_alike h (.refl w) ⟨rfl, rfl⟩
      · obtain ⟨-, hnone⟩ := asks_of_admit hadmit
        simp only [hcount, if_false]
        cases q.mode with
        | strictPerConnection =>
          exact acquired none (Ledger.Covers.begin (by rwa [hnone]) hknown)
        | sharedMemory =>
          have hlock := Alike.lockFor w q.schema q.backend
          refine of_alike h (hlock.trans ⟨rfl, rfl, rfl, rfl, rfl⟩) ?_
          simp only
          split <;> exact ⟨hnone, rfl⟩
  | event event =>
    simp only [World.begin, beginEvent]
    split
    · exact hstill _
    · exact hchange _
  | close => exact hchange .close
  | pinned m t backend => exact acquired none (Ledger.Covers.begin h hknown)
  | settle m t =>
    simp only [World.begin, beginSettle, beginReferences]
    cases hdrop : w.resources.dropTransaction m t with
    | error e => exact hstill e
    | ok r =>
      have hdropped := (h.settle hdrop ha.queued).of_eq (r.table_requestPins t k)
        (r.contents_requestPins t k)
      simp only
      split <;> exact ⟨hdropped, rfl⟩

/-- What answers a query of the backend is taken for the query, and dropped after it. -/
theorem advance_loading {purpose : Purpose} {pending : PendingSchema} {query : Option Query}
    (h : l.Covers w.resources B D) (hq : w.resources.Queued R) :
    Covered (l.posts (w.advanceReferences k (.loading purpose pending query))) B D w
      (w.advance k (.loading purpose pending query)) := by
  cases query with
  | none => exact of_vacates h hq (.load w k purpose pending) (idle_load w k purpose pending)
  | some q =>
    have hleave : w.Vacates (w.owning (w.resources.leavePool w.server q.pool q.attempt).1) :=
      .owning (.of_retires (.leavePool _ w.server q.pool q.attempt)
        (Resources.table_leavePool _ w.server q.pool q.attempt)
        (Resources.contents_leavePool _ w.server q.pool q.attempt))
    have hafter : w.Vacates (w.advance k (.loading purpose pending (some q))).1 ∧
        (w.advance k (.loading purpose pending (some q))).2.Idle := by
      simp only [World.advance, World.afterQuery]
      split
      · exact ⟨hleave.trans (.loaded _ purpose pending _), idle_changed _ _⟩
      · exact ⟨hleave.trans (.askBackend _ k purpose pending _ _), idle_askBackend _ k _ _ _ _⟩
    simp only [advanceReferences, Ledger.posts_append]
    refine of_vacates ?_ hq hafter.1 hafter.2
    cases (w.resources.leavePool w.server q.pool q.attempt).2 with
    | error e => exact h
    | ok c => exact Ledger.Covers.drops (C := [c]) (h.take c)

/-- A task goes on that has got what it waits for. -/
theorem advance {s : TaskState}
    (h : l.Covers w.resources (acquiredBy s ++ B) ((pinsOf s).toList ++ D))
    (ha : w.resources.Affine H (joined k s.role? w.roles)) :
    Covered (l.posts (w.advanceReferences k s)) B D w (w.advance k s) := by
  have hknown : w.resources.Known := fun t ⟨m, hm⟩ => (ha.queued.active m t hm).1
  have hrole : ∀ ρ, s.role? = some ρ → (k, ρ) ∈ joined k s.role? w.roles := by
    intro ρ hρ
    simp [joined, hρ]
  cases s with
  | lock q l a =>
    simp only [World.advance, World.afterLock, advanceReferences]
    cases Registry.resolve w.registry.current q.schema q.backend with
    | error e =>
      have hdropped : w.Alike { w with registry := w.registry.dropLock q.schema q.backend l } :=
        ⟨rfl, rfl, rfl, rfl, rfl⟩
      exact of_alike h.drops (hdropped.trans (.releaseHeld _ (some l))) ⟨rfl, rfl⟩
    | ok x => exact acquired (some l) (h.begin hknown)
  | acquiring held stage a =>
    refine acquired held (Ledger.Covers.resume ?_ hknown (fun t ht => ?_) (fun t b ht => ?_) w.server)
    · cases stage <;> exact h
    · have hpins : pinsOf (.acquiring held stage a) = some t := by cases stage <;> exact ht
      obtain ⟨ρ, hρ, rfl⟩ := role_of_pinsOf hpins
      exact ha.queued.known _ (hrole ρ hρ)
    · have hmem := hrole (.draws t b) ht
      obtain ⟨m, hm⟩ := Option.ne_none_iff_exists'.1 (ha.queued.known _ hmem)
      exact ((ha.queued.served t m hm).draws k b hmem).2
  | settling t =>
    have ht : w.resources.mutex? t ≠ none := ha.queued.known _ (hrole (.settles t) rfl)
    obtain ⟨_, hmutex, _⟩ := Resources.clearPins_eq w.resources t
    have hcleared := (h.clear ht).leave (by rwa [hmutex])
    exact ⟨hcleared.of_eq (Resources.table_releasePins _ t) (Resources.contents_releasePins _ t), rfl⟩
  | turn change =>
    exact of_vacates h ha.queued
      (.changed (Resources.Vacates.respected.begin w.registry w.environment change)) (idle_changed w _)
  | loading purpose pending query => exact advance_loading h ha.queued

end Covered

/-! ### Moves -/

/-- The ledger tells of all handles. -/
def Accounts (l : Ledger) (w : World) : Prop :=
  l.Covers w.resources (w.held ++ w.batches) w.deals

namespace Accounts
variable {l : Ledger} {w : World} {H : List Delivery} {C : List (TaskId × Call)}
  {O : List (TaskId × Outcome)} {k : TaskId}

/-- What became of a task is put down. -/
theorem put {x : World × Next} (h : Covered l (w.held ++ w.batches) w.deals w x)
    (ht : x.1.tasks = w.tasks) : Accounts l (World.put k x) := by
  obtain ⟨w', next⟩ := x
  have hcovers := h.covers
  have hheld : w'.held = w.held := h.held
  have hbatches : w'.batches = w.batches := by rw [batches, ht, batches]
  have hdeals : w'.deals = w.deals := by rw [deals, ht, deals]
  rw [← hheld, ← hbatches, ← hdeals] at hcovers
  have hstay : ∀ s : TaskState, l.Covers w'.resources (acquiredBy s ++ (w'.held ++ w'.batches))
      ((pinsOf s).toList ++ w'.deals) → Accounts l { w' with tasks := w'.tasks ++ [(k, s)] } := by
    intro s hs
    have hb : batches { w' with tasks := w'.tasks ++ [(k, s)] } = w'.batches ++ acquiredBy s := by
      simp [batches]
    have hd : deals { w' with tasks := w'.tasks ++ [(k, s)] } =
        w'.deals ++ (pinsOf s).toList := by
      rw [deals, List.filterMap_append, deals]
      cases hp : pinsOf s <;> simp [hp]
    rw [Accounts, hb, hd]
    refine hs.perm ?_ List.perm_append_comm
    exact List.perm_append_comm.trans (.of_eq (List.append_assoc _ _ _))
  cases next with
  | waits s | passes s => exact hstay s hcovers
  | ends o =>
    have ho : held { w' with outcomes := w'.outcomes ++ [(k, o)] } =
        w'.held ++ Outcome.connections o := by
      simp [World.held]
    have hends : l.Covers w'.resources (w'.held ++ Outcome.connections o ++ w'.batches) w'.deals := by
      refine hcovers.perm ?_ (.refl _)
      rw [List.append_assoc]
      exact List.perm_append_comm_assoc _ _ _
    rwa [← ho] at hends
  | crashes => exact hcovers

/-- The handles of one task, apart from those of the others. -/
theorem without (h : Accounts l w) (hn : (w.tasks.map (·.1)).Nodup) {s : TaskState}
    (hs : w.tasks.lookup k = some s) :
    l.Covers (w.without k).resources (acquiredBy s ++ ((w.without k).held ++ (w.without k).batches))
      ((pinsOf s).toList ++ (w.without k).deals) := by
  have hperm := perm_of_lookup hn hs
  refine Ledger.Covers.perm h ?_ ?_
  · have hbatches : w.batches.Perm (acquiredBy s ++ (w.without k).batches) := hperm.flatMap_right _
    exact (hbatches.append_left w.held).trans (List.perm_append_comm_assoc _ _ _)
  · have hdeals := hperm.filterMap fun e => pinsOf e.2
    rw [List.filterMap_cons] at hdeals
    cases hp : pinsOf s <;> simpa [deals, World.without, hp] using hdeals

theorem withdraw {s : TaskState} (h : l.Covers w.resources (acquiredBy s ++ (w.held ++ w.batches))
    ((pinsOf s).toList ++ w.deals)) (hknown : ∀ t, pinsOf s = some t → w.resources.mutex? t ≠ none) :
    Accounts (l.posts (withdrawReferences s)) (w.withdraw k s) := by
  obtain ⟨_, htable, hcontents, hheld, htasks⟩ := Alike.withdraw w k s
  rw [Accounts, withdrawReferences, Ledger.posts_append, hheld, batches, deals, htasks]
  refine Ledger.Covers.of_eq ?_ htable hcontents
  have hdropped := h.drops
  cases hp : pinsOf s with
  | none =>
    rw [hp] at hdropped
    exact hdropped
  | some t =>
    rw [hp] at hdropped
    exact hdropped.leave (hknown t hp)

theorem goOn (h : Accounts l w) (ho : w.Ordered H C O) (k : TaskId) :
    Accounts (l.posts (w.references (.move (.goOn k)))) (w.move (.goOn k)) := by
  simp only [World.move, references]
  cases hs : w.tasks.lookup k with
  | none => exact h
  | some s =>
    by_cases hgo : w.mayGoOn k s = true
    · have haffine := ho.affine.congr (mem_roles_without ho.tended.nodup hs)
      have hlands := Lands.advance (w := w.without k) haffine Sound.ne_of_mem_without hgo
      simp only [hgo, if_true]
      exact put (Covered.advance (w := w.without k) (h.without ho.tended.nodup hs) haffine)
        hlands.tasks
    · simpa [hgo] using h

/-- What the pins of a task are queued for is known. -/
theorem known_of_pinsOf (ho : w.Ordered H C O) {s : TaskState} (hmem : (k, s) ∈ w.tasks)
    {t : TransactionId} (ht : pinsOf s = some t) : w.resources.mutex? t ≠ none := by
  obtain ⟨ρ, hρ, rfl⟩ := role_of_pinsOf ht
  exact ho.affine.queued.known (k, ρ) (mem_roles_iff.2 ⟨s, hmem, hρ⟩)

theorem cancel (h : Accounts l w) (ho : w.Ordered H C O) (k : TaskId) :
    Accounts (l.posts (w.references (.move (.cancel k)))) (w.move (.cancel k)) := by
  simp only [World.move, references]
  cases hs : w.tasks.lookup k with
  | none => exact h
  | some s =>
    have hmem := (lookup_some_iff ho.tended.nodup k s).1 hs
    exact withdraw (h.without ho.tended.nodup hs) fun t ht => known_of_pinsOf ho hmem ht

theorem beginTransaction (h : Accounts l w) (ho : w.Ordered H C O) (m : ManagerId) :
    Accounts (l.posts (w.references (.move (.beginTransaction m))))
      (w.move (.beginTransaction m)) := by
  simp only [World.move, references]
  obtain ⟨⟨r, result⟩, hb⟩ : ∃ y, w.resources.beginTransaction m = y := ⟨_, rfl⟩
  rw [hb]
  cases result with
  | error e => exact Resources.beginTransaction_error hb ▸ h
  | ok t =>
    -- No task can be dealing with it: what a task deals with has a mutex, and this one had none.
    refine Ledger.Covers.beginTransaction h hb ho.affine.queued fun hmem => ?_
    obtain ⟨e, he, hp⟩ := List.mem_filterMap.1 hmem
    exact known_of_pinsOf ho he hp (Resources.begins_of_ok hb).new

theorem move (h : Accounts l w) (ho : w.Ordered H C O) (m : Move) :
    Accounts (l.posts (w.references (.move m))) (w.move m) := by
  cases m with
  | start call =>
    have hk : ∀ e ∈ w.tasks, e.1 ≠ w.started := fun e he => Nat.ne_of_lt (ho.tended.started e he)
    have hlands := Lands.begin (w := { w with started := w.started + 1 }) ho.affine hk call
    exact put (w := { w with started := w.started + 1 })
      (Covered.begin (w := { w with started := w.started + 1 }) h ho.affine call) hlands.tasks
  | goOn k => exact h.goOn ho k
  | cancel k => exact h.cancel ho k
  | beginTransaction m => exact h.beginTransaction ho m
  | surround _ _ _ => exact h
  | tune p gate refused => exact Ledger.Covers.of_eq h rfl rfl
  | collect outcomes holds =>
    simp only [World.move, references, Ledger.posts_append]
    refine Ledger.Covers.drops ((Ledger.Covers.takes h _).perm ?_ (.refl _))
    exact List.perm_append_comm_assoc _ _ _

theorem act (h : Accounts l w) (ho : w.Ordered H C O) (a : Action) :
    Accounts (l.posts (w.references a)) (w.act a) := by
  have hsame {r : Resources} (ht : r.table = w.resources.table)
      (hc : r.contents = w.resources.contents) : Accounts l (w.owning r) :=
    Ledger.Covers.of_eq h ht hc
  cases a with
  | move m => exact h.move ho m
  | startManager kind pools =>
    have htables : (w.resources.addManager kind pools).1.tables = w.resources.tables := by
      simp [Resources.addManager, Resources.tables]
    refine ⟨?_, htables ▸ h.nodup⟩
    have hbalances := h.balances
    rw [← htables] at hbalances
    exact hbalances
  | closeManager m => exact Ledger.Covers.departs h (.closeManager _ m) ho.affine.queued
  | addPool name p =>
    refine hsame ?_ (Resources.contents_of_pins ?_) <;>
      · simp only [Resources.addPool]
        split <;> rfl
  | closePool p => exact hsame rfl rfl

end Accounts

/-! ### Runs -/

theorem ledger_snoc (as : List Action) (a : Action) : ledger (as ++ [a]) =
    (ledger as).posts (if (after as).crashed then [] else (after as).references a) := by
  rw [ledger, trail_append, ← after, Ledger.posts_append]
  simp [trail, ledger]

theorem accounts_after (as : List Action) : Accounts (ledger as) (after as) := by
  induction as using List.reverseRecOn with
  | nil => exact .start 3
  | append_singleton as a ih =>
    rw [ledger_snoc, after_snoc]
    by_cases hc : (after as).crashed = true
    · simpa [hc] using ih
    · simpa [hc] using ih.act (ordered_after as) a

/-- A connection has a handle as long as somebody can reach it. -/
theorem counts_pos_iff {l : Ledger} {w : World} (h : Accounts l w) (c : Connection) :
    0 < l.counts c ↔ c ∈ w.connections := by
  have hpins : (∃ x ∈ l.maps, c ∈ x.contents) ↔ ∃ t ∈ w.reachable, c ∈ w.pinnedTo t := by
    constructor
    · rintro ⟨x, hx, hc⟩
      obtain ⟨i, hi⟩ := List.mem_iff_getElem?.1 hx
      have hcontents := h.balances.contents ⟨i⟩ x hi
      rw [hcontents] at hc
      split at hc
      · rename_i hmem
        exact ⟨⟨i⟩, hmem, hc⟩
      · cases hc
    · rintro ⟨t, ht, hc⟩
      have hlt : t.serial < w.resources.pins.length := by
        refine Nat.lt_of_not_le fun hle => ?_
        simp [pinnedTo, List.getElem?_eq_none hle] at hc
      obtain ⟨x, hx⟩ := h.balances.map? hlt
      have ht : t ∈ w.resources.tables ++ w.deals := ht
      have hcontents := h.balances.contents t x hx
      rw [if_pos ht] at hcontents
      exact ⟨x, List.mem_of_getElem? hx, hcontents ▸ hc⟩
  rw [h.balances.counts, List.count_pos_iff]
  simp only [connections, List.mem_eraseDups, List.mem_append, List.mem_flatMap, hpins, held, batches]

theorem nodup_eraseDups (cs : List Connection) : cs.eraseDups.Nodup := by
  cases cs with
  | nil => simp
  | cons c cs =>
    rw [List.eraseDups_cons, List.nodup_cons]
    exact ⟨by simp, nodup_eraseDups _⟩
termination_by cs.length
decreasing_by exact Nat.lt_succ_of_le (List.length_filter_le _ cs)

/-- The pools count as live what can be reached. -/
theorem live_ledger (as : List Action) (p : PoolId) : (ledger as).live p = (after as).live p := by
  obtain ⟨s, hs, hlive⟩ := Ledger.Tallies.start.posts (trail (fun w a => if w.crashed then w else w.act a)
    (fun w a => if w.crashed then [] else w.references a) ({} : World) as)
  have hfilter : s.filter (·.pool = p) =
      ((after as).connections.filter (·.pool = p)).toFinset := by
    ext c
    have hc := hs c
    have hiff := counts_pos_iff (accounts_after as) c
    rw [ledger] at hiff
    simp [hc, hiff]
  have hnodup : ((after as).connections.filter (·.pool = p)).Nodup :=
    (nodup_eraseDups _).filter _
  rw [ledger, hlive, hfilter, List.toFinset_card_of_nodup hnodup, live]

end World

end ShardRegistry
