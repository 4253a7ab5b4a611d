import ShardRegistry.Proofs.Accounts

/-! Forgetting a transaction. Once a transaction is not open any more, it makes no difference whether a
request names it: with it and without it, the same tasks wait at the same places, ask the same pools, and
reply the same. -/
namespace ShardRegistry

/-- The request without its transaction, if that is the one to forget. -/
def AcquireRequest.forget (t : TransactionId) (q : AcquireRequest) : AcquireRequest :=
  if q.transaction = some t then { q with transaction := none } else q

def Call.forget (t : TransactionId) : Call → Call
  | .acquire q => .acquire (q.forget t)
  | call => call

def Move.forget (t : TransactionId) : Move → Move
  | .start call => .start (call.forget t)
  | m => m

/-- The same batch, or one that asks the pool at once which the batch asks when the transaction is not
open. -/
inductive Acquisition.Forgets (t : TransactionId) (a : Acquisition) : Acquisition → Prop where
  | same : Forgets t a a
  | pool {m : ManagerId} {p : PoolId} (h : a.source = .transaction m t (some p)) :
      Forgets t a { a with source := .pool p }

/-- The same place, or one of such a batch outside the transaction. -/
inductive TaskState.Forgets (t : TransactionId) : TaskState → TaskState → Prop where
  | same (s : TaskState) : Forgets t s s
  | lock {q q' : AcquireRequest} {a a' : Acquisition} (l : LockId) (hs : q'.schema = q.schema)
      (hb : q'.backend = q.backend) (ha : a.Forgets t a') : Forgets t (.lock q l a) (.lock q' l a')
  | gate {a a' : Acquisition} (held : Option LockId) (p : PoolId) (n : Nat) (ha : a.Forgets t a') :
      Forgets t (.acquiring held (.gate p n none) a) (.acquiring held (.gate p n none) a')

inductive Progress.Forgets (t : TransactionId) : Progress → Progress → Prop where
  | same (x : Progress) : Forgets t x x
  | waits {a a' : Acquisition} (p : PoolId) (n : Nat) (ha : a.Forgets t a') :
      Forgets t (.waits (.gate p n none) a) (.waits (.gate p n none) a')
  | passes {a a' : Acquisition} (p : PoolId) (n : Nat) (ha : a.Forgets t a') :
      Forgets t (.passes (.gate p n none) a) (.passes (.gate p n none) a')

inductive Next.Forgets (t : TransactionId) : Next → Next → Prop where
  | same (next : Next) : Forgets t next next
  | waits {s s' : TaskState} (hs : s.Forgets t s') : Forgets t (.waits s) (.waits s')
  | passes {s s' : TaskState} (hs : s.Forgets t s') : Forgets t (.passes s) (.passes s')

variable {t : TransactionId}

/-! ### Batches -/

namespace Acquisition
variable {a a' : Acquisition} {r : Resources} {k : TaskId}

theorem Forgets.count (h : a.Forgets t a') : a'.count = a.count := by
  cases h <;> rfl

theorem Forgets.acquired (h : a.Forgets t a') : a'.acquired = a.acquired := by
  cases h <;> rfl

theorem Forgets.failure (h : a.Forgets t a') (e : Error) : a'.failure e = a.failure e := by
  rw [Acquisition.failure, h.count, h.acquired, Acquisition.failure]

theorem Forgets.extend (h : a.Forgets t a') (cs : List Connection) :
    Forgets t { a with acquired := cs } { a' with acquired := cs } := by
  cases h with
  | same => exact .same
  | pool h => exact .pool h

theorem Forgets.askPool (h : a.Forgets t a') (p : PoolId) :
    (a'.askPool r k p none).1 = (a.askPool r k p none).1 ∧
      Progress.Forgets t (a.askPool r k p none).2 (a'.askPool r k p none).2 := by
  simp only [Acquisition.askPool]
  split
  · exact ⟨rfl, .passes p _ h⟩
  · exact ⟨rfl, .waits p _ h⟩

theorem Forgets.ask (h : a.Forgets t a') (ht : ¬ r.Open t) :
    (a'.ask r k).1 = (a.ask r k).1 ∧ Progress.Forgets t (a.ask r k).2 (a'.ask r k).2 := by
  cases h with
  | same => exact ⟨rfl, .same _⟩
  | @pool m p hsource =>
    have hinactive : r.isActive m t = false := by
      cases hm : r.isActive m t with
      | false => rfl
      | true => exact absurd ⟨m, hm⟩ ht
    simp only [Acquisition.ask, hsource]
    split
    · exact ⟨rfl, .same _⟩
    · simp only [hinactive, Bool.false_eq_true, if_false]
      exact (Forgets.pool hsource).askPool p

theorem Forgets.start (h : a.Forgets t a') (ht : ¬ r.Open t) :
    (a'.start r k).1 = (a.start r k).1 ∧ Progress.Forgets t (a.start r k).2 (a'.start r k).2 := by
  simp only [Acquisition.start, h.count]
  split
  · exact ⟨rfl, .same _⟩
  · exact h.ask ht

theorem Forgets.afterGate (h : a.Forgets t a') (ht : ¬ r.Open t) (server : Option Server) (p : PoolId)
    (n : Nat) : (a'.afterGate r server k p n none).1 = (a.afterGate r server k p n none).1 ∧
      Progress.Forgets t (a.afterGate r server k p n none).2 (a'.afterGate r server k p n none).2 := by
  obtain ⟨_, hmanagers⟩ := World.leavePool_pins r server p n
  simp only [Acquisition.afterGate]
  split <;> rename_i heq <;> rw [heq] at hmanagers
  · exact ⟨rfl, h.failure _ ▸ .same _⟩
  · simp only [Acquisition.obtain, h.acquired]
    refine (h.extend _).ask ?_
    rintro ⟨m, hm⟩
    rw [Resources.isActive_of_managers hmanagers] at hm
    exact ht ⟨m, hm⟩

end Acquisition

namespace World
variable {w w' : World} {k : TaskId}

/-! ### Other tasks -/

/-- The world with other tasks. -/
def having (w : World) (tasks : List (TaskId × TaskState)) : World := { w with tasks }

/-- Among other tasks a part of a task does the same, and it leaves those to themselves. -/
structure Parallel (es ts : List (TaskId × TaskState)) (x x' : World × Next) : Prop where
  tasks : x.1.tasks = es
  world : x'.1 = x.1.having ts
  next : x'.2 = x.2

section
variable (ts : List (TaskId × TaskState))

theorem releaseHeld_having (w : World) (held : Option LockId) :
    (w.having ts).releaseHeld held = (w.releaseHeld held).having ts := by
  cases held with
  | none => rfl
  | some l =>
    simp only [releaseHeld, releaseLock, resources, having]
    split <;> rfl

theorem acquired_having (w : World) (held : Option LockId) (y : Resources × Progress) :
    Parallel w.tasks ts (w.acquired held y) ((w.having ts).acquired held y) := by
  refine ⟨(Retires.acquired w held y).tasks, ?_, ?_⟩ <;>
    obtain ⟨r, progress⟩ := y <;> cases progress with
    | waits stage a | passes stage a => rfl
    | done outcome =>
      cases outcome with
      | ok cs => first | rfl | exact releaseHeld_having ts (w.owning r) held
      | error stop =>
        cases stop <;> first | rfl | exact releaseHeld_having ts (w.owning r) held

theorem changed_having (w : World) (y : Registry × Step) :
    Parallel w.tasks ts (w.changed y) ((w.having ts).changed y) := by
  obtain ⟨g, step⟩ := y
  cases step with
  | load purpose pending => exact ⟨rfl, rfl, rfl⟩
  | done outcome =>
    cases outcome with
    | ok n => exact ⟨rfl, rfl, rfl⟩
    | error stop => cases stop <;> exact ⟨rfl, rfl, rfl⟩

theorem withdraw_having (w : World) (k : TaskId) (s : TaskState) :
    (w.having ts).withdraw k s = (w.withdraw k s).having ts := by
  cases s with
  | lock q l a =>
    have hlock : (w.having ts).holdsLock l k = w.holdsLock l k := rfl
    simp only [withdraw, hlock]
    split
    · exact releaseHeld_having ts w (some l)
    · rfl
  | acquiring held stage a =>
    cases stage with
    | pins t' => exact releaseHeld_having ts (w.owning _) held
    | gate p n o => exact releaseHeld_having ts (w.owning _) held
  | settling t' => rfl
  | turn change =>
    have hwriter : (w.having ts).writer = w.writer := rfl
    simp only [withdraw, hwriter]
    split <;> rfl
  | loading purpose pending query => cases query <;> rfl

end

/-! ### Tasks that forget -/

/-- The tasks of two worlds in which the transaction is named and forgotten. -/
def ForgetsAll (t : TransactionId) : List (TaskId × TaskState) → List (TaskId × TaskState) → Prop :=
  List.Forall₂ fun e e' => e'.1 = e.1 ∧ e.2.Forgets t e'.2

section
variable {ts : List (TaskId × TaskState)}

theorem ForgetsAll.live (h : ForgetsAll t w.tasks ts) : (w.having ts).live = w.live := by
  have hpoint {s s' : TaskState} (hs : s.Forgets t s') :
      acquiredBy s' = acquiredBy s ∧ pinsOf s' = pinsOf s := by
    cases hs with
    | same => exact ⟨rfl, rfl⟩
    | lock _ _ _ ha => exact ⟨ha.acquired, rfl⟩
    | gate _ _ _ ha => exact ⟨ha.acquired, rfl⟩
  have hlists : (ts.flatMap fun e => acquiredBy e.2) = (w.tasks.flatMap fun e => acquiredBy e.2) ∧
      (ts.filterMap fun e => pinsOf e.2) = w.tasks.filterMap fun e => pinsOf e.2 := by
    generalize w.tasks = es at h
    induction h with
    | nil => exact ⟨rfl, rfl⟩
    | cons he _ ih =>
      obtain ⟨hacquired, hpins⟩ := hpoint he.2
      simp [List.filterMap_cons, hacquired, hpins, ih]
  have hreachable : (w.having ts).reachable = w.reachable := by
    rw [reachable, reachable, having, hlists.2]
    rfl
  have hconnections : (w.having ts).connections = w.connections := by
    rw [connections, connections, hreachable, having, hlists.1]
    rfl
  funext p
  rw [World.live, World.live, hconnections]

theorem loaded_having (h : ForgetsAll t w.tasks ts) (purpose : Purpose) (pending : PendingSchema)
    (tables : Except Error (SortedMap Tables)) :
    Parallel w.tasks ts (w.loaded purpose pending tables) ((w.having ts).loaded purpose pending tables) := by
  have henvironment : (w.having ts).environment = w.environment :=
    congrArg (Environment.mk w.factory · w.driver) h.live
  simp only [World.loaded, henvironment]
  exact changed_having ts w _

theorem askBackend_having (h : ForgetsAll t w.tasks ts) (k : TaskId) (purpose : Purpose)
    (pending : PendingSchema) (tables : SortedMap Tables) (rest : List (String × DataSource)) :
    Parallel w.tasks ts (w.askBackend k purpose pending tables rest)
      ((w.having ts).askBackend k purpose pending tables rest) := by
  cases rest with
  | nil => exact loaded_having h purpose pending _
  | cons e rest => exact ⟨rfl, rfl, rfl⟩

theorem advance_having (h : ForgetsAll t w.tasks ts) (k : TaskId) (s : TaskState) :
    Parallel w.tasks ts (w.advance k s) ((w.having ts).advance k s) := by
  cases s with
  | lock q l a =>
    have hcurrent : (w.having ts).registry = w.registry := rfl
    simp only [World.advance, afterLock, hcurrent]
    split
    · have hreleased := releaseHeld_having ts
        { w with registry := w.registry.dropLock q.schema q.backend l } (some l)
      exact ⟨(Retires.releaseHeld _ (some l)).tasks, hreleased, rfl⟩
    · exact acquired_having ts w (some l) _
  | acquiring held stage a => exact acquired_having ts w held _
  | settling t' => exact ⟨rfl, rfl, rfl⟩
  | turn change =>
    have henvironment : (w.having ts).environment = w.environment :=
      congrArg (Environment.mk w.factory · w.driver) h.live
    simp only [World.advance, henvironment]
    exact changed_having ts w _
  | loading purpose pending query =>
    cases query with
    | none =>
      have htables : (w.having ts).tables = w.tables := rfl
      simp only [World.advance, World.load, htables]
      split
      · exact loaded_having h purpose pending _
      · split
        · exact askBackend_having h k purpose pending _ _
        · exact loaded_having h purpose pending _
    | some q =>
      have hleft : (w.having ts).owning ((w.having ts).resources.leavePool (w.having ts).server q.pool
          q.attempt).1 = (w.owning (w.resources.leavePool w.server q.pool q.attempt).1).having ts := rfl
      have hanswer : ((w.having ts).resources.leavePool (w.having ts).server q.pool q.attempt).2 =
          (w.resources.leavePool w.server q.pool q.attempt).2 := rfl
      have hserver (r : Resources) : ((w.owning r).having ts).server = (w.owning r).server := rfl
      simp only [World.advance, World.afterQuery, hleft, hanswer, hserver]
      generalize (w.resources.leavePool w.server q.pool q.attempt).1 = r
      split
      · exact loaded_having (w := w.owning r) h purpose pending _
      · exact askBackend_having (w := w.owning r) h k purpose pending _ _

end

/-! ### Moves -/

/-- The worlds differ in nothing but tasks that name the transaction and that have forgotten it. -/
structure Forgets (t : TransactionId) (w w' : World) : Prop where
  same : w' = w.having w'.tasks
  tasks : ForgetsAll t w.tasks w'.tasks

/-- So do they after a part of a task, which stands at such places. -/
structure Forgotten (t : TransactionId) (x x' : World × Next) : Prop where
  world : x.1.Forgets t x'.1
  next : x.2.Forgets t x'.2

section
variable {ts : List (TaskId × TaskState)}

theorem Parallel.forgotten {x x' : World × Next} (h : Parallel w.tasks ts x x')
    (hts : ForgetsAll t w.tasks ts) : Forgotten t x x' := by
  have htasks : x'.1.tasks = ts := congrArg World.tasks h.world
  refine ⟨⟨htasks.symm ▸ h.world, ?_⟩, h.next ▸ .same _⟩
  rw [htasks, h.tasks]
  exact hts

theorem acquired_forgotten (h : ForgetsAll t w.tasks ts) (held : Option LockId)
    {y y' : Resources × Progress} (hr : y'.1 = y.1) (hy : y.2.Forgets t y'.2) :
    Forgotten t (w.acquired held y) ((w.having ts).acquired held y') := by
  obtain ⟨r, progress⟩ := y
  obtain ⟨r', progress'⟩ := y'
  obtain rfl : r' = r := hr
  cases hy with
  | same => exact (acquired_having ts w held _).forgotten h
  | waits p n ha => exact ⟨⟨rfl, h⟩, .waits (.gate held p n ha)⟩
  | passes p n ha => exact ⟨⟨rfl, h⟩, .passes (.gate held p n ha)⟩

theorem advance_forgotten (h : ForgetsAll t w.tasks ts) {s s' : TaskState} (hs : s.Forgets t s')
    (ht : ¬ w.resources.Open t) : Forgotten t (w.advance k s) ((w.having ts).advance k s') := by
  cases hs with
  | same => exact (advance_having h k s).forgotten h
  | @lock q q' a a' l hschema hbackend ha =>
    have hregistry : (w.having ts).registry = w.registry := rfl
    simp only [World.advance, afterLock, hregistry, hschema, hbackend]
    split
    · have hreleased := releaseHeld_having ts
        { w with registry := w.registry.dropLock q.schema q.backend l } (some l)
      exact Parallel.forgotten ⟨(Retires.releaseHeld _ (some l)).tasks, hreleased, rfl⟩ h
    · obtain ⟨hr, hy⟩ := ha.start (k := k) ht
      exact acquired_forgotten h (some l) hr hy
  | gate held p n ha =>
    obtain ⟨hr, hy⟩ := ha.afterGate (k := k) ht w.server p n
    exact acquired_forgotten h held hr hy

end

end World

theorem AcquireRequest.forget_eq (t : TransactionId) (q : AcquireRequest) :
    (q.forget t).schema = q.schema ∧ (q.forget t).backend = q.backend ∧
      (q.forget t).count = q.count ∧ (q.forget t).mode = q.mode := by
  simp only [forget]
  split <;> exact ⟨rfl, rfl, rfl, rfl⟩

/-- With and without the transaction a request is refused, or comes to batches of one pool. -/
theorem Registry.admit_forget (g : Registry) (q : AcquireRequest) :
    (∃ e, g.admit q = .error e ∧ g.admit (q.forget t) = .error e) ∨
      ∃ a a', g.admit q = .ok a ∧ g.admit (q.forget t) = .ok a' ∧ a.Forgets t a' := by
  by_cases hq : q.transaction = some t
  · simp only [AcquireRequest.forget, hq, if_true, Registry.admit]
    cases hresolve : resolve g.current q.schema q.backend with
    | error e => exact .inl ⟨e, rfl, rfl⟩
    | ok x =>
      obtain ⟨c, p⟩ := x
      refine .inr ?_
      cases hm : g.managerOf? c q.kind with
      | none => exact ⟨_, _, rfl, rfl, by simp only [hm]; exact .same⟩
      | some m => exact ⟨_, _, rfl, rfl, by simp only [hm]; exact .pool rfl⟩
  · rw [AcquireRequest.forget, if_neg hq]
    cases hadmitted : g.admit q with
    | error e => exact .inl ⟨e, rfl, rfl⟩
    | ok a => exact .inr ⟨a, a, rfl, rfl, .same⟩

namespace World
variable {w w' : World} {k : TaskId} {ts : List (TaskId × TaskState)}

theorem begin_forgotten (h : ForgetsAll t w.tasks ts) (ht : ¬ w.resources.Open t) (call : Call) :
    Forgotten t (w.begin k call) ((w.having ts).begin k (call.forget t)) := by
  cases call with
  | acquire q =>
    obtain ⟨hschema, hbackend, hcount, hmode⟩ := q.forget_eq t
    have hregistry : (w.having ts).registry = w.registry := rfl
    simp only [World.begin, Call.forget, beginAcquire, hregistry, hschema, hbackend, hcount, hmode]
    rcases w.registry.admit_forget (t := t) q with ⟨e, hq, hq'⟩ | ⟨a, a', hq, hq', ha⟩
    · simp only [hq, hq']
      exact ⟨⟨rfl, h⟩, .same _⟩
    · simp only [hq, hq']
      split
      · exact ⟨⟨rfl, h⟩, .same _⟩
      · split
        · obtain ⟨hr, hy⟩ := ha.start (k := k) ht
          exact acquired_forgotten h none hr hy
        · have hlock (l : LockId) (b : Bool) : Next.Forgets t
              (if b then .passes (.lock q l a) else .waits (.lock q l a))
              (if b then .passes (.lock (q.forget t) l a') else .waits (.lock (q.forget t) l a')) := by
            cases b
            · exact .waits (.lock l hschema hbackend ha)
            · exact .passes (.lock l hschema hbackend ha)
          exact ⟨⟨rfl, h⟩, hlock _ _⟩
  | event e =>
    simp only [World.begin, Call.forget, beginEvent]
    split <;> exact ⟨⟨rfl, h⟩, .same _⟩
  | close => exact ⟨⟨rfl, h⟩, .same _⟩
  | pinned m t' backend => exact (acquired_having ts w none _).forgotten h
  | settle m t' =>
    have hresources : (w.having ts).resources = w.resources := rfl
    simp only [World.begin, Call.forget, beginSettle, hresources]
    split <;> exact ⟨⟨rfl, h⟩, .same _⟩

theorem Forgotten.put {x x' : World × Next} (h : Forgotten t x x') (k : TaskId) :
    (World.put k x).Forgets t (World.put k x') ∧ x'.2.outcome? = x.2.outcome? := by
  obtain ⟨w, next⟩ := x
  obtain ⟨w', next'⟩ := x'
  obtain ⟨⟨hsame, htasks⟩, hnext⟩ := h
  generalize hts : w'.tasks = ts at hsame htasks
  have hstands {s s' : TaskState} (hs : s.Forgets t s') :
      ForgetsAll t (w.tasks ++ [(k, s)]) (ts ++ [(k, s')]) :=
    List.rel_append htasks (.cons ⟨rfl, hs⟩ .nil)
  obtain rfl : w' = w.having ts := hsame
  cases hnext with
  | same next =>
    refine ⟨?_, rfl⟩
    cases next with
    | waits s | passes s => exact ⟨rfl, hstands (.same s)⟩
    | ends _ | crashes => exact ⟨rfl, htasks⟩
  | waits hs | passes hs => exact ⟨⟨rfl, hstands hs⟩, rfl⟩

/-- A task of the one world is in the other one, at such a place. -/
theorem ForgetsAll.lookup {es : List (TaskId × TaskState)} (h : ForgetsAll t es ts) (k : TaskId) :
    (es.lookup k = none ∧ ts.lookup k = none) ∨
      ∃ s s', es.lookup k = some s ∧ ts.lookup k = some s' ∧ s.Forgets t s' := by
  induction h with
  | nil => exact .inl ⟨rfl, rfl⟩
  | @cons e e' es es' he _ ih =>
    obtain ⟨i, s⟩ := e
    obtain ⟨j, s'⟩ := e'
    obtain ⟨rfl, hs⟩ := he
    by_cases hk : k = j
    · exact .inr ⟨s, s', by simp [hk], by simp [hk], hs⟩
    · have hbeq : (k == j) = false := by simpa using hk
      simpa [List.lookup_cons, hbeq] using ih

theorem ForgetsAll.without {es : List (TaskId × TaskState)} (h : ForgetsAll t es ts) (k : TaskId) :
    ForgetsAll t (es.filter (·.1 ≠ k)) (ts.filter (·.1 ≠ k)) := by
  induction h with
  | nil => exact .nil
  | @cons e e' es es' he _ ih =>
    by_cases hk : e.1 = k
    · rw [List.filter_cons_of_neg (by simpa using hk),
        List.filter_cons_of_neg (by simpa [he.1] using hk)]
      exact ih
    · rw [List.filter_cons_of_pos (by simpa using hk),
        List.filter_cons_of_pos (by simpa [he.1] using hk)]
      exact .cons he ih

theorem mayGoOn_forgets {s s' : TaskState} (hs : s.Forgets t s') :
    (w.having ts).mayGoOn k s' = w.mayGoOn k s := by
  cases hs with
  | same => cases s <;> rfl
  | lock _ _ _ _ | gate _ _ _ _ => rfl

theorem withdraw_forgets (h : ForgetsAll t w.tasks ts) {s s' : TaskState} (hs : s.Forgets t s') :
    (w.withdraw k s).Forgets t ((w.having ts).withdraw k s') := by
  have htasks : (w.withdraw k s).tasks = w.tasks := (Alike.withdraw w k s).tasks
  have hsame : (w.having ts).withdraw k s' = (w.withdraw k s).having ts := by
    rw [← withdraw_having]
    cases hs <;> rfl
  rw [hsame]
  refine ⟨rfl, ?_⟩
  rw [htasks]
  exact h

/-- Forgetting the transaction, the worlds run the same parts. -/
theorem part_forgets (h : ForgetsAll t w.tasks ts) (ht : ¬ w.resources.Open t) (m : Move) :
    (w.part? m = none ∧ (w.having ts).part? (m.forget t) = none) ∨
      ∃ k x x', w.part? m = some (k, x) ∧ (w.having ts).part? (m.forget t) = some (k, x') ∧
        Forgotten t x x' := by
  cases m with
  | start call =>
    exact .inr ⟨w.started, _, _, rfl, rfl,
      begin_forgotten (w := { w with started := w.started + 1 }) h ht call⟩
  | goOn k =>
    rcases h.lookup k with ⟨hnone, hnone'⟩ | ⟨s, s', hs, hs', hforgets⟩
    · exact .inl ⟨by simp [part?, hnone], by simp [part?, Move.forget, having, hnone']⟩
    · have hlookup : (w.having ts).tasks.lookup k = some s' := hs'
      have hgo : (w.having ts).mayGoOn k s' = w.mayGoOn k s := mayGoOn_forgets hforgets
      cases hmay : w.mayGoOn k s with
      | false =>
        rw [hmay] at hgo
        exact .inl ⟨by simp [part?, hs, hmay], by simp [part?, Move.forget, hlookup, hgo]⟩
      | true =>
        rw [hmay] at hgo
        exact .inr ⟨k, _, _, part_of_goOn hs hmay, part_of_goOn hlookup hgo,
          advance_forgotten (w := w.without k) (h.without k) hforgets ht⟩
  | cancel _ | beginTransaction _ | surround _ _ _ | tune _ _ _ | collect _ _ =>
    exact .inl ⟨rfl, rfl⟩

theorem goOn_of_part_none (hpart : w.part? (.goOn k) = none) : w.move (.goOn k) = w := by
  simp only [World.move]
  split
  · rfl
  · rename_i s hs
    split
    · rename_i hgo
      rw [part_of_goOn hs hgo] at hpart
      cases hpart
    · rfl

/-- They move on alike. -/
theorem Forgets.move (h : w.Forgets t w') (ht : ¬ w.resources.Open t) (m : Move) :
    (w.move m).Forgets t (w'.move (m.forget t)) ∧ w'.reply? (m.forget t) = w.reply? m := by
  obtain ⟨hsame, htasks⟩ := h
  generalize w'.tasks = ts at hsame htasks
  obtain rfl : w' = w.having ts := hsame
  rcases part_forgets htasks ht m with ⟨hpart, hpart'⟩ | ⟨k, x, x', hpart, hpart', hx⟩
  · refine ⟨?_, by rw [reply?, hpart', reply?, hpart]⟩
    cases m with
    | start call => cases hpart
    | goOn k =>
      have hstill : (w.having ts).move ((Move.goOn k).forget t) = w.having ts :=
        goOn_of_part_none hpart'
      rw [goOn_of_part_none hpart, hstill]
      exact ⟨rfl, htasks⟩
    | cancel k =>
      simp only [World.move, Move.forget]
      rcases htasks.lookup k with ⟨hnone, hnone'⟩ | ⟨s, s', hs, hs', hforgets⟩
      · have hnone' : (w.having ts).tasks.lookup k = none := hnone'
        simp only [hnone, hnone']
        exact ⟨rfl, htasks⟩
      · have hs' : (w.having ts).tasks.lookup k = some s' := hs'
        simp only [hs, hs']
        exact withdraw_forgets (w := w.without k) (htasks.without k) hforgets
    | beginTransaction _ | surround _ _ _ | tune _ _ _ | collect _ _ => exact ⟨rfl, htasks⟩
  · obtain ⟨hput, houtcome⟩ := hx.put k
    refine ⟨?_, ?_⟩
    · rw [move_of_part hpart, move_of_part hpart']
      exact hput
    · rw [reply?, hpart', reply?, hpart]
      simp [houtcome]

/-! ### Runs -/

/-- Once a transaction is not open any more, all comes to the same without naming it. -/
theorem Ordered.forgets {H : List Delivery} {C : List (TaskId × Call)} {O : List (TaskId × Outcome)}
    (ho : w.Ordered H C O) (hknown : w.resources.mutex? t ≠ none) (ht : ¬ w.resources.Open t)
    (ms : List Move) : (w.play ms).Forgets t (w.play (ms.map (Move.forget t))) ∧
      replies w (ms.map (Move.forget t)) = replies w ms := by
  suffices hsuffices : ∀ w', w.Forgets t w' → (w.play ms).Forgets t (w'.play (ms.map (Move.forget t))) ∧
      replies w' (ms.map (Move.forget t)) = replies w ms by
    refine hsuffices w ⟨rfl, ?_⟩
    exact List.forall₂_same.2 fun e _ => ⟨rfl, .same e.2⟩
  induction ms generalizing w H C O with
  | nil => exact fun w' h => ⟨h, rfl⟩
  | cons m ms ih =>
    intro w' h
    have hcrashed : w'.crashed = w.crashed := Eq.trans (congrArg World.crashed h.same) rfl
    have hreplies (w : World) (m : Move) (ms : List Move) : replies w (m :: ms) =
        (if w.crashed then [] else (w.reply? m).toList) ++ replies (w.tick m) ms := rfl
    have hplay (w : World) (m : Move) (ms : List Move) : w.play (m :: ms) = (w.tick m).play ms := rfl
    rw [List.map_cons, hreplies, hreplies, hplay, hplay, tick, tick, hcrashed]
    cases w.crashed with
    | true =>
      obtain ⟨hw, hrest⟩ := ih ho hknown ht w' h
      exact ⟨hw, hrest⟩
    | false =>
      obtain ⟨hmove, hreply⟩ := h.move ht m
      obtain ⟨ho', hlapses⟩ := ho.move m
      obtain ⟨hw, hrest⟩ := ih ho' (hlapses.resources.known t hknown)
        (hlapses.resources.closed hknown ht) _ hmove
      exact ⟨hw, by simp [hreply, hrest]⟩

end World

end ShardRegistry
