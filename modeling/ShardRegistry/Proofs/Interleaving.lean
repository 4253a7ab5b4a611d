import ShardRegistry.Proofs.Publication
import ShardRegistry.Proofs.Steadiness
import ShardRegistry.Run.Schedule

/-! Interleavings. A move lets one task run to the next place where it might wait, or starts, cancels
or surrounds tasks; any list of moves is a run. The moves of one task spare the others: locks and
turns that they hold stay theirs, and what they rely on is closed or stays published. -/
namespace ShardRegistry

/-- What a task is started for. -/
inductive Call where
  | acquire (q : AcquireRequest)
  | event (e : Event)
  | close
  /-- Takes the connection that a transaction uses for a backend. -/
  | pinned (m : ManagerId) (transaction : TransactionId) (backend : String)
  /-- Ends a transaction. -/
  | settle (m : ManagerId) (transaction : TransactionId)

inductive Move where
  | start (call : Call)
  /-- Lets a task go on, if it has got what it waits for. -/
  | goOn (t : TaskId)
  | cancel (t : TaskId)
  | beginTransaction (m : ManagerId)
  | surround (factory : Factory) (tables : TableSource) (server : Option Server)
  /-- Changes what a pool does with the requests that come to it. -/
  | tune (p : PoolId) (gate : Option Gate) (refused : List Nat)
  /-- Callers take results and drop connections. -/
  | collect (outcomes : List (TaskId × Outcome)) (holds : List (String × List Connection))

namespace World

def begin (w : World) (t : TaskId) : Call → World × Next
  | .acquire q => w.beginAcquire t q
  | .event e => w.beginEvent t e
  | .close => w.beginChange t .close
  | .pinned m transaction backend => w.beginPinned t m transaction backend
  | .settle m transaction => w.beginSettle t m transaction

/-- Whether a task has got what it waits for. Pools and servers answer at any time. -/
def mayGoOn (w : World) (t : TaskId) : TaskState → Bool
  | .lock _ l _ => w.holdsLock l t
  | .acquiring _ (.pins transaction) _ | .settling transaction =>
    w.resources.holdsPins transaction t
  | .turn _ => w.writer.isHeldBy t
  | .acquiring _ (.gate ..) _ | .loading .. => true

def without (w : World) (t : TaskId) : World := { w with tasks := w.tasks.filter (·.1 ≠ t) }

/-- Puts down where a task stands after a part of it. -/
def put (t : TaskId) (x : World × Next) : World := x.1.settle t x.2

def move (w : World) : Move → World
  | .start call => put w.started ({ w with started := w.started + 1 }.begin w.started call)
  | .goOn t => match w.tasks.lookup t with
    | none => w
    | some s => if w.mayGoOn t s then put t ((w.without t).advance t s) else w
  | .cancel t => match w.tasks.lookup t with
    | none => w
    | some s => (w.without t).withdraw t s
  | .beginTransaction m => w.owning (w.resources.beginTransaction m).1
  | .surround factory tables server => { w with factory, tables, server }
  | .tune p gate refused => w.owning (w.resources.modifyPool p fun x => { x with gate, refused })
  | .collect outcomes holds => { w with outcomes, holds }

/-- The world after some moves; it stands still once it has crashed. -/
def play (w : World) (moves : List Move) : World :=
  moves.foldl (fun w m => if w.crashed then w else w.move m) w

end World

/-! ### What tasks rely on -/

def Source.pool? : Source → Option PoolId
  | .pool p => some p
  | .transaction _ _ otherwise => otherwise

def Source.transaction? : Source → Option TransactionId
  | .pool _ => none
  | .transaction _ t _ => some t

namespace TaskState

/-- The pools that a task built and did not publish yet. -/
def pools : TaskState → List PoolId
  | .loading purpose pending _ => purpose.pools pending
  | _ => []

def engines : TaskState → List EngineId
  | .loading purpose _ _ => purpose.engines
  | _ => []

/-- The lock and the acquisition of a task that takes a batch under a lock. -/
def shared? : TaskState → Option (LockId × Acquisition)
  | .lock _ l a => some (l, a)
  | .acquiring (some l) _ a => some (l, a)
  | _ => none

/-- What such a task keeps to its end: the lock and the source. -/
def bond? (s : TaskState) : Option (LockId × Source) := s.shared?.map fun x => (x.1, x.2.source)

theorem bond?_eq_some {s : TaskState} {l : LockId} {source : Source}
    (h : s.bond? = some (l, source)) : ∃ a, s.shared? = some (l, a) ∧ a.source = source := by
  obtain ⟨⟨l', a⟩, hs, heq⟩ := Option.map_eq_some_iff.1 h
  cases heq
  exact ⟨a, hs, rfl⟩

end TaskState

namespace Registry

/-- What tasks of others may see of a step: what is published is closed or stays, with its lock. -/
structure Follows (g g' : Registry) : Prop where
  pools : Evolves Pool.Ages g.resources.pools g'.resources.pools
  engines : Evolves Engine.Ages g.resources.engines g'.resources.engines
  managers : Evolves Manager.Ages g.resources.managers g'.resources.managers
  slots : ∀ schema backend p, g.current.holdings.pool? schema backend = some p →
    g'.resources.PoolClosed p ∨ (g'.current.holdings.pool? schema backend = some p ∧
      ∀ l, g.lockTable.lookup (schema, backend) = some l →
        g'.lockTable.lookup (schema, backend) = some l)
  schemas : ∀ schema h, g.current.holdings.find? schema = some h →
    g'.resources.EngineClosed h.engine ∨
      ∃ h', g'.current.holdings.find? schema = some h' ∧ h'.engine = h.engine

namespace Follows
variable {g g' g'' : Registry}

theorem of_succeeds (h : g.Succeeds g') : g.Follows g' where
  pools := h.grows.pools
  engines := h.grows.engines
  managers := h.grows.managers
  slots schema backend p hp := by
    rcases h.slots schema backend p hp with hc | ⟨hs, hl⟩
    · exact .inl hc
    · exact .inr ⟨hs, fun l hk => hl.trans hk⟩
  schemas := h.engines

/-- Of a registry with the same snapshot, whose table kept its entries. -/
theorem of_current (hp : Evolves Pool.Ages g.resources.pools g'.resources.pools)
    (he : Evolves Engine.Ages g.resources.engines g'.resources.engines)
    (hm : Evolves Manager.Ages g.resources.managers g'.resources.managers)
    (hs : g'.current = g.current)
    (hl : ∀ k p l, g.current.holdings.pool? k.1 k.2 = some p → g.lockTable.lookup k = some l →
      g'.lockTable.lookup k = some l) : g.Follows g' where
  pools := hp
  engines := he
  managers := hm
  slots schema backend p hslot := .inr ⟨hs ▸ hslot, fun l hk => hl (schema, backend) p l hslot hk⟩
  schemas _ h hf := .inr ⟨h, hs ▸ hf, rfl⟩

theorem trans (h : g.Follows g') (h' : g'.Follows g'') : g.Follows g'' where
  pools := h.pools.trans Pool.Ages.trans h'.pools
  engines := h.engines.trans Engine.Ages.trans h'.engines
  managers := h.managers.trans Manager.Ages.trans h'.managers
  slots schema backend p hp := by
    rcases h.slots schema backend p hp with ⟨x, hx, hc⟩ | ⟨hs, hl⟩
    · obtain ⟨y, hy, hages⟩ := h'.pools p x hx
      exact .inl ⟨y, hy, hages hc⟩
    · rcases h'.slots schema backend p hs with hc | ⟨hs', hl'⟩
      · exact .inl hc
      · exact .inr ⟨hs', fun l hk => hl' l (hl l hk)⟩
  schemas schema h₀ hf := by
    rcases h.schemas schema h₀ hf with ⟨x, hx, hc⟩ | ⟨h₁, hf₁, he⟩
    · obtain ⟨y, hy, hages⟩ := h'.engines _ x hx
      exact .inl ⟨y, hy, hages.2 hc⟩
    · rcases h'.schemas schema h₁ hf₁ with hc | ⟨h₂, hf₂, he'⟩
      · exact .inl (he ▸ hc)
      · exact .inr ⟨h₂, hf₂, he'.trans he⟩

end Follows

/-- What an acquisition under the lock of a schema and backend relies on: as long as its pool is open,
it is published there, and the lock is the one of the table. -/
structure Backs (g : Registry) (k : String × String) (l : LockId) (a : Acquisition) : Prop where
  backend : a.backend = k.2
  pool : ∃ p, a.source.pool? = some p ∧ p < g.resources.pools.length ∧
    (g.resources.PoolClosed p ∨
      (g.current.holdings.pool? k.1 k.2 = some p ∧ g.lockTable.lookup k = some l))
  manager : ∀ m t otherwise, a.source = .transaction m t otherwise →
    ∃ y, g.resources.managers[m]? = some y ∧ y.pools.find? k.2 = otherwise

/-- It deals with the transaction that was asked for, if the kind has managers; and as long as the
engine of its manager is open, it is that of the schema. -/
structure Serves (g : Registry) (q : AcquireRequest) (a : Acquisition) : Prop where
  asked : a.source.transaction? = if q.kind = .local then none else q.transaction
  manager : ∀ m t otherwise, a.source = .transaction m t otherwise →
    ∃ e x, g.resources.engines[e]? = some x ∧ x.manager? q.kind = some m ∧
      (g.resources.EngineClosed e ∨
        ∃ h, g.current.holdings.find? q.schema = some h ∧ h.engine = e)

theorem Backs.follows {g g' : Registry} {k : String × String} {l : LockId} {a : Acquisition}
    (h : g.Backs k l a) (hf : g.Follows g') : g'.Backs k l a where
  backend := h.backend
  pool := by
    obtain ⟨p, hp, hlt, hcase⟩ := h.pool
    refine ⟨p, hp, Nat.lt_of_lt_of_le hlt hf.pools.length_le, ?_⟩
    rcases hcase with ⟨x, hx, hc⟩ | ⟨hs, hl⟩
    · obtain ⟨y, hy, hages⟩ := hf.pools p x hx
      exact .inl ⟨y, hy, hages hc⟩
    · rcases hf.slots k.1 k.2 p hs with hc | ⟨hs', hl'⟩
      · exact .inl hc
      · exact .inr ⟨hs', hl' l hl⟩
  manager m t otherwise hsource := by
    obtain ⟨y, hy, hpool⟩ := h.manager m t otherwise hsource
    obtain ⟨z, hz, hages⟩ := hf.managers m y hy
    exact ⟨z, hz, by rw [hages.1.2]; exact hpool⟩

/-- While the pool is open, it is published, and its lock is the one of the table. -/
theorem Backs.slot_of_open {g : Registry} {k : String × String} {l : LockId} {a : Acquisition}
    {p : PoolId} {x : Pool} (h : g.Backs k l a) (hp : a.source.pool? = some p)
    (hx : g.resources.pools[p]? = some x) (hopen : x.isClosed = false) :
    g.current.holdings.pool? k.1 k.2 = some p ∧ g.lockTable.lookup k = some l := by
  obtain ⟨p', hp', _, hcase⟩ := h.pool
  rw [hp] at hp'
  cases hp'
  rcases hcase with ⟨y, hy, hclosed⟩ | hslot
  · rw [hx] at hy
    cases hy
    rw [hopen] at hclosed
    cases hclosed
  · exact hslot

theorem Serves.follows {g g' : Registry} {q : AcquireRequest} {a : Acquisition}
    (h : g.Serves q a) (hf : g.Follows g') : g'.Serves q a where
  asked := h.asked
  manager m t otherwise hsource := by
    obtain ⟨e, x, hx, hm, hcase⟩ := h.manager m t otherwise hsource
    obtain ⟨y, hy, hages⟩ := hf.engines e x hx
    refine ⟨e, y, hy, (hages.manager? q.kind).trans hm, ?_⟩
    rcases hcase with ⟨z, hz, hc⟩ | ⟨h₀, hf₀, rfl⟩
    · rw [hx] at hz
      cases hz
      exact .inl ⟨y, hy, hages.2 hc⟩
    · exact hf.schemas q.schema h₀ hf₀

end Registry

namespace World

/-- Where a task stands is in order: what it relies on is there, and it holds the lock or the turn
under which it goes on. `keys` tells the schema and backend of each lock. -/
def Fine (keys : List (String × String)) (w : World) (t : TaskId) : TaskState → Prop
  | .lock q l a => keys[l]? = some (q.schema, q.backend) ∧
      w.registry.Backs (q.schema, q.backend) l a ∧ w.registry.Serves q a
  | .acquiring (some l) stage a => (∃ k, keys[l]? = some k ∧ w.registry.Backs k l a) ∧
      w.holdsLock l t = true ∧ ∀ p n pins, stage = .gate p n pins → a.source.pool? = some p
  | .loading purpose pending _ => w.writer.holder = some t ∧ purpose.Fits w.registry pending
  | .acquiring none _ _ | .settling _ | .turn _ => True

/-- What a step of a task does to the others. -/
structure Spares (w w' : World) (t : TaskId) : Prop where
  follows : w.registry.Follows w'.registry
  holders : ∀ l t', t' ≠ t → w.holdsLock l t' = true → w'.holdsLock l t' = true
  writer : ∀ t', t' ≠ t → w.writer.holder = some t' →
    w'.writer.holder = some t' ∧ w'.registry.current = w.registry.current

theorem Spares.trans {w w' w'' : World} {t : TaskId} (h : w.Spares w' t) (h' : w'.Spares w'' t) :
    w.Spares w'' t where
  follows := h.follows.trans h'.follows
  holders l t' ht hl := h'.holders l t' ht (h.holders l t' ht hl)
  writer t' ht hw := by
    obtain ⟨hw', hs⟩ := h.writer t' ht hw
    obtain ⟨hw'', hs'⟩ := h'.writer t' ht hw'
    exact ⟨hw'', hs'.trans hs⟩

theorem Fine.spares {keys keys' : List (String × String)} {w w' : World} {t t' : TaskId}
    {s : TaskState} (h : w.Fine keys t' s) (hs : w.Spares w' t) (ht : t' ≠ t)
    (hk : keys <+: keys') : w'.Fine keys' t' s := by
  have hkey : ∀ (l : Nat) (k : String × String), keys[l]? = some k → keys'[l]? = some k := by
    intro l k hl
    obtain ⟨_, rfl⟩ := hk
    rw [List.getElem?_append_left (List.getElem?_eq_some_iff.1 hl).1, hl]
  cases s with
  | lock q l a =>
    obtain ⟨hl, hb, hv⟩ := h
    exact ⟨hkey l _ hl, hb.follows hs.follows, hv.follows hs.follows⟩
  | acquiring held stage a =>
    cases held with
    | none => trivial
    | some l =>
      obtain ⟨⟨k, hl, hb⟩, hheld, hgate⟩ := h
      exact ⟨⟨k, hkey l k hl, hb.follows hs.follows⟩, hs.holders l t' ht hheld, hgate⟩
  | settling _ => trivial
  | turn _ => trivial
  | loading purpose pending _ =>
    obtain ⟨hw, hfits⟩ := h
    obtain ⟨hw', hcurrent⟩ := hs.writer t' ht hw
    exact ⟨hw', hfits.of_current hcurrent hs.follows.engines hs.follows.managers⟩

end World

end ShardRegistry
