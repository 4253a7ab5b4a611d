import ShardRegistry.Proofs.Interleaving

/-! Steps of tasks. All but the changes of the registry are calm: they move locks, turns, pins and
connections, and publish nothing. One statement for each state of a task says where its next part
leaves it. -/
namespace ShardRegistry

open Resources (Custody)

namespace Registry

theorem Keeps.steady {g : Registry} {r : Resources} {ps es : List Nat} (h : g.Keeps ps es)
    (hs : g.resources.Steady r) : (g.owning r).Keeps ps es :=
  ⟨hs.custody h.custody, h.named, fun k x hf => (h.wired k x hf).grows hs.grows⟩

theorem Follows.steady {g : Registry} {r : Resources} (hs : g.resources.Steady r) :
    g.Follows (g.owning r) :=
  .of_current hs.grows.pools hs.grows.engines hs.grows.managers rfl fun _ _ _ _ hl => hl

/-- Only locks and the table of locks differ. -/
theorem Follows.locks {g g' : Registry} (hs : g'.snapshot = g.snapshot)
    (hr : ∃ locks, g'.resources = { g.resources with locks })
    (hl : ∀ k p l, g.current.holdings.pool? k.1 k.2 = some p → g.lockTable.lookup k = some l →
      g'.lockTable.lookup k = some l) : g.Follows g' := by
  obtain ⟨locks, hr⟩ := hr
  refine .of_current ?_ ?_ ?_ (congrArg (·.value) hs) hl
  · rw [hr]
    exact .refl Pool.Ages.refl _
  · rw [hr]
    exact .refl Engine.Ages.refl _
  · rw [hr]
    exact .refl Manager.Ages.refl _

end Registry

namespace World

theorem holdsLock_iff {w : World} {l : LockId} {t : TaskId} :
    w.holdsLock l t = true ↔ ∃ m, w.resources.locks[l]? = some m ∧ m.holder = some t := by
  cases h : w.resources.locks[l]? <;> simp [holdsLock, Mutex.isHeldBy, h]

theorem holdsLock_registry {w : World} {g : Registry} (h : g.resources.locks = w.resources.locks)
    (l : LockId) (t : TaskId) : World.holdsLock { w with registry := g } l t = w.holdsLock l t := by
  simp only [holdsLock, resources, h]

theorem holdsLock_steady {w : World} {r : Resources} (hs : w.resources.Steady r) (l : LockId)
    (t : TaskId) : (w.owning r).holdsLock l t = w.holdsLock l t :=
  holdsLock_registry (g := w.registry.owning r) hs.locks l t

/-- Two holders of a lock are the same task. -/
theorem holdsLock_unique {w : World} {l : LockId} {t t' : TaskId} (h : w.holdsLock l t = true)
    (h' : w.holdsLock l t' = true) : t = t' := by
  obtain ⟨m, hm, ht⟩ := holdsLock_iff.1 h
  obtain ⟨m', hm', ht'⟩ := holdsLock_iff.1 h'
  rw [hm] at hm'
  cases hm'
  rw [ht] at ht'
  exact Option.some.inj ht'

/-- A step of a task that publishes nothing and makes no lock. -/
structure Calm (w w' : World) (t : TaskId) : Prop where
  tasks : w'.tasks = w.tasks
  started : w'.started = w.started
  locks : w'.resources.locks.length = w.resources.locks.length
  table : w'.registry.lockTable ⊆ w.registry.lockTable
  spares : w.Spares w' t
  keeps : ∀ ps es, w.registry.Keeps ps es → w'.registry.Keeps ps es

namespace Calm
variable {w w' w'' : World} {t : TaskId}

theorem trans (h : w.Calm w' t) (h' : w'.Calm w'' t) : w.Calm w'' t where
  tasks := h'.tasks.trans h.tasks
  started := h'.started.trans h.started
  locks := h'.locks.trans h.locks
  table := List.Subset.trans h'.table h.table
  spares := h.spares.trans h'.spares
  keeps ps es hk := h'.keeps ps es (h.keeps ps es hk)

theorem steady {r : Resources} (hs : w.resources.Steady r) : w.Calm (w.owning r) t where
  tasks := rfl
  started := rfl
  locks := congrArg List.length hs.locks
  table := List.Subset.refl _
  spares :=
    { follows := .steady hs
      holders := fun l t' _ hl => (holdsLock_steady hs l t').trans hl
      writer := fun _ _ hw => ⟨hw, rfl⟩ }
  keeps _ _ hk := hk.steady hs

/-- Only locks and entries of the table differ, and no lock of another task. -/
theorem of_locks (hr : ∃ locks, w'.resources = { w.resources with locks })
    (hs : w'.registry.snapshot = w.registry.snapshot) (htasks : w'.tasks = w.tasks)
    (hstarted : w'.started = w.started) (hwriter : w'.writer = w.writer)
    (hlen : w'.resources.locks.length = w.resources.locks.length)
    (htable : w'.registry.lockTable ⊆ w.registry.lockTable)
    (hl : ∀ k p l, w.registry.current.holdings.pool? k.1 k.2 = some p →
      w.registry.lockTable.lookup k = some l → w'.registry.lockTable.lookup k = some l)
    (hholders : ∀ l t', t' ≠ t → w.holdsLock l t' = true → w'.holdsLock l t' = true) :
    w.Calm w' t where
  tasks := htasks
  started := hstarted
  locks := hlen
  table := htable
  spares :=
    { follows := .locks hs hr hl
      holders := hholders
      writer := fun _ _ hw => ⟨hwriter ▸ hw, congrArg (·.value) hs⟩ }
  keeps ps es hk := by
    obtain ⟨locks, hr⟩ := hr
    have hr : w'.registry.resources = { w.registry.resources with locks } := hr
    refine hk.of_holdings ?_ ?_ ?_ ?_ ?_
    · exact congrArg (fun s : Stamped Snapshot => s.value.holdings) hs
    all_goals rw [hr]

theorem modifyLock (w : World) (l : LockId) {f : Mutex → Mutex}
    (hf : ∀ m t', t' ≠ t → w.resources.locks[l]? = some m → m.holder = some t' →
      (f m).holder = some t') : w.Calm (w.modifyLock l f) t := by
  refine of_locks ⟨_, rfl⟩ rfl rfl rfl rfl (List.length_modify _ _ _) (List.Subset.refl _)
    (fun _ _ _ _ hk => hk) ?_
  intro l' t' ht hl
  rw [holdsLock_iff] at hl ⊢
  obtain ⟨m, hm, hholder⟩ := hl
  have hlocks : (w.modifyLock l f).resources.locks = w.resources.locks.modify l f := rfl
  rw [hlocks]
  by_cases hll : l = l'
  · subst hll
    exact ⟨f m, by simp [hm], hf m t' ht hm hholder⟩
  · exact ⟨m, by rw [List.getElem?_modify_ne f _ hll, hm], hholder⟩

/-- A task gives up a lock that it holds. -/
theorem releaseLock {l : LockId} (h : w.holdsLock l t = true) : w.Calm (w.releaseLock l) t := by
  obtain ⟨m, hm, hholder⟩ := holdsLock_iff.1 h
  have hmodify : w.Calm (w.modifyLock l (·.release)) t := by
    refine modifyLock w l fun m' t' ht hm' hholder' => absurd ?_ ht
    rw [hm] at hm'
    cases hm'
    rw [hholder] at hholder'
    exact (Option.some.inj hholder').symm
  simp only [World.releaseLock, hm]
  exact hmodify.trans (steady (.wake _ _))

theorem releaseHeld {held : Option LockId} (h : ∀ l, held = some l → w.holdsLock l t = true) :
    w.Calm (w.releaseHeld held) t := by
  cases held with
  | none => exact steady (.refl _)
  | some l => exact releaseLock (h l rfl)

theorem leaveLock (w : World) (l : LockId) : w.Calm (w.modifyLock l (·.leaveQueue t)) t :=
  modifyLock w l fun _ _ _ _ hm => hm

/-- An entry goes whose schema and backend are not published. -/
theorem dropLock {schema backend : String} (l : LockId)
    (h : w.registry.current.holdings.pool? schema backend = none) :
    w.Calm { w with registry := w.registry.dropLock schema backend l } t := by
  refine of_locks ⟨_, rfl⟩ rfl rfl rfl rfl rfl List.filter_sublist.subset ?_ fun _ _ _ hl => hl
  intro k p l' hslot hk
  refine (lookup_filter fun v => ?_).trans hk
  have hne : k ≠ (schema, backend) := by
    rintro rfl
    rw [h] at hslot
    cases hslot
  simp [hne]

/-- Only the queue for the turn differs, and nobody else loses the turn. -/
theorem of_writer {m : Mutex} (h : ∀ t', t' ≠ t → w.writer.holder = some t' →
    m.holder = some t') : w.Calm { w with writer := m } t where
  tasks := rfl
  started := rfl
  locks := rfl
  table := List.Subset.refl _
  spares :=
    { follows := .steady (.refl _)
      holders := fun _ _ _ hl => hl
      writer := fun t' ht hw => ⟨h t' ht hw, rfl⟩ }
  keeps _ _ hk := hk

theorem releaseWriter (h : w.writer.holder = some t) : w.Calm w.releaseWriter t := by
  have hwriter : w.Calm { w with writer := w.writer.release } t := by
    refine of_writer fun t' ht hw => absurd ?_ ht
    rw [h] at hw
    exact (Option.some.inj hw).symm
  exact hwriter.trans (steady (.wake _ _))

theorem requestWriter (w : World) : w.Calm { w with writer := w.writer.request t } t := by
  refine of_writer fun t' _ hw => ?_
  simp [Mutex.request, Mutex.isFree, hw]

theorem leaveWriter (w : World) : w.Calm { w with writer := w.writer.leaveQueue t } t :=
  of_writer fun _ _ hw => hw

end Calm

end World

/-! ### Parts of tasks -/

namespace Next

def state? : Next → Option TaskState
  | .waits s | .passes s => some s
  | .ends _ | .crashes => none

def pools (n : Next) : List PoolId := (n.state?.map (·.pools)).getD []

def engines (n : Next) : List EngineId := (n.state?.map (·.engines)).getD []

end Next

theorem Registry.Backs.draws {g : Registry} {k : String × String} {l : LockId} {a : Acquisition}
    {p : PoolId} (h : g.Backs k l a) (hd : a.Draws g.resources p) : a.source.pool? = some p := by
  simp only [Acquisition.Draws] at hd
  split at hd
  · rename_i hs
    rw [hs, hd]
    rfl
  · rename_i m t otherwise hs
    rw [hs]
    rcases hd with hd | ⟨x, hx, hp⟩
    · exact hd
    · obtain ⟨y, hy, hpool⟩ := h.manager m t otherwise hs
      rw [hx] at hy
      cases hy
      rw [h.backend] at hp
      exact hpool.symm.trans hp

namespace World

/-- Where a part of a task leaves it, that began with `ps` and `es` in hand and, if it was under a
lock, with the bond `bond`. -/
structure Advances (keys : List (String × String)) (w : World) (t : TaskId) (ps es : List Nat)
    (bond : Option (LockId × Source)) (x : World × Next) : Prop where
  tasks : x.1.tasks = w.tasks
  started : x.1.started = w.started
  locks : x.1.resources.locks.length = w.resources.locks.length
  table : x.1.registry.lockTable ⊆ w.registry.lockTable
  spares : w.Spares x.1 t
  keeps : ∀ qs fs, w.registry.Keeps (ps ++ qs) (es ++ fs) →
    x.1.registry.Keeps (x.2.pools ++ qs) (x.2.engines ++ fs)
  fine : ∀ s, x.2.state? = some s → x.1.Fine keys t s
  bonds : ∀ s, x.2.state? = some s → s.bond? = bond

namespace Advances
variable {keys : List (String × String)} {w w' : World} {t : TaskId} {ps es : List Nat}
  {bond : Option (LockId × Source)} {x : World × Next}

/-- A calm step to a place where nothing that was built is in hand. -/
theorem of_calm {next : Next} (h : w.Calm w' t) (hp : next.pools = [])
    (he : next.engines = []) (hfine : ∀ s, next.state? = some s → w'.Fine keys t s)
    (hbond : ∀ s, next.state? = some s → s.bond? = bond) :
    w.Advances keys t [] [] bond (w', next) where
  tasks := h.tasks
  started := h.started
  locks := h.locks
  table := h.table
  spares := h.spares
  keeps qs fs hk := by
    rw [hp, he]
    exact h.keeps qs fs hk
  fine := hfine
  bonds := hbond

theorem ends (o : Outcome) (h : w.Calm w' t) : w.Advances keys t [] [] bond (w', .ends o) :=
  of_calm h rfl rfl (fun _ hs => by cases hs) (fun _ hs => by cases hs)

theorem crashes (h : w.Calm w' t) : w.Advances keys t [] [] bond (w', .crashes) :=
  of_calm h rfl rfl (fun _ hs => by cases hs) (fun _ hs => by cases hs)

/-- A calm step to a given place. -/
theorem stands {s : TaskState} {next : Next} (h : w.Calm w' t) (hp : s.pools = [])
    (he : s.engines = []) (hf : w'.Fine keys t s) (hb : s.bond? = bond)
    (hn : next.state? = some s) : w.Advances keys t [] [] bond (w', next) := by
  refine of_calm h (by simp [Next.pools, hn, hp]) (by simp [Next.engines, hn, he]) ?_ ?_
  · intro s' hs'
    rw [hn] at hs'
    cases hs'
    exact hf
  · intro s' hs'
    rw [hn] at hs'
    cases hs'
    exact hb

theorem after_calm (h : w.Calm w' t) (hx : w'.Advances keys t ps es bond x) :
    w.Advances keys t ps es bond x where
  tasks := hx.tasks.trans h.tasks
  started := hx.started.trans h.started
  locks := hx.locks.trans h.locks
  table := List.Subset.trans hx.table h.table
  spares := h.spares.trans hx.spares
  keeps qs fs hk := hx.keeps qs fs (h.keeps _ _ hk)
  fine := hx.fine
  bonds := hx.bonds

/-! ### Acquisitions -/

/-- The lock that an acquisition holds, if it holds one, and its source. -/
def bondOf (held : Option LockId) (a : Acquisition) : Option (LockId × Source) :=
  held.map fun l => (l, a.source)

/-- The state of a task that acquires on, with the lock that it holds. -/
theorem acquiring {held : Option LockId} {a a' : Acquisition} {r : Resources} {stage : Stage}
    (hheld : ∀ l, held = some l → w.holdsLock l t = true ∧
      ∃ k, keys[l]? = some k ∧ w.registry.Backs k l a)
    (hs : w.resources.Steady r) (hsource : a'.source = a.source) (hbackend : a'.backend = a.backend)
    (hgate : ∀ p n pins, stage = .gate p n pins → a.Draws w.resources p) {next : Next}
    (hnext : next.state? = some (.acquiring held stage a')) :
    w.Advances keys t [] [] (bondOf held a) (w.owning r, next) := by
  have hcalm : w.Calm (w.owning r) t := .steady hs
  cases held with
  | none => exact stands (s := .acquiring none stage a') hcalm rfl rfl trivial rfl hnext
  | some l =>
    obtain ⟨hholds, k, hk, hb⟩ := hheld l rfl
    have hb' := hb.follows hcalm.spares.follows
    refine stands (s := .acquiring (some l) stage a') hcalm rfl rfl ?_ ?_ hnext
    · refine ⟨⟨k, hk, ⟨hbackend.trans hb'.backend, ?_, ?_⟩⟩, ?_, ?_⟩
      · rw [hsource]
        exact hb'.pool
      · rw [hsource]
        exact hb'.manager
      · exact (holdsLock_steady hs l t).trans hholds
      · intro p n pins hp
        rw [hsource]
        exact hb.draws (hgate p n pins hp)
    · simp [TaskState.bond?, TaskState.shared?, bondOf, hsource]

/-- A part of an acquisition: it goes on, or it ends and the lock is given up. -/
theorem acquired {held : Option LockId} {a : Acquisition} {y : Resources × Progress}
    (hheld : ∀ l, held = some l → w.holdsLock l t = true ∧
      ∃ k, keys[l]? = some k ∧ w.registry.Backs k l a)
    (hs : w.resources.Steady y.1) (hc : a.Continues w.resources y.2) :
    w.Advances keys t [] [] (bondOf held a) (w.acquired held y) := by
  obtain ⟨r, progress⟩ := y
  have hcalm : w.Calm (w.owning r) t := .steady hs
  have hrelease : w.Calm ((w.owning r).releaseHeld held) t := by
    refine hcalm.trans (.releaseHeld fun l hl => ?_)
    obtain ⟨hholds, _⟩ := hheld l hl
    exact (holdsLock_steady hs l t).trans hholds
  cases progress with
  | waits stage a' | passes stage a' =>
    obtain ⟨hsource, hbackend, hgate⟩ := hc
    exact acquiring hheld hs hsource hbackend hgate rfl
  | done outcome =>
    cases outcome with
    | ok cs => exact ends _ hrelease
    | error stop =>
      cases stop with
      | rejected e => exact ends _ hrelease
      | crashed => exact crashes hcalm

theorem acquired_unlocked {a : Acquisition} {y : Resources × Progress}
    (hs : w.resources.Steady y.1) (hc : a.Continues w.resources y.2) :
    w.Advances keys t [] [] none (w.acquired none y) := by
  have hheld : ∀ l, none = some l → w.holdsLock l t = true ∧
      ∃ k, keys[l]? = some k ∧ w.registry.Backs k l a := fun _ hl => by cases hl
  exact acquired hheld hs hc

theorem afterLock {q : AcquireRequest} {l : LockId} {a : Acquisition}
    (hf : w.Fine keys t (.lock q l a)) (hgo : w.mayGoOn t (.lock q l a) = true) :
    w.Advances keys t [] [] (some (l, a.source)) (w.afterLock t q l a) := by
  obtain ⟨hk, hb, _⟩ := hf
  have hholds : w.holdsLock l t = true := hgo
  simp only [World.afterLock]
  split
  · rename_i e he
    refine ends _ ?_
    have hnone : w.registry.current.holdings.pool? q.schema q.backend = none := by
      rw [Snapshot.pool?_holdings, Snapshot.pool?]
      simp only [Registry.resolve] at he
      split at he
      · rename_i hc
        simp [hc]
      · rename_i c hc
        split at he
        · rename_i hd
          simp [hc, hd]
        · cases he
    exact (Calm.dropLock l hnone).trans (.releaseLock hholds)
  · have hstart := a.start_steady w.resources t
    have hheld : ∀ l', some l = some l' → w.holdsLock l' t = true ∧
        ∃ k, keys[l']? = some k ∧ w.registry.Backs k l' a := by
      rintro _ ⟨⟩
      exact ⟨hholds, _, hk, hb⟩
    exact acquired hheld hstart.1 hstart.2

theorem resume {held : Option LockId} {stage : Stage} {a : Acquisition}
    (hf : w.Fine keys t (.acquiring held stage a)) :
    w.Advances keys t [] [] (bondOf held a)
      (w.acquired held (a.resume w.resources w.server t stage)) := by
  have hresume := a.resume_steady w.resources w.server t stage
  refine acquired ?_ hresume.1 hresume.2
  rintro l rfl
  exact ⟨hf.2.1, hf.1⟩

/-! ### The end of transactions -/

theorem afterSettling (w : World) (transaction : TransactionId) :
    w.Advances keys t [] [] none (w.afterSettling transaction) := by
  refine ends _ (.steady ?_)
  exact (Resources.Steady.modifyPins _ transaction _).trans (.releasePins _ transaction)

theorem beginSettle (w : World) (m : ManagerId) (transaction : TransactionId) :
    w.Advances keys t [] [] none (w.beginSettle t m transaction) := by
  simp only [World.beginSettle]
  split
  · exact ends _ (.steady (.refl _))
  · rename_i r hr
    have hcalm : w.Calm (w.owning (r.requestPins transaction t)) t :=
      .steady ((Resources.Steady.dropTransaction hr).trans (.modifyPins _ transaction _))
    split <;> exact stands (s := .settling transaction) hcalm rfl rfl trivial rfl rfl

/-! ### Changes -/

theorem beginChange (w : World) (change : Change) :
    w.Advances keys t [] [] none (w.beginChange t change) := by
  have hcalm : w.Calm { w with writer := w.writer.request t } t := .requestWriter w
  simp only [World.beginChange]
  split <;> exact stands (s := .turn change) hcalm rfl rfl trivial rfl rfl

/-- A part of a change, by the task whose turn it is. -/
theorem changed {qs fs : List Nat} {y : Registry × Step} (hw : w.writer.holder = some t)
    (hp : w.registry.Proceeds ps es y) (hk : w.registry.Keeps (ps ++ qs) (es ++ fs))
    (hc : (w.changed y).2 ≠ .crashes) : w.Advances keys t ps es none (w.changed y) := by
  obtain ⟨g, step⟩ := y
  have hstep : step ≠ .done (.error .crashed) := by
    rintro rfl
    exact hc rfl
  obtain ⟨_, hsucceeds, hfits⟩ := hp.keeps hk hstep
  have hlocks : g.resources.locks = w.resources.locks := hsucceeds.grows.locks
  have hchange : ∀ next : Next, next.pools = step.pools → next.engines = step.engines →
      (∀ s, next.state? = some s → World.Fine keys { w with registry := g } t s ∧
        s.bond? = none) →
      w.Advances keys t ps es none ({ w with registry := g }, next) := by
    intro next hpools hengines hstate
    refine ⟨rfl, rfl, congrArg List.length hlocks, hsucceeds.locks.subset, ⟨?_, ?_, ?_⟩, ?_,
      fun s hs => (hstate s hs).1, fun s hs => (hstate s hs).2⟩
    · exact .of_succeeds hsucceeds
    · exact fun l t' _ hl => (holdsLock_registry hlocks l t').trans hl
    · intro t' ht hw'
      rw [hw] at hw'
      exact absurd (Option.some.inj hw').symm ht
    · intro us ts hk'
      rw [hpools, hengines]
      exact (hp.keeps hk' hstep).1
  -- the end of a change gives up the turn
  have hend : ∀ o : Outcome, step.pools = [] → step.engines = [] →
      w.Advances keys t ps es none (World.releaseWriter { w with registry := g }, .ends o) := by
    intro o hpools hengines
    have hends := hchange (.ends o) hpools.symm hengines.symm (fun _ hs => by cases hs)
    have hcalm : World.Calm { w with registry := g } (World.releaseWriter { w with registry := g }) t :=
      .releaseWriter hw
    exact ⟨hcalm.tasks.trans hends.tasks, hcalm.started.trans hends.started,
      hcalm.locks.trans hends.locks, List.Subset.trans hcalm.table hends.table,
      hends.spares.trans hcalm.spares,
      (fun us ts hk' => hcalm.keeps _ _ (hends.keeps us ts hk')),
      (fun _ hs => by cases hs), (fun _ hs => by cases hs)⟩
  cases step with
  | done outcome =>
    cases outcome with
    | ok n => exact hend _ rfl rfl
    | error stop =>
      cases stop with
      | rejected e => exact hend _ rfl rfl
      | crashed => exact absurd rfl hstep
  | load purpose pending =>
    refine hchange (.passes (.loading purpose pending none)) rfl rfl ?_
    rintro _ ⟨⟩
    exact ⟨⟨hw, hfits purpose pending rfl⟩, rfl⟩

section Loading
variable {purpose : Purpose} {pending : PendingSchema} {query : Option Query} {qs fs : List Nat}

theorem fine_loading {r : Resources} (hf : w.Fine keys t (.loading purpose pending query))
    (hs : w.resources.Steady r) (query' : Option Query) :
    (w.owning r).Fine keys t (.loading purpose pending query') :=
  ⟨hf.1, hf.2.of_current rfl hs.grows.engines hs.grows.managers⟩

theorem loaded (hf : w.Fine keys t (.loading purpose pending query))
    (hk : w.registry.Keeps (purpose.pools pending ++ qs) (purpose.engines ++ fs))
    (tables : Except Error (SortedMap Tables))
    (hc : (w.loaded purpose pending tables).2 ≠ .crashes) :
    w.Advances keys t (purpose.pools pending) purpose.engines none
      (w.loaded purpose pending tables) :=
  changed hf.1 (.resume w.environment hf.2 tables) hk hc

theorem askBackend (hf : w.Fine keys t (.loading purpose pending query))
    (hk : w.registry.Keeps (purpose.pools pending ++ qs) (purpose.engines ++ fs))
    (tables : SortedMap Tables) (rest : List (String × DataSource))
    (hc : (w.askBackend t purpose pending tables rest).2 ≠ .crashes) :
    w.Advances keys t (purpose.pools pending) purpose.engines none
      (w.askBackend t purpose pending tables rest) := by
  cases rest with
  | nil => exact loaded hf hk (.ok tables) hc
  | cons e rest =>
    have hs := Resources.Steady.enterPool w.resources t e.2.pool
    have hcalm : w.Calm (w.owning (w.resources.enterPool t e.2.pool).1) t := .steady hs
    have hstate : ∀ next : Next, (∃ q, next.state? = some (.loading purpose pending q)) →
        w.Advances keys t (purpose.pools pending) purpose.engines none
          (w.owning (w.resources.enterPool t e.2.pool).1, next) := by
      rintro next ⟨q, hnext⟩
      refine ⟨rfl, rfl, hcalm.locks, hcalm.table, hcalm.spares, ?_, ?_, ?_⟩
      · intro us ts hk'
        simp only [Next.pools, Next.engines, hnext]
        exact hcalm.keeps _ _ hk'
      · intro s hs'
        rw [hnext] at hs'
        cases hs'
        exact fine_loading hf hs q
      · intro s hs'
        rw [hnext] at hs'
        cases hs'
        rfl
    simp only [World.askBackend]
    split <;> exact hstate _ ⟨_, rfl⟩

theorem load (hf : w.Fine keys t (.loading purpose pending query))
    (hk : w.registry.Keeps (purpose.pools pending ++ qs) (purpose.engines ++ fs))
    (hc : (w.load t purpose pending).2 ≠ .crashes) :
    w.Advances keys t (purpose.pools pending) purpose.engines none (w.load t purpose pending) := by
  simp only [World.load] at hc ⊢
  split
  · rename_i answer heq
    simp only [heq] at hc
    exact loaded hf hk _ hc
  · rename_i heq
    simp only [heq] at hc
    split
    · rename_i hd
      simp only [hd, if_true] at hc
      exact askBackend hf hk _ _ hc
    · rename_i hd
      simp only [hd, if_false] at hc
      exact loaded hf hk _ hc

theorem afterQuery {q : Query} (hf : w.Fine keys t (.loading purpose pending query))
    (hk : w.registry.Keeps (purpose.pools pending ++ qs) (purpose.engines ++ fs))
    (hc : (w.afterQuery t purpose pending q).2 ≠ .crashes) :
    w.Advances keys t (purpose.pools pending) purpose.engines none
      (w.afterQuery t purpose pending q) := by
  have hs := Resources.Steady.leavePool w.resources w.server q.pool q.attempt
  have hcalm : w.Calm (w.owning (w.resources.leavePool w.server q.pool q.attempt).1) t := .steady hs
  have hf' := fine_loading hf hs query
  have hk' := hcalm.keeps _ _ hk
  refine after_calm hcalm ?_
  simp only [World.afterQuery] at hc ⊢
  split
  · rename_i heq
    rw [heq] at hc
    exact loaded hf' hk' _ hc
  · rename_i heq
    rw [heq] at hc
    exact askBackend hf' hk' _ _ hc

end Loading

/-- The next part of a task that may go on. -/
theorem advance {s : TaskState} {qs fs : List Nat} (hf : w.Fine keys t s)
    (hgo : w.mayGoOn t s = true) (hk : w.registry.Keeps (s.pools ++ qs) (s.engines ++ fs))
    (hc : (w.advance t s).2 ≠ .crashes) :
    w.Advances keys t s.pools s.engines s.bond? (w.advance t s) := by
  cases s with
  | lock q l a => exact afterLock hf hgo
  | acquiring held stage a =>
    have hresume := resume hf
    cases held <;> exact hresume
  | settling transaction => exact afterSettling w transaction
  | turn change =>
    have hw : w.writer.holder = some t := by
      simpa [mayGoOn, Mutex.isHeldBy] using hgo
    exact changed hw (.begin w.environment w.registry change) hk hc
  | loading purpose pending query =>
    cases query with
    | none => exact load hf hk hc
    | some q => exact afterQuery hf hk hc

/-! ### Beginnings -/

theorem beginPinned (w : World) (m : ManagerId) (transaction : TransactionId) (backend : String) :
    w.Advances keys t [] [] none (w.beginPinned t m transaction backend) := by
  have hstart := Acquisition.start_steady
    { backend, count := 1, source := .transaction m transaction none } w.resources t
  exact acquired_unlocked hstart.1 hstart.2

theorem beginEvent (w : World) (event : Event) :
    w.Advances keys t [] [] none (w.beginEvent t event) := by
  simp only [World.beginEvent]
  split
  · exact ends _ (.steady (.refl _))
  · exact beginChange w _

/-- A request that takes no lock. -/
theorem beginAcquire (w : World) (q : AcquireRequest)
    (h : ∀ a, w.registry.admit q = .ok a → q.count = 0 ∨ q.mode = .strictPerConnection) :
    w.Advances keys t [] [] none (w.beginAcquire t q) := by
  simp only [World.beginAcquire]
  split
  · exact ends _ (.steady (.refl _))
  · rename_i a ha
    split
    · exact ends _ (.steady (.refl _))
    · rename_i hcount
      have hmode := (h a ha).resolve_left hcount
      rw [hmode]
      have hstart := a.start_steady w.resources t
      exact acquired_unlocked hstart.1 hstart.2

end Advances

/-- A task that gives up takes nothing from the others. -/
theorem Calm.withdraw {keys : List (String × String)} {w : World} {t : TaskId} {s : TaskState}
    (hf : w.Fine keys t s) : w.Calm (w.withdraw t s) t := by
  cases s with
  | lock q l a =>
    simp only [World.withdraw]
    split
    · exact .releaseLock ‹_›
    · exact .leaveLock w l
  | acquiring held stage a =>
    have hrelease : ∀ r, w.resources.Steady r → w.Calm ((w.owning r).releaseHeld held) t := by
      intro r hs
      have hcalm : w.Calm (w.owning r) t := .steady hs
      refine hcalm.trans (.releaseHeld ?_)
      rintro l rfl
      exact (holdsLock_steady hs l t).trans hf.2.1
    cases stage with
    | pins transaction =>
      refine hrelease _ ?_
      simp only
      split
      · exact .releasePins _ transaction
      · exact .modifyPins _ transaction _
    | gate p n pins =>
      refine hrelease _ ?_
      cases pins with
      | none => exact .quitPool _ t p
      | some transaction =>
        exact (Resources.Steady.quitPool _ t p).trans (.releasePins _ transaction)
  | settling transaction =>
    refine .steady ?_
    split
    · exact .releasePins _ transaction
    · exact .modifyPins _ transaction _
  | turn change =>
    simp only [World.withdraw]
    split
    · rename_i hw
      exact .releaseWriter (by simpa [Mutex.isHeldBy] using hw)
    · exact .leaveWriter w
  | loading purpose pending query =>
    cases query with
    | none => exact .releaseWriter hf.1
    | some q =>
      have hcalm : w.Calm (w.owning (w.resources.quitPool t q.pool)) t :=
        .steady (.quitPool _ t q.pool)
      exact hcalm.trans (.releaseWriter hf.1)

end World

end ShardRegistry
