import ShardRegistry.Proofs.Managers
import ShardRegistry.Proofs.Consistency
import ShardRegistry.Proofs.Rebuilding

/-! Tenure. While its schema is not rebuilt, a transaction that was begun on it belongs to the manager
that the schema is published with, stays in the table of that manager until somebody ends it, and has
pins for backends of the schema only. -/
namespace ShardRegistry

namespace Registry

/-- The manager of a kind is that of the engine of the published schema. -/
theorem transactionManager_ok_iff {g : Registry} {schema : String} {kind : TransactionKind}
    {m : ManagerId} : g.transactionManager schema kind = .ok m ↔
      ∃ c, g.current.schema? schema = some c ∧ g.managerOf? c.value kind = some m := by
  cases hc : g.current.schema? schema with
  | none => simp [transactionManager, getSchema, hc, bind, Except.bind]
  | some c =>
    cases hm : g.managerOf? c.value kind <;>
      simp [transactionManager, getSchema, hc, hm, bind, Except.bind, pure, Except.pure]

theorem ne_local_of_managerOf? {g : Registry} {c : SchemaContext} {kind : TransactionKind}
    {m : ManagerId} (h : g.managerOf? c kind = some m) : kind ≠ .local := by
  rintro rfl
  obtain ⟨x, _, hx⟩ := Option.bind_eq_some_iff.1 h
  cases hx

end Registry

/-- The pool from which a manager pins connections of a backend. -/
def Resources.poolOf? (r : Resources) (m : ManagerId) (backend : String) : Option PoolId :=
  (r.managers[m]?).bind fun x => x.pools.find? backend

theorem Resources.poolOf?_of_ages {r r' : Resources} {m : ManagerId} {backend : String} {p : PoolId}
    (h : Evolves Manager.Ages r.managers r'.managers) (hp : r.poolOf? m backend = some p) :
    r'.poolOf? m backend = some p := by
  obtain ⟨x, hx, hfind⟩ := Option.bind_eq_some_iff.1 hp
  obtain ⟨y, hy, hages⟩ := h m x hx
  simp [poolOf?, hy, hages.1.2, hfind]

/-! ### Acquisitions for a transaction -/

/-- A batch that deals with the transaction asks the manager for it, and waits for a pool of that
manager only. -/
def Acquisition.Fetches (r : Resources) (m : ManagerId) (t : TransactionId) (a : Acquisition)
    (stage : Stage) : Prop :=
  stage.transaction? = some t → (∃ o, a.source = .transaction m t o) ∧
    ∀ p n o, stage = .gate p n o → r.poolOf? m a.backend = some p

def Progress.Fetches (r : Resources) (m : ManagerId) (t : TransactionId) : Progress → Prop
  | .waits stage a | .passes stage a => a.Fetches r m t stage
  | .done _ => True

namespace Acquisition
variable {a : Acquisition} {r r' : Resources} {k : TaskId} {m : ManagerId} {t : TransactionId}

theorem Fetches.of_ages {stage : Stage} (h : a.Fetches r m t stage)
    (hm : Evolves Manager.Ages r.managers r'.managers) : a.Fetches r' m t stage := fun ht =>
  ⟨(h ht).1, fun p n o hgate => Resources.poolOf?_of_ages hm ((h ht).2 p n o hgate)⟩

theorem askPool_fetches {p : PoolId} {o : Option TransactionId}
    (h : ∀ n, a.Fetches r m t (.gate p n o)) : (a.askPool r' k p o).2.Fetches r m t := by
  simp only [askPool]
  split <;> exact h _

theorem ask_fetches (h : ∀ m', r'.isActive m' t = true → m' = m) :
    (a.ask r' k).2.Fetches r m t := by
  have hnone (p : PoolId) (n : Nat) : a.Fetches r m t (.gate p n none) := fun ht => by cases ht
  simp only [ask]
  split
  · trivial
  · split
    · exact askPool_fetches (hnone _)
    · rename_i m' t' otherwise hsource
      split
      · rename_i hactive
        have hpins : a.Fetches r m t (.pins t') := by
          rintro ⟨⟩
          obtain rfl := h m' hactive
          exact ⟨⟨otherwise, hsource⟩, fun _ _ _ hgate => by cases hgate⟩
        simp only
        split <;> exact hpins
      · split
        · exact askPool_fetches (hnone _)
        · trivial
        · trivial

theorem start_fetches (h : ∀ m', r'.isActive m' t = true → m' = m) :
    (a.start r' k).2.Fetches r m t := by
  simp only [start]
  split
  · trivial
  · exact ask_fetches h

theorem resume_fetches (h : ∀ m', r.isActive m' t = true → m' = m) (server : Option Server)
    {stage : Stage} (hf : a.Fetches r m t stage) :
    (a.resume r server k stage).2.Fetches r m t := by
  have htable {r' : Resources} (hr : r'.table = r.table) (m' : ManagerId)
      (ht : r'.isActive m' t = true) : m' = m :=
    h m' (Resources.isActive_of_managers (Prod.mk.inj hr).1 m' t ▸ ht)
  cases stage with
  | pins t' =>
    simp only [resume, afterPins]
    split
    · exact ask_fetches (htable (r.table_releasePins t'))
    · split
      · trivial
      · rename_i p hp
        refine askPool_fetches fun n ht => ?_
        cases ht
        obtain ⟨⟨o, hsource⟩, _⟩ := hf rfl
        rw [hsource] at hp
        refine ⟨⟨o, hsource⟩, fun _ _ _ hgate => ?_⟩
        cases hgate
        exact hp
  | gate p attempt o =>
    have hleave := r.table_leavePool server p attempt
    simp only [resume, afterGate]
    split <;> rename_i heq <;> rw [heq] at hleave
    · trivial
    · refine ask_fetches (htable ?_)
      cases o <;> simpa using hleave

end Acquisition

namespace World
variable {w : World} {k : TaskId} {m : ManagerId} {t : TransactionId} {held : Option LockId}
  {stage : Stage} {a : Acquisition}

theorem fetches_acquired {y : Resources × Progress} {held' : Option LockId}
    (h : y.2.Fetches w.resources m t)
    (hs : (w.acquired held' y).2.state? = some (.acquiring held stage a)) :
    a.Fetches w.resources m t stage := by
  obtain ⟨r, progress⟩ := y
  cases progress with
  | waits _ _ | passes _ _ =>
    cases hs
    exact h
  | done outcome =>
    cases outcome with
    | ok cs => cases hs
    | error stop => cases stop <;> cases hs

/-- No change goes on with an acquisition. -/
theorem begin_fetches (h : ∀ m', w.resources.isActive m' t = true → m' = m) {call : Call}
    (hs : (w.begin k call).2.state? = some (.acquiring held stage a)) :
    a.Fetches w.resources m t stage := by
  cases call with
  | acquire q =>
    simp only [World.begin, beginAcquire] at hs
    split at hs
    · cases hs
    · split at hs
      · cases hs
      · split at hs
        · exact fetches_acquired (Acquisition.start_fetches h) hs
        · split at hs <;> cases hs
  | event event =>
    simp only [World.begin, beginEvent] at hs
    split at hs
    · cases hs
    · simp only [beginChange] at hs
      split at hs <;> cases hs
  | close =>
    simp only [World.begin, beginChange] at hs
    split at hs <;> cases hs
  | pinned m' t' backend => exact fetches_acquired (Acquisition.start_fetches h) hs
  | settle m' t' =>
    simp only [World.begin, beginSettle] at hs
    split at hs
    · cases hs
    · split at hs <;> cases hs

theorem advance_fetches (h : ∀ m', w.resources.isActive m' t = true → m' = m) {s : TaskState}
    (hf : ∀ held stage a, s = .acquiring held stage a → a.Fetches w.resources m t stage)
    (hs : (w.advance k s).2.state? = some (.acquiring held stage a)) :
    a.Fetches w.resources m t stage := by
  cases s with
  | lock q l a' =>
    simp only [World.advance, afterLock] at hs
    split at hs
    · cases hs
    · exact fetches_acquired (Acquisition.start_fetches h) hs
  | acquiring held' stage' a' =>
    exact fetches_acquired (Acquisition.resume_fetches h w.server (hf _ _ _ rfl)) hs
  | settling t' => cases hs
  | turn change =>
    obtain ⟨_, _, _, heq⟩ := state_changed hs
    cases heq
  | loading purpose pending query =>
    have hpart := Part.advance (w := w) k (.loading purpose pending query)
    generalize w.advance k (.loading purpose pending query) = x at hpart hs
    cases hpart with
    | quiet _ _ _ _ hload _ =>
      obtain ⟨_, hnext⟩ := hload purpose pending query rfl
      cases hs.symm.trans hnext
    | answers w' _ _ _ _ =>
      obtain ⟨_, _, _, heq⟩ := state_changed hs
      cases heq

/-! ### Open transactions -/

theorem after_moves (moves : List Move) : after (moves.map .move) = play {} moves := List.foldl_map

/-- A transaction of a kind is open on a schema: the manager that has it in its table is the one that
the schema is published with, and what is pinned to it is of backends that the manager knows. -/
structure Hosts (w : World) (schema : String) (kind : TransactionKind) (m : ManagerId)
    (t : TransactionId) : Prop where
  manager : w.registry.transactionManager schema kind = .ok m
  active : w.resources.isActive m t = true
  fetches : ∀ k held stage a, (k, .acquiring held stage a) ∈ w.tasks → a.Fetches w.resources m t stage
  pinned : ∀ b c, w.resources.pinned? t b = some c → w.resources.poolOf? m b ≠ none

section Hosts
variable {schema : String} {kind : TransactionKind} {keys : List (String × String)}
  {cs : List (TaskId × Call)} {H : List Delivery} {C : List (TaskId × Call)}
  {O : List (TaskId × Outcome)}

theorem not_known_of_new (ho : w.Ordered H C O) (ht : w.resources.mutex? t = none)
    (hmem : (k, .acquiring held stage a) ∈ w.tasks) : stage.transaction? ≠ some t := by
  intro hstage
  have hpins : pinsOf (.acquiring held stage a) = some t := by cases stage <;> exact hstage
  obtain ⟨ρ, hρ, rfl⟩ := role_of_pinsOf hpins
  exact ho.affine.queued.known (k, ρ) (mem_roles_iff.2 ⟨_, hmem, hρ⟩) ht

/-- A transaction that was just begun. -/
theorem hosts_begin (ho : w.Ordered H C O) (hm : w.registry.transactionManager schema kind = .ok m)
    (ht : (w.resources.beginTransaction m).2 = .ok t) :
    (w.move (.beginTransaction m)).Hosts schema kind m t := by
  obtain ⟨⟨r, result⟩, hb⟩ : ∃ y, w.resources.beginTransaction m = y := ⟨_, rfl⟩
  rw [hb] at ht
  cases ht
  have hbegins := Resources.begins_of_ok hb
  have hr : (w.move (.beginTransaction m)).resources = r := congrArg Prod.fst hb
  refine ⟨?_, ?_, fun k held stage a hmem hstage => ?_, fun b c hc => ?_⟩
  · have hengines : (w.move (.beginTransaction m)).registry.resources.engines =
        w.registry.resources.engines := (Resources.Steady.beginTransaction w.resources m).engines
    rw [Registry.transactionManager_ok_iff] at hm ⊢
    obtain ⟨c, hc, hmanager⟩ := hm
    exact ⟨c, hc, by rw [Registry.managerOf?, hengines]; exact hmanager⟩
  · rw [hr, hbegins.active]
    simp
  · exact absurd hstage (not_known_of_new ho hbegins.new hmem)
  · rw [hr, hbegins.pinned] at hc
    obtain ⟨x, hx⟩ := Resources.mutex?_of_pinned hc
    rw [hbegins.new] at hx
    cases hx

/-- Its connections come from the pools of its manager. -/
theorem Hosts.pool_of_delivery (h : w.Hosts schema kind m t) (hs : Sound keys w) {mv : Move}
    {d : Delivery} (hd : w.delivery? mv = some d) (ht : d.transaction = some t) :
    w.resources.poolOf? m d.backend ≠ none := by
  cases mv with
  | goOn k =>
    obtain ⟨s, hlookup, hsome⟩ := Option.bind_eq_some_iff.1 hd
    have hmem := (lookup_some_iff hs.nodup k s).1 hlookup
    split at hsome
    · cases s with
      | acquiring held stage a =>
        obtain ⟨_, hb, htransaction⟩ := Acquisition.delivery?_eq hsome
        rw [hb]
        rw [ht] at htransaction
        cases stage with
        | pins t' =>
          cases htransaction
          obtain ⟨c, hc, _⟩ := Option.map_eq_some_iff.1 hsome
          exact h.pinned _ c hc
        | gate p n o =>
          rw [(h.fetches k held _ a hmem htransaction.symm).2 p n o rfl]
          exact Option.some_ne_none p
      | loading purpose pending query =>
        cases query with
        | none => cases hsome
        | some q =>
          obtain ⟨c, _, rfl⟩ := Option.map_eq_some_iff.1 hsome
          cases ht
      | lock _ _ _ | settling _ | turn _ => cases hsome
    · cases hsome
  | start _ | cancel _ | beginTransaction _ | surround _ _ _ | tune _ _ _ | collect _ _ => cases hd

/-- The schema stays published with the manager, unless it is rebuilt. -/
theorem Hosts.manager_move (h : w.Hosts schema kind m t) (hs : Sound keys w)
    (ha : Assigned Carries cs w) {mv : Move} (hc : (w.move mv).crashed = false)
    (hr : ¬ w.Rebuilds cs schema mv) :
    (w.move mv).registry.transactionManager schema kind = .ok m := by
  obtain ⟨c, hcurrent, hm⟩ := Registry.transactionManager_ok_iff.1 h.manager
  rcases hs.retains ha hcurrent mv with ⟨hrebuilds, _⟩ | ⟨_, c', hcurrent', he⟩
  · exact absurd hrebuilds hr
  · obtain ⟨x, hx, hkind⟩ := Option.bind_eq_some_iff.1 hm
    obtain ⟨y, hy, hages⟩ := (hs.follows_move mv hc).engines _ x hx
    rw [← he] at hy
    refine Registry.transactionManager_ok_iff.2 ⟨c', hcurrent', ?_⟩
    exact Option.bind_eq_some_iff.2 ⟨y, hy, (hages.manager? kind).trans hkind⟩

/-- The manager of a published schema is open, so it is not a closing that ends the transaction. -/
theorem Hosts.active_move (h : w.Hosts schema kind m t) (hs : Sound keys w) {mv : Move}
    (hc : (w.move mv).crashed = false)
    (hmanager : (w.move mv).registry.transactionManager schema kind = .ok m)
    (hne : mv ≠ .start (.settle m t)) : (w.move mv).resources.isActive m t = true := by
  refine ((lasts_move w hne).active h.active).resolve_right fun hclosed => ?_
  obtain ⟨_, _, hs'⟩ := hs.move mv hc
  obtain ⟨c, hcurrent, hm⟩ := Registry.transactionManager_ok_iff.1 hmanager
  obtain ⟨m', y, hm', hy, _, hopen, _⟩ := hs'.manager hcurrent (Registry.ne_local_of_managerOf? hm)
  cases hm.symm.trans hm'
  simp [Resources.isManagerClosed, hy, hopen] at hclosed

theorem Hosts.fetches_move (h : w.Hosts schema kind m t) (hs : Sound keys w) (ho : w.Ordered H C O)
    {mv : Move} (hc : (w.move mv).crashed = false) {held : Option LockId} {a : Acquisition}
    {stage : Stage} (hmem : (k, .acquiring held stage a) ∈ (w.move mv).tasks) :
    a.Fetches (w.move mv).resources m t stage := by
  have hmanagers := (hs.follows_move mv hc).managers
  have hunique (m' : ManagerId) (ht : w.resources.isActive m' t = true) : m' = m :=
    (ho.affine.queued.active m t h.active).2 m' ht
  rcases hs.mem_move hc hmem with ⟨hold, _⟩ | ⟨x, hpart, hstate⟩
  · exact (h.fetches k held stage a hold).of_ages hmanagers
  · refine Acquisition.Fetches.of_ages ?_ hmanagers
    cases mv with
    | start call =>
      obtain ⟨_, rfl⟩ := Prod.mk.inj (Option.some.inj hpart)
      exact begin_fetches (w := { w with started := w.started + 1 }) hunique hstate
    | goOn k' =>
      obtain ⟨s, hlookup, _, _, rfl⟩ := goOn_of_part hpart
      have hold := (lookup_some_iff hs.nodup k' s).1 hlookup
      refine advance_fetches (w := w.without k') hunique ?_ hstate
      rintro held stage a rfl
      exact h.fetches k' held stage a hold
    | cancel _ | beginTransaction _ | surround _ _ _ | tune _ _ _ | collect _ _ => cases hpart

/-- What is pinned was pinned before, or was delivered in the move. -/
theorem Hosts.pinned_move (h : w.Hosts schema kind m t) (hs : Sound keys w) (ho : w.Ordered H C O)
    {mv : Move} (hc : (w.move mv).crashed = false) {b : String} {c : Connection}
    (hp : (w.move mv).resources.pinned? t b = some c) :
    (w.move mv).resources.poolOf? m b ≠ none := by
  obtain ⟨d, hd, _, ht, rfl, _⟩ := (ho.move mv).1.affine.recorded.pinned t b c hp
  have hpool : w.resources.poolOf? m d.backend ≠ none := by
    rcases List.mem_append.1 hd with hd | hd
    · rcases (ho.affine.recorded.kept d hd t ht).2 with hold | hover
      · exact h.pinned _ _ hold
      · exact absurd ⟨m, h.active⟩ hover.1
    · exact h.pool_of_delivery hs (Option.mem_toList.1 hd) ht
  obtain ⟨p, hpoolOf⟩ := Option.ne_none_iff_exists'.1 hpool
  have hkept : (w.move mv).resources.poolOf? m d.backend = some p :=
    Resources.poolOf?_of_ages (hs.follows_move mv hc).managers hpoolOf
  rw [hkept]
  exact Option.some_ne_none p

/-- It keeps its manager, unless the schema is rebuilt or somebody ends it. -/
theorem Hosts.move (h : w.Hosts schema kind m t) (hs : Sound keys w) (ho : w.Ordered H C O)
    (ha : Assigned Carries cs w) {mv : Move} (hc : (w.move mv).crashed = false)
    (hr : ¬ w.Rebuilds cs schema mv) (hne : mv ≠ .start (.settle m t)) :
    (w.move mv).Hosts schema kind m t := by
  have hmanager := h.manager_move hs ha hc hr
  exact {
    manager := hmanager
    active := h.active_move hs hc hmanager hne
    fetches := fun _ _ _ _ hmem => h.fetches_move hs ho hc hmem
    pinned := fun _ _ hp => h.pinned_move hs ho hc hp }

end Hosts

/-! ### Runs -/

/-- No call to rebuild the schema is accepted in the moves that follow others. -/
def Spared (moves moves' : List Move) (schema : String) : Prop :=
  ∀ ms mv ms', moves' = ms ++ mv :: ms' →
    ¬ (play {} (moves ++ ms)).Rebuilds (calls {} (moves ++ ms)) schema mv

section Runs
variable {moves moves' : List Move} {schema : String} {kind : TransactionKind}

theorem not_crashed_of_append (hc : (play {} (moves ++ moves')).crashed = false) :
    (play {} moves).crashed = false := by
  rw [play_append] at hc
  exact Sound.not_crashed_of_play hc

theorem Spared.initial {ms : List Move} (h : Spared moves (moves' ++ ms) schema) :
    Spared moves moves' schema := by
  rintro ms₁ mv ms₂ rfl
  exact h ms₁ mv (ms₂ ++ ms) (by simp)

theorem Spared.final {ms : List Move} (h : Spared moves (ms ++ moves') schema) :
    Spared (moves ++ ms) moves' schema := by
  rintro ms₁ mv ms₂ rfl
  rw [List.append_assoc]
  exact h (ms ++ ms₁) mv ms₂ (List.append_assoc _ _ _).symm

/-- It is enough to look at the calls that were accepted. -/
theorem Spared.of_replies (hc : (play {} (moves ++ moves')).crashed = false)
    (h : ∀ k n call, (k, .generation n) ∈ replies (play {} moves) moves' →
      (k, call) ∈ calls {} (moves ++ moves') → ¬ call.Rebuilds schema) :
    Spared moves moves' schema := by
  rintro ms mv ms' rfl ⟨k, call, n, hcall, hreply, hr⟩
  rw [← List.append_assoc] at hc
  have hw := not_crashed_of_append hc
  rw [play_append] at hw hreply
  refine h k n call (mem_record_iff.2 ⟨ms, mv, ms', rfl, hw, hreply⟩) ?_ hr
  rw [← List.append_assoc, calls, record_append]
  exact List.mem_append_left _ hcall

theorem ordered_play (moves : List Move) : (play {} moves).Ordered
    (deliveries (moves.map .move)) (asked (moves.map .move)) (answered (moves.map .move)) :=
  after_moves moves ▸ ordered_after _

theorem lapses_play (moves moves' : List Move) :
    (play {} moves).Lapses (play {} (moves ++ moves')) := by
  rw [← after_moves, ← after_moves, List.map_append]
  exact lapses_after _ _

theorem Hosts.play (h : (play {} moves).Hosts schema kind m t)
    (hc : (play {} (moves ++ moves')).crashed = false) (hr : Spared moves moves' schema)
    (hne : .start (.settle m t) ∉ moves') :
    (World.play {} (moves ++ moves')).Hosts schema kind m t := by
  induction moves' using List.reverseRecOn with
  | nil => simpa using h
  | append_singleton ms mv ih =>
    rw [← List.append_assoc] at hc ⊢
    have hw := not_crashed_of_append hc
    have hh := ih hw hr.initial fun hmem => hne (List.mem_append_left _ hmem)
    obtain ⟨_, _, hs⟩ := Sound.start.play _ hw
    rw [play_snoc_move hw] at hc ⊢
    refine hh.move hs (ordered_play _) (.of_play kept_carries _ hw) hc (hr ms mv [] rfl) ?_
    rintro rfl
    exact hne (List.mem_append_right _ (List.mem_singleton_self _))

/-- What is pinned to a transaction stays pinned to it as long as it is open. -/
theorem pinned_play {b : String} {c : Connection}
    (hp : (play {} moves).resources.pinned? t b = some c)
    (ho : (play {} (moves ++ moves')).resources.Open t) :
    (play {} (moves ++ moves')).resources.pinned? t b = some c := by
  obtain ⟨d, hd, _, ht, rfl, rfl⟩ := (ordered_play moves).affine.recorded.pinned t b c hp
  have hmem : d ∈ deliveries ((moves ++ moves').map .move) := by
    rw [List.map_append]
    exact mem_log_append delivery? hd _
  obtain ⟨_, hcase⟩ := (ordered_play (moves ++ moves')).affine.recorded.kept d hmem t ht
  exact hcase.resolve_right fun hover => hover.1 ho

end Runs

end World

end ShardRegistry
