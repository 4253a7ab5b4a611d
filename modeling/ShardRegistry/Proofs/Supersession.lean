import ShardRegistry.Proofs.Exclusion

/-! Batches whose pool may be superseded while they wait for their lock. A batch keeps the pool and the
manager that it was given when it was started. That it finds the backend published, once it has got
the lock, does not tell that the pool is: it takes from the published pool if and only if its own one
was not closed in between, and the same holds of the manager of its transaction. -/
namespace ShardRegistry

namespace Registry
variable {g : Registry} {ps es : List Nat} {q : AcquireRequest} {l : LockId} {a : Acquisition}
  {c : SchemaContext} {p : PoolId}

theorem Backs.published_iff (hk : g.Keeps ps es) (hb : g.Backs (q.schema, q.backend) l a)
    (hr : resolve g.current q.schema q.backend = .ok (c, p)) :
    ∃ own x, a.source.pool? = some own ∧ g.resources.pools[own]? = some x ∧
      (own = p ↔ x.isClosed = false) := by
  have hslot := pool?_of_resolve hr
  obtain ⟨own, hown, hlt, _⟩ := hb.pool
  have hx := List.getElem?_eq_getElem hlt
  refine ⟨own, _, hown, hx, ?_, ?_⟩
  · rintro rfl
    obtain ⟨y, hy, hclosing⟩ := hk.closing_of_pool? hslot
    rw [hx] at hy
    cases hy
    exact congrArg (·.1) hclosing
  · intro hopen
    have hsame : some own = some p := (hb.slot_of_open hown hx hopen).1.symm.trans hslot
    exact Option.some.inj hsame

/-- A manager is closed when its engine is. -/
theorem Keeps.manager_closed (hk : g.Keeps ps es) {e m : Nat} {x : Engine} {y : Manager}
    {kind : TransactionKind} (hx : g.resources.engines[e]? = some x)
    (hm : x.manager? kind = some m) (hy : g.resources.managers[m]? = some y) :
    y.isClosed = x.isClosed := by
  have hpair : m = x.xa ∨ m = x.base := by
    cases kind with
    | «local» => cases hm
    | xa => exact .inl (Option.some.inj hm).symm
    | base => exact .inr (Option.some.inj hm).symm
  exact hk.custody.engines.manager_closed e x m y (Nat.zero_le _) hx hpair hy

/-- The engine of a published schema is open. -/
theorem Keeps.engine_open (hk : g.Keeps ps es) {schema : String} {h : Holding} {x : Engine}
    (hf : g.current.holdings.find? schema = some h)
    (hx : g.resources.engines[h.engine]? = some x) : x.isClosed = false := by
  have hmem : h.engine ∈ es ++ g.current.holdings.engines :=
    List.mem_append_right _ ((Holdings.mem_engines_iff _ _).2 ⟨schema, h, hf, rfl⟩)
  by_contra hclosed
  rw [Bool.not_eq_false] at hclosed
  exact (hk.custody.engines.closed _ x (Nat.zero_le _) hx).1 hclosed hmem

theorem Serves.published_iff (hk : g.Keeps ps es) (hb : g.Backs (q.schema, q.backend) l a)
    (hs : g.Serves q a) (hr : resolve g.current q.schema q.backend = .ok (c, p))
    {id : TransactionId} (hid : q.transaction = some id) (hkind : q.kind ≠ .local) :
    ∃ m m' y, a.source = .transaction m id a.source.pool? ∧ g.managerOf? c q.kind = some m' ∧
      g.resources.managers[m]? = some y ∧ (m = m' ↔ y.isClosed = false) := by
  obtain ⟨hf, _⟩ := resolve_ok hr
  obtain ⟨x', hx', hkinds, _⟩ := hk.managers hf
  have hopen' : x'.isClosed = false := hk.engine_open hf hx'
  obtain ⟨m, otherwise, hsource⟩ : ∃ m otherwise, a.source = .transaction m id otherwise := by
    have hasked := hs.asked
    rw [if_neg hkind, hid] at hasked
    cases hsource : a.source with
    | pool p' =>
      rw [hsource] at hasked
      cases hasked
    | transaction m t otherwise =>
      rw [hsource] at hasked
      cases hasked
      exact ⟨m, otherwise, rfl⟩
  obtain ⟨m', hm'⟩ : ∃ m', x'.manager? q.kind = some m' := by
    cases hq : q.kind with
    | «local» => exact absurd hq hkind
    | xa => exact ⟨_, rfl⟩
    | base => exact ⟨_, rfl⟩
  obtain ⟨y, hy, _⟩ := hb.manager m id otherwise hsource
  obtain ⟨e, x, hx, hm, hcase⟩ := hs.manager m id otherwise hsource
  refine ⟨m, m', y, ?_, (hkinds q.kind).trans hm', hy, ?_, ?_⟩
  · rw [hsource]
    rfl
  · rintro rfl
    exact (hk.manager_closed hx' hm' hy).trans hopen'
  · intro hopen
    have hengine : x.isClosed = false := (hk.manager_closed hx hm hy).symm.trans hopen
    rcases hcase with ⟨z, hz, hclosed⟩ | ⟨h₀, hf₀, rfl⟩
    · rw [hx] at hz
      cases hz
      rw [hengine] at hclosed
      cases hclosed
    · rw [hf] at hf₀
      cases hf₀
      have hxx : x' = x := Option.some.inj (hx'.symm.trans hx)
      rw [hxx, hm] at hm'
      exact Option.some.inj hm'

end Registry

namespace World

/-! ### Lock and source stay -/

/-- A task was started, and as long as it has not ended it has this lock and source. -/
def Bound (w : World) (t : TaskId) (bond : Option (LockId × Source)) : Prop :=
  t < w.started ∧ ∀ s, (t, s) ∈ w.tasks → s.bond? = bond

namespace Bound
variable {keys : List (String × String)} {w w' : World} {t t' : TaskId}
  {bond : Option (LockId × Source)}

theorem of_tasks (h : w.Bound t bond) (ht : w'.tasks ⊆ w.tasks) (hs : w'.started = w.started) :
    w'.Bound t bond :=
  ⟨hs ▸ h.1, fun s hmem => h.2 s (ht hmem)⟩

theorem put {x : World × Next} (h : w.Bound t bond) (ht : x.1.tasks = w.tasks)
    (hlt : t < x.1.started) (hx : t = t' → ∀ s, x.2.state? = some s → s.bond? = bond) :
    (World.put t' x).Bound t bond := by
  obtain ⟨w', next⟩ := x
  have htasks : w'.tasks = w.tasks := ht
  have hstands : ∀ s, next.state? = some s →
      World.Bound { w' with tasks := w'.tasks ++ [(t', s)] } t bond := by
    intro s hs
    refine ⟨hlt, fun s' hmem => ?_⟩
    rcases List.mem_append.1 hmem with hmem | hmem
    · exact h.2 s' (htasks ▸ hmem)
    · obtain ⟨rfl, rfl⟩ := Prod.mk.inj (List.mem_singleton.1 hmem)
      exact hx rfl _ hs
  cases next with
  | waits s => exact hstands s rfl
  | passes s => exact hstands s rfl
  | ends o => exact ⟨hlt, fun s hmem => h.2 s (htasks ▸ hmem)⟩
  | crashes => exact ⟨hlt, fun s hmem => h.2 s (htasks ▸ hmem)⟩

end Bound

theorem acquired_tasks (w : World) (y : Resources × Progress) :
    (w.acquired none y).1.tasks = w.tasks ∧ (w.acquired none y).1.started = w.started := by
  obtain ⟨r, progress⟩ := y
  cases progress with
  | waits stage a => exact ⟨rfl, rfl⟩
  | passes stage a => exact ⟨rfl, rfl⟩
  | done outcome =>
    cases outcome with
    | ok cs => exact ⟨rfl, rfl⟩
    | error stop => cases stop <;> exact ⟨rfl, rfl⟩

theorem begin_tasks (w : World) (t : TaskId) (call : Call) :
    (w.begin t call).1.tasks = w.tasks ∧ (w.begin t call).1.started = w.started := by
  cases call with
  | acquire q =>
    simp only [World.begin, beginAcquire]
    split
    · exact ⟨rfl, rfl⟩
    · split
      · exact ⟨rfl, rfl⟩
      · split
        · exact acquired_tasks _ _
        · exact ⟨rfl, rfl⟩
  | event event =>
    simp only [World.begin, beginEvent]
    split <;> exact ⟨rfl, rfl⟩
  | close => exact ⟨rfl, rfl⟩
  | pinned m transaction backend => exact acquired_tasks _ _
  | settle m transaction =>
    simp only [World.begin, beginSettle]
    split <;> exact ⟨rfl, rfl⟩

namespace Sound
variable {keys : List (String × String)} {w : World} {t : TaskId}
  {bond : Option (LockId × Source)}

theorem bound (h : Sound keys w) {s : TaskState} (hmem : (t, s) ∈ w.tasks) :
    w.Bound t s.bond? := by
  refine ⟨h.started _ hmem, fun s' hmem' => ?_⟩
  have hs := (lookup_some_iff h.nodup t s).2 hmem
  rw [(lookup_some_iff h.nodup t s').2 hmem'] at hs
  cases hs
  rfl

theorem bound_move (h : Sound keys w) (hb : w.Bound t bond) (m : Move)
    (hc : (w.move m).crashed = false) : (w.move m).Bound t bond := by
  cases m with
  | start call =>
    obtain ⟨htasks, hstarted⟩ :=
      begin_tasks { w with started := w.started + 1 } w.started call
    refine hb.put htasks (hstarted ▸ Nat.lt_succ_of_lt hb.1) fun ht => ?_
    exact absurd ht (Nat.ne_of_lt hb.1)
  | goOn t' =>
    simp only [World.move] at hc ⊢
    split
    · exact hb
    · rename_i s hs
      simp only [hs] at hc
      split
      · rename_i hgo
        simp only [hgo, if_true] at hc
        have ha := h.advances hs hgo (not_crashes hc)
        have hrest : (w.without t').Bound t bond := hb.of_tasks List.filter_sublist.subset rfl
        refine hrest.put ha.tasks (ha.started ▸ hrest.1) ?_
        rintro rfl s' hs'
        exact (ha.bonds s' hs').trans (hb.2 s ((lookup_some_iff h.nodup t s).1 hs))
      · exact hb
  | cancel t' =>
    simp only [World.move]
    split
    · exact hb
    · rename_i s hs
      obtain ⟨_, hf, _⟩ := h.without hs
      have hcalm := Calm.withdraw hf
      refine hb.of_tasks ?_ hcalm.started
      rw [hcalm.tasks]
      exact List.filter_sublist.subset
  | beginTransaction m => exact hb
  | surround factory tables server => exact hb
  | tune p gate refused => exact hb
  | collect outcomes holds => exact hb

/-- A task that takes a batch under a lock keeps the lock and its source. -/
theorem bound_play (h : Sound keys w) (hb : w.Bound t bond) (moves : List Move)
    (hc : (w.play moves).crashed = false) : (w.play moves).Bound t bond := by
  induction moves generalizing w keys with
  | nil => exact hb
  | cons m moves ih =>
    have hw := not_crashed_of_play hc
    have hplay : w.play (m :: moves) = (w.move m).play moves := by
      simp [World.play, hw]
    rw [hplay] at hc ⊢
    have hmove := not_crashed_of_play hc
    obtain ⟨keys₁, _, h₁⟩ := h.move m hmove
    exact ih h₁ (h.bound_move hb m hmove) hc

end Sound

/-! ### The pool and the manager that are asked -/

/-- A batch has got its lock and finds its backend published, with the pool `p`. From then on it asks
one pool, which is `p` if and only if it is open at that moment; and if the batch belongs to a
transaction, it asks one manager, which is that of the published schema if and only if it is open. -/
theorem published_iff_open (moves moves' : List Move) {t : TaskId} {q : AcquireRequest}
    {l : LockId} {a : Acquisition} {c : SchemaContext} {p : PoolId}
    (h : (t, .lock q l a) ∈ (play {} moves).running)
    (hholds : (play {} moves).holdsLock l t = true)
    (hr : Registry.resolve (play {} moves).registry.current q.schema q.backend = .ok (c, p)) :
    ∃ own x, (play {} moves).resources.pools[own]? = some x ∧ (own = p ↔ x.isClosed = false) ∧
      (q.transaction = none ∨ q.kind = .local → a.source = .pool own) ∧
      (∀ id, q.transaction = some id → q.kind ≠ .local → ∃ m m' y,
        a.source = .transaction m id (some own) ∧
        (play {} moves).registry.managerOf? c q.kind = some m' ∧
        (play {} moves).resources.managers[m]? = some y ∧ (m = m' ↔ y.isClosed = false)) ∧
      ∀ held stage a',
        (t, .acquiring held stage a') ∈ ((play {} moves).play (.goOn t :: moves')).running →
        held = some l ∧ a'.source = a.source ∧ ∀ p' n pins, stage = .gate p' n pins → p' = own := by
  obtain ⟨halive, hmem⟩ := mem_running_iff.1 h
  obtain ⟨keys, _, hw⟩ := Sound.start.play moves halive
  obtain ⟨ps, es, hk⟩ := hw.keeps
  obtain ⟨_, hb, hs⟩ := hw.fine _ hmem
  obtain ⟨own, x, hown, hx, hopen⟩ := hb.published_iff hk hr
  refine ⟨own, x, hx, hopen, ?_, ?_, ?_⟩
  · intro hnone
    have hasked : a.source.transaction? = none := by
      rw [hs.asked]
      rcases hnone with hnone | hnone <;> simp [hnone]
    cases hsource : a.source with
    | pool p' =>
      rw [hsource] at hown
      cases hown
      rfl
    | transaction m id otherwise =>
      rw [hsource] at hasked
      cases hasked
  · intro id hid hkind
    have hserves := hs.published_iff hk hb hr hid hkind
    rwa [hown] at hserves
  · intro held stage a' h'
    obtain ⟨halive', hmem'⟩ := mem_running_iff.1 h'
    obtain ⟨keys', _, hw'⟩ := hw.play _ halive'
    have hbond := (hw.bound_play (hw.bound hmem) _ halive').2 _ hmem'
    cases held with
    | none => cases hbond
    | some l' =>
      have hbond : some (l', a'.source) = some (l, a.source) := hbond
      obtain ⟨rfl, hsource⟩ := Prod.mk.inj (Option.some.inj hbond)
      refine ⟨rfl, hsource, fun p' n pins hstage => ?_⟩
      obtain ⟨_, _, hgate⟩ := hw'.fine _ hmem'
      have hp' := hgate p' n pins hstage
      rw [hsource, hown] at hp'
      exact (Option.some.inj hp').symm

/-- A batch that belongs to the first transaction. -/
def transactional : AcquireRequest := { firstShared with kind := .xa, transaction := some ⟨0⟩ }

/-- While the batch waits for the lock that another one holds, its backend gets a new pool. -/
def superseding : List Move :=
  [.start (.event (.schemaAdded "s" Registry.twoBackends [])), .goOn 0, .goOn 0,
    .beginTransaction 0, .start (.acquire firstShared), .start (.acquire transactional), .goOn 1,
    .start (.event (.dataSourcesChanged "s"
      (Registry.twoBackends.insert "b0" { url := "postgresql://host/d0", maxPoolSize := 3 }))),
    .goOn 3, .goOn 3, .goOn 1]

/-- The pool with number 2 is published, and the batch asks the one with number 0. -/
theorem published_iff_open_superseding :
    ∃ a c, (2, .lock transactional 0 a) ∈ (play {} superseding).running ∧
      Registry.resolve (play {} superseding).registry.current "s" "b0" = .ok (c, 2) ∧
      (∃ x, (play {} superseding).resources.pools[0]? = some x ∧ x.isClosed = true) ∧
      (∃ m m', a.source = .transaction m ⟨0⟩ (some 0) ∧
        (play {} superseding).registry.managerOf? c .xa = some m' ∧ m ≠ m') ∧
      ∃ a', (2, .acquiring (some 0) (.gate 0 2 none) a') ∈
        ((play {} superseding).play [.goOn 2]).running ∧ a'.source = a.source := by
  have hrun : (play {} superseding).running =
      [(2, .lock transactional 0 ⟨"b0", 1, .transaction 0 ⟨0⟩ (some 0), []⟩)] := rfl
  have hrun' : ((play {} superseding).play [.goOn 2]).running =
      [(2, .acquiring (some 0) (.gate 0 2 none)
        ⟨"b0", 1, .transaction 0 ⟨0⟩ (some 0), []⟩)] := rfl
  have hmem : (2, TaskState.lock transactional 0 ⟨"b0", 1, .transaction 0 ⟨0⟩ (some 0), []⟩) ∈
      (play {} superseding).running := by
    rw [hrun]
    exact List.mem_singleton_self _
  have hmem' : (2, TaskState.acquiring (some 0) (.gate 0 2 none)
      ⟨"b0", 1, .transaction 0 ⟨0⟩ (some 0), []⟩) ∈
        ((play {} superseding).play [.goOn 2]).running := by
    rw [hrun']
    exact List.mem_singleton_self _
  obtain ⟨c, hr⟩ : ∃ c, Registry.resolve (play {} superseding).registry.current "s" "b0" =
      .ok (c, 2) := ⟨_, rfl⟩
  obtain ⟨own, x, hx, hopen, _, hmanager, hlater⟩ :=
    published_iff_open superseding [] hmem rfl hr
  obtain ⟨_, _, hgate⟩ := hlater _ _ _ hmem'
  have hown : 0 = own := hgate 0 2 none rfl
  subst hown
  have hclosed : x.isClosed = true := by
    by_contra hc
    rw [Bool.not_eq_true] at hc
    exact absurd (hopen.2 hc) (by decide)
  obtain ⟨m, m', y, hsource, hm', hy, hsame⟩ := hmanager ⟨0⟩ rfl (by decide)
  refine ⟨_, c, hmem, hr, ⟨x, hx, hclosed⟩, ⟨m, m', hsource, hm', ?_⟩, _, hmem', rfl⟩
  cases hsource
  have hold : ∃ y, (play {} superseding).resources.managers[0]? = some y ∧ y.isClosed = true :=
    ⟨_, rfl, rfl⟩
  obtain ⟨z, hz, hz'⟩ := hold
  rw [hy] at hz
  cases hz
  rintro rfl
  rw [hsame.1 rfl] at hz'
  cases hz'

end World

end ShardRegistry
