import ShardRegistry.Proofs.Arrivals

/-! Batches from a pool. A request for connections of a published backend, for no open transaction, makes one
attempt at the pool after the other. It ends with as many connections as it asked for, in their order, or at
the first failure; then none of its connections is live any more. -/
namespace ShardRegistry

/-- What a batch of `n` connections comes to, from what came of its attempts: all succeed and it gets the
connections in their order, or the last one fails, and it tells how many connections it gave up. -/
inductive BatchEnds (n : Nat) : List (Except Error Connection) → Outcome → Prop where
  | whole {cs : List Connection} (hall : cs.length = n) : BatchEnds n (cs.map .ok) (.connections cs)
  | broken {cs : List Connection} (hless : cs.length < n) (e : Error) :
      BatchEnds n (cs.map .ok ++ [.error e]) (.failed (if n = 1 then e else .batch n cs.length e))

theorem BatchEnds.eq_of_connections {n : Nat} {rs : List (Except Error Connection)}
    {cs : List Connection} (h : BatchEnds n rs (.connections cs)) : rs = cs.map .ok := by
  cases h
  rfl

theorem BatchEnds.error_of_failed {n : Nat} {rs : List (Except Error Connection)} {e : Error}
    (h : BatchEnds n rs (.failed e)) : ∃ e', .error e' ∈ rs := by
  generalize ho : Outcome.failed e = o at h
  cases h with
  | whole _ => cases ho
  | broken _ e' => exact ⟨e', by simp⟩

/-- The batch of a request that has got some connections. -/
def AcquireRequest.batch (q : AcquireRequest) (source : Source) (cs : List Connection) : Acquisition :=
  { backend := q.backend, count := q.count, source, acquired := cs }

/-- What a request for a published backend comes to. -/
theorem Registry.admit_of_resolve {g : Registry} {q : AcquireRequest} {s : SchemaContext} {p : PoolId}
    (h : Registry.resolve g.current q.schema q.backend = .ok (s, p)) :
    ∃ source, g.admit q = .ok (q.batch source []) ∧ (source = .pool p ∨
      ∃ m t, q.transaction = some t ∧ g.managerOf? s q.kind = some m ∧
        source = .transaction m t (some p)) := by
  simp only [ Registry.admit, h, bind, Except.bind, pure, Except.pure]
  refine ⟨_, rfl, ?_⟩
  split
  · rename_i t m ht hm
    exact .inr ⟨m, t, ht, hm, rfl⟩
  · exact .inl rfl

/-- The source gives connections of a pool, without a transaction. -/
def Source.Gives (r : Resources) (p : PoolId) : Source → Prop
  | .pool p' => p' = p
  | .transaction m t otherwise => otherwise = some p ∧ r.isActive m t = false

theorem Source.Gives.of_managers {r r' : Resources} {p : PoolId} {source : Source}
    (h : source.Gives r p) (hm : r'.managers = r.managers) : source.Gives r' p := by
  cases source with
  | pool p' => exact h
  | transaction m t o => exact ⟨h.1, (Resources.isActive_of_managers hm m t).trans h.2⟩

namespace World
variable {w : World} {k : TaskId} {q : AcquireRequest} {p : PoolId} {source : Source}

/-- A request begins its batch at once, or asks for the lock of its backend. -/
theorem begin_acquire {a : Acquisition} (h : w.registry.admit q = .ok a) (k : TaskId) :
    q.count = 0 ∧ w.begin k (.acquire q) = (w, .ends (.connections [])) ∨
    q.count ≠ 0 ∧ (w.begin k (.acquire q) = w.acquired none (a.start w.resources k) ∨
      ∃ l, (w.begin k (.acquire q)).2.state? = some (.lock q l a) ∧
        (w.begin k (.acquire q)).1.resources.pools = w.resources.pools) := by
  simp only [World.begin, beginAcquire, h]
  split
  · rename_i hzero
    exact .inl ⟨hzero, rfl⟩
  · rename_i hzero
    refine .inr ⟨hzero, ?_⟩
    split
    · exact .inl rfl
    · refine .inr ⟨_, by split <;> rfl, ?_⟩
      simp only [Registry.lockFor]
      split <;> rfl

theorem start_eq_ask {a : Acquisition} (h : a.count < batchLimit) (r : Resources) (k : TaskId) :
    a.start r k = a.ask r k := by
  have hlarge : ¬ (a.count > 1 && a.count ≥ batchLimit) = true := by
    simp only [Bool.and_eq_true, decide_eq_true_eq]
    omega
  rw [Acquisition.start, if_neg hlarge]

/-- With its turn under the lock of its backend, which is still published, the batch begins. -/
theorem advance_lock {a : Acquisition} {l : LockId} {x : SchemaContext × PoolId}
    (h : Registry.resolve w.registry.current q.schema q.backend = .ok x) (hcount : a.count < batchLimit) :
    (w.without k).advance k (.lock q l a) = (w.without k).acquired (some l) (a.ask w.resources k) := by
  rw [← start_eq_ask hcount]
  simp only [World.advance, afterLock]
  rw [show (w.without k).registry = w.registry from rfl, h]
  rfl

/-- A batch asks the pool once more, or has got enough. -/
theorem ask_of_gives {r : Resources} (h : source.Gives r p) (hp : p < r.pools.length)
    (cs : List Connection) (k : TaskId) :
    ∃ d, (∀ p', ((q.batch source cs).ask r k).1.requestsTo p' = r.requestsTo p' + if p' = p then d else 0) ∧
      ∀ (w : World) (held : Option LockId), (w.acquired held ((q.batch source cs).ask r k)).2.Heads
        (fun s => d = 1 ∧ cs.length < q.count ∧
          ∃ n, s = .acquiring held (.gate p n none) (q.batch source cs))
        (fun o => d = 0 ∧ q.count ≤ cs.length ∧ o = .connections cs) := by
  have hask : (q.batch source cs).ask r k = if cs.length ≥ q.count then (r, .done (.ok cs))
      else (q.batch source cs).askPool r k p none := by
    simp only [Acquisition.ask, AcquireRequest.batch]
    cases source with
    | pool p' =>
      obtain rfl : p' = p := h
      rfl
    | transaction m t o =>
      obtain ⟨rfl, hactive⟩ := h
      simp [hactive]
  rw [hask]
  split
  · rename_i hle
    exact ⟨0, fun p' => by simp, fun w held => ⟨rfl, hle, rfl⟩⟩
  · rename_i hless
    have hless := Nat.lt_of_not_le hless
    refine ⟨1, Resources.requestsTo_askPool hp _ k none, fun w held => ?_⟩
    rw [Acquisition.askPool]
    split <;> exact ⟨rfl, hless, _, rfl⟩

/-! ### Requests in undisturbed runs -/

/-- A request for a published backend, in moves in which no change of the registry is under way. -/
structure Requested (moves ms : List Move) (q : AcquireRequest) (s : SchemaContext) (p : PoolId) :
    Prop where
  published : Registry.resolve (play {} moves).registry.current q.schema q.backend = .ok (s, p)
  undisturbed : (play {} moves).Undisturbed ms
  /-- The connections that are asked for fit in the memory. -/
  count : q.count < batchLimit
  alive : ((play {} moves).play (.start (.acquire q) :: ms)).crashed = false

/-- The request names a transaction of its schema and kind that is open. -/
def Joins (w : World) (q : AcquireRequest) (m : ManagerId) (t : TransactionId) : Prop :=
  q.transaction = some t ∧ w.registry.transactionManager q.schema q.kind = .ok m ∧
    w.resources.isActive m t = true

section
variable {moves ms : List Move} {s : SchemaContext}

namespace Requested

theorem initial {ms' : List Move} (h : Requested moves ms q s p) (hms : ms' <+: ms) :
    Requested moves ms' q s p := by
  obtain ⟨ms'', rfl⟩ := hms
  refine ⟨h.published, h.undisturbed.initial, h.count, ?_⟩
  have halive := h.alive
  rw [← List.cons_append, play_append] at halive
  exact Sound.not_crashed_of_play halive

theorem begun (h : Requested moves ms q s p) :
    (play {} moves).Undisturbed (.start (.acquire q) :: ms) := by
  refine ⟨h.undisturbed.tasks, fun call hmem => ?_⟩
  rcases List.mem_cons.1 hmem with heq | hmem
  · cases heq
    exact id
  · exact h.undisturbed.calls call hmem

theorem sound (h : Requested moves ms q s p) : ∃ keys, Sound keys (play {} moves) := by
  obtain ⟨keys, _, hs⟩ := Sound.start.play moves (Sound.not_crashed_of_play h.alive)
  exact ⟨keys, hs⟩

theorem resolve (h : Requested moves ms q s p) :
    Registry.resolve ((play {} moves).play (.start (.acquire q) :: ms)).registry.current q.schema
        q.backend = .ok (s, p) ∧
      p < ((play {} moves).play (.start (.acquire q) :: ms)).resources.pools.length := by
  obtain ⟨_, hs⟩ := h.sound
  exact h.begun.resolve hs h.alive h.published

theorem pool_lt (h : Requested moves ms q s p) : p < (play {} moves).resources.pools.length := by
  obtain ⟨_, hs⟩ := h.sound
  obtain ⟨_, _, hk⟩ := hs.keeps
  obtain ⟨x, hx, _⟩ := hk.closing_of_pool? (Registry.pool?_of_resolve h.published)
  exact (List.getElem?_eq_some_iff.1 hx).1

theorem manager {m : ManagerId} (h : Requested moves ms q s p)
    (hm : (play {} moves).registry.managerOf? s q.kind = some m) :
    (play {} moves).registry.transactionManager q.schema q.kind = .ok m := by
  have hpublished := h.published
  simp only [Registry.resolve] at hpublished
  split at hpublished
  · cases hpublished
  · rename_i c hc
    split at hpublished
    · cases hpublished
    · cases hpublished
      exact Registry.transactionManager_ok_iff.2 ⟨c, hc, hm⟩

/-- A batch that names no open transaction takes its connections from the published pool. -/
theorem gives {ms' : List Move} (h : Requested moves ms q s p) (hms : ms' <+: .start (.acquire q) :: ms)
    (hplain : ∀ m t, ¬ ((play {} moves).play ms').Joins q m t)
    (hsource : source = .pool p ∨ ∃ m t, q.transaction = some t ∧
      (play {} moves).registry.managerOf? s q.kind = some m ∧ source = .transaction m t (some p)) :
    source.Gives ((play {} moves).play ms').resources p := by
  rcases hsource with rfl | ⟨m, t, ht, hm, rfl⟩
  · rfl
  · refine ⟨rfl, ?_⟩
    obtain ⟨ms'', hms⟩ := hms
    have hundisturbed : (play {} moves).Undisturbed (ms' ++ ms'') := hms ▸ h.begun
    have halive : ((play {} moves).play (ms' ++ ms'')).crashed = false := hms ▸ h.alive
    rw [play_append] at halive
    have hmanager := hundisturbed.initial.transactionManager
      (by rw [play_append]; exact Sound.not_crashed_of_play halive) (h.manager hm)
    rw [play_append] at hmanager
    cases hactive : ((play {} moves).play ms').resources.isActive m t with
    | false => rfl
    | true => exact absurd ⟨ht, hmanager, hactive⟩ (hplain m t)

end Requested

/-! ### Following a batch from a pool -/

/-- Where a task stands that takes a batch from a pool, after what it did so far. -/
def Drawing (w : World) (q : AcquireRequest) (source : Source) (p : PoolId) (ms : List Move) :
    TaskState → Prop
  | .lock q' _ a => q' = q ∧ a = q.batch source [] ∧
      Made w w.started p (.start (.acquire q) :: ms) [] 0
  | .acquiring _ stage a => ∃ n cs, stage = .gate p n none ∧ a = q.batch source cs ∧
      cs.length < q.count ∧ Made w w.started p (.start (.acquire q) :: ms) (cs.map .ok) (cs.length + 1)
  | .settling _ | .turn _ | .loading _ _ _ => False

/-- What it replies: what comes of its attempts, each of which is a request to the pool. -/
def Drawn (w : World) (q : AcquireRequest) (p : PoolId) (ms : List Move) (o : Outcome) : Prop :=
  ∃ rs, Made w w.started p (.start (.acquire q) :: ms) rs rs.length ∧ BatchEnds q.count rs o

theorem Drawn.whole (cs : List Connection) (hle : cs.length ≤ q.count) (hall : q.count ≤ cs.length)
    (h : Made w w.started p (.start (.acquire q) :: ms) (cs.map .ok) cs.length) :
    w.Drawn q p ms (.connections cs) :=
  ⟨cs.map .ok, by rwa [List.length_map], .whole (Nat.le_antisymm hle hall)⟩

/-- After the batch asked the pool once more, or had got enough. -/
theorem heads_of_asked (cs : List Connection) {d : Nat} {held : Option LockId} {next : Next}
    (hle : cs.length ≤ q.count)
    (h : Made w w.started p (.start (.acquire q) :: ms) (cs.map .ok) (cs.length + d))
    (hnext : next.Heads
      (fun s => d = 1 ∧ cs.length < q.count ∧
        ∃ n, s = .acquiring held (.gate p n none) (q.batch source cs))
      (fun o => d = 0 ∧ q.count ≤ cs.length ∧ o = .connections cs)) :
    next.Heads (w.Drawing q source p ms) (w.Drawn q p ms) := by
  refine hnext.imp ?_ ?_
  · rintro _ ⟨rfl, hless, n, rfl⟩
    exact ⟨n, cs, rfl, rfl, hless, h⟩
  · rintro _ ⟨rfl, hall, rfl⟩
    exact .whole cs hle hall h

/-- How the task of the request begins: it asks for nothing, or for its first connection, or for the lock of
the backend. -/
theorem Requested.begins {P : TaskState → Prop} {Q : Outcome → Prop} (h : Requested moves ms q s p)
    (hadmitted : Registry.admit (play {} moves).registry q = .ok (q.batch source []))
    (hempty : q.count = 0 → Made (play {} moves) (play {} moves).started p [.start (.acquire q)] [] 0 →
      Q (.connections []))
    (hasks : ∀ w : World, (∀ d, (∀ p', ((q.batch source []).ask (play {} moves).resources
        (play {} moves).started).1.requestsTo p' =
          (play {} moves).resources.requestsTo p' + if p' = p then d else 0) →
        Made (play {} moves) (play {} moves).started p [.start (.acquire q)] [] d) →
      (w.acquired none ((q.batch source []).ask (play {} moves).resources
        (play {} moves).started)).2.Heads P Q)
    (hlock : ∀ l, Made (play {} moves) (play {} moves).started p [.start (.acquire q)] [] 0 →
      P (.lock q l (q.batch source []))) :
    ({ play {} moves with started := (play {} moves).started + 1 }.begin (play {} moves).started
      (.acquire q)).2.Heads P Q := by
  have hmove : ((play {} moves).move (.start (.acquire q))).resources = ({ play {} moves with
      started := (play {} moves).started + 1 }.begin (play {} moves).started (.acquire q)).1.resources :=
    congrArg Registry.resources (registry_put _ _)
  have hmade {d : Nat} (hd : ∀ p', ((play {} moves).move (.start (.acquire q))).resources.requestsTo p' =
      (play {} moves).resources.requestsTo p' + if p' = p then d else 0) :=
    Made.start (Sound.not_crashed_of_play h.alive) hd
  rcases begin_acquire (w := { play {} moves with started := (play {} moves).started + 1 }) hadmitted
    (play {} moves).started with ⟨hzero, hbegin⟩ | ⟨_, hbegin | ⟨l, hstate, hpools⟩⟩
  · rw [hbegin] at hmove ⊢
    exact hempty hzero (hmade fun p' => by rw [hmove]; simp [World.resources])
  · rw [start_eq_ask h.count] at hbegin
    rw [hbegin] at hmove ⊢
    refine hasks _ fun d hd => hmade fun p' => ?_
    rw [hmove, requestsTo_acquired]
    exact hd p'
  · have hmade := hmade (d := 0) fun p' => by
      rw [hmove, Resources.requestsTo_of_pools hpools]
      simp [World.resources]
    generalize World.begin _ _ _ = x at hstate
    obtain ⟨w', next⟩ := x
    cases next <;> cases hstate <;> exact hlock l hmade

theorem Requested.begin_drawing (h : Requested moves ms q s p)
    (hadmitted : Registry.admit (play {} moves).registry q = .ok (q.batch source []))
    (hgives : source.Gives (play {} moves).resources p) :
    ({ play {} moves with started := (play {} moves).started + 1 }.begin (play {} moves).started
      (.acquire q)).2.Heads ((play {} moves).Drawing q source p []) ((play {} moves).Drawn q p []) := by
  refine h.begins hadmitted (fun hzero hmade => .whole [] (Nat.zero_le _) (Nat.le_of_eq hzero) hmade)
    (fun w' hmade => ?_) fun l hmade => ⟨rfl, rfl, hmade⟩
  obtain ⟨d, hrequests, hnext⟩ := ask_of_gives (q := q) hgives h.pool_lt [] (play {} moves).started
  exact heads_of_asked [] (Nat.zero_le _) (by simpa using hmade d hrequests) (hnext w' none)

/-- The task of a request goes on from where it stands after the moves. -/
structure GoesOn (moves ms : List Move) (q : AcquireRequest) (s : SchemaContext) (p : PoolId)
    (state : TaskState) : Prop where
  requested : Requested moves (ms ++ [.goOn (play {} moves).started]) q s p
  lookup : ((play {} moves).play (.start (.acquire q) :: ms)).tasks.lookup (play {} moves).started =
    some state
  may : ((play {} moves).play (.start (.acquire q) :: ms)).mayGoOn (play {} moves).started state = true

namespace GoesOn
variable {state : TaskState} {rs : List (Except Error Connection)} {n d : Nat}

theorem before (h : GoesOn moves ms q s p state) : Requested moves ms q s p :=
  h.requested.initial (List.prefix_append _ _)

/-- What the task did before, and does now. -/
theorem made (h : GoesOn moves ms q s p state)
    (hmade : Made (play {} moves) (play {} moves).started p (.start (.acquire q) :: ms) rs n)
    (hd : ∀ p', ((((play {} moves).play (.start (.acquire q) :: ms)).without
      (play {} moves).started).advance (play {} moves).started state).1.resources.requestsTo p' =
        ((play {} moves).play (.start (.acquire q) :: ms)).resources.requestsTo p' +
          if p' = p then d else 0) :
    Made (play {} moves) (play {} moves).started p
      (.start (.acquire q) :: (ms ++ [.goOn (play {} moves).started]))
      (rs ++ (state.attempt? ((play {} moves).play (.start (.acquire q) :: ms)).resources
        ((play {} moves).play (.start (.acquire q) :: ms)).server).toList) (n + d) :=
  hmade.goOn h.before.alive h.lookup h.may hd

/-- One more part of a batch from a pool: its turn under the lock of the backend, or the end of a stay in the
pool. -/
theorem drawing (h : GoesOn moves ms q s p state)
    (hgives : source.Gives ((play {} moves).play (.start (.acquire q) :: ms)).resources p)
    (hdrawing : (play {} moves).Drawing q source p ms state) :
    ((((play {} moves).play (.start (.acquire q) :: ms)).without (play {} moves).started).advance
      (play {} moves).started state).2.Heads
        ((play {} moves).Drawing q source p (ms ++ [.goOn (play {} moves).started]))
        ((play {} moves).Drawn q p (ms ++ [.goOn (play {} moves).started])) := by
  obtain ⟨hresolve, hp⟩ := h.before.resolve
  have hmade {rs : List (Except Error Connection)} {n d : Nat}
      (hbefore : Made (play {} moves) (play {} moves).started p (.start (.acquire q) :: ms) rs n) :=
    h.made (d := d) hbefore
  generalize (play {} moves).play (.start (.acquire q) :: ms) = w at *
  cases state with
  | lock q' l a =>
    obtain ⟨rfl, rfl, hbefore⟩ := hdrawing
    obtain ⟨d, hrequests, hnext⟩ := ask_of_gives (q := q') hgives hp [] (play {} moves).started
    rw [advance_lock hresolve h.requested.count] at hmade ⊢
    have hafter := hmade (d := d) hbefore fun p' => by
      rw [requestsTo_acquired]
      exact hrequests p'
    exact heads_of_asked [] (Nat.zero_le _) (by simpa [TaskState.attempt?] using hafter) (hnext _ _)
  | acquiring held stage a =>
    obtain ⟨n, cs, rfl, rfl, hless, hbefore⟩ := hdrawing
    have hpart (k : TaskId) : (w.without k).advance k (.acquiring held (.gate p n none) (q.batch source cs)) =
        (w.without k).acquired held ((q.batch source cs).afterGate w.resources w.server k p n none) := rfl
    rw [hpart] at hmade ⊢
    simp only [TaskState.attempt?, Acquisition.afterGate] at hmade ⊢
    have hleave := w.resources.requestsTo_leavePool w.server p n
    have hmanagers := congrArg Prod.fst (w.resources.table_leavePool w.server p n)
    have hpools := congrArg Inventory.pools (w.resources.inventory_leavePool w.server p n)
    generalize w.resources.leavePool w.server p n = x at *
    obtain ⟨r, attempt⟩ := x
    cases attempt with
    | error e =>
      have hafter := hmade (d := 0) hbefore fun p' => by
        rw [requestsTo_acquired]
        simpa using hleave p'
      refine ⟨cs.map .ok ++ [.error e], ?_, .broken hless e⟩
      simpa using hafter
    | ok c =>
      obtain ⟨d, hrequests, hnext⟩ := ask_of_gives (q := q) (hgives.of_managers hmanagers)
        (Nat.lt_of_lt_of_eq hp hpools.symm) (cs ++ [c]) (play {} moves).started
      have hafter := hmade (d := d) hbefore fun p' => by
        rw [requestsTo_acquired, ← hleave p']
        exact hrequests p'
      refine heads_of_asked (cs ++ [c]) (by simpa using Nat.succ_le_of_lt hless) ?_ (hnext _ _)
      simpa using hafter
  | settling _ | turn _ | loading _ _ _ => exact hdrawing.elim

end GoesOn

/-- Following the task of a request. -/
theorem Requested.follows {P : List Move → TaskState → Prop} {Q : List Move → Outcome → Prop}
    (h : Requested moves ms q s p)
    (hbegin : ({ play {} moves with started := (play {} moves).started + 1 }.begin (play {} moves).started
      (.acquire q)).2.Heads (P []) (Q []))
    (hpart : ∀ ms₁ state, ms₁ ++ [.goOn (play {} moves).started] <+: ms → GoesOn moves ms₁ q s p state →
      P ms₁ state → ((((play {} moves).play (.start (.acquire q) :: ms₁)).without
        (play {} moves).started).advance (play {} moves).started state).2.Heads
          (P (ms₁ ++ [.goOn (play {} moves).started])) (Q (ms₁ ++ [.goOn (play {} moves).started])))
    (hother : ∀ ms₁ mv, ms₁ ++ [mv] <+: ms →
      (∀ x, ((play {} moves).play (.start (.acquire q) :: ms₁)).part? mv ≠
        some ((play {} moves).started, x)) →
      (∀ state, P ms₁ state → P (ms₁ ++ [mv]) state) ∧ ∀ o, Q ms₁ o → Q (ms₁ ++ [mv]) o) :
    (∀ state, ((play {} moves).started, state) ∈
      ((play {} moves).play (.start (.acquire q) :: ms)).tasks → P ms state) ∧
    ∀ o, ((play {} moves).started, o) ∈ replies (play {} moves) (.start (.acquire q) :: ms) →
      Q ms o ∧ ∀ state, ((play {} moves).started, state) ∉
        ((play {} moves).play (.start (.acquire q) :: ms)).tasks := by
  obtain ⟨_, hs⟩ := h.sound
  refine hs.accompanied hbegin h.alive ?_ ?_
  · rintro ms₁ ms₂ state rfl hlookup hgo hstands
    have hms : ms₁ ++ [.goOn (play {} moves).started] <+:
        ms₁ ++ .goOn (play {} moves).started :: ms₂ := ⟨ms₂, by simp⟩
    exact hpart ms₁ state hms ⟨h.initial hms, hlookup, hgo⟩ hstands
  · rintro ms₁ mv ms₂ rfl hnot
    exact hother ms₁ mv ⟨ms₂, by simp⟩ hnot

/-- The request names no transaction that is open in some moment. -/
def Plain (moves ms : List Move) (q : AcquireRequest) : Prop :=
  ∀ ms', ms' <+: .start (.acquire q) :: ms → ∀ m t, ¬ ((play {} moves).play ms').Joins q m t

/-- After all moves: where the task of the request stands, and what it replied. -/
theorem Requested.drawn (h : Requested moves ms q s p) (hplain : Plain moves ms q) : ∃ source,
    source.Gives ((play {} moves).play (.start (.acquire q) :: ms)).resources p ∧
    (∀ state, ((play {} moves).started, state) ∈
      ((play {} moves).play (.start (.acquire q) :: ms)).tasks →
        (play {} moves).Drawing q source p ms state) ∧
    ∀ o, ((play {} moves).started, o) ∈ replies (play {} moves) (.start (.acquire q) :: ms) →
      (play {} moves).Drawn q p ms o ∧
      ∀ state, ((play {} moves).started, state) ∉
        ((play {} moves).play (.start (.acquire q) :: ms)).tasks := by
  obtain ⟨source, hadmitted, hsource⟩ := Registry.admit_of_resolve h.published
  have hgives {ms' : List Move} (hms : ms' <+: .start (.acquire q) :: ms) :
      source.Gives ((play {} moves).play ms').resources p := h.gives hms (hplain ms' hms) hsource
  refine ⟨source, hgives (List.prefix_refl _), h.follows ?_ ?_ ?_⟩
  · exact h.begin_drawing hadmitted (hgives List.nil_prefix)
  · intro ms₁ state hms hgoes hdrawing
    exact hgoes.drawing (hgives ((List.prefix_cons_inj _).2 ((List.prefix_append _ _).trans hms))) hdrawing
  · intro ms₁ mv hms hnot
    have hother {rs : List (Except Error Connection)} {n : Nat}
        (hmade : Made (play {} moves) (play {} moves).started p (.start (.acquire q) :: ms₁) rs n) :
        Made (play {} moves) (play {} moves).started p (.start (.acquire q) :: (ms₁ ++ [mv])) rs n :=
      hmade.other (h.initial ((List.prefix_append _ _).trans hms)).alive hnot
    refine ⟨fun state hdrawing => ?_, fun o ⟨rs, hmade, hends⟩ => ⟨rs, hother hmade, hends⟩⟩
    cases state with
    | lock q' l a =>
      obtain ⟨rfl, rfl, hmade⟩ := hdrawing
      exact ⟨rfl, rfl, hother hmade⟩
    | acquiring held stage a =>
      obtain ⟨n, cs, rfl, rfl, hless, hmade⟩ := hdrawing
      exact ⟨n, cs, rfl, rfl, hless, hother hmade⟩
    | settling _ | turn _ | loading _ _ _ => exact hdrawing

/-- A task that waits for its turn under the lock of a backend has it. -/
def Turn (w : World) (k : TaskId) : TaskState → Prop
  | .lock _ l _ => w.holdsLock l k = true
  | .acquiring _ _ _ | .settling _ | .turn _ | .loading _ _ _ => True

/-- The task replies when it goes on often enough. -/
theorem Requested.drawing_arrives {state : TaskState} (h : Requested moves ms q s p)
    (hgives : source.Gives ((play {} moves).play (.start (.acquire q) :: ms)).resources p)
    (hmem : ((play {} moves).started, state) ∈ ((play {} moves).play (.start (.acquire q) :: ms)).tasks)
    (hdrawing : (play {} moves).Drawing q source p ms state)
    (hturn : ((play {} moves).play (.start (.acquire q) :: ms)).Turn (play {} moves).started state) :
    ∃ j o, ((play {} moves).started, o) ∈
      replies ((play {} moves).play (.start (.acquire q) :: ms))
        (List.replicate j (.goOn (play {} moves).started)) := by
  have halive := h.alive
  rw [← play_append] at hgives hmem hturn halive ⊢
  have hclears (cs : List Connection) : (play {} (moves ++ .start (.acquire q) :: ms)).Clears
      (play {} moves).started (q.batch source cs) := by
    rintro m t o hsource hactive
    obtain rfl : source = .transaction m t o := hsource
    rw [hgives.2] at hactive
    cases hactive
  cases state with
  | lock q' l a =>
    obtain ⟨rfl, rfl, _⟩ := hdrawing
    exact arrives_of_lock halive hmem hturn h.count (hclears [])
  | acquiring held stage a =>
    obtain ⟨n, cs, rfl, rfl, _⟩ := hdrawing
    refine Nearing.arrives ⟨halive, held, _, _, hmem, Nat.lt_succ_self _, h.count, ?_, hclears cs⟩
    exact fun _ heq => by cases heq
  | settling _ | turn _ | loading _ _ _ => exact hdrawing.elim

end

end World

end ShardRegistry
