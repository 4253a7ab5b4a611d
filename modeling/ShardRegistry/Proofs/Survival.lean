import ShardRegistry.Proofs.Completion
import ShardRegistry.Proofs.Forgetting
import ShardRegistry.Proofs.Leaks

/-! Survival of transactions. An open transaction survives every change that does not rebuild its schema:
it keeps the connections that are pinned to it, and can be ended. A change that rebuilds the schema ends
it for good. -/
namespace ShardRegistry

namespace World
variable {keys : List (String × String)} {w : World} {k : TaskId} {m : ManagerId} {t : TransactionId}
  {moves moves' : List Move} {schema : String} {kind : TransactionKind}

/-! ### Tasks that deal with a transaction -/

theorem open_of_begin_settling {call : Call}
    (h : (w.begin k call).2.state? = some (.settling t)) : w.resources.Open t := by
  have hacquired {held : Option LockId} {y : Resources × Progress}
      (h : (w.acquired held y).2.state? = some (.settling t)) : w.resources.Open t := by
    obtain ⟨_, _, heq⟩ := state_acquired w h
    cases heq
  cases call with
  | acquire q =>
    simp only [World.begin, beginAcquire] at h
    split at h
    · cases h
    · split at h
      · cases h
      · split at h
        · exact hacquired h
        · split at h <;> cases h
  | event event =>
    simp only [World.begin, beginEvent] at h
    split at h
    · cases h
    · simp only [beginChange] at h
      split at h <;> cases h
  | close =>
    simp only [World.begin, beginChange] at h
    split at h <;> cases h
  | pinned m' t' backend => exact hacquired h
  | settle m' t' =>
    simp only [World.begin, beginSettle] at h
    split at h
    · cases h
    · rename_i r hr
      have hopen := (Resources.dropTransaction_ok hr).1
      split at h <;> cases h <;> exact ⟨m', hopen⟩

theorem advance_ne_settling (w : World) (k : TaskId) (s : TaskState) (t : TransactionId) :
    (w.advance k s).2.state? ≠ some (.settling t) := by
  intro h
  have hpart := Part.advance (w := w) k s
  generalize w.advance k s = x at hpart h
  cases hpart with
  | quiet _ _ _ _ _ hstate =>
    rcases hstate _ h with ⟨_, _, _, heq⟩ | ⟨_, _, _, _, _, heq⟩ <;> cases heq
  | opens change =>
    obtain ⟨_, _, _, heq⟩ := state_changed h
    cases heq
  | answers w' _ _ _ _ =>
    obtain ⟨_, _, _, heq⟩ := state_changed h
    cases heq

theorem settling_of_role {s : TaskState} {t' : TransactionId} (h : s.role? = some (.settles t')) :
    s = .settling t' := by
  cases s with
  | acquiring held stage a =>
    cases stage with
    | pins _ => cases h
    | gate p n o => cases o <;> cases h
  | settling t' =>
    cases h
    rfl
  | lock _ _ _ | turn _ | loading _ _ _ => cases h

/-- Nobody begins to deal with a transaction that is not open. -/
theorem Sound.deals (hs : Sound keys w) {H : List Delivery} {C : List (TaskId × Call)}
    {O : List (TaskId × Outcome)} (ho : w.Ordered H C O) (ht : ¬ w.resources.Open t) {mv : Move}
    (hc : (w.move mv).crashed = false) {e : TaskId × TaskState} (he : e ∈ (w.move mv).tasks)
    (hp : pinsOf e.2 = some t) : ∃ s, (e.1, s) ∈ w.tasks ∧ pinsOf s = some t := by
  rcases hs.mem_move hc he with ⟨hold, _⟩ | ⟨x, hpart, hstate⟩
  · exact ⟨e.2, hold, hp⟩
  · obtain ⟨ρ, hρ, rfl⟩ := role_of_pinsOf hp
    have hrole : x.2.role? = some ρ := by rw [Next.role?, hstate, Option.bind_some, hρ]
    cases mv with
    | start call =>
      obtain ⟨_, rfl⟩ := Prod.mk.inj (Option.some.inj hpart)
      have hk : ∀ e ∈ w.tasks, e.1 ≠ w.started := fun e he => Nat.ne_of_lt (hs.started e he)
      have hlands := Lands.begin (w := { w with started := w.started + 1 }) ho.affine hk call
      rcases hlands.entitled ρ hrole with hends | hopen | ⟨_, hnone, _⟩
      · rw [hends] at hρ
        rw [settling_of_role hρ] at hstate
        exact absurd (open_of_begin_settling (w := { w with started := w.started + 1 }) hstate) ht
      · exact absurd hopen ht
      · cases hnone
    | goOn k =>
      obtain ⟨s, hlookup, hgo, hk, rfl⟩ := goOn_of_part hpart
      have haffine := ho.affine.congr (mem_roles_without hs.nodup hlookup)
      have hlands := Lands.advance (w := w.without k) haffine Sound.ne_of_mem_without hgo
      rcases hlands.entitled ρ hrole with hends | hopen | ⟨ρ₀, hρ₀, heq, _⟩
      · rw [hends] at hρ
        rw [settling_of_role hρ] at hstate
        exact absurd hstate (advance_ne_settling _ _ _ _)
      · exact absurd hopen ht
      · rw [hk, ← heq]
        exact ⟨s, (lookup_some_iff hs.nodup k s).1 hlookup, pinsOf_of_role hρ₀⟩
    | cancel _ | beginTransaction _ | surround _ _ _ | tune _ _ _ | collect _ _ => cases hpart

/-- So those that deal with it were started before. -/
theorem deals_play (hknown : (play {} moves).resources.mutex? t ≠ none)
    (ht : ¬ (play {} moves).resources.Open t) (hc : (play {} (moves ++ moves')).crashed = false)
    {e : TaskId × TaskState} (he : e ∈ (play {} (moves ++ moves')).tasks)
    (hp : pinsOf e.2 = some t) : e.1 < (play {} moves).started := by
  induction moves' using List.reverseRecOn generalizing e with
  | nil =>
    rw [List.append_nil] at hc he
    obtain ⟨_, _, hs⟩ := Sound.start.play moves hc
    exact hs.started e he
  | append_singleton ms mv ih =>
    rw [← List.append_assoc] at hc he
    have hw := not_crashed_of_append hc
    obtain ⟨_, _, hs⟩ := Sound.start.play _ hw
    rw [play_snoc_move hw] at hc he
    obtain ⟨s, hmem, hs'⟩ := hs.deals (ordered_play _)
      ((lapses_play moves ms).resources.closed hknown ht) hc he hp
    exact ih (e := (e.1, s)) hw hmem hs'

/-! ### Rebuilt schemas -/

/-- All along a run the others keep what they rely on. -/
theorem follows_play (hc : (play {} (moves ++ moves')).crashed = false) :
    (play {} moves).registry.Follows (play {} (moves ++ moves')).registry := by
  induction moves' using List.reverseRecOn with
  | nil =>
    rw [List.append_nil]
    exact .steady (.refl _)
  | append_singleton ms mv ih =>
    rw [← List.append_assoc] at hc ⊢
    have hw := not_crashed_of_append hc
    obtain ⟨_, _, hs⟩ := Sound.start.play _ hw
    rw [play_snoc_move hw] at hc ⊢
    exact (ih hw).trans (hs.follows_move mv hc)

/-- A change that rebuilds the schema closes the engine that it had at any time before. -/
theorem engineClosed_of_rebuilds {c : Stamped SchemaContext} {mv : Move}
    (hcurrent : (play {} moves).registry.current.schema? schema = some c)
    (hc : (play {} (moves ++ moves' ++ [mv])).crashed = false)
    (hr : (play {} (moves ++ moves')).Rebuilds (calls {} (moves ++ moves')) schema mv) :
    (play {} (moves ++ moves' ++ [mv])).resources.EngineClosed c.value.engine := by
  have hw := not_crashed_of_append hc
  obtain ⟨_, _, hs⟩ := Sound.start.play _ hw
  rw [play_snoc_move hw] at hc ⊢
  rcases (follows_play hw).schemas schema _ (Snapshot.find?_of_schema? hcurrent) with
    ⟨x, hx, hclosed⟩ | ⟨h', hfind, he⟩
  · obtain ⟨y, hy, hages⟩ := (hs.follows_move mv hc).engines _ x hx
    exact ⟨y, hy, hages.2 hclosed⟩
  · -- it is still published with that engine
    rw [Snapshot.find?_holdings] at hfind
    obtain ⟨c', hcurrent', rfl⟩ := Option.map_eq_some_iff.1 hfind
    have hretains := hs.retains (.of_play kept_carries _ hw) hcurrent' mv
    have he : c'.value.engine = c.value.engine := he
    rw [he] at hretains
    exact hretains.elim And.right fun h => absurd hr h.1

/-- The transactions of a closed engine have ended. -/
theorem not_active_of_engineClosed {e : EngineId} {x : Engine}
    (hx : (play {} moves).resources.engines[e]? = some x) (hm : x.manager? kind = some m)
    (hclosed : (play {} moves).resources.EngineClosed e) :
    (play {} moves).resources.isActive m t = false := by
  obtain ⟨y, hy, hyclosed⟩ := hclosed
  cases hx.symm.trans hy
  have hsealed := sealed_after (moves.map .move)
  rw [after_moves] at hsealed
  obtain ⟨hxa, hbase⟩ := (hsealed e x hx).2 hyclosed
  have hmanager : (play {} moves).resources.isManagerClosed m = true := by
    cases kind with
    | «local» => cases hm
    | xa =>
      cases hm
      exact hxa
    | base =>
      cases hm
      exact hbase
  cases hactive : (play {} moves).resources.isActive m t with
  | false => rfl
  | true =>
    rw [(ordered_play moves).affine.queued.opened m t hactive] at hmanager
    cases hmanager

/-- So a rebuilt schema has lost the transactions that were open on it. -/
theorem Hosts.not_open_of_rebuilds (h : (World.play {} moves).Hosts schema kind m t) {mv : Move}
    (hc : (World.play {} (moves ++ moves' ++ [mv])).crashed = false)
    (hr : (World.play {} (moves ++ moves')).Rebuilds (calls {} (moves ++ moves')) schema mv) :
    ¬ (World.play {} (moves ++ moves' ++ [mv])).resources.Open t := by
  obtain ⟨c, hcurrent, hm⟩ := Registry.transactionManager_ok_iff.1 h.manager
  obtain ⟨x, hx, hkind⟩ := Option.bind_eq_some_iff.1 hm
  have hclosed := engineClosed_of_rebuilds hcurrent hc hr
  obtain ⟨hknown, hunique⟩ := (ordered_play moves).affine.queued.active m t h.active
  rw [List.append_assoc] at hc hclosed ⊢
  obtain ⟨y, hy, hages⟩ := (follows_play hc).engines _ x hx
  rintro ⟨m', hactive⟩
  -- no other manager ever gets it
  obtain rfl : m' = m := hunique m' ((lapses_play moves _).resources.active m' t hknown hactive)
  rw [not_active_of_engineClosed hy ((hages.manager? kind).trans hkind) hclosed] at hactive
  cases hactive

/-! ### Survival -/

/-- The last of the moves opens the transaction on the schema. -/
def Opens (moves : List Move) (schema : String) (kind : TransactionKind) (m : ManagerId)
    (t : TransactionId) : Prop :=
  ∃ ms, moves = ms ++ [.beginTransaction m] ∧
    (play {} ms).registry.transactionManager schema kind = .ok m ∧
    ((play {} ms).registry.beginTransaction schema kind).2 = .ok t

/-- Whoever ends the transaction, with whichever manager, is refused, and nothing changes. -/
def Refuses (w : World) (t : TransactionId) : Prop :=
  ∀ m, ∃ e, (∀ x, w.resources.managers[m]? = some x → e = x.notActive t) ∧
    w.reply? (.start (.settle m t)) = some (w.started, .failed e) ∧
    (w.move (.start (.settle m t))).resources = w.resources

/-- The transaction can be ended, and that once. -/
structure Settles (w : World) (m : ManagerId) (t : TransactionId) : Prop where
  /-- Who ends it is not refused, -/
  accepted : (w.started, .settling t) ∈ (w.move (.start (.settle m t))).tasks
  /-- replies that it is done and nothing else, whatever happens meanwhile, -/
  succeeds : ∀ ms, (w.play (.start (.settle m t) :: ms)).crashed = false → ∀ o,
    (w.started, o) ∈ replies w (.start (.settle m t) :: ms) → o = .settled
  /-- and can do so once no other task has the pins or waits for them. -/
  replies : ∀ ms, (w.started, .settling t) ∈ (w.play (.start (.settle m t) :: ms)).tasks →
    (w.play (.start (.settle m t) :: ms)).Alone w.started t →
    (w.play (.start (.settle m t) :: ms)).reply? (.goOn w.started) = some (w.started, .settled)
  /-- Everybody else is refused from then on. -/
  once : ∀ ms, (w.play (.start (.settle m t) :: ms)).Refuses t

/-- A request for a backend that has a connection pinned to its transaction gets that connection, as
often as it asked for, if certain moves follow. -/
structure Obtains (w : World) (t : TransactionId) (q : AcquireRequest) (c : Connection)
    (ms : List Move) : Prop where
  /-- It is replied to at once, or waits. -/
  accepted : (∃ o, w.reply? (.start (.acquire q)) = some (w.started, o)) ∨
    ∃ s, (w.started, s) ∈ (w.move (.start (.acquire q))).tasks
  /-- The reply is that connection and nothing else, whatever happens meanwhile, -/
  succeeds : ∀ o, (w.started, o) ∈ replies w (.start (.acquire q) :: ms) →
    o = .connections (List.replicate q.count c)
  /-- and it comes, unless more is asked for than memory holds, once no other task has the pins or
  waits for them, and the task has the lock of the backend, if it asked for it. -/
  replies : q.count < batchLimit → ∀ s, (w.started, s) ∈ (w.play (.start (.acquire q) :: ms)).tasks →
    (w.play (.start (.acquire q) :: ms)).Alone w.started t →
    (∀ q' l a, s = .lock q' l a → (w.play (.start (.acquire q) :: ms)).holdsLock l w.started = true) →
    ∃ n, (w.started, .connections (List.replicate q.count c)) ∈
      replies (w.play (.start (.acquire q) :: ms)) (List.replicate n (.goOn w.started))

/-- How a transaction stands that was opened in moves, after others in which nobody ended it. -/
structure Endures (moves moves' : List Move) (schema : String) (kind : TransactionKind)
    (m : ManagerId) (t : TransactionId) : Prop where
  /-- It is open, and the schema is published with its manager. -/
  active : (play {} (moves ++ moves')).resources.isActive m t = true
  manager : (play {} (moves ++ moves')).registry.transactionManager schema kind = .ok m
  /-- What was pinned to it still is, -/
  pinned : ∀ ms ms', moves' = ms ++ ms' → ∀ b c,
    (play {} (moves ++ ms)).resources.pinned? t b = some c →
    (play {} (moves ++ moves')).resources.pinned? t b = some c
  /-- and every request for it gets just that. -/
  repeated : ∀ ms q ms', moves' = ms ++ .start (.acquire q) :: ms' → q.schema = schema →
    q.kind = kind → q.transaction = some t → ∀ c,
    (play {} (moves ++ ms)).resources.pinned? t q.backend = some c →
    (play {} (moves ++ ms)).Obtains t q c ms'
  settles : (play {} (moves ++ moves')).Settles m t

/-- How a transaction stands after moves that rebuilt its schema, when `n` tasks had been started. -/
structure Lost (moves : List Move) (n : TaskId) (t : TransactionId) : Prop where
  /-- It is open nowhere, and nobody can end it. -/
  inactive : ∀ m, (play {} moves).resources.isActive m t = false
  refused : (play {} moves).Refuses t
  /-- Its pins were dropped, unless some of those tasks still has them or waits for them. -/
  dropped : ∃ x, (ledger (moves.map .move)).maps[t.serial]? = some x ∧
    (x.contents = [] ∨ ∃ e ∈ (play {} moves).tasks, e.1 < n ∧ pinsOf e.2 = some t)
  /-- Requests do and get what they would without naming it. -/
  ordinary : ∀ ms, ((play {} moves).play (ms.map (Move.forget t))).registry =
      ((play {} moves).play ms).registry ∧
    replies (play {} moves) (ms.map (Move.forget t)) = replies (play {} moves) ms

theorem Refuses.of_not_open (ht : ¬ w.resources.Open t) : w.Refuses t := by
  intro m
  have hinactive : w.resources.isActive m t = false := by
    cases hm : w.resources.isActive m t with
    | false => rfl
    | true => exact absurd ⟨m, hm⟩ ht
  cases hx : w.resources.managers[m]? with
  | some x =>
    exact ⟨x.notActive t, by simp, start_refused hx hinactive (.inl rfl)⟩
  | none =>
    have hdrop : w.resources.dropTransaction m t = .error (.internal "no such manager") := by
      simp [Resources.dropTransaction, hx]
    have hbegin : { w with started := w.started + 1 }.begin w.started (.settle m t) =
        ({ w with started := w.started + 1 }, .ends (.failed (.internal "no such manager"))) := by
      have hdrop : (World.resources { w with started := w.started + 1 }).dropTransaction m t =
          .error (.internal "no such manager") := hdrop
      simp only [World.begin, beginSettle, hdrop]
    refine ⟨_, by simp, reply_settle hdrop, ?_⟩
    rw [World.move, hbegin]
    rfl

/-- Nobody can end a transaction again that somebody ended. -/
theorem not_open_of_settle (hc : (play {} moves).crashed = false)
    (ht : (play {} moves).resources.isActive m t = true) (ms : List Move) :
    ¬ (play {} (moves ++ .start (.settle m t) :: ms)).resources.Open t := by
  obtain ⟨hknown, hunique⟩ := (ordered_play moves).affine.queued.active m t ht
  have hended : ¬ (play {} (moves ++ [.start (.settle m t)])).resources.Open t := by
    rintro ⟨m', hactive⟩
    obtain rfl : m' = m := hunique m' ((lapses_play moves _).resources.active m' t hknown hactive)
    rw [play_snoc_move hc, settle_inactive] at hactive
    cases hactive
  have hlapses := lapses_play (moves ++ [.start (.settle m t)]) ms
  rw [List.append_assoc, List.singleton_append] at hlapses
  exact hlapses.resources.closed ((lapses_play moves _).resources.known t hknown) hended

theorem settles_of_active (hc : (play {} moves).crashed = false)
    (ht : (play {} moves).resources.isActive m t = true) : (play {} moves).Settles m t where
  accepted := by
    have hnext := begin_settling (k := (play {} moves).started) ht ((play {} moves).started + 1)
    rw [World.move]
    generalize World.begin _ _ (.settle m t) = x at hnext
    obtain ⟨w', next⟩ := x
    rcases hnext with rfl | rfl <;> simp [put, settle]
  succeeds ms hc' o ho := by
    obtain ⟨_, _, hs⟩ := Sound.start.play moves hc
    exact (hs.settles ht hc').2 o ho
  replies ms hmem halone := by
    rw [← play_append] at hmem halone ⊢
    exact (ordered_play _).settles hmem halone
  once ms := by
    rw [← play_append]
    exact .of_not_open (not_open_of_settle hc ht ms)

/-- Whoever starts a task is replied to at once, or the task waits. -/
theorem replies_or_stands {call : Call} (hc : (w.move (.start call)).crashed = false) :
    (∃ o, w.reply? (.start call) = some (w.started, o)) ∨
      ∃ s, (w.started, s) ∈ (w.move (.start call)).tasks := by
  have hnext := Sound.not_crashes hc
  rw [World.move, reply?, part?]
  generalize World.begin _ _ call = x at hnext
  obtain ⟨w', next⟩ := x
  cases next with
  | waits s | passes s => exact .inr ⟨s, List.mem_append_right _ (List.mem_singleton_self _)⟩
  | ends o => exact .inl ⟨o, rfl⟩
  | crashes => exact absurd rfl hnext

/-- A request for a transaction that nobody ends meanwhile. -/
theorem Hosts.obtains {q : AcquireRequest} {c : Connection} {ms : List Move}
    (h : (World.play {} moves).Hosts q.schema q.kind m t) (hq : q.transaction = some t)
    (hp : (World.play {} moves).resources.pinned? t q.backend = some c)
    (hc : (World.play {} (moves ++ .start (.acquire q) :: ms)).crashed = false)
    (hr : Spared moves (.start (.acquire q) :: ms) q.schema) (hne : .start (.settle m t) ∉ ms) :
    (World.play {} moves).Obtains t q c ms := by
  obtain ⟨hstands, hsucceeds⟩ := h.repeated hq hp hc hr hne
  refine ⟨?_, hsucceeds, fun hlimit s hmem halone hturn => ?_⟩
  · have hstart : (World.play {} (moves ++ [.start (.acquire q)])).crashed = false := by
      have heq : moves ++ .start (.acquire q) :: ms = moves ++ [.start (.acquire q)] ++ ms := by simp
      exact not_crashed_of_append (heq ▸ hc)
    rw [play_snoc_move (not_crashed_of_append hstart)] at hstart
    exact replies_or_stands hstart
  · have hh := h.play hc hr (by simpa using hne)
    have hp' := pinned_play hp ⟨m, hh.active⟩
    rw [← play_append] at hmem halone hturn ⊢
    exact hh.completes hc hp' halone hmem (hstands s hmem) hturn hlimit

/-- A transaction that was lost. -/
theorem lost_of_not_open (hknown : (play {} moves).resources.mutex? t ≠ none)
    (ht : ¬ (play {} moves).resources.Open t) (hc : (play {} (moves ++ moves')).crashed = false) :
    Lost (moves ++ moves') (play {} moves).started t := by
  have hlapses := (lapses_play moves moves').resources
  have hknown' := hlapses.known t hknown
  have ht' := hlapses.closed hknown ht
  refine ⟨fun m => ?_, .of_not_open ht', ?_, fun ms => ?_⟩
  · cases hm : (play {} (moves ++ moves')).resources.isActive m t with
    | false => rfl
    | true => exact absurd ⟨m, hm⟩ ht'
  · have hbalances := (accounts_after ((moves ++ moves').map .move)).balances
    rw [after_moves] at hbalances
    obtain ⟨x, hx⟩ := hbalances.map? (Resources.mutex?_ne_none_iff.1 hknown')
    refine ⟨x, hx, ?_⟩
    by_cases hdeals : t ∈ (play {} (moves ++ moves')).deals
    · obtain ⟨e, he, hp⟩ := List.mem_filterMap.1 hdeals
      exact .inr ⟨e, he, deals_play hknown ht hc he hp, hp⟩
    · have hnot : t ∉ (play {} (moves ++ moves')).resources.tables ++
          (play {} (moves ++ moves')).deals := fun hmem =>
        (List.mem_append.1 hmem).elim (fun hmem => ht' (Resources.mem_tables_iff.1 hmem)) hdeals
      rw [hbalances.contents t x hx, if_neg hnot]
      exact .inl rfl
  · obtain ⟨hforgets, hreplies⟩ := (ordered_play (moves ++ moves')).forgets hknown' ht' ms
    exact ⟨Eq.trans (congrArg World.registry hforgets.same) rfl, hreplies⟩

theorem Opens.hosts (h : Opens moves schema kind m t) (hc : (play {} moves).crashed = false) :
    (play {} moves).Hosts schema kind m t := by
  obtain ⟨ms, rfl, hm, ht⟩ := h
  have hbegin : ((play {} ms).registry.resources.beginTransaction m).2 = .ok t := by
    simpa [Registry.beginTransaction, hm] using ht
  rw [play_snoc_move (not_crashed_of_append hc)]
  exact hosts_begin (ordered_play ms) hm hbegin

/-- A transaction survives everything but what rebuilds its schema. In every run that does not crash, with
any tasks under way, as long as no such change is accepted and nobody ends it, it is open, its manager is
the one of the published snapshot, requests that name it get the connections that are pinned to it, and it
can be ended once. Once such a change is accepted, it is lost for good. -/
theorem survives_unless_rebuilt (hopens : Opens moves schema kind m t)
    (hc : (play {} (moves ++ moves')).crashed = false) :
    (Spared moves moves' schema → .start (.settle m t) ∉ moves' →
      Endures moves moves' schema kind m t) ∧
    ∀ ms mv ms', moves' = ms ++ mv :: ms' →
      (play {} (moves ++ ms)).Rebuilds (calls {} (moves ++ ms)) schema mv →
      Lost (moves ++ moves') (play {} (moves ++ ms ++ [mv])).started t := by
  have hhosts := hopens.hosts (not_crashed_of_append hc)
  refine ⟨fun hr hne => ?_, ?_⟩
  · have hh := hhosts.play hc hr hne
    refine ⟨hh.active, hh.manager, ?_, ?_, settles_of_active hc hh.active⟩
    · rintro ms ms' rfl b c hp
      have hh := hhosts.play hc hr hne
      rw [← List.append_assoc] at hh ⊢
      exact pinned_play hp ⟨m, hh.active⟩
    · rintro ms q ms' rfl rfl rfl hq c hp
      rw [← List.append_assoc] at hc
      have hbefore := hhosts.play (not_crashed_of_append hc) hr.initial fun hmem =>
        hne (List.mem_append_left _ hmem)
      exact hbefore.obtains hq hp hc hr.final fun hmem =>
        hne (List.mem_append_right _ (List.mem_cons_of_mem _ hmem))
  · rintro ms mv ms' rfl hr
    have heq : moves ++ (ms ++ mv :: ms') = moves ++ ms ++ [mv] ++ ms' := by simp
    rw [heq] at hc ⊢
    obtain ⟨hknown, _⟩ := (ordered_play moves).affine.queued.active m t hhosts.active
    have hlapses := (lapses_play moves (ms ++ [mv])).resources
    rw [← List.append_assoc] at hlapses
    exact lost_of_not_open (hlapses.known t hknown)
      (hhosts.not_open_of_rebuilds (not_crashed_of_append hc) hr) hc

/-- A schema is published, and a transaction is opened on it. -/
def opening : List Move :=
  [.start (.event (.schemaAdded "s" Registry.twoBackends [])), .goOn 0, .goOn 0, .beginTransaction 0]

/-- Its rules and all properties change between two requests for the transaction. -/
def sparing : List Move :=
  [.start (.acquire transactional), .goOn 1, .goOn 1, .goOn 1,
    .start (.event (.rulesChanged "s" [])), .goOn 2,
    .start (.event (.propertiesChanged .empty)), .goOn 3,
    .start (.acquire transactional), .goOn 4, .goOn 4]

/-- The schema is replaced while a request for the transaction waits for a connection. -/
def replacing : List Move :=
  [.start (.acquire transactional), .goOn 1, .goOn 1,
    .start (.event (.schemaAdded "s" Registry.twoBackends [])), .goOn 2, .goOn 2, .goOn 1,
    .start (.acquire transactional), .goOn 3, .goOn 3]

theorem spared_sparing : Spared opening sparing "s" := by
  refine .of_replies rfl fun k n call hreply hcall => ?_
  have hreplies : replies (play {} opening) sparing = [(1, .connections [⟨0, 1⟩]),
      (2, .generation 2), (3, .generation 3), (4, .connections [⟨0, 1⟩])] := rfl
  have hcalls : calls {} (opening ++ sparing) =
      [(0, .event (.schemaAdded "s" Registry.twoBackends [])), (1, .acquire transactional),
        (2, .event (.rulesChanged "s" [])), (3, .event (.propertiesChanged .empty)),
        (4, .acquire transactional)] := rfl
  rw [hreplies] at hreply
  rw [hcalls] at hcall
  rintro ⟨change, hchange, hr⟩
  have hk : k = 2 ∨ k = 3 := by
    simp only [List.mem_cons, Prod.mk.injEq, List.not_mem_nil, or_false] at hreply
    tauto
  rcases hk with rfl | rfl
  · obtain rfl : call = .event (.rulesChanged "s" []) := by simpa using hcall
    cases hchange
    exact hr
  · obtain rfl : call = .event (.propertiesChanged .empty) := by simpa using hcall
    obtain ⟨p, _, hp⟩ := bind_eq_ok (Option.some.inj hchange)
    cases hp
    exact hr

/-- The second request gets the connection of the first one. After the schema was replaced, the pins of
the transaction are dropped as soon as the first request is over, and the second one asks the new pool. -/
theorem survives_unless_rebuilt_opening :
    Endures opening sparing "s" .xa 0 ⟨0⟩ ∧
      (replies (play {} opening) sparing)[3]? = some (4, .connections [⟨0, 1⟩]) ∧
      Lost (opening ++ replacing) 3 ⟨0⟩ ∧
      (ledger ((opening ++ replacing).map .move)).maps.map (·.contents) = [[]] ∧
      (replies (play {} opening) replacing)[2]? = some (3, .connections [⟨2, 1⟩]) := by
  have hopens : Opens opening "s" .xa 0 ⟨0⟩ := ⟨opening.dropLast, rfl, rfl, rfl⟩
  have hnot : Move.start (.settle 0 ⟨0⟩) ∉ sparing := by simp [sparing]
  have hrebuilds : (play {} (opening ++ replacing.take 5)).Rebuilds
      (calls {} (opening ++ replacing.take 5)) "s" (.goOn 2) := by
    refine ⟨2, .event (.schemaAdded "s" Registry.twoBackends []), 2, ?_, rfl, _, rfl, rfl⟩
    exact List.mem_of_getElem? (i := 2) rfl
  refine ⟨(survives_unless_rebuilt hopens rfl).1 spared_sparing hnot, rfl, ?_, rfl, rfl⟩
  exact (survives_unless_rebuilt hopens rfl).2 (replacing.take 5) (.goOn 2) (replacing.drop 6) rfl
    hrebuilds

end World

end ShardRegistry
