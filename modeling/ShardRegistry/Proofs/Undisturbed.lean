import ShardRegistry.Proofs.Attempts

/-! Undisturbed runs. While no change of the registry is under way, what is published stays published, and a
transaction stays open that nobody ends. The pins of an open transaction change only when a task that deals
with it gets a connection from a pool. -/
namespace ShardRegistry

/-- A change of the registry is under way. -/
def TaskState.Changes : TaskState → Prop
  | .turn _ | .loading _ _ _ => True
  | .lock _ _ _ | .acquiring _ _ _ | .settling _ => False

def Call.Changes : Call → Prop
  | .event _ | .close => True
  | .acquire _ | .pinned _ _ _ | .settle _ _ => False

/-- The transaction that a task deals with, or will deal with. -/
def TaskState.transaction? : TaskState → Option TransactionId
  | .lock _ _ a | .acquiring _ _ a => a.source.transaction?
  | .settling t => some t
  | .turn _ | .loading _ _ _ => none

def Call.transaction? : Call → Option TransactionId
  | .acquire q => q.transaction
  | .pinned _ t _ | .settle _ t => some t
  | .event _ | .close => none

namespace World
variable {keys : List (String × String)} {w : World} {k : TaskId} {t : TransactionId}

/-! ### Where calls and parts leave tasks -/

/-- Where a part of a batch leaves its task. -/
theorem state_of_nears {r : Resources} {a : Acquisition} {n : Nat} {held : Option LockId}
    {y : Resources × Progress} {s : TaskState} (h : y.2.Nears r a n)
    (hs : (w.acquired held y).2.state? = some s) : ∃ stage a', s = .acquiring held stage a' ∧
      stage.rank a' < n ∧ a'.source = a.source ∧ a'.count = a.count ∧
      ∀ t, stage = .pins t → ∃ m o, a.source = .transaction m t o ∧ r.isActive m t = true := by
  obtain ⟨r', progress⟩ := y
  cases progress with
  | waits stage a' | passes stage a' =>
    cases hs
    exact ⟨stage, a', rfl, h⟩
  | done outcome =>
    cases outcome with
    | ok cs => cases hs
    | error stop => cases stop <;> cases hs

/-- Where a call leaves a task: a change is one of the call, and so is a transaction. -/
theorem begin_state {call : Call} {s : TaskState} (h : (w.begin k call).2.state? = some s) :
    (s.Changes → call.Changes) ∧ ∀ t, s.transaction? = some t → call.transaction? = some t := by
  have hbatch {a : Acquisition} {r : Resources} {held : Option LockId}
      (hasks : ∀ t, a.source.transaction? = some t → call.transaction? = some t)
      (h : (w.acquired held (a.start r k)).2.state? = some s) :
      (s.Changes → call.Changes) ∧ ∀ t, s.transaction? = some t → call.transaction? = some t := by
    obtain ⟨stage, a', rfl, _, hsource, _⟩ := state_of_nears (a.start_nears (Nat.lt_succ_self _)) h
    refine ⟨False.elim, fun t ht => hasks t ?_⟩
    rwa [← hsource]
  cases call with
  | acquire q =>
    simp only [World.begin, beginAcquire] at h
    split at h
    · cases h
    · rename_i a ha
      obtain ⟨⟨_, _, hasks⟩, _⟩ := asks_of_admit ha
      split at h
      · cases h
      · split at h
        · exact hbatch hasks h
        · split at h <;> cases h <;> exact ⟨id, hasks⟩
  | event event =>
    refine ⟨fun _ => trivial, fun t ht => ?_⟩
    simp only [World.begin, beginEvent] at h
    split at h
    · cases h
    · simp only [beginChange] at h
      split at h <;> cases h <;> cases ht
  | close =>
    refine ⟨fun _ => trivial, fun t ht => ?_⟩
    simp only [World.begin, beginChange] at h
    split at h <;> cases h <;> cases ht
  | pinned m t' backend =>
    exact hbatch (a := { backend, count := 1, source := .transaction m t' none }) (fun _ ht => ht) h
  | settle m t' =>
    simp only [World.begin, beginSettle] at h
    split at h
    · cases h
    · split at h <;> cases h <;> exact ⟨id, fun _ ht => ht⟩

/-- A part of a task begins no change, and deals with no other transaction. -/
theorem advance_state {s s' : TaskState} (h : (w.advance k s).2.state? = some s') :
    (s'.Changes → s.Changes) ∧ ∀ t, s'.transaction? = some t → s.transaction? = some t := by
  have hbatch {a : Acquisition} {r : Resources} {n : Nat} {held : Option LockId}
      {y : Resources × Progress} (hy : y.2.Nears r a n) (hs : s.transaction? = a.source.transaction?)
      (h : (w.acquired held y).2.state? = some s') :
      (s'.Changes → s.Changes) ∧ ∀ t, s'.transaction? = some t → s.transaction? = some t := by
    obtain ⟨stage, a', rfl, _, hsource, _⟩ := state_of_nears hy h
    refine ⟨False.elim, fun t ht => ?_⟩
    rw [hs, ← hsource]
    exact ht
  have hchange {w' : World} {y : Registry × Step} (h : (w'.changed y).2.state? = some s') :
      ∀ t, s'.transaction? = some t → s.transaction? = some t := by
    obtain ⟨_, _, _, rfl⟩ := state_changed h
    exact fun _ ht => by cases ht
  cases s with
  | lock q l a =>
    simp only [World.advance, afterLock] at h
    split at h
    · cases h
    · exact hbatch (a.start_nears (Nat.lt_succ_self _)) rfl h
  | acquiring held stage a => exact hbatch (a.resume_nears w.server stage) rfl h
  | settling t => cases h
  | turn change => exact ⟨fun _ => trivial, hchange h⟩
  | loading purpose pending query =>
    refine ⟨fun _ => trivial, ?_⟩
    have hpart := Part.advance (w := w) k (.loading purpose pending query)
    generalize w.advance k (.loading purpose pending query) = x at hpart h
    cases hpart with
    | quiet _ _ _ _ hload _ =>
      obtain ⟨query', hnext⟩ := hload purpose pending query rfl
      cases h.symm.trans hnext
      exact fun _ ht => by cases ht
    | answers w' _ _ _ _ => exact hchange h

/-! ### What stays published -/

/-- No change of the registry is under way, and none begins in the moves. -/
structure Undisturbed (w : World) (ms : List Move) : Prop where
  tasks : ∀ e ∈ w.tasks, ¬ e.2.Changes
  calls : ∀ call, .start call ∈ ms → ¬ call.Changes

/-- While no change is under way a move leaves the face of the registry alone. -/
theorem face_move_of_unchanging (hs : Sound keys w) (h : ∀ e ∈ w.tasks, ¬ e.2.Changes) (mv : Move) :
    (w.move mv).registry.face = w.registry.face := by
  cases hpart : w.part? mv with
  | none => exact face_move_of_part_none hpart
  | some x =>
    obtain ⟨k, x⟩ := x
    rw [move_of_part hpart, registry_put]
    cases mv with
    | start call =>
      cases hpart
      exact face_begin { w with started := w.started + 1 } w.started call
    | goOn k =>
      obtain ⟨s, hlookup, _, rfl, rfl⟩ := goOn_of_part hpart
      have hnot := h _ ((lookup_some_iff hs.nodup k s).1 hlookup)
      have hadvance := Part.advance (w := w.without k) k s
      generalize (w.without k).advance k s = x at hadvance
      cases hadvance with
      | quiet _ hface _ _ _ _ => exact hface
      | opens change => exact absurd trivial hnot
      | answers _ _ _ _ _ => exact absurd trivial hnot
    | cancel _ | beginTransaction _ | surround _ _ _ | tune _ _ _ | collect _ _ => cases hpart

/-- A move begins no change, if it starts none. -/
theorem Sound.unchanging (hs : Sound keys w) (h : ∀ e ∈ w.tasks, ¬ e.2.Changes) {mv : Move}
    (hc : (w.move mv).crashed = false) (hmv : ∀ call, mv = .start call → ¬ call.Changes) :
    ∀ e ∈ (w.move mv).tasks, ¬ e.2.Changes := by
  intro e he
  rcases hs.mem_move hc he with ⟨hold, _⟩ | ⟨x, hpart, hstate⟩
  · exact h e hold
  · cases mv with
    | start call =>
      obtain ⟨_, rfl⟩ := Prod.mk.inj (Option.some.inj hpart)
      exact fun hchanges => hmv call rfl ((begin_state hstate).1 hchanges)
    | goOn k =>
      obtain ⟨s, hlookup, _, _, rfl⟩ := goOn_of_part hpart
      have hnot := h _ ((lookup_some_iff hs.nodup k s).1 hlookup)
      exact fun hchanges => hnot ((advance_state hstate).1 hchanges)
    | cancel _ | beginTransaction _ | surround _ _ _ | tune _ _ _ | collect _ _ => cases hpart

theorem Undisturbed.play {ms : List Move} (h : w.Undisturbed ms) (hs : Sound keys w)
    (hc : (w.play ms).crashed = false) :
    (∀ e ∈ (w.play ms).tasks, ¬ e.2.Changes) ∧ (w.play ms).registry.face = w.registry.face := by
  induction ms using List.reverseRecOn with
  | nil => exact ⟨h.tasks, rfl⟩
  | append_singleton ms mv ih =>
    have hw : (w.play ms).crashed = false := by
      rw [play_append] at hc
      exact Sound.not_crashed_of_play hc
    obtain ⟨htasks, hface⟩ := ih ⟨h.tasks, fun call hmem => h.calls call (List.mem_append_left _ hmem)⟩ hw
    obtain ⟨_, _, hs'⟩ := hs.play ms hw
    rw [play_snoc_move hw] at hc ⊢
    refine ⟨hs'.unchanging htasks hc ?_, (face_move_of_unchanging hs' htasks mv).trans hface⟩
    rintro call rfl
    exact h.calls call (List.mem_append_right _ (List.mem_singleton_self _))

section
variable {moves ms : List Move} {schema backend : String} {kind : TransactionKind} {m : ManagerId}

/-- A published backend stays published with its pool. -/
theorem Undisturbed.resolve {s : SchemaContext} {p : PoolId} (h : w.Undisturbed ms) (hs : Sound keys w)
    (hc : (w.play ms).crashed = false)
    (hr : Registry.resolve w.registry.current schema backend = .ok (s, p)) :
    Registry.resolve (w.play ms).registry.current schema backend = .ok (s, p) ∧
      p < (w.play ms).resources.pools.length := by
  have hface := (h.play hs hc).2
  obtain ⟨_, _, hk⟩ := hs.keeps
  obtain ⟨x, hx, _⟩ := hk.closing_of_pool? (Registry.pool?_of_resolve hr)
  have hlength : (w.play ms).resources.pools.length = w.resources.pools.length :=
    congrArg (fun f : Face => f.inventory.pools) hface
  exact ⟨Registry.current_of_face hface ▸ hr, hlength ▸ (List.getElem?_eq_some_iff.1 hx).1⟩

/-- A schema stays published with its managers. -/
theorem Undisturbed.transactionManager (h : (World.play {} moves).Undisturbed ms)
    (hc : (World.play {} (moves ++ ms)).crashed = false)
    (hm : (World.play {} moves).registry.transactionManager schema kind = .ok m) :
    (World.play {} (moves ++ ms)).registry.transactionManager schema kind = .ok m := by
  obtain ⟨_, _, hs⟩ := Sound.start.play moves (not_crashed_of_append hc)
  obtain ⟨c, hcurrent, hmanager⟩ := Registry.transactionManager_ok_iff.1 hm
  obtain ⟨x, hx, hkind⟩ := Option.bind_eq_some_iff.1 hmanager
  obtain ⟨y, hy, hages⟩ := (follows_play hc).engines _ x hx
  rw [play_append] at hc hy ⊢
  refine Registry.transactionManager_ok_iff.2 ⟨c, ?_, ?_⟩
  · rw [Registry.current_of_face (h.play hs hc).2]
    exact hcurrent
  · exact Option.bind_eq_some_iff.2 ⟨y, hy, (hages.manager? kind).trans hkind⟩

theorem Undisturbed.initial {ms' : List Move} (h : w.Undisturbed (ms ++ ms')) : w.Undisturbed ms :=
  ⟨h.tasks, fun call hmem => h.calls call (List.mem_append_left _ hmem)⟩

/-- An open transaction stays open that nobody ends. -/
theorem Undisturbed.active (h : (World.play {} moves).Undisturbed ms)
    (hc : (World.play {} (moves ++ ms)).crashed = false)
    (hm : (World.play {} moves).registry.transactionManager schema kind = .ok m)
    (ht : (World.play {} moves).resources.isActive m t = true) (hne : .start (.settle m t) ∉ ms) :
    (World.play {} (moves ++ ms)).resources.isActive m t = true := by
  induction ms using List.reverseRecOn with
  | nil => simpa using ht
  | append_singleton ms mv ih =>
    have hmanager := h.transactionManager hc hm
    obtain ⟨_, _, hs'⟩ := Sound.start.play _ hc
    rw [← List.append_assoc] at hc hmanager hs' ⊢
    have hw := not_crashed_of_append hc
    have hactive := ih h.initial hw fun hmem => hne (List.mem_append_left _ hmem)
    have hmv : mv ≠ .start (.settle m t) := by
      rintro rfl
      exact hne (List.mem_append_right _ (List.mem_singleton_self _))
    obtain ⟨c, hcurrent, hmanagerOf⟩ := Registry.transactionManager_ok_iff.1 hmanager
    obtain ⟨m', y, hm', hy, _, hopen, _⟩ :=
      hs'.manager hcurrent (Registry.ne_local_of_managerOf? hmanagerOf)
    cases hmanagerOf.symm.trans hm'
    rw [play_snoc_move hw] at hy ⊢
    -- the manager of a published schema is open, so it was not closed
    refine ((lasts_move _ hmv).active hactive).resolve_right fun hclosed => ?_
    simp [Resources.isManagerClosed, hy, hopen] at hclosed

end

/-! ### Pins of a transaction that others leave alone -/

/-- No other task deals with the transaction, or will. -/
def Apart (w : World) (k : TaskId) (t : TransactionId) : Prop :=
  ∀ e ∈ w.tasks, e.2.transaction? = some t → e.1 = k

/-- Others do not come to deal with it that are not called for it. -/
theorem Sound.apart (hs : Sound keys w) (h : w.Apart k t) {mv : Move}
    (hc : (w.move mv).crashed = false)
    (hmv : ∀ call, mv = .start call → w.started = k ∨ call.transaction? ≠ some t) :
    (w.move mv).Apart k t := by
  intro e he ht
  rcases hs.mem_move hc he with ⟨hold, _⟩ | ⟨x, hpart, hstate⟩
  · exact h e hold ht
  · cases mv with
    | start call =>
      obtain ⟨hk, rfl⟩ := Prod.mk.inj (Option.some.inj hpart)
      exact (hmv call rfl).elim hk.symm.trans (absurd ((begin_state hstate).2 t ht))
    | goOn k' =>
      obtain ⟨s, hlookup, _, hk, rfl⟩ := goOn_of_part hpart
      rw [hk]
      exact h _ ((lookup_some_iff hs.nodup k' s).1 hlookup) ((advance_state hstate).2 t ht)
    | cancel _ | beginTransaction _ | surround _ _ _ | tune _ _ _ | collect _ _ => cases hpart

theorem transaction?_of_pinsOf {H : List Delivery} {call : Call} {s : TaskState}
    (hstands : call.Stands H k s) (hp : pinsOf s = some t) : s.transaction? = some t := by
  cases s with
  | acquiring held stage a =>
    obtain ⟨_, hfits, _⟩ := hstands
    cases stage with
    | pins t' =>
      cases hp
      exact hfits
    | gate p n pins =>
      obtain rfl : pins = some t := hp
      exact hfits
  | settling t' => exact hp
  | lock _ _ _ | turn _ | loading _ _ _ => cases hp

section
variable {H : List Delivery} {C : List (TaskId × Call)} {O : List (TaskId × Outcome)}

theorem Apart.alone (h : w.Apart k t) (ho : w.Ordered H C O) : w.Alone k t := by
  intro e he hp
  obtain ⟨call, _, hstands⟩ := ho.tended.stands e he
  exact h e he (transaction?_of_pinsOf hstands hp)

/-- Who gets a connection for the transaction is the one that deals with it. -/
theorem Alone.part (h : w.Alone k t) (hn : (w.tasks.map (·.1)).Nodup) {mv : Move} {d : Delivery}
    (hd : w.delivery? mv = some d) (ht : d.transaction = some t) : ∃ x, w.part? mv = some (k, x) := by
  cases mv with
  | goOn k' =>
    obtain ⟨s, hlookup, hsome⟩ := Option.bind_eq_some_iff.1 hd
    split at hsome
    · rename_i hgo
      have hmem := (lookup_some_iff hn k' s).1 hlookup
      cases s with
      | acquiring held stage a =>
        obtain ⟨_, _, htransaction⟩ := Acquisition.delivery?_eq hsome
        rw [ht] at htransaction
        have hk : k' = k := by
          refine h _ hmem ?_
          cases stage <;> exact htransaction.symm
        rw [← hk]
        exact ⟨_, part_of_goOn hlookup hgo⟩
      | loading purpose pending query =>
        cases query with
        | none => cases hsome
        | some q =>
          obtain ⟨c, _, rfl⟩ := Option.map_eq_some_iff.1 hsome
          cases ht
      | lock _ _ _ | settling _ | turn _ => cases hsome
    · cases hsome
  | start _ | cancel _ | beginTransaction _ | surround _ _ _ | tune _ _ _ | collect _ _ => cases hd

/-- What is pinned to a transaction that is open afterwards was pinned before, or was just taken from a
pool. -/
theorem Ordered.pinned_move_iff (ho : w.Ordered H C O) {mv : Move} (ht : (w.move mv).resources.Open t)
    {b : String} {c : Connection} : (w.move mv).resources.pinned? t b = some c ↔
      w.resources.pinned? t b = some c ∨ ∃ d, w.delivery? mv = some d ∧ d.drawn = true ∧
        d.transaction = some t ∧ d.backend = b ∧ d.connection = c := by
  obtain ⟨ho', hlapses⟩ := ho.move mv
  have hkept : ∀ d ∈ H ++ (w.delivery? mv).toList, d.transaction = some t →
      (w.move mv).resources.pinned? t d.backend = some d.connection := fun d hd hdt =>
    (ho'.affine.recorded.kept d hd t hdt).2.resolve_right fun hover => hover.1 ht
  constructor
  · intro hp
    obtain ⟨d, hd, hdrawn, hdt, rfl, rfl⟩ := ho'.affine.recorded.pinned t b c hp
    rcases List.mem_append.1 hd with hd | hd
    · obtain ⟨hknown, hcase⟩ := ho.affine.recorded.kept d hd t hdt
      refine .inl (hcase.resolve_right fun hover => ?_)
      exact hlapses.resources.closed hknown hover.1 ht
    · exact .inr ⟨d, Option.mem_toList.1 hd, hdrawn, hdt, rfl, rfl⟩
  · rintro (hp | ⟨d, hd, _, hdt, rfl, rfl⟩)
    · obtain ⟨d, hd, _, hdt, rfl, rfl⟩ := ho.affine.recorded.pinned t b c hp
      exact hkept d (List.mem_append_left _ hd) hdt
    · exact hkept d (List.mem_append_right _ (Option.mem_toList.2 hd)) hdt

/-- Nothing else changes them. -/
theorem Ordered.pinned_move (ho : w.Ordered H C O) {mv : Move} (ht : (w.move mv).resources.Open t)
    (hnone : ∀ d, w.delivery? mv = some d → d.drawn = true → d.transaction ≠ some t) (b : String) :
    (w.move mv).resources.pinned? t b = w.resources.pinned? t b := by
  refine Option.ext fun c => ?_
  rw [ho.pinned_move_iff ht, or_iff_left]
  rintro ⟨d, hd, hdrawn, hdt, _⟩
  exact hnone d hd hdrawn hdt

end

end World

end ShardRegistry
