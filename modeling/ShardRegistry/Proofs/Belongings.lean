import ShardRegistry.Proofs.Batches

/-! Belongings. A connection that was given for no transaction was given to one task. As long as it is live,
the batch of that task has it, or the task replied with it. -/
namespace ShardRegistry

/-- What a reference puts into the pins of a transaction. -/
def Reference.stored? : Reference → Option (TransactionId × Connection)
  | .stored t c => some (t, c)
  | _ => none

/-! ### What pins have handles on -/

namespace Ledger
variable {l : Ledger} {t : TransactionId} {c : Connection}

/-- The connections that the pins of a transaction have handles on. -/
def contents (l : Ledger) (t : TransactionId) : List Connection :=
  ((l.maps[t.serial]?).map (·.contents)).getD []

theorem contents_of_maps {l l' : Ledger} (h : l'.maps = l.maps) (t : TransactionId) :
    l'.contents t = l.contents t := by
  rw [contents, h, contents]

theorem mem_contents_modify {t' : TransactionId} {f : PinMap → PinMap} {cs : List Connection}
    (hf : ∀ x, (f x).contents ⊆ x.contents ++ cs) (h : c ∈ (l.modify t' f).contents t) :
    c ∈ l.contents t ∨ t' = t ∧ c ∈ cs := by
  simp only [contents, modify, List.getElem?_modify] at h ⊢
  cases hx : l.maps[t.serial]? with
  | none => simp [hx] at h
  | some x =>
    by_cases ht : t'.serial = t.serial
    · have hmem : c ∈ (f x).contents := by simpa [hx, ht] using h
      exact (List.mem_append.1 (hf x hmem)).imp_right fun hnew => ⟨congrArg TransactionId.mk ht, hnew⟩
    · exact .inl (by simpa [hx, ht] using h)

theorem contents_clear_subset (l : Ledger) (t' : TransactionId) :
    (l.clear t').contents t ⊆ l.contents t := by
  intro c hc
  simp only [clear] at hc
  split at hc
  · exact hc
  · rename_i x _
    rw [← contents_of_maps (drops_maps x.contents l) t]
    refine (mem_contents_modify (fun _ => ?_) hc).resolve_right fun h => List.not_mem_nil h.2
    exact List.nil_subset _

/-- Only what is put into the pins of a transaction comes into them. -/
theorem mem_contents_post {ref : Reference} (h : c ∈ (l.post ref).contents t) :
    c ∈ l.contents t ∨ ref.stored? = some (t, c) := by
  have hhandles (t' : TransactionId) (g : Nat → Nat)
      (h : c ∈ (l.modify t' fun x => { x with handles := g x.handles }).contents t) : c ∈ l.contents t :=
    (mem_contents_modify (f := fun x => { x with handles := g x.handles })
      (fun x => List.subset_append_left x.contents []) h).resolve_right fun h => List.not_mem_nil h.2
  cases ref with
  | taken c' | dropped c' => exact .inl h
  | begun =>
    refine .inl ?_
    simp only [post, contents, List.getElem?_append] at h ⊢
    split at h
    · exact h
    · cases hi : t.serial - l.maps.length <;> simp [hi] at h
  | joined t' => exact .inl (hhandles t' (· + 1) h)
  | left t' =>
    refine .inl ?_
    simp only [post, leave] at h
    refine hhandles t' (· - 1) ?_
    split at h
    · exact h
    · split at h
      · exact contents_clear_subset _ t' h
      · exact h
  | stored t' c' =>
    rcases mem_contents_modify (fun _ => List.Subset.refl _) h with hold | ⟨rfl, hc⟩
    · exact .inl hold
    · rw [List.mem_singleton.1 hc, Reference.stored?]
      exact .inr rfl
  | cleared t' => exact .inl (contents_clear_subset l t' h)

theorem mem_contents_posts {refs : List Reference} (h : c ∈ (l.posts refs).contents t) :
    c ∈ l.contents t ∨ (t, c) ∈ refs.filterMap Reference.stored? := by
  induction refs generalizing l with
  | nil => exact .inl h
  | cons ref refs ih =>
    rcases ih h with hold | hnew
    · refine (mem_contents_post hold).imp_right fun hstored => ?_
      exact List.mem_filterMap.2 ⟨ref, List.mem_cons_self, hstored⟩
    · obtain ⟨ref', hmem, hstored⟩ := List.mem_filterMap.1 hnew
      exact .inr (List.mem_filterMap.2 ⟨ref', List.mem_cons_of_mem _ hmem, hstored⟩)

end Ledger

namespace World
variable {w : World} {H : List Delivery} {C : List (TaskId × Call)} {O : List (TaskId × Outcome)}
  {l : Ledger} {mv : Move} {d d' : Delivery} {moves : List Move} {c : Connection}

theorem log_moves {α : Type} (f : World → Move → Option α) (moves : List Move) :
    log f (moves.map .move) = record f {} moves := by
  induction moves using List.reverseRecOn with
  | nil => rfl
  | append_singleton ms mv ih =>
    rw [List.map_append, List.map_singleton, log_snoc, ih, record_snoc, after_moves, left?]
    split <;> rfl

/-! ### What is put into pins -/

/-- What a delivery puts into the pins of its transaction: a new connection. -/
def Delivery.stored? (d : Delivery) : Option (TransactionId × Connection) :=
  if d.drawn then d.transaction.map fun t => (t, d.connection) else none

theorem stored_drops (a : Acquisition) : a.drops.filterMap Reference.stored? = [] := by
  simp [Acquisition.drops, List.filterMap_map, Function.comp_def, Reference.stored?]

theorem stored_ask (a : Acquisition) (r : Resources) :
    (a.askReferences r).filterMap Reference.stored? = [] := by
  simp only [Acquisition.askReferences]
  split
  · rfl
  · split
    · rfl
    · split
      · rfl
      · split
        · rfl
        · exact stored_drops a

theorem stored_start (a : Acquisition) (r : Resources) :
    (a.startReferences r).filterMap Reference.stored? = [] := by
  simp only [Acquisition.startReferences]
  split
  · exact stored_drops a
  · exact stored_ask a r

theorem stored_departures (r r' : Resources) :
    (r.departures r').filterMap Reference.stored? = [] := by
  refine List.filterMap_eq_nil_iff.2 fun ref href => ?_
  obtain ⟨t, _, hmem⟩ := List.mem_flatMap.1 href
  split at hmem <;> simp at hmem
  · rcases hmem with rfl | rfl <;> rfl
  · rw [hmem]
    rfl

theorem stored_begin (w : World) (call : Call) :
    (w.beginReferences call).filterMap Reference.stored? = [] := by
  cases call with
  | acquire q =>
    simp only [beginReferences]
    split
    · rfl
    · split
      · rfl
      · split
        · exact stored_start _ _
        · rfl
  | pinned m t backend => exact stored_start _ _
  | event _ | close | settle _ _ => rfl

/-- A part of a task puts into pins what it gets for their transaction. -/
theorem stored_advance (w : World) (k : TaskId) (s : TaskState) :
    (w.advanceReferences k s).filterMap Reference.stored? =
      ((s.delivery? w.resources w.server k).bind Delivery.stored?).toList := by
  cases s with
  | lock q l a =>
    simp only [advanceReferences]
    split
    · exact stored_drops a
    · exact stored_start _ _
  | acquiring held stage a =>
    have hobtain (c : Connection) :
        (a.obtainReferences w.resources c).filterMap Reference.stored? = [] := stored_ask _ _
    cases stage with
    | pins t =>
      simp only [advanceReferences, Acquisition.resumeReferences, TaskState.delivery?,
        Acquisition.delivery?]
      split <;> rename_i hpinned <;> rw [hpinned]
      · rw [List.filterMap_append, hobtain]
        rfl
      · split
        · exact stored_drops a
        · rfl
    | gate p n pins =>
      simp only [advanceReferences, Acquisition.resumeReferences, TaskState.delivery?,
        Acquisition.delivery?]
      cases (w.resources.leavePool w.server p n).2 with
      | error e => cases pins <;> exact stored_drops a
      | ok c =>
        dsimp only
        rw [List.filterMap_append, hobtain]
        cases pins <;> rfl
  | settling t => rfl
  | turn change => exact stored_departures _ _
  | loading purpose pending query =>
    cases query with
    | none => exact stored_departures _ _
    | some q =>
      simp only [advanceReferences, TaskState.delivery?, List.filterMap_append, stored_departures]
      cases (w.resources.leavePool w.server q.pool q.attempt).2 <;>
        simp [Reference.stored?, Delivery.stored?, Except.toOption]

theorem stored_references (w : World) (mv : Move) :
    (w.references (.move mv)).filterMap Reference.stored? =
      ((w.delivery? mv).bind Delivery.stored?).toList := by
  cases mv with
  | start call => exact stored_begin _ call
  | goOn k =>
    simp only [references, delivery?]
    cases w.tasks.lookup k with
    | none => rfl
    | some s =>
      by_cases hgo : w.mayGoOn k s = true
      · simp only [hgo, if_true, Option.bind_some]
        exact stored_advance (w.without k) k s
      · simp [hgo]
  | cancel k =>
    simp only [references, delivery?]
    split
    · rfl
    · rename_i s _
      cases hp : pinsOf s <;> simp [withdrawReferences, hp, List.filterMap_map, Function.comp_def,
        Reference.stored?]
  | beginTransaction m =>
    simp only [references]
    split <;> rfl
  | surround _ _ _ | tune _ _ _ => rfl
  | collect outcomes holds =>
    simp [references, delivery?, List.filterMap_map, Function.comp_def, Reference.stored?]

/-- What the pins of a transaction have handles on was given for it. -/
theorem given_of_contents {t : TransactionId} (h : c ∈ (ledger (moves.map .move)).contents t) :
    ∃ d ∈ record delivery? {} moves, d.transaction = some t ∧ d.connection = c := by
  induction moves using List.reverseRecOn with
  | nil => cases h
  | append_singleton ms mv ih =>
    rw [List.map_append, List.map_singleton, ledger_snoc, after_moves] at h
    rw [record_snoc]
    split at h
    · rename_i hcrashed
      simpa [hcrashed] using ih h
    · rename_i hcrashed
      rw [if_neg hcrashed]
      rcases Ledger.mem_contents_posts h with hold | hnew
      · obtain ⟨d, hd, hrest⟩ := ih hold
        exact ⟨d, List.mem_append_left _ hd, hrest⟩
      · rw [stored_references, Option.mem_toList] at hnew
        obtain ⟨d, hd, hstored⟩ := Option.bind_eq_some_iff.1 hnew
        refine ⟨d, List.mem_append_right _ (Option.mem_toList.2 hd), ?_⟩
        simp only [Delivery.stored?] at hstored
        split at hstored
        · obtain ⟨t', ht, heq⟩ := Option.map_eq_some_iff.1 hstored
          cases heq
          exact ⟨ht, rfl⟩
        · cases hstored

theorem given_of_pinnedTo {t : TransactionId} (ht : t ∈ (play {} moves).reachable)
    (hc : c ∈ (play {} moves).pinnedTo t) :
    ∃ d ∈ record delivery? {} moves, d.transaction = some t ∧ d.connection = c := by
  have haccounts := accounts_after (moves.map .move)
  rw [after_moves] at haccounts
  refine given_of_contents ?_
  have hlt : t.serial < (play {} moves).resources.pins.length := by
    refine Nat.lt_of_not_le fun hle => ?_
    simp [pinnedTo, List.getElem?_eq_none hle] at hc
  obtain ⟨x, hx⟩ := haccounts.balances.map? hlt
  have hcontents := haccounts.balances.contents t x hx
  rw [if_pos (show t ∈ (play {} moves).resources.tables ++ (play {} moves).deals from ht)] at hcontents
  rw [Ledger.contents, hx, Option.map_some, Option.getD_some, hcontents]
  exact hc

/-! ### Whom a connection was given to -/

/-- An attempt that succeeds is a delivery. -/
theorem delivery_of_attempt {k : TaskId} (h : w.attempt? k mv = some (.ok c)) : mv = .goOn k ∧
    ∃ held p n pins a, w.tasks.lookup k = some (.acquiring held (.gate p n pins) a) ∧
      w.delivery? mv = some ⟨k, pins, a.backend, c, true⟩ := by
  cases mv with
  | goOn k' =>
    simp only [attempt?] at h
    split at h
    · rename_i hk
      subst hk
      obtain ⟨s, hlookup, hsome⟩ := Option.bind_eq_some_iff.1 h
      split at hsome
      · rename_i hgo
        cases s with
        | acquiring held stage a =>
          cases stage with
          | pins t => cases hsome
          | gate p n pins =>
            have hleave := Option.some.inj hsome
            refine ⟨rfl, held, p, n, pins, a, hlookup, ?_⟩
            simp [delivery?, hlookup, hgo, TaskState.delivery?, Acquisition.delivery?, hleave,
              Except.toOption]
        | lock _ _ _ | settling _ | turn _ | loading _ _ _ => cases hsome
      · cases hsome
    · cases h
  | start _ | cancel _ | beginTransaction _ | surround _ _ _ | tune _ _ _ | collect _ _ => cases h

/-- What is given for no transaction was never given before. -/
theorem Ordered.lent (ho : w.Ordered H C O) (hd : w.delivery? mv = some d) (ht : d.transaction = none) :
    ∀ d' ∈ H, d'.connection ≠ d.connection := by
  have hnew {p : PoolId} {n : Nat} {c : Connection}
      (hc : (w.resources.leavePool w.server p n).2.toOption = some c) : ∀ d' ∈ H, d'.connection ≠ c := by
    cases hleave : (w.resources.leavePool w.server p n).2 with
    | error e =>
      rw [hleave] at hc
      cases hc
    | ok c' =>
      rw [hleave] at hc
      cases hc
      exact ho.affine.recorded.new (Resources.leavePool_ok (Prod.ext rfl hleave)).1
  cases mv with
  | goOn k =>
    obtain ⟨s, _, hsome⟩ := Option.bind_eq_some_iff.1 hd
    split at hsome
    · cases s with
      | acquiring held stage a =>
        cases stage with
        | pins t =>
          obtain ⟨_, _, rfl⟩ := Option.map_eq_some_iff.1 hsome
          cases ht
        | gate p n pins =>
          obtain ⟨c, hc, rfl⟩ := Option.map_eq_some_iff.1 hsome
          exact hnew hc
      | loading purpose pending query =>
        cases query with
        | none => cases hsome
        | some q =>
          obtain ⟨c, hc, rfl⟩ := Option.map_eq_some_iff.1 hsome
          exact hnew hc
      | lock _ _ _ | settling _ | turn _ => cases hsome
    · cases hsome
  | start _ | cancel _ | beginTransaction _ | surround _ _ _ | tune _ _ _ | collect _ _ => cases hd

/-- Nobody else was given what was given for no transaction. -/
theorem lent_once (hd : d ∈ record delivery? {} moves) (hd' : d' ∈ record delivery? {} moves)
    (ht : d.transaction = none) (hc : d.connection = d'.connection) : d = d' := by
  have ht' : d'.transaction = none := by
    have hordered := ordered_play moves
    rw [deliveries, log_moves] at hordered
    rw [← ((hordered.affine.recorded.tally d hd d' hd').apart hc).1, ht]
  induction moves using List.reverseRecOn with
  | nil => cases hd
  | append_singleton ms mv ih =>
    have hordered := ordered_play ms
    rw [deliveries, log_moves] at hordered
    rw [record_snoc] at hd hd'
    split at hd
    · rename_i hcrashed
      rw [if_pos hcrashed] at hd'
      rw [List.append_nil] at hd hd'
      exact ih hd hd'
    · rename_i hcrashed
      rw [if_neg hcrashed] at hd'
      rcases List.mem_append.1 hd with hd | hd <;> rcases List.mem_append.1 hd' with hd' | hd'
      · exact ih hd hd'
      · exact absurd hc (hordered.lent (Option.mem_toList.1 hd') ht' d hd)
      · exact absurd hc.symm (hordered.lent (Option.mem_toList.1 hd) ht d' hd')
      · exact Option.some.inj ((Option.mem_toList.1 hd).symm.trans (Option.mem_toList.1 hd'))

/-! ### Who has a connection -/

/-- Callers come to have no connections but those that they were given. -/
def Honest (moves : List Move) : Prop :=
  ∀ ms outcomes holds, ms ++ [.collect outcomes holds] <+: moves →
    held { play {} ms with outcomes, holds } ⊆ (play {} ms).held

theorem Honest.initial {ms : List Move} (h : Honest moves) (hms : ms <+: moves) : Honest ms :=
  fun ms' outcomes holds hpre => h ms' outcomes holds (hpre.trans hms)

theorem Honest.of_not_mem (h : ∀ outcomes holds, .collect outcomes holds ∉ moves) : Honest moves :=
  fun _ outcomes holds hpre => absurd (hpre.subset (List.mem_append_right _ (List.mem_singleton_self _)))
    (h outcomes holds)

/-- What callers come to have in a move, if they are not given it otherwise, is a reply. -/
theorem Accounts.held_move (hl : Accounts l w) (ho : w.Ordered H C O)
    (hmv : ∀ outcomes holds, mv = .collect outcomes holds → held { w with outcomes, holds } ⊆ w.held)
    (hc : c ∈ (w.move mv).held) :
    c ∈ w.held ∨ ∃ k cs, w.reply? mv = some (k, .connections cs) ∧ c ∈ cs := by
  have hput {k : TaskId} {x : World × Next} (hpart : w.part? mv = some (k, x)) (hx : x.1.held = w.held) :
      c ∈ w.held ∨ ∃ k cs, w.reply? mv = some (k, .connections cs) ∧ c ∈ cs := by
    rw [move_of_part hpart] at hc
    obtain ⟨w', next⟩ := x
    have hx : w'.held = w.held := hx
    cases next with
    | waits s | passes s | crashes => exact .inl (hx ▸ hc)
    | ends o =>
      have hends : held { w' with outcomes := w'.outcomes ++ [(k, o)] } =
          w.held ++ Outcome.connections o := by
        rw [← hx]
        simp [World.held]
      rcases List.mem_append.1 (hends ▸ hc) with hold | hnew
      · exact .inl hold
      · cases o with
        | connections cs => exact .inr ⟨k, cs, by simp [reply?, hpart, Next.outcome?], hnew⟩
        | settled | generation _ | failed _ => cases hnew
  cases mv with
  | start call =>
    exact hput rfl (Covered.begin (w := { w with started := w.started + 1 }) hl ho.affine call).held
  | goOn k =>
    cases hs : w.tasks.lookup k with
    | none => exact .inl (by simpa [World.move, hs] using hc)
    | some s =>
      by_cases hgo : w.mayGoOn k s = true
      · have haffine := ho.affine.congr (mem_roles_without ho.tended.nodup hs)
        exact hput (part_of_goOn hs hgo)
          (Covered.advance (w := w.without k) (hl.without ho.tended.nodup hs) haffine).held
      · exact .inl (by simpa [World.move, hs, hgo] using hc)
  | cancel k =>
    cases hs : w.tasks.lookup k with
    | none => exact .inl (by simpa [World.move, hs] using hc)
    | some s =>
      have hsame : (w.move (.cancel k)).held = w.held := by
        rw [World.move, hs]
        exact (Alike.withdraw (w.without k) k s).held
      exact .inl (hsame ▸ hc)
  | beginTransaction _ | surround _ _ _ | tune _ _ _ => exact .inl hc
  | collect outcomes holds => exact .inl (hmv outcomes holds rfl hc)

/-- Callers have what tasks replied with. -/
theorem replied_of_held (hh : Honest moves) (hc : c ∈ (play {} moves).held) :
    ∃ k cs, (k, .connections cs) ∈ replies {} moves ∧ c ∈ cs := by
  induction moves using List.reverseRecOn with
  | nil => cases hc
  | append_singleton ms mv ih =>
    have ih := ih (hh.initial (List.prefix_append ms [mv]))
    rw [replies, record_snoc, ← replies]
    by_cases hcrashed : (play {} ms).crashed = true
    · rw [play_snoc, tick, if_pos hcrashed] at hc
      simpa [hcrashed] using ih hc
    · rw [play_snoc, tick, if_neg hcrashed] at hc
      rw [if_neg hcrashed]
      have haccounts := accounts_after (ms.map .move)
      rw [after_moves] at haccounts
      rcases haccounts.held_move (ordered_play ms) (fun outcomes holds heq => hh ms outcomes holds
        (heq ▸ List.prefix_refl _)) hc with hold | ⟨k, cs, hreply, hmem⟩
      · obtain ⟨k, cs, hreply, hmem⟩ := ih hold
        exact ⟨k, cs, List.mem_append_left _ hreply, hmem⟩
      · exact ⟨k, cs, List.mem_append_right _ (Option.mem_toList.2 hreply), hmem⟩

/-- A live connection that was given for no transaction is one that its task has, or replied with. -/
theorem belongs (hh : Honest moves) (hd : d ∈ record delivery? {} moves) (ht : d.transaction = none)
    (hlive : d.connection ∈ (play {} moves).connections) :
    (∃ s, (d.task, s) ∈ (play {} moves).tasks ∧ d.connection ∈ acquiredBy s) ∨
      ∃ cs, (d.task, .connections cs) ∈ replies {} moves ∧ d.connection ∈ cs := by
  have ho := ordered_play moves
  rw [deliveries, asked, answered, log_moves, log_moves, log_moves] at ho
  have htask {k : TaskId} (h : Delivered (record delivery? {} moves) k d.connection) : k = d.task := by
    obtain ⟨d', hd', rfl, hc⟩ := h
    rw [lent_once hd hd' ht hc.symm]
  simp only [connections, List.mem_eraseDups, List.mem_append, List.mem_flatMap] at hlive
  rcases hlive with (hheld | ⟨e, he, hacquired⟩) | ⟨t, hreachable, hpinned⟩
  · obtain ⟨k, cs, hreply, hmem⟩ := replied_of_held hh (c := d.connection)
      (by simpa only [World.held, List.mem_append, List.mem_flatMap] using hheld)
    obtain ⟨_, _, _, hdelivered⟩ := ho.tended.answers k cs hreply
    exact .inr ⟨cs, htask (hdelivered _ hmem) ▸ hreply, hmem⟩
  · obtain ⟨call, _, hstands⟩ := ho.tended.stands e he
    have hdelivered : Delivered (record delivery? {} moves) e.1 d.connection := by
      obtain ⟨k, s⟩ := e
      cases s with
      | lock q l a =>
        obtain ⟨_, hnone⟩ := hstands
        rw [acquiredBy, hnone] at hacquired
        cases hacquired
      | acquiring held stage a => exact hstands.2.2.2 _ hacquired
      | settling _ | turn _ | loading _ _ _ => cases hacquired
    exact .inl ⟨e.2, htask hdelivered ▸ he, hacquired⟩
  · -- what is pinned was given for a transaction
    obtain ⟨d', hd', ht', hc'⟩ := given_of_pinnedTo hreachable hpinned
    rw [lent_once hd hd' ht hc'.symm, ht'] at ht
    cases ht

/-! ### Batches that fail -/

section
variable {ms : List Move} {q : AcquireRequest} {s : SchemaContext} {p : PoolId}

/-- What an attempt of a batch from a pool gave is for no transaction. -/
theorem Requested.lends (h : Requested moves ms q s p) (hplain : Plain moves ms q)
    (hc : .ok c ∈ attempts (play {} moves).started (play {} moves) (.start (.acquire q) :: ms)) :
    ∃ d ∈ record delivery? {} (moves ++ .start (.acquire q) :: ms),
      d.task = (play {} moves).started ∧ d.transaction = none ∧ d.connection = c := by
  obtain ⟨ms₁, mv, ms₂, heq, hcrashed, hattempt⟩ := mem_record_iff.1 hc
  obtain ⟨rfl, held, p', n, pins, a, hlookup, hdelivery⟩ := delivery_of_attempt hattempt
  cases ms₁ with
  | nil => cases heq
  | cons mv₁ ms₁ =>
    rw [List.cons_append, List.cons.injEq] at heq
    obtain ⟨rfl, rfl⟩ := heq
    have hms : ms₁ <+: ms₁ ++ .goOn (play {} moves).started :: ms₂ := List.prefix_append _ _
    have hinitial := h.initial hms
    obtain ⟨_, _, hdrawing, _⟩ := hinitial.drawn fun ms' hms' =>
      hplain ms' (hms'.trans ((List.prefix_cons_inj _).2 hms))
    obtain ⟨_, hs⟩ := h.sound
    obtain ⟨_, _, hs'⟩ := hs.play _ hinitial.alive
    obtain ⟨_, _, hstage, _⟩ := hdrawing _ ((lookup_some_iff hs'.nodup _ _).1 hlookup)
    cases hstage
    refine ⟨⟨_, none, a.backend, c, true⟩, mem_record_iff.2 ⟨moves ++ .start (.acquire q) :: ms₁,
      .goOn (play {} moves).started, ms₂, by simp, ?_, ?_⟩, rfl, rfl, rfl⟩
    · rwa [play_append]
    · rw [play_append]
      exact hdelivery

/-- A batch that fails gives up what it got: nobody has it afterwards. -/
theorem Requested.released (h : Requested moves ms q s p) (hplain : Plain moves ms q)
    (hh : Honest (moves ++ .start (.acquire q) :: ms)) {e : Error}
    (he : ((play {} moves).started, .failed e) ∈ replies (play {} moves) (.start (.acquire q) :: ms))
    (hc : .ok c ∈ attempts (play {} moves).started (play {} moves) (.start (.acquire q) :: ms)) :
    c ∉ (play {} (moves ++ .start (.acquire q) :: ms)).connections := by
  intro hlive
  obtain ⟨d, hd, hk, ht, rfl⟩ := h.lends hplain hc
  obtain ⟨_, _, _, hreplied⟩ := h.drawn hplain
  obtain ⟨⟨rs, hmade, hends⟩, hgone⟩ := hreplied _ he
  rcases belongs hh hd ht hlive with ⟨state, hmem, _⟩ | ⟨cs, hreply, _⟩
  · rw [hk, play_append] at hmem
    exact hgone state hmem
  · rw [hk, replies, record_append] at hreply
    rcases List.mem_append.1 hreply with hold | hnew
    · -- the task was not started yet
      have ho := ordered_play moves
      rw [deliveries, asked, answered, log_moves, log_moves, log_moves] at ho
      obtain ⟨call, hcall, _⟩ := ho.tended.answers _ _ hold
      exact absurd (ho.tended.called _ hcall) (Nat.lt_irrefl _)
    · obtain ⟨⟨rs', hmade', hends'⟩, _⟩ := hreplied _ hnew
      obtain rfl : rs = rs' := hmade.attempts.symm.trans hmade'.attempts
      obtain ⟨e', he'⟩ := hends.error_of_failed
      rw [hends'.eq_of_connections] at he'
      simp at he'

end

end World

end ShardRegistry
