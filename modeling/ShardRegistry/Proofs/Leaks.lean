import ShardRegistry.Proofs.Managers

/-! Leaks. While no task is under way, the live connections are those that callers have and those that
are pinned to open transactions. So nothing is live any more once callers have dropped what they got
and every transaction was committed or rolled back, or its manager was closed. -/
namespace ShardRegistry

namespace World
variable {w w' : World} {k : TaskId}

/-! ### Engines -/

theorem sealed_act (h : w.resources.Sealed) (a : Action) : (w.act a).resources.Sealed := by
  cases a with
  | move m =>
    refine respects_move Resources.Sealed.respected (fun hm he hr => hr.of_eq he hm) w m ?_ ?_ h
    · exact fun _ t _ _ hr h =>
        h.of_steady ((Resources.Steady.dropTransaction hr).trans (.modifyPins _ t _))
    · exact fun m' _ h => h.of_steady (.beginTransaction _ m')
  | startManager kind pools => exact h.of_evolves rfl (.append Manager.Ages.refl _ _)
  | closeManager m => exact h.closeManager m
  | addPool name p => exact Resources.Sealed.respected.addPool _ _ name p h
  | closePool p => exact h.of_eq rfl rfl

theorem sealed_after (as : List Action) : (after as).resources.Sealed := by
  induction as using List.reverseRecOn with
  | nil => exact fun _ _ h => by cases h
  | append_singleton as a ih =>
    rw [after_snoc]
    split
    · exact ih
    · exact sealed_act ih a

/-! ### Transactions -/

theorem not_begun_ask (a : Acquisition) (r : Resources) : .begun ∉ a.askReferences r := by
  simp only [Acquisition.askReferences, Acquisition.drops]
  split
  · simp
  · split
    · simp
    · split
      · simp
      · split <;> simp

theorem not_begun_start (a : Acquisition) (r : Resources) : .begun ∉ a.startReferences r := by
  simp only [Acquisition.startReferences]
  split
  · simp [Acquisition.drops]
  · exact not_begun_ask a r

theorem not_begun_resume (a : Acquisition) (r : Resources) (server : Option Server) (stage : Stage) :
    .begun ∉ a.resumeReferences r server stage := by
  have hobtain (c : Connection) : .begun ∉ a.obtainReferences r c := not_begun_ask _ r
  cases stage with
  | pins t =>
    simp only [Acquisition.resumeReferences, Acquisition.drops]
    split
    · simp [hobtain]
    · split <;> simp
  | gate p attempt ts =>
    simp only [Acquisition.resumeReferences, Acquisition.drops]
    split
    · simp
    · cases ts <;> simp [hobtain]

theorem not_begun_departures (r r' : Resources) : .begun ∉ r.departures r' := by
  simp only [Resources.departures, List.mem_flatMap, not_exists, not_and]
  intro t _
  split <;> simp

theorem not_begun_begin (w : World) (call : Call) : .begun ∉ w.beginReferences call := by
  cases call with
  | acquire q =>
    simp only [beginReferences]
    split
    · simp
    · split
      · simp
      · split
        · exact not_begun_start _ _
        · simp
  | pinned m t backend => exact not_begun_start _ _
  | event _ | close | settle _ _ => simp [beginReferences]

theorem not_begun_advance (w : World) (k : TaskId) (s : TaskState) :
    .begun ∉ w.advanceReferences k s := by
  cases s with
  | lock q l a =>
    simp only [advanceReferences]
    split
    · simp [Acquisition.drops]
    · exact not_begun_start _ _
  | acquiring held stage a => exact not_begun_resume a _ w.server stage
  | settling t => simp [advanceReferences]
  | turn change => exact not_begun_departures _ _
  | loading purpose pending query =>
    cases query with
    | none => exact not_begun_departures _ _
    | some q =>
      simp only [advanceReferences, List.mem_append, not_or]
      refine ⟨?_, not_begun_departures _ _⟩
      split <;> simp

/-- Only a transaction that begins makes pins. -/
theorem begins_of_references {a : Action} (h : .begun ∈ w.references a) :
    ∃ m t, a = .move (.beginTransaction m) ∧ (w.resources.beginTransaction m).2 = .ok t := by
  cases a with
  | move m =>
    cases m with
    | beginTransaction m =>
      simp only [references] at h
      split at h
      · cases h
      · rename_i t ht
        exact ⟨m, t, rfl, ht⟩
    | start call => exact absurd h (not_begun_begin _ call)
    | goOn k =>
      simp only [references] at h
      split at h
      · cases h
      · split at h
        · exact absurd h (not_begun_advance _ k _)
        · cases h
    | cancel k =>
      simp only [references] at h
      split at h
      · cases h
      · simp [withdrawReferences] at h
    | surround _ _ _ | tune _ _ _ => cases h
    | collect _ _ => simp [references] at h
  | closeManager m => exact absurd h (not_begun_departures _ _)
  | startManager _ _ | addPool _ _ | closePool _ => cases h

/-- The transaction that begins in a move, and its manager. -/
def begun? (w : World) : Move → Option (ManagerId × TransactionId)
  | .beginTransaction m => (w.resources.beginTransaction m).2.toOption.map fun t => (m, t)
  | _ => none

def begun : List Action → List (ManagerId × TransactionId) := log begun?

/-- The transaction was committed or rolled back, or its manager was closed, by itself or with its
engine. -/
def Finished (as : List Action) (m : ManagerId) (t : TransactionId) : Prop :=
  (∃ k, (k, .settle m t) ∈ asked as ∧ ∀ e, (k, .failed e) ∉ answered as) ∨
    (after as).resources.isManagerClosed m = true ∨
    ∃ (e : EngineId) (x : Engine), (after as).resources.engines[e]? = some x ∧
      (m = x.xa ∨ m = x.base) ∧ x.isClosed = true

/-- An open transaction was begun with the manager that has it in its table. -/
theorem begun_of_active {as : List Action} {m : ManagerId} {t : TransactionId}
    (h : (after as).resources.isActive m t = true) : (m, t) ∈ begun as := by
  induction as using List.reverseRecOn with
  | nil => cases h
  | append_singleton as a ih =>
    have hordered := ordered_after as
    have hlog : begun (as ++ [a]) = begun as ++ (left? begun? (after as) a).toList := log_snoc _ _ _
    by_cases hc : (after as).crashed = true
    · rw [after_snoc, if_pos hc] at h
      exact hlog ▸ List.mem_append_left _ (ih h)
    · obtain ⟨hordered', hlapses⟩ := hordered.act a
      rw [after_snoc, if_neg hc] at h
      by_cases hknown : (after as).resources.mutex? t = none
      · -- the pins of the transaction are new
        have hsize := (accounts_after as).balances.size
        have hsize' := (accounts_after (as ++ [a])).balances.size
        rw [ledger_snoc, after_snoc, if_neg hc, if_neg hc] at hsize'
        have hlt := Resources.mutex?_ne_none_iff.1 (hordered'.affine.queued.active m t h).1
        have hge : (after as).resources.pins.length ≤ t.serial :=
          Nat.le_of_not_lt fun hlt => Resources.mutex?_ne_none_iff.2 hlt hknown
        have hmem : .begun ∈ (after as).references a := by
          by_contra hnot
          rw [Ledger.length_posts hnot] at hsize'
          omega
        obtain ⟨m', t', rfl, hb⟩ := begins_of_references hmem
        obtain ⟨⟨r, result⟩, hbegin⟩ : ∃ y, (after as).resources.beginTransaction m' = y := ⟨_, rfl⟩
        rw [hbegin] at hb
        cases hb
        have hactive := (Resources.begins_of_ok hbegin).active m t
        have hr : ((after as).act (.move (.beginTransaction m'))).resources = r :=
          congrArg Prod.fst hbegin
        rw [hr, hactive, Bool.or_eq_true, decide_eq_true_eq] at h
        rcases h with hold | ⟨rfl, rfl⟩
        · exact absurd hknown (hordered.affine.queued.active m t hold).1
        · rw [hlog]
          refine List.mem_append_right _ ?_
          simp [left?, hc, Action.move?, begun?, hbegin, Except.toOption]
      · exact hlog ▸ List.mem_append_left _ (ih (hlapses.resources.active m t hknown h))

theorem reply_settle {m : ManagerId} {t : TransactionId} {e : Error}
    (hd : w.resources.dropTransaction m t = .error e) :
    w.reply? (.start (.settle m t)) = some (w.started, .failed e) := by
  have hd' : (World.resources { w with started := w.started + 1 }).dropTransaction m t = .error e := hd
  simp [reply?, part?, World.begin, beginSettle, hd', Next.outcome?]

/-- A transaction whose end was not refused is over. -/
theorem not_active_of_settled {as : List Action} {k : TaskId} {m : ManagerId} {t : TransactionId}
    (hasked : (k, .settle m t) ∈ asked as) (hok : ∀ e, (k, .failed e) ∉ answered as) :
    (after as).resources.isActive m t = false := by
  obtain ⟨as₁, a, as₂, rfl, hmem⟩ := mem_trail_iff.1 hasked
  have hmem : left? call? (after as₁) a = some (k, .settle m t) := Option.mem_toList.1 hmem
  simp only [left?] at hmem
  split at hmem
  · cases hmem
  · rename_i hc
    obtain ⟨mv, hmove, hcall⟩ := Option.bind_eq_some_iff.1 hmem
    obtain rfl : a = .move mv := by
      cases a <;> cases hmove
      rfl
    cases mv with
    | start call =>
      cases hcall
      have hinactive := settle_inactive (after as₁) m t
      have hlapses := lapses_after (as₁ ++ [.move (.start (.settle m t))]) as₂
      rw [after_snoc, if_neg hc, List.append_assoc, List.singleton_append] at hlapses
      cases hd : (after as₁).resources.dropTransaction m t with
      | error e =>
        -- the call was refused
        have hfailed : left? reply? (after as₁) (.move (.start (.settle m t))) =
            some ((after as₁).started, .failed e) := by
          simp [left?, hc, Action.move?, reply_settle hd]
        exact absurd (mem_trail_iff.2 ⟨as₁, _, as₂, rfl, Option.mem_toList.2 hfailed⟩) (hok e)
      | ok r =>
        have hactive := (Resources.dropTransaction_ok hd).1
        have hknown := ((ordered_after as₁).affine.queued.active m t hactive).1
        cases h : (after (as₁ ++ .move (.start (.settle m t)) :: as₂)).resources.isActive m t with
        | false => rfl
        | true =>
          have hstep := ((ordered_after as₁).act (.move (.start (.settle m t)))).2
          have hold := hlapses.resources.active m t (hstep.resources.known t hknown) h
          rw [show ((after as₁).act (.move (.start (.settle m t)))).resources.isActive m t = false
            from hinactive] at hold
          cases hold
    | goOn _ | cancel _ | beginTransaction _ | surround _ _ _ | tune _ _ _ | collect _ _ => cases hcall

theorem finished_not_active {as : List Action} {m : ManagerId} {t : TransactionId}
    (h : Finished as m t) : (after as).resources.isActive m t = false := by
  have hclosed : (after as).resources.isManagerClosed m = true →
      (after as).resources.isActive m t = false := by
    intro hc
    cases hactive : (after as).resources.isActive m t with
    | false => rfl
    | true =>
      rw [(ordered_after as).affine.queued.opened m t hactive] at hc
      cases hc
  rcases h with ⟨k, hasked, hok⟩ | hc | ⟨e, x, hx, hm, hc⟩
  · exact not_active_of_settled hasked hok
  · exact hclosed hc
  · obtain ⟨hxa, hbase⟩ := (sealed_after as e x hx).2 hc
    rcases hm with rfl | rfl
    · exact hclosed hxa
    · exact hclosed hbase

/-- No connection is leaked. While no task is under way, the live connections of a pool are those that
callers have and those pinned to open transactions, each counted once; and there are none once callers
dropped theirs and all transactions are finished. -/
theorem not_leaked (as : List Action) (hidle : (after as).tasks = []) :
    (∀ p, (ledger as).live p = (((after as).held ++
        (after as).resources.tables.flatMap (after as).pinnedTo).eraseDups.filter
          (·.pool = p)).length) ∧
      ((after as).held = [] → (∀ e ∈ begun as, Finished as e.1 e.2) → ∀ p, (ledger as).live p = 0) := by
  have hlive : ∀ p, (ledger as).live p = (((after as).held ++
      (after as).resources.tables.flatMap (after as).pinnedTo).eraseDups.filter
        (·.pool = p)).length := by
    intro p
    have hreachable : (after as).reachable = (after as).resources.tables := by
      simp [reachable, hidle, Resources.tables]
    rw [live_ledger, live, connections, hreachable, hidle]
    simp [held]
  refine ⟨hlive, fun hheld hfinished p => ?_⟩
  have htables : (after as).resources.tables = [] := by
    refine List.eq_nil_iff_forall_not_mem.2 fun t ht => ?_
    obtain ⟨m, hm⟩ := Resources.mem_tables_iff.1 ht
    rw [finished_not_active (hfinished _ (begun_of_active hm))] at hm
    cases hm
  rw [hlive, hheld, htables]
  rfl

/-- A commit of one transaction and the closing of the manager of both, while tasks take connections
for them. -/
def closingMeanwhile : List Action :=
  [.addPool "b0" { url := "postgresql://b0/d" }, .startManager .xa (.ofList [("b0", 0)]),
    .move (.beginTransaction 0), .move (.beginTransaction 0),
    .move (.start (.pinned 0 ⟨0⟩ "b0")), .move (.goOn 0), .move (.start (.settle 0 ⟨0⟩)),
    .move (.start (.pinned 0 ⟨1⟩ "b0")), .move (.goOn 2), .closeManager 0,
    .move (.goOn 0), .move (.goOn 1), .move (.goOn 2)]

theorem not_leaked_overlapping :
    (after closingMeanwhile).tasks = [] ∧ (ledger closingMeanwhile).live 0 = 2 ∧
      ((after (closingMeanwhile.take 9)).resources.closeManager 0).2 =
        .error (.close "XA transaction manager" "pinned connections of 1 transaction(s) are in use") ∧
      (ledger (closingMeanwhile ++ [.move (.collect [] [])])).live 0 = 0 := by
  refine ⟨rfl, (not_leaked closingMeanwhile rfl).1 0, rfl, ?_⟩
  refine (not_leaked _ rfl).2 rfl (fun e he => .inr (.inl ?_)) 0
  have hbegun : begun (closingMeanwhile ++ [.move (.collect [] [])]) = [(0, ⟨0⟩), (0, ⟨1⟩)] := rfl
  rw [hbegun] at he
  simp only [List.mem_cons, List.not_mem_nil, or_false] at he
  rcases he with rfl | rfl <;> rfl

end World

end ShardRegistry
