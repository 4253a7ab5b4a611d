import ShardRegistry.Proofs.Accounts

/-! Managers from move to move. A relation that changes respect, and that is about managers and engines
only, is respected by all that tasks do, but for the beginning and the end of transactions. So engines
close with their managers, and a manager that stays open loses a transaction to nobody but the task that
ends it. -/
namespace ShardRegistry

/-! ### Managers and engines -/

namespace Resources
variable {r r' : Resources} {m : ManagerId} {e : EngineId}

theorem isManagerClosed_of_evolves (h : Evolves Manager.Ages r.managers r'.managers)
    (hc : r.isManagerClosed m = true) : r'.isManagerClosed m = true := by
  cases hx : r.managers[m]? with
  | none => simp [isManagerClosed, hx] at hc
  | some x =>
    obtain ⟨y, hy, hages⟩ := h m x hx
    have hclosed : x.isClosed = true := by simpa [isManagerClosed, hx] using hc
    simp [isManagerClosed, hy, hages.2 hclosed]

/-- With an engine its managers are closed. -/
def Sealed (r : Resources) : Prop :=
  ∀ (e : EngineId) (x : Engine), r.engines[e]? = some x → (x.xa < r.managers.length ∧ x.base < r.managers.length) ∧
    (x.isClosed = true → r.isManagerClosed x.xa = true ∧ r.isManagerClosed x.base = true)

namespace Sealed

theorem of_evolves (h : r.Sealed) (he : r'.engines = r.engines)
    (hm : Evolves Manager.Ages r.managers r'.managers) : r'.Sealed := by
  intro e x hx
  rw [he] at hx
  obtain ⟨⟨hxa, hbase⟩, hclosed⟩ := h e x hx
  have hle := hm.length_le
  exact ⟨⟨Nat.lt_of_lt_of_le hxa hle, Nat.lt_of_lt_of_le hbase hle⟩, fun hx =>
    ⟨isManagerClosed_of_evolves hm (hclosed hx).1, isManagerClosed_of_evolves hm (hclosed hx).2⟩⟩

theorem of_steady (h : r.Sealed) (hs : r.Steady r') : r'.Sealed :=
  h.of_evolves hs.engines hs.grows.managers

theorem of_eq (h : r.Sealed) (he : r'.engines = r.engines) (hm : r'.managers = r.managers) :
    r'.Sealed := h.of_evolves he (hm ▸ .refl Manager.Ages.refl _)

theorem addEngine (h : r.Sealed) (pools : OrderedMap PoolId) : (r.addEngine pools).1.Sealed := by
  rw [addEngine_eq]
  have hold : Sealed { r with
      managers := r.managers ++ [{ kind := .xa, pools }, { kind := .base, pools }] } :=
    h.of_evolves rfl (.append Manager.Ages.refl _ _)
  intro e x hx
  simp only at hx
  rcases Nat.lt_or_ge e r.engines.length with hlt | hge
  · rw [List.getElem?_append_left hlt] at hx
    exact hold e x hx
  · rw [List.getElem?_append_right hge, List.getElem?_singleton] at hx
    split at hx
    · cases hx
      exact ⟨by simp, fun hc => by cases hc⟩
    · cases hx

theorem closeManager (h : r.Sealed) (m : ManagerId) : (r.closeManager m).1.Sealed := by
  obtain ⟨managers, pins, hclose⟩ := closeManager_only r m
  exact h.of_evolves (by rw [hclose]) (Retires.closeManager r m).managers

theorem closed_closeManager (hm : m < r.managers.length) :
    (r.closeManager m).1.isManagerClosed m = true := by
  have hx : r.managers[m]? = some r.managers[m] := List.getElem?_eq_getElem hm
  cases hc : r.managers[m].isClosed with
  | true =>
    have hsame : (r.closeManager m).1 = r := by simp [Resources.closeManager, hx, hc]
    simp [hsame, isManagerClosed, hx, hc]
  | false =>
    obtain ⟨pins, hclose, _⟩ := closeManager_fst hx hc
    simp [hclose, isManagerClosed, hx]

theorem closeEngine (h : r.Sealed) (e : EngineId) : (r.closeEngineQuietly e).Sealed := by
  simp only [Resources.closeEngineQuietly, Resources.closeEngine]
  split
  · exact h
  · rename_i x hx
    split
    · exact h
    · obtain ⟨hlt, _⟩ := h e x hx
      generalize hr₁ : { r with engines := r.engines.modify e fun x => { x with isClosed := true } } = r₁
      have hm₁ : r₁.managers = r.managers := by rw [← hr₁]
      have hages₁ := (Retires.closeManager r₁ x.xa).managers
      have hages₂ := (Retires.closeManager (r₁.closeManager x.xa).1 x.base).managers
      have hlt₂ : x.base < (r₁.closeManager x.xa).1.managers.length :=
        Nat.lt_of_lt_of_le (hm₁ ▸ hlt.2) hages₁.length_le
      have hengines : ((r₁.closeManager x.xa).1.closeManager x.base).1.engines = r₁.engines := by
        obtain ⟨_, _, h₁⟩ := closeManager_only r₁ x.xa
        obtain ⟨_, _, h₂⟩ := closeManager_only (r₁.closeManager x.xa).1 x.base
        rw [h₂, h₁]
      intro e' y hy
      have hages := hages₁.trans Manager.Ages.trans hages₂
      have hle := hages.length_le
      rw [hm₁] at hages hle
      rw [hengines, ← hr₁] at hy
      rcases getElem?_modify_cases hy with ⟨rfl, x', hx', rfl⟩ | ⟨_, hy⟩
      · rw [hx] at hx'
        cases hx'
        exact ⟨⟨Nat.lt_of_lt_of_le hlt.1 hle, Nat.lt_of_lt_of_le hlt.2 hle⟩, fun _ =>
          ⟨isManagerClosed_of_evolves hages₂ (closed_closeManager (hm₁ ▸ hlt.1)),
            closed_closeManager hlt₂⟩⟩
      · obtain ⟨hlt', hclosed⟩ := h e' y hy
        exact ⟨⟨Nat.lt_of_lt_of_le hlt'.1 hle, Nat.lt_of_lt_of_le hlt'.2 hle⟩, fun hc =>
          ⟨isManagerClosed_of_evolves hages (hclosed hc).1,
            isManagerClosed_of_evolves hages (hclosed hc).2⟩⟩

theorem respected : Respected fun r r' => r.Sealed → r'.Sealed where
  refl _ h := h
  trans h h' hr := h' (h hr)
  marks _ _ _ h := h.of_eq rfl rfl
  addPool r f name p h := by
    refine h.of_eq ?_ ?_ <;>
      · simp only [Resources.addPool]
        split <;> rfl
  closePool _ _ h := h.of_eq rfl rfl
  addEngine _ pools h := h.addEngine pools
  closeEngine _ e h := h.closeEngine e

end Sealed

/-- A transaction in the table of a manager stays there until the manager is closed. -/
structure Lasts (m : ManagerId) (t : TransactionId) (r r' : Resources) : Prop where
  closed : r.isManagerClosed m = true → r'.isManagerClosed m = true
  active : r.isActive m t = true → r'.isActive m t = true ∨ r'.isManagerClosed m = true

namespace Lasts
variable {t : TransactionId} {r'' : Resources}

theorem of_managers (h : r'.managers = r.managers) : Lasts m t r r' where
  closed hc := by rwa [isManagerClosed, h, ← isManagerClosed]
  active ht := .inl (isActive_of_managers h m t ▸ ht)

theorem trans (h : Lasts m t r r') (h' : Lasts m t r' r'') : Lasts m t r r'' where
  closed hc := h'.closed (h.closed hc)
  active ht := (h.active ht).elim h'.active fun hc => .inr (h'.closed hc)

theorem append (ms : List Manager) : Lasts m t r { r with managers := r.managers ++ ms } where
  closed := isManagerClosed_of_evolves (.append Manager.Ages.refl _ _)
  active ht := by
    left
    simp only [isActive] at ht ⊢
    split at ht
    · rename_i x hx
      rw [List.getElem?_append_left (List.getElem?_eq_some_iff.1 hx).1, hx]
      exact ht
    · cases ht

theorem closeManager (r : Resources) (m' : ManagerId) : Lasts m t r (r.closeManager m').1 where
  closed := isManagerClosed_of_evolves (Retires.closeManager r m').managers
  active ht := by
    by_cases hm : m' = m
    · subst hm
      refine .inr (Sealed.closed_closeManager (Nat.lt_of_not_le fun hle => ?_))
      simp [isActive, List.getElem?_eq_none hle] at ht
    · left
      cases hx : r.managers[m']? with
      | none =>
        have hsame : (r.closeManager m').1 = r := by simp [Resources.closeManager, hx]
        rwa [hsame]
      | some x =>
        cases hc : x.isClosed with
        | true =>
          have hsame : (r.closeManager m').1 = r := by simp [Resources.closeManager, hx, hc]
          rwa [hsame]
        | false =>
          obtain ⟨pins, hclose, _⟩ := closeManager_fst hx hc
          have hother := isActive_modifyManager r m' m
            (fun x => { x with isClosed := true, active := [] }) t
          rw [if_neg (Ne.symm hm)] at hother
          rw [hclose]
          exact hother.trans ht

theorem respected : Respected (Lasts m t) where
  refl _ := of_managers rfl
  trans := trans
  marks _ _ _ := of_managers rfl
  addPool r f name p := by
    refine of_managers ?_
    simp only [Resources.addPool]
    split <;> rfl
  closePool _ _ := of_managers rfl
  addEngine r pools := by
    rw [addEngine_eq]
    exact (append _).trans (of_managers rfl)
  closeEngine r e := by
    simp only [Resources.closeEngineQuietly, Resources.closeEngine]
    split
    · exact of_managers rfl
    · split
      · exact of_managers rfl
      · rename_i x _ _
        have hmarked : Lasts m t r
            { r with engines := r.engines.modify e fun x => { x with isClosed := true } } :=
          of_managers rfl
        exact (hmarked.trans (closeManager _ x.xa)).trans (closeManager _ x.base)

/-- A transaction that begins takes nobody out of a table. -/
theorem beginTransaction (r : Resources) (m' : ManagerId) :
    Lasts m t r (r.beginTransaction m').1 where
  closed := isManagerClosed_of_evolves (Steady.beginTransaction r m').grows.managers
  active ht := by
    obtain ⟨⟨r', result⟩, hb⟩ : ∃ y, r.beginTransaction m' = y := ⟨_, rfl⟩
    rw [hb]
    cases result with
    | error e => exact .inl (beginTransaction_error hb ▸ ht)
    | ok t' => exact .inl (by rw [(begins_of_ok hb).active, ht, Bool.true_or])

/-- Nor does the end of another one. -/
theorem dropTransaction {m' : ManagerId} {t' : TransactionId}
    (h : r.dropTransaction m' t' = .ok r') (hne : ¬ (m' = m ∧ t' = t)) : Lasts m t r r' where
  closed := isManagerClosed_of_evolves (Steady.dropTransaction h).grows.managers
  active ht := by
    have hne' : ¬ (m = m' ∧ t = t') := fun ⟨hm, ht⟩ => hne ⟨hm.symm, ht.symm⟩
    exact .inl (by simp [(dropTransaction_ok h).2, ht, hne'])

end Lasts

end Resources

namespace World

theorem Alike.acquired (w : World) (held : Option LockId) (y : Resources × Progress) :
    (w.owning y.1).Alike (w.acquired held y).1 := by
  obtain ⟨r, progress⟩ := y
  cases progress with
  | waits stage a | passes stage a => exact refl _
  | done outcome =>
    cases outcome with
    | ok cs => exact releaseHeld _ held
    | error stop =>
      cases stop with
      | rejected e => exact releaseHeld _ held
      | crashed => exact refl _

/-! ### Relations that moves respect -/

section Respected
variable {R : Resources → Resources → Prop} (hR : Resources.Respected R)
  (hsame : ∀ {r r' : Resources}, r'.managers = r.managers → r'.engines = r.engines → R r r')

include hsame in
theorem respects_alike {w w' : World} (h : w.Alike w') : R w.resources w'.resources :=
  hsame (Prod.mk.inj h.table).1 h.engines

include hsame in
theorem respects_acquired {w : World} (held : Option LockId) {y : Resources × Progress}
    (ht : y.1.table = w.resources.table) (he : y.1.engines = w.resources.engines) :
    R w.resources (w.acquired held y).1.resources := by
  have halike := Alike.acquired w held y
  exact hsame ((Prod.mk.inj halike.table).1.trans (Prod.mk.inj ht).1) (halike.engines.trans he)

include hsame in
theorem respects_begin (w : World) (k : TaskId) (call : Call)
    (hdrop : ∀ m t r, call = .settle m t → w.resources.dropTransaction m t = .ok r →
      R w.resources (r.requestPins t k)) :
    R w.resources (w.begin k call).1.resources := by
  have hstill : R w.resources w.resources := hsame rfl rfl
  cases call with
  | acquire q =>
    simp only [World.begin, beginAcquire]
    split
    · exact hstill
    · split
      · exact hstill
      · split
        · exact respects_acquired hsame none (Acquisition.table_start _ _ k)
            (Acquisition.start_steady _ _ k).1.engines
        · have hlock := Alike.lockFor w q.schema q.backend
          exact hsame (Prod.mk.inj hlock.table).1 hlock.engines
  | event event =>
    simp only [World.begin, beginEvent]
    split <;> exact hstill
  | close => exact hstill
  | pinned m t backend =>
    exact respects_acquired hsame none (Acquisition.table_start _ _ k)
      (Acquisition.start_steady _ _ k).1.engines
  | settle m t =>
    simp only [World.begin, beginSettle]
    split
    · exact hstill
    · rename_i hr
      exact hdrop m t _ rfl hr

include hR hsame in
theorem respects_changed {w : World} {y : Registry × Step} (h : R w.resources y.1.resources) :
    R w.resources (w.changed y).1.resources := by
  obtain ⟨g, step⟩ := y
  have hreleased : R w.resources (World.releaseWriter { w with registry := g }).resources :=
    hR.trans h (hsame rfl rfl)
  cases step with
  | load purpose pending => exact h
  | done outcome =>
    cases outcome with
    | ok n => exact hreleased
    | error stop =>
      cases stop with
      | rejected e => exact hreleased
      | crashed => exact h

include hR hsame in
theorem respects_loaded (w : World) (purpose : Purpose) (pending : PendingSchema)
    (tables : Except Error (SortedMap Tables)) :
    R w.resources (w.loaded purpose pending tables).1.resources :=
  respects_changed hR hsame (hR.resume w.registry w.environment purpose pending tables)

include hR hsame in
theorem respects_askBackend (w : World) (k : TaskId) (purpose : Purpose) (pending : PendingSchema)
    (tables : SortedMap Tables) (rest : List (String × DataSource)) :
    R w.resources (w.askBackend k purpose pending tables rest).1.resources := by
  cases rest with
  | nil => exact respects_loaded hR hsame w purpose pending _
  | cons e rest =>
    exact hsame (Prod.mk.inj (w.resources.table_enterPool k e.2.pool)).1
      (Resources.Steady.enterPool _ k e.2.pool).engines

include hR hsame in
theorem respects_advance (w : World) (k : TaskId) (s : TaskState) :
    R w.resources (w.advance k s).1.resources := by
  cases s with
  | lock q l a =>
    simp only [World.advance, World.afterLock]
    split
    · have hdropped : w.Alike { w with registry := w.registry.dropLock q.schema q.backend l } :=
        ⟨rfl, rfl, rfl, rfl, rfl⟩
      exact respects_alike hsame (hdropped.trans (.releaseHeld _ (some l)))
    · exact respects_acquired hsame (some l) (a.table_start _ k) (a.start_steady _ k).1.engines
  | acquiring held stage a =>
    exact respects_acquired hsame held (a.table_resume _ k w.server stage)
      (a.resume_steady _ w.server k stage).1.engines
  | settling t =>
    have htable : ((w.resources.clearPins t).releasePins t).table = w.resources.table := by simp
    exact hsame (Prod.mk.inj htable).1
      ((Resources.Steady.modifyPins _ t _).trans (.releasePins _ t)).engines
  | turn change => exact respects_changed hR hsame (hR.begin w.registry w.environment change)
  | loading purpose pending query =>
    cases query with
    | none =>
      simp only [World.advance, World.load]
      split
      · exact respects_loaded hR hsame w purpose pending _
      · split
        · exact respects_askBackend hR hsame w k purpose pending _ _
        · exact respects_loaded hR hsame w purpose pending _
    | some q =>
      have hleft : R w.resources
          (w.owning (w.resources.leavePool w.server q.pool q.attempt).1).resources :=
        hsame (Prod.mk.inj (w.resources.table_leavePool w.server q.pool q.attempt)).1
          (Resources.Steady.leavePool _ w.server q.pool q.attempt).engines
      simp only [World.advance, World.afterQuery]
      split
      · exact hR.trans hleft (respects_loaded hR hsame _ purpose pending _)
      · exact hR.trans hleft (respects_askBackend hR hsame _ k purpose pending _ _)

include hR hsame in
/-- What a move does, unless it begins or ends a transaction. -/
theorem respects_move (w : World) (m : Move)
    (hdrop : ∀ m' t r, m = .start (.settle m' t) → w.resources.dropTransaction m' t = .ok r →
      R w.resources (r.requestPins t w.started))
    (hbegin : ∀ m', m = .beginTransaction m' → R w.resources (w.resources.beginTransaction m').1) :
    R w.resources (w.move m).resources := by
  cases m with
  | start call =>
    rw [World.move, resources, resources, registry_put]
    exact respects_begin hsame { w with started := w.started + 1 } w.started call
      fun m' t r hcall => hdrop m' t r (congrArg Move.start hcall)
  | goOn k =>
    simp only [World.move]
    split
    · exact hR.refl _
    · split
      · rw [resources, resources, registry_put]
        exact respects_advance hR hsame (w.without k) k _
      · exact hR.refl _
  | cancel k =>
    simp only [World.move]
    split
    · exact hR.refl _
    · exact respects_alike hsame (w := w.without k) (.withdraw _ k _)
  | beginTransaction m' => exact hbegin m' rfl
  | tune p gate refused => exact hsame rfl rfl
  | surround _ _ _ | collect _ _ => exact hR.refl _

end Respected

/-- In a move an open transaction stays open, if it is not this one that the move ends, or its manager
is closed. -/
theorem lasts_move (w : World) {m : Move} {m' : ManagerId} {t : TransactionId}
    (hm : m ≠ .start (.settle m' t)) : Resources.Lasts m' t w.resources (w.move m).resources := by
  refine respects_move Resources.Lasts.respected (fun h _ => .of_managers h) w m ?_ ?_
  · rintro m₁ t₁ r rfl hr
    have hne : ¬ (m₁ = m' ∧ t₁ = t) := by
      rintro ⟨rfl, rfl⟩
      exact hm rfl
    exact (Resources.Lasts.dropTransaction hr hne).trans (.of_managers rfl)
  · exact fun m₁ _ => .beginTransaction _ m₁

end World

end ShardRegistry
