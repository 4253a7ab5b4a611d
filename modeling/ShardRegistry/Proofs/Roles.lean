import ShardRegistry.Proofs.Draws
import ShardRegistry.Proofs.Parts

/-! Roles of tasks. Every part of a task keeps the roles of all tasks and the deliveries in order; the
other parts of calls, and of changes, are those that retire transactions. -/
namespace ShardRegistry

/-- What a task does with pins. -/
def TaskState.role? : TaskState → Option Role
  | .acquiring _ stage a => stage.role? a
  | .settling t => some (.settles t)
  | _ => none

def Next.role? (next : Next) : Option Role := next.state?.bind TaskState.role?

/-- The connection that a task gets that goes on. -/
def TaskState.delivery? (r : Resources) (server : Option Server) (k : TaskId) :
    TaskState → Option Delivery
  | .acquiring _ stage a => a.delivery? r server k stage
  | .loading _ _ (some q) =>
    (r.leavePool server q.pool q.attempt).2.toOption.map fun c => ⟨k, none, q.backend, c, true⟩
  | _ => none

namespace Resources

theorem mutex?_ne_none_iff {r : Resources} {t : TransactionId} :
    r.mutex? t ≠ none ↔ t.serial < r.pins.length := by
  simp [mutex?]

/-- Transactions that were begun may end, and others have other numbers. -/
structure Lapses (r r' : Resources) : Prop where
  known : ∀ t, r.mutex? t ≠ none → r'.mutex? t ≠ none
  active : ∀ m t, r.mutex? t ≠ none → r'.isActive m t = true → r.isActive m t = true
  managers : Evolves Manager.Ages r.managers r'.managers

namespace Lapses
variable {r r' r'' : Resources}

theorem trans (h : r.Lapses r') (h' : r'.Lapses r'') : r.Lapses r'' where
  known t ht := h'.known t (h.known t ht)
  active m t ht hm := h.active m t ht (h'.active m t (h.known t ht) hm)
  managers := h.managers.trans Manager.Ages.trans h'.managers

theorem closed (h : r.Lapses r') {t : TransactionId} (ht : r.mutex? t ≠ none) (ho : ¬ r.Open t) :
    ¬ r'.Open t := fun ⟨m, hm⟩ => ho ⟨m, h.active m t ht hm⟩

theorem of_table (h : r'.table = r.table) : r.Lapses r' := by
  obtain ⟨hmanagers, hpins⟩ := Prod.mk.inj h
  refine ⟨fun t ht => ?_, fun m t _ hm => ?_, hmanagers ▸ .refl Manager.Ages.refl _⟩
  · rw [mutex?_ne_none_iff, hpins]
    exact mutex?_ne_none_iff.1 ht
  · rwa [isActive_of_managers hmanagers] at hm

theorem of_retires (h : r.Retires r') : r.Lapses r' where
  known t ht := by rwa [h.mutexes]
  active m t _ hm := h.active m t hm
  managers := h.managers

theorem refl (r : Resources) : r.Lapses r := of_table rfl

theorem beginTransaction (r : Resources) (m : ManagerId) : r.Lapses (r.beginTransaction m).1 := by
  obtain ⟨⟨r', result⟩, h⟩ : ∃ y, r.beginTransaction m = y := ⟨_, rfl⟩
  rw [h]
  cases result with
  | error e => exact beginTransaction_error h ▸ refl r
  | ok t =>
    have hb := begins_of_ok h
    refine ⟨fun t' ht => ?_, fun m' t' ht hm => ?_, ?_⟩
    · rwa [hb.mutexes t' (hb.ne_of_known ht)]
    · simpa [hb.active, hb.ne_of_known ht] using hm
    · have hsteady := Steady.beginTransaction r m
      rw [h] at hsteady
      exact hsteady.grows.managers

end Lapses

end Resources

namespace World

def roles (w : World) : List (TaskId × Role) :=
  w.tasks.filterMap fun e => e.2.role?.map fun ρ => (e.1, ρ)

theorem mem_roles_iff {w : World} {k : TaskId} {ρ : Role} :
    (k, ρ) ∈ w.roles ↔ ∃ s, (k, s) ∈ w.tasks ∧ s.role? = some ρ := by
  simp only [roles, List.mem_filterMap, Option.map_eq_some_iff]
  constructor
  · rintro ⟨⟨k', s⟩, hmem, ρ', hρ', heq⟩
    cases heq
    exact ⟨s, hmem, hρ'⟩
  · rintro ⟨s, hmem, hρ⟩
    exact ⟨(k, s), hmem, ρ, hρ, rfl⟩

theorem not_mem_roles {w : World} {k : TaskId} (h : ∀ e ∈ w.tasks, e.1 ≠ k) (ρ : Role) :
    (k, ρ) ∉ w.roles := by
  rw [mem_roles_iff]
  rintro ⟨s, hmem, _⟩
  exact h _ hmem rfl

/-! ### Parts that do not deal with pins -/

/-- No task came or went, and transactions ended at most. -/
structure Retires (w w' : World) : Prop where
  resources : w.resources.Retires w'.resources
  tasks : w'.tasks = w.tasks
  started : w'.started = w.started

namespace Retires
variable {w w' w'' : World}

theorem refl (w : World) : w.Retires w := ⟨.refl _, rfl, rfl⟩

theorem trans (h : w.Retires w') (h' : w'.Retires w'') : w.Retires w'' :=
  ⟨h.resources.trans h'.resources, h'.tasks.trans h.tasks, h'.started.trans h.started⟩

theorem owning {r : Resources} (h : w.resources.Retires r) : w.Retires (w.owning r) :=
  ⟨h, rfl, rfl⟩

theorem modifyLock (w : World) (l : LockId) (f : Mutex → Mutex) : w.Retires (w.modifyLock l f) :=
  owning (.of_eq rfl rfl rfl)

theorem releaseWriter (w : World) : w.Retires w.releaseWriter := ⟨.of_eq rfl rfl rfl, rfl, rfl⟩

theorem releaseLock (w : World) (l : LockId) : w.Retires (w.releaseLock l) := by
  simp only [World.releaseLock]
  split
  · exact refl w
  · exact (modifyLock w l _).trans (owning (.of_eq rfl rfl rfl))

theorem releaseHeld (w : World) (held : Option LockId) : w.Retires (w.releaseHeld held) := by
  cases held with
  | none => exact refl w
  | some l => exact releaseLock w l

/-- The rest of a part of an acquisition. -/
theorem acquired (w : World) (held : Option LockId) (y : Resources × Progress) :
    (w.owning y.1).Retires (w.acquired held y).1 := by
  obtain ⟨r, progress⟩ := y
  cases progress with
  | waits stage a | passes stage a => exact refl _
  | done outcome =>
    cases outcome with
    | ok cs => exact releaseHeld _ held
    | error stop =>
      cases stop with
      | rejected e => exact releaseHeld _ held
      | crashed => exact refl _

theorem changed {y : Registry × Step} (h : w.resources.Retires y.1.resources) :
    w.Retires (w.changed y).1 := by
  obtain ⟨g, step⟩ := y
  have hown : w.Retires { w with registry := g } := ⟨h, rfl, rfl⟩
  cases step with
  | load purpose pending => exact hown
  | done outcome =>
    cases outcome with
    | ok n => exact hown.trans (releaseWriter _)
    | error stop =>
      cases stop with
      | rejected e => exact hown.trans (releaseWriter _)
      | crashed => exact hown

theorem loaded (w : World) (purpose : Purpose) (pending : PendingSchema)
    (tables : Except Error (SortedMap Tables)) : w.Retires (w.loaded purpose pending tables).1 :=
  changed (Resources.Retires.respected.resume w.registry w.environment purpose pending tables)

theorem askBackend (w : World) (k : TaskId) (purpose : Purpose) (pending : PendingSchema)
    (tables : SortedMap Tables) (rest : List (String × DataSource)) :
    w.Retires (w.askBackend k purpose pending tables rest).1 := by
  cases rest with
  | nil => exact loaded w purpose pending (.ok tables)
  | cons e rest => exact owning (.enterPool _ k e.2.pool)

theorem load (w : World) (k : TaskId) (purpose : Purpose) (pending : PendingSchema) :
    w.Retires (w.load k purpose pending).1 := by
  simp only [World.load]
  split
  · exact loaded w purpose pending _
  · split
    · exact askBackend w k purpose pending _ _
    · exact loaded w purpose pending _

end Retires

theorem role_acquired (w : World) (held : Option LockId) (y : Resources × Progress) :
    (w.acquired held y).2.role? = y.2.role? := by
  obtain ⟨r, progress⟩ := y
  cases progress with
  | waits stage a | passes stage a => rfl
  | done outcome =>
    cases outcome with
    | ok cs => rfl
    | error stop => cases stop <;> rfl

theorem role_changed (w : World) (y : Registry × Step) : (w.changed y).2.role? = none := by
  obtain ⟨g, step⟩ := y
  cases step with
  | load purpose pending => rfl
  | done outcome =>
    cases outcome with
    | ok n => rfl
    | error stop => cases stop <;> rfl

theorem role_askBackend (w : World) (k : TaskId) (purpose : Purpose) (pending : PendingSchema)
    (tables : SortedMap Tables) (rest : List (String × DataSource)) :
    (w.askBackend k purpose pending tables rest).2.role? = none := by
  cases rest with
  | nil => exact role_changed w _
  | cons e rest =>
    simp only [World.askBackend]
    split <;> rfl

theorem role_load (w : World) (k : TaskId) (purpose : Purpose) (pending : PendingSchema) :
    (w.load k purpose pending).2.role? = none := by
  simp only [World.load]
  split
  · exact role_changed w _
  · split
    · exact role_askBackend w k purpose pending _ _
    · exact role_changed w _

/-! ### Parts of tasks -/

/-- A part of a task left the role that it has, after the role that it had, in order. -/
structure Lands (H : List Delivery) (k : TaskId) (w w' : World) (old ρ : Option Role) : Prop where
  entitled : w.resources.Entitles old ρ
  tasks : w'.tasks = w.tasks
  started : w'.started = w.started
  lapses : w.resources.Lapses w'.resources
  resources : w'.resources.Affine H (joined k ρ w.roles)

namespace Lands
variable {H : List Delivery} {k : TaskId} {w w' w'' : World} {old ρ : Option Role}

theorem of_retires (h : w.resources.Affine H w.roles) (hr : w.Retires w') (hρ : ρ = none) :
    Lands H k w w' old ρ where
  entitled _ hnew := by
    rw [hρ] at hnew
    cases hnew
  tasks := hr.tasks
  started := hr.started
  lapses := .of_retires hr.resources
  resources := by
    rw [hρ]
    exact h.retires hr.resources

theorem acquired {y : Resources × Progress} (held : Option LockId)
    (h : y.1.Affine H (joined k y.2.role? w.roles)) (ht : y.1.table = w.resources.table)
    (he : w.resources.Entitles old y.2.role?) :
    Lands H k w (w.acquired held y).1 old (w.acquired held y).2.role? where
  entitled := by rwa [role_acquired]
  tasks := (Retires.acquired w held y).tasks
  started := (Retires.acquired w held y).started
  lapses := .trans (.of_table ht) (.of_retires (Retires.acquired w held y).resources)
  resources := by
    rw [role_acquired]
    exact h.retires (Retires.acquired w held y).resources

theorem after_retires (hr : w.Retires w') (h : Lands H k w' w'' old ρ) :
    Lands H k w w'' old ρ where
  entitled ρ' hρ := (h.entitled ρ' hρ).imp_right <| Or.imp_left fun ⟨m, hm⟩ =>
    ⟨m, hr.resources.active m _ hm⟩
  tasks := h.tasks.trans hr.tasks
  started := h.started.trans hr.started
  lapses := .trans (.of_retires hr.resources) h.lapses
  resources := by
    have hroles : w'.roles = w.roles := by rw [roles, hr.tasks, roles]
    exact hroles ▸ h.resources

theorem begin (h : w.resources.Affine H w.roles) (hk : ∀ e ∈ w.tasks, e.1 ≠ k) (call : Call) :
    Lands H k w (w.begin k call).1 none (w.begin k call).2.role? := by
  have hk := not_mem_roles hk
  have hstill : Lands H k w w none none := of_retires h (.refl w) rfl
  have hchange : ∀ change, Lands H k w (w.beginChange k change).1 none
      (w.beginChange k change).2.role? := by
    intro change
    refine of_retires h ⟨.refl _, rfl, rfl⟩ ?_
    simp only [beginChange]
    split <;> rfl
  cases call with
  | acquire q =>
    simp only [World.begin, beginAcquire]
    split
    · exact hstill
    · split
      · exact hstill
      · split
        · exact acquired none (h.batch hk) (Acquisition.table_start _ _ k) Acquisition.start_entitled
        · obtain ⟨_, ⟨locks, hlocks⟩, _⟩ := lockFor_cases w.registry q.schema q.backend
          generalize w.registry.lockFor q.schema q.backend = x at hlocks
          have hown : w.Retires { w with registry := x.1 } :=
            ⟨.of_eq (congrArg (·.pools) hlocks) (congrArg (·.managers) hlocks)
              (congrArg (·.pins) hlocks), rfl, rfl⟩
          refine of_retires h (hown.trans (.modifyLock _ x.2 _)) ?_
          simp only
          split <;> rfl
  | event event =>
    simp only [World.begin, beginEvent]
    split
    · exact hstill
    · exact hchange _
  | close => exact hchange .close
  | pinned m transaction backend =>
    exact acquired none (h.batch hk) (Acquisition.table_start _ _ k) Acquisition.start_entitled
  | settle m t =>
    simp only [World.begin, beginSettle]
    split
    · exact hstill
    · rename_i r hr
      have hlapses := (Resources.Lapses.of_retires (.dropTransaction hr)).trans
        (.of_table (r.table_requestPins t k))
      have hsettles : ∀ next : Next, next.role? = some (.settles t) →
          Lands H k w (w.owning (r.requestPins t k)) none next.role? := by
        intro next hnext
        rw [hnext]
        exact ⟨fun ρ hρ => by cases hρ; exact .inl rfl, rfl, rfl, hlapses, h.settle hk hr⟩
      simp only
      split <;> exact hsettles _ rfl

/-- A task goes on that has got what it waits for. -/
theorem advance {s : TaskState} (h : w.resources.Affine H (joined k s.role? w.roles))
    (hk : ∀ e ∈ w.tasks, e.1 ≠ k) (hgo : w.mayGoOn k s = true) :
    Lands (H ++ (s.delivery? w.resources w.server k).toList) k w (w.advance k s).1 s.role?
      (w.advance k s).2.role? := by
  have hk := not_mem_roles hk
  cases s with
  | lock q l a =>
    have h : w.resources.Affine H w.roles := h
    simp only [TaskState.delivery?, Option.toList_none, List.append_nil, World.advance,
      World.afterLock]
    split
    · have hown : w.Retires { w with registry := w.registry.dropLock q.schema q.backend l } :=
        ⟨.of_eq rfl rfl rfl, rfl, rfl⟩
      exact of_retires h (hown.trans (.releaseLock _ l)) rfl
    · exact acquired (some l) (h.batch hk) (a.table_start _ k) Acquisition.start_entitled
  | acquiring held stage a =>
    refine acquired held (h.resume hk ?_ w.server) (a.table_resume _ k w.server stage)
      (Acquisition.resume_entitled w.server stage)
    rintro t rfl
    exact hgo
  | settling t =>
    simp only [TaskState.delivery?, Option.toList_none, List.append_nil]
    have hheld : w.resources.holdsPins t k = true := hgo
    obtain ⟨m, hm, hholder⟩ := Resources.holdsPins_iff.1 hheld
    have hheld' : (w.resources.clearPins t).holdsPins t k = true :=
      Resources.holdsPins_iff.2 ⟨m, (Resources.clearPins_eq _ t).2.1.trans hm, hholder⟩
    have htable : ((w.resources.clearPins t).releasePins t).table = w.resources.table := by simp
    exact ⟨(fun _ hρ => by cases hρ), rfl, rfl, .of_table htable,
      (h.cleared hheld).release hk rfl hheld'⟩
  | turn change =>
    simp only [TaskState.delivery?, Option.toList_none, List.append_nil]
    exact of_retires h (.changed (Resources.Retires.respected.begin w.registry w.environment change))
      (role_changed w _)
  | loading purpose pending query =>
    have h : w.resources.Affine H w.roles := h
    cases query with
    | none =>
      simp only [TaskState.delivery?, Option.toList_none, List.append_nil]
      exact of_retires h (.load w k purpose pending) (role_load w k purpose pending)
    | some q =>
      have hretires := Resources.Retires.leavePool w.resources w.server q.pool q.attempt
      simp only [TaskState.delivery?, World.advance, World.afterQuery]
      obtain ⟨⟨r, result⟩, hleave⟩ :
          ∃ y, w.resources.leavePool w.server q.pool q.attempt = y := ⟨_, rfl⟩
      rw [hleave] at hretires ⊢
      have hlent : r.Affine (H ++ (result.toOption.map fun c =>
          (⟨k, none, q.backend, c, true⟩ : Delivery)).toList) w.roles := by
        cases result with
        | error e =>
          simp only [Except.toOption, Option.map_none, Option.toList_none, List.append_nil]
          exact h.retires hretires
        | ok c =>
          obtain ⟨hnew, hcounted⟩ := Resources.leavePool_ok hleave
          exact (h.retires hretires).lent (h.recorded.new hnew) hcounted
      have hown : w.Retires (w.owning r) := .owning hretires
      refine after_retires hown ?_
      split
      · exact of_retires hlent (.loaded (w.owning r) purpose pending _) (role_changed _ _)
      · exact of_retires hlent (.askBackend (w.owning r) k purpose pending _ _)
          (role_askBackend _ k purpose pending _ _)

/-- A task is given up. -/
theorem withdraw {s : TaskState} (h : w.resources.Affine H (joined k s.role? w.roles))
    (hk : ∀ e ∈ w.tasks, e.1 ≠ k) : Lands H k w (w.withdraw k s) old none := by
  have hk := not_mem_roles hk
  -- the pins are given back, and a lock that was taken
  have hgiven : ∀ {r : Resources} (held : Option LockId), r.Affine H w.roles →
      r.table = w.resources.table → Lands H k w ((w.owning r).releaseHeld held) old none := by
    intro r held hr htable
    have hretires := Retires.releaseHeld (w.owning r) held
    exact ⟨(fun _ hρ => by cases hρ), hretires.tasks, hretires.started,
      .trans (.of_table htable) (.of_retires hretires.resources), hr.retires hretires.resources⟩
  cases s with
  | lock q l a =>
    simp only [World.withdraw]
    split
    · exact of_retires h (.releaseLock w l) rfl
    · exact of_retires h (.modifyLock w l _) rfl
  | acquiring held stage a =>
    cases stage with
    | pins t =>
      simp only [World.withdraw]
      split
      · rename_i hheld
        exact hgiven held (h.release hk rfl hheld) (by simp)
      · rename_i hheld
        exact hgiven held (h.leave hk rfl hheld) (by simp)
    | gate p n ts =>
      have hquit := h.retires (.quitPool _ k p)
      cases ts with
      | none => exact hgiven held hquit rfl
      | some t =>
        refine hgiven held (hquit.release hk rfl hquit.holds_of_draws) ?_
        rw [Resources.table_releasePins]
        rfl
  | settling t =>
    simp only [World.withdraw]
    split
    · rename_i hheld
      exact hgiven none (h.release hk rfl hheld) (by simp)
    · rename_i hheld
      exact hgiven none (h.leave hk rfl hheld) (by simp)
  | turn change =>
    simp only [World.withdraw]
    split
    · exact of_retires h (.releaseWriter w) rfl
    · exact of_retires h ⟨.refl _, rfl, rfl⟩ rfl
  | loading purpose pending query =>
    cases query with
    | none => exact of_retires h (.releaseWriter w) rfl
    | some q =>
      exact of_retires h ((Retires.owning (.quitPool _ k q.pool)).trans (.releaseWriter _)) rfl

end Lands

end World

end ShardRegistry
