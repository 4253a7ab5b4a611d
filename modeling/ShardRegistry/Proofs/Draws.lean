import ShardRegistry.Proofs.Deliveries
import ShardRegistry.Proofs.Interleaving

/-! What acquisitions do with the pins of transactions. A task that waits for pins, or inside a pool with
pins to add the connection to, has a role in the transaction. When it goes on it gets a connection or
fails, gives the pins back in both cases, and asks for the next connection. -/
namespace ShardRegistry

/-- What a task does with pins where it waits. -/
def Stage.role? (a : Acquisition) : Stage → Option Role
  | .pins t => some (.gets t)
  | .gate _ _ (some t) => some (.draws t a.backend)
  | .gate _ _ none => none

def Progress.role? : Progress → Option Role
  | .waits stage a | .passes stage a => stage.role? a
  | .done _ => none

/-- The role of one task, if it has one, and those of the others. -/
def joined (k : TaskId) (ρ : Option Role) (R : List (TaskId × Role)) : List (TaskId × Role) :=
  (ρ.map fun ρ => (k, ρ)).toList ++ R

/-- The connection that a task gets that goes on. -/
def Acquisition.delivery? (a : Acquisition) (r : Resources) (server : Option Server) (k : TaskId) :
    Stage → Option Delivery
  | .pins t => (r.pinned? t a.backend).map fun c => ⟨k, some t, a.backend, c, false⟩
  | .gate p attempt pins =>
    (r.leavePool server p attempt).2.toOption.map fun c => ⟨k, pins, a.backend, c, true⟩

/-! ### What a task waits for -/

/-- The source has the transaction, or else the pool. -/
def Stage.Fits (source : Source) : Stage → Prop
  | .pins t | .gate _ _ (some t) => source.transaction? = some t
  | .gate p _ none => source.pool? = some p

/-- How a batch goes on that still asks for connections, or has got enough of them. -/
inductive Progress.Continues (a : Acquisition) : Progress → Prop where
  | waits {stage : Stage} (hmore : a.acquired.length < a.count) (hfits : stage.Fits a.source) :
      Continues a (.waits stage a)
  | passes {stage : Stage} (hmore : a.acquired.length < a.count) (hfits : stage.Fits a.source) :
      Continues a (.passes stage a)
  | enough (hmore : a.count ≤ a.acquired.length) : Continues a (.done (.ok a.acquired))
  | fails (stop : Stop) : Continues a (.done (.error stop))

namespace Acquisition
variable {a : Acquisition} {r : Resources} {k : TaskId}

theorem askPool_continues {p : PoolId} {pins : Option TransactionId}
    (hmore : a.acquired.length < a.count) (hfits : ∀ n, (Stage.gate p n pins).Fits a.source) :
    (a.askPool r k p pins).2.Continues a := by
  simp only [askPool]
  split
  · exact .passes hmore (hfits _)
  · exact .waits hmore (hfits _)

theorem ask_continues : (a.ask r k).2.Continues a := by
  simp only [ask]
  split
  · rename_i hmore
    exact .enough hmore
  · rename_i hmore
    have hmore := Nat.lt_of_not_le hmore
    split
    · rename_i p hsource
      exact askPool_continues hmore fun _ => by simp [Stage.Fits, hsource, Source.pool?]
    · rename_i m t otherwise hsource
      split
      · have hfits : (Stage.pins t).Fits a.source := by
          simp [Stage.Fits, hsource, Source.transaction?]
        split
        · exact .passes hmore hfits
        · exact .waits hmore hfits
      · split
        · exact askPool_continues hmore fun _ => by simp [Stage.Fits, hsource, Source.pool?]
        · exact .fails _
        · exact .fails _

theorem start_continues : (a.start r k).2.Continues a := by
  simp only [start]
  split
  · exact .fails _
  · exact ask_continues

/-- A batch goes on with what it has got, and with what is delivered. -/
theorem resume_continues {server : Option Server} {stage : Stage}
    (hmore : a.acquired.length < a.count) (hfits : stage.Fits a.source) :
    (a.resume r server k stage).2.Continues { a with
      acquired := a.acquired ++ ((a.delivery? r server k stage).map (·.connection)).toList } := by
  cases stage with
  | pins t =>
    simp only [resume, afterPins, delivery?]
    cases hc : r.pinned? t a.backend with
    | some c => exact ask_continues
    | none =>
      simp only [Option.map_none, Option.toList_none, List.append_nil]
      split
      · exact .fails _
      · exact askPool_continues hmore fun _ => hfits
  | gate p attempt pins =>
    simp only [resume, afterGate, delivery?]
    obtain ⟨r', result⟩ := r.leavePool server p attempt
    cases result with
    | error e => exact .fails _
    | ok c => exact ask_continues

end Acquisition

/-! ### What acquisitions leave alone -/

namespace Resources

/-- The tables of transactions, and how many there were. -/
def table (r : Resources) : List Manager × Nat := (r.managers, r.pins.length)

variable (r : Resources)

@[simp] theorem table_modifyPool (p : PoolId) (f : Pool → Pool) :
    (r.modifyPool p f).table = r.table := rfl

@[simp] theorem table_modifyPins (t : TransactionId) (f : Pins → Pins) :
    (r.modifyPins t f).table = r.table := by
  simp [table, modifyPins]

@[simp] theorem table_requestPins (t : TransactionId) (k : TaskId) :
    (r.requestPins t k).table = r.table := table_modifyPins r t _

@[simp] theorem table_pin (t : TransactionId) (b : String) (c : Connection) :
    (r.pin t b c).table = r.table := table_modifyPins r t _

@[simp] theorem table_clearPins (t : TransactionId) : (r.clearPins t).table = r.table :=
  table_modifyPins r t _

@[simp] theorem table_releasePins (t : TransactionId) : (r.releasePins t).table = r.table := by
  simp only [releasePins]
  split
  · exact table_modifyPins r t _
  · rfl

@[simp] theorem table_enterPool (k : TaskId) (p : PoolId) :
    (r.enterPool k p).1.table = r.table := by
  simp only [enterPool]
  split
  · rfl
  · split <;> rfl

@[simp] theorem table_leavePool (server : Option Server) (p : PoolId) (attempt : Nat) :
    (r.leavePool server p attempt).1.table = r.table := by
  simp only [leavePool]
  split
  · rfl
  · split <;> rfl

end Resources

namespace Acquisition
variable (a : Acquisition) (r : Resources) (k : TaskId)

@[simp] theorem table_askPool (p : PoolId) (ts : Option TransactionId) :
    (a.askPool r k p ts).1.table = r.table := by
  have h := r.table_enterPool k p
  simp only [askPool]
  split <;> rename_i heq <;> rw [heq] at h <;> exact h

@[simp] theorem table_ask : (a.ask r k).1.table = r.table := by
  simp only [ask]
  split
  · rfl
  · split
    · simp
    · split
      · simp
      · split <;> simp

@[simp] theorem table_start : (a.start r k).1.table = r.table := by
  simp only [start]
  split
  · rfl
  · exact table_ask a r k

theorem table_resume (server : Option Server) (stage : Stage) :
    (a.resume r server k stage).1.table = r.table := by
  cases stage with
  | pins t =>
    simp only [resume, afterPins]
    split
    · simp [obtain]
    · split <;> simp
  | gate p attempt ts =>
    have h := r.table_leavePool server p attempt
    simp only [resume, afterGate]
    split <;> rename_i heq <;> rw [heq] at h
    · cases ts <;> simpa using h
    · cases ts <;> simpa [obtain] using h

end Acquisition

/-! ### Steps of an acquisition -/

theorem joined_none (k : TaskId) (R : List (TaskId × Role)) : joined k none R = R := rfl

theorem Acquisition.askPool_role? (a : Acquisition) (r : Resources) (k : TaskId) (p : PoolId)
    (ts : Option TransactionId) :
    (a.askPool r k p ts).2.role? = ts.map fun t => .draws t a.backend := by
  simp only [askPool]
  split <;> cases ts <;> rfl

theorem Acquisition.askPool_retires (a : Acquisition) (r : Resources) (k : TaskId) (p : PoolId)
    (ts : Option TransactionId) : r.Retires (a.askPool r k p ts).1 := by
  have h := Resources.Retires.enterPool r k p
  simp only [askPool]
  split <;> rename_i heq <;> simpa only [heq] using h

namespace Resources.Affine
variable {H : List Delivery} {R : List (TaskId × Role)} {r : Resources} {a : Acquisition}
  {k : TaskId}

theorem askPool {p : PoolId} {o : Option TransactionId}
    (h : r.Affine H (joined k (o.map fun t => .draws t a.backend) R)) :
    (a.askPool r k p o).1.Affine H (joined k (a.askPool r k p o).2.role? R) := by
  rw [a.askPool_role? r k p o]
  exact h.retires (a.askPool_retires r k p o)

/-- A task that has no role asks for its next connection. -/
theorem ask (h : r.Affine H R) (hk : ∀ ρ, (k, ρ) ∉ R) :
    (a.ask r k).1.Affine H (joined k (a.ask r k).2.role? R) := by
  simp only [Acquisition.ask]
  split
  · exact h
  · split
    · exact askPool (o := none) h
    · rename_i m t otherwise _
      split
      · rename_i hactive
        have hopen : r.Open t := ⟨m, hactive⟩
        have hknown := (h.queued.active m t hactive).1
        obtain ⟨x, hx⟩ := Option.ne_none_iff_exists'.1 hknown
        have hrequest : (r.requestPins t k).Affine H ((k, .gets t) :: R) :=
          h.request hk hknown (fun k' hk' => ((h.queued.served t x hx).settles k' hk').1 hopen)
            (.inl ⟨rfl, hopen⟩)
        simp only
        split <;> exact hrequest
      · split
        · exact askPool (o := none) h
        · exact h
        · exact h

theorem batch (h : r.Affine H R) (hk : ∀ ρ, (k, ρ) ∉ R) :
    (a.start r k).1.Affine H (joined k (a.start r k).2.role? R) := by
  simp only [Acquisition.start]
  split
  · exact h
  · exact h.ask hk

/-- A task that has got the pins finds its connection there, or goes to the pool. -/
theorem afterPins {t : TransactionId} (h : r.Affine H ((k, .gets t) :: R))
    (hk : ∀ ρ, (k, ρ) ∉ R) (hheld : r.holdsPins t k = true) (server : Option Server) :
    (a.afterPins r k t).1.Affine (H ++ (a.delivery? r server k (.pins t)).toList)
      (joined k (a.afterPins r k t).2.role? R) := by
  simp only [Acquisition.afterPins, Acquisition.delivery?]
  cases hc : r.pinned? t a.backend with
  | some c => exact ((h.served hc).release hk rfl hheld).ask hk
  | none =>
    simp only [Option.map_none, Option.toList_none, List.append_nil]
    split
    · exact h.release hk rfl hheld
    · exact askPool (h.lacks hk hheld hc)

/-- A task that comes out of a pool pins what it got there. -/
theorem afterGate {p : PoolId} {attempt : Nat} {ts : Option TransactionId}
    (h : r.Affine H (joined k (ts.map fun t => .draws t a.backend) R)) (hk : ∀ ρ, (k, ρ) ∉ R)
    (server : Option Server) :
    (a.afterGate r server k p attempt ts).1.Affine
      (H ++ (a.delivery? r server k (.gate p attempt ts)).toList)
      (joined k (a.afterGate r server k p attempt ts).2.role? R) := by
  have hretires := Retires.leavePool r server p attempt
  simp only [Acquisition.afterGate, Acquisition.delivery?]
  obtain ⟨⟨r', result⟩, hleave⟩ : ∃ y, r.leavePool server p attempt = y := ⟨_, rfl⟩
  rw [hleave] at hretires ⊢
  have hleft := h.retires hretires
  have hheld : ∀ t, ts = some t → r'.holdsPins t k = true := by
    rintro t rfl
    exact hleft.holds_of_draws
  cases result with
  | error e =>
    simp only [Except.toOption, Option.map_none, Option.toList_none, List.append_nil]
    cases ts with
    | none => exact hleft
    | some t => exact hleft.release hk rfl (hheld t rfl)
  | ok c =>
    obtain ⟨hnew, hcounted⟩ := leavePool_ok hleave
    have hnew := h.recorded.new hnew
    cases ts with
    | none => exact (hleft.lent hnew hcounted).ask hk
    | some t =>
      have hpinned := hleft.drawn hk hnew hcounted
      obtain ⟨m, hm, hholder⟩ := holdsPins_iff.1 (hheld t rfl)
      have hheld' : (r'.pin t a.backend c).holdsPins t k = true :=
        holdsPins_iff.2 ⟨m, (pin_eq r' t a.backend c).2.1.trans hm, hholder⟩
      exact (hpinned.release hk rfl hheld').ask hk

/-- A task goes on that acquires. -/
theorem resume {stage : Stage} (h : r.Affine H (joined k (stage.role? a) R))
    (hk : ∀ ρ, (k, ρ) ∉ R) (hheld : ∀ t, stage = .pins t → r.holdsPins t k = true)
    (server : Option Server) :
    (a.resume r server k stage).1.Affine (H ++ (a.delivery? r server k stage).toList)
      (joined k (a.resume r server k stage).2.role? R) := by
  cases stage with
  | pins t => exact h.afterPins hk (hheld t rfl) server
  | gate p attempt ts =>
    refine afterGate ?_ hk server
    cases ts <;> exact h

end Resources.Affine

/-! ### Who may get connections -/

/-- A task that newly deals with a transaction finds it open, or ends it. -/
def Resources.Entitles (r : Resources) (old new : Option Role) : Prop :=
  ∀ ρ, new = some ρ → ρ = .settles ρ.transaction ∨ r.Open ρ.transaction ∨
    ∃ ρ₀, old = some ρ₀ ∧ ρ₀.transaction = ρ.transaction ∧ ρ₀ ≠ .settles ρ.transaction

namespace Acquisition
variable {a : Acquisition} {r r' : Resources} {k : TaskId}

theorem ask_entitled (h : r'.table = r.table) (old : Option Role) :
    r.Entitles old (a.ask r' k).2.role? := by
  intro ρ hρ
  simp only [ask] at hρ
  split at hρ
  · cases hρ
  · split at hρ
    · rw [askPool_role?] at hρ
      cases hρ
    · rename_i m t _ _
      split at hρ
      · rename_i hactive
        rw [Resources.isActive_of_managers (Prod.mk.inj h).1] at hactive
        have hgets : some (Role.gets t) = some ρ := by
          simp only at hρ
          split at hρ <;> exact hρ
        cases hgets
        exact .inr (.inl ⟨m, hactive⟩)
      · split at hρ
        · rw [askPool_role?] at hρ
          cases hρ
        · cases hρ
        · cases hρ

theorem start_entitled : r.Entitles none (a.start r k).2.role? := by
  simp only [start]
  split
  · exact fun _ hρ => by cases hρ
  · exact ask_entitled rfl none

theorem resume_entitled (server : Option Server) (stage : Stage) :
    r.Entitles (stage.role? a) (a.resume r server k stage).2.role? := by
  cases stage with
  | pins t =>
    simp only [resume, afterPins]
    split
    · exact ask_entitled (r.table_releasePins t) _
    · split
      · exact fun _ hρ => by cases hρ
      · rw [askPool_role?]
        rintro _ ⟨⟩
        exact .inr (.inr ⟨_, rfl, rfl, Role.noConfusion⟩)
  | gate p attempt ts =>
    have htable := r.table_leavePool server p attempt
    simp only [resume, afterGate]
    split <;> rename_i heq <;> rw [heq] at htable
    · exact fun _ hρ => by cases hρ
    · refine ask_entitled ?_ _
      cases ts <;> simpa using htable

end Acquisition

end ShardRegistry
