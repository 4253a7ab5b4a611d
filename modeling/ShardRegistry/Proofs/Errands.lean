import ShardRegistry.Proofs.Roles

/-! Errands. A task that was started for a call gets the connections that the call asks for: of its
backend, and for its transaction. It replies with as many as it was asked for, and with nothing that
was not delivered to it. -/
namespace ShardRegistry

namespace Call

/-- How many connections a call asks for. -/
def count : Call → Nat
  | .acquire q => q.count
  | .pinned _ _ _ => 1
  | .event _ | .close | .settle _ _ => 0

/-- The batch is one of the call. -/
def Asks (a : Acquisition) : Call → Prop
  | .acquire q => a.backend = q.backend ∧ a.count = q.count ∧
      ∀ t, a.source.transaction? = some t → q.transaction = some t
  | .pinned m t b => a.backend = b ∧ a.count = 1 ∧ a.source = .transaction m t none
  | .event _ | .close | .settle _ _ => False

/-- The connection may be delivered to a task of the call. -/
def Gets (d : Delivery) : Call → Prop
  | .acquire q => d.backend = q.backend ∧ ∀ t, d.transaction = some t → q.transaction = some t
  | .pinned _ t b => d.backend = b ∧ d.transaction = some t
  | .event _ | .close => d.transaction = none
  | .settle _ _ => False

theorem Asks.count_eq {a : Acquisition} {call : Call} (h : call.Asks a) : a.count = call.count := by
  cases call with
  | acquire q => exact h.2.1
  | pinned m t b => exact h.2.1
  | event _ | close | settle _ _ => exact h.elim

theorem Asks.acquired {a : Acquisition} {call : Call} (h : call.Asks a) (cs : List Connection) :
    call.Asks { a with acquired := cs } := by
  cases call with
  | acquire q | pinned m t b => exact h
  | event _ | close | settle _ _ => exact h.elim

end Call

/-- The transaction that a task gets a connection for. -/
def Stage.transaction? : Stage → Option TransactionId
  | .pins t => some t
  | .gate _ _ ts => ts

/-- The connection was delivered to a task. -/
def Delivered (H : List Delivery) (k : TaskId) (c : Connection) : Prop :=
  ∃ d ∈ H, d.task = k ∧ d.connection = c

theorem Delivered.mono {H H' : List Delivery} {k : TaskId} {c : Connection} (h : Delivered H k c)
    (hsub : H ⊆ H') : Delivered H' k c := by
  obtain ⟨d, hd, hrest⟩ := h
  exact ⟨d, hsub hd, hrest⟩

theorem Acquisition.delivery?_eq {a : Acquisition} {r : Resources} {server : Option Server}
    {k : TaskId} {stage : Stage} {d : Delivery} (h : a.delivery? r server k stage = some d) :
    d.task = k ∧ d.backend = a.backend ∧ d.transaction = stage.transaction? := by
  cases stage with
  | pins t | gate p n ts =>
    obtain ⟨c, _, rfl⟩ := Option.map_eq_some_iff.1 h
    exact ⟨rfl, rfl, rfl⟩

/-- What is delivered to a batch fits its call. -/
theorem Call.Asks.gets {a : Acquisition} {call : Call} (h : call.Asks a) {stage : Stage}
    (hfits : stage.Fits a.source) {d : Delivery} (hb : d.backend = a.backend)
    (ht : d.transaction = stage.transaction?) : call.Gets d := by
  have hsource : ∀ t, d.transaction = some t → a.source.transaction? = some t := by
    intro t hd
    rw [hd] at ht
    cases stage with
    | pins t' | gate p n ts =>
      cases ht
      exact hfits
  cases call with
  | acquire q => exact ⟨hb.trans h.1, fun t hd => h.2.2 t (hsource t hd)⟩
  | pinned m t b =>
    obtain ⟨hbackend, _, hs⟩ := h
    refine ⟨hb.trans hbackend, ?_⟩
    cases hd : d.transaction with
    | some t' =>
      have hs' := hsource t' hd
      rw [hs] at hs'
      exact congrArg some (Option.some.inj hs').symm
    | none =>
      -- there is no pool to go to without the transaction
      rw [hd] at ht
      cases stage with
      | pins t' => cases ht
      | gate p n ts =>
        cases ht
        have hpool : a.source.pool? = some p := hfits
        rw [hs] at hpool
        cases hpool
  | event _ | close | settle _ _ => exact h.elim

/-- Where a task of a call stands. -/
def Call.Stands (call : Call) (H : List Delivery) (k : TaskId) : TaskState → Prop
  | .lock _ _ a => call.Asks a ∧ a.acquired = []
  | .acquiring _ stage a => call.Asks a ∧ stage.Fits a.source ∧ a.acquired.length < a.count ∧
      ∀ c ∈ a.acquired, Delivered H k c
  | .settling _ => True
  | .turn _ | .loading _ _ _ => ∀ b c, call.Gets ⟨k, none, b, c, true⟩

/-- Where a part of such a task leaves it. -/
def Call.Meets (call : Call) (H : List Delivery) (k : TaskId) : Next → Prop
  | .waits s | .passes s => call.Stands H k s
  | .ends (.connections cs) => cs.length = call.count ∧ ∀ c ∈ cs, Delivered H k c
  | .ends .settled | .ends (.generation _) | .ends (.failed _) | .crashes => True

namespace World
variable {w : World} {call : Call} {H : List Delivery} {k : TaskId}

theorem stands_mono {H' : List Delivery} (hsub : H ⊆ H') {s : TaskState} (h : call.Stands H k s) :
    call.Stands H' k s := by
  cases s with
  | acquiring held stage a =>
    exact ⟨h.1, h.2.1, h.2.2.1, fun c hc => (h.2.2.2 c hc).mono hsub⟩
  | lock q l a => exact h
  | settling t => trivial
  | turn change | loading purpose pending query => exact h

theorem meets_acquired {a : Acquisition} {y : Resources × Progress} (held : Option LockId)
    (hasks : call.Asks a) (hle : a.acquired.length ≤ a.count)
    (hgot : ∀ c ∈ a.acquired, Delivered H k c) (hc : y.2.Continues a) :
    call.Meets H k (w.acquired held y).2 := by
  obtain ⟨r, progress⟩ := y
  cases hc with
  | waits hmore hfits | passes hmore hfits => exact ⟨hasks, hfits, hmore, hgot⟩
  | enough hmore => exact ⟨(Nat.le_antisymm hle hmore).trans hasks.count_eq, hgot⟩
  | fails stop => cases stop <;> trivial

theorem meets_changed (hgets : ∀ b c, call.Gets ⟨k, none, b, c, true⟩) (y : Registry × Step) :
    call.Meets H k (w.changed y).2 := by
  obtain ⟨g, step⟩ := y
  cases step with
  | load purpose pending => exact hgets
  | done outcome =>
    cases outcome with
    | ok n => trivial
    | error stop => cases stop <;> trivial

theorem meets_askBackend (hgets : ∀ b c, call.Gets ⟨k, none, b, c, true⟩) {purpose : Purpose}
    {pending : PendingSchema} {tables : SortedMap Tables} (rest : List (String × DataSource)) :
    call.Meets H k (w.askBackend k purpose pending tables rest).2 := by
  cases rest with
  | nil => exact meets_changed hgets _
  | cons e rest =>
    simp only [World.askBackend]
    split <;> exact hgets

theorem meets_start {a : Acquisition} (r : Resources) (held : Option LockId) (hasks : call.Asks a)
    (hnone : a.acquired = []) : call.Meets H k (w.acquired held (a.start r k)).2 := by
  refine meets_acquired held hasks ?_ ?_ Acquisition.start_continues <;> simp [hnone]

theorem asks_of_admit {g : Registry} {q : AcquireRequest} {a : Acquisition}
    (h : g.admit q = .ok a) : Call.Asks a (.acquire q) ∧ a.acquired = [] := by
  simp only [ Registry.admit, bind, Except.bind] at h
  split at h
  · cases h
  · simp only [pure, Except.pure, Except.ok.injEq] at h
    subst h
    refine ⟨⟨rfl, rfl, fun t ht => ?_⟩, rfl⟩
    simp only at ht
    split at ht
    · rename_i hq _
      cases ht
      exact hq
    · cases ht

theorem meets_begin (w : World) (k : TaskId) (call : Call) :
    call.Meets H k (w.begin k call).2 := by
  have hchange : ∀ change, (∀ b c, call.Gets ⟨k, none, b, c, true⟩) →
      call.Meets H k (w.beginChange k change).2 := by
    intro change hgets
    simp only [beginChange]
    split <;> exact hgets
  cases call with
  | acquire q =>
    simp only [World.begin, beginAcquire]
    split
    · trivial
    · rename_i a ha
      obtain ⟨hasks, hnone⟩ := asks_of_admit ha
      split
      · rename_i hcount
        exact ⟨hcount.symm, fun _ hc => absurd hc List.not_mem_nil⟩
      · split
        · exact meets_start _ none hasks hnone
        · simp only
          split <;> exact ⟨hasks, hnone⟩
  | event event =>
    simp only [World.begin, beginEvent]
    split
    · trivial
    · exact hchange _ fun _ _ => rfl
  | close => exact hchange .close fun _ _ => rfl
  | pinned m t b => exact meets_start _ none ⟨rfl, rfl, rfl⟩ rfl
  | settle m t =>
    simp only [World.begin, beginSettle]
    split
    · trivial
    · simp only
      split <;> trivial

/-- A task gets what its call asked for, and goes on. -/
theorem meets_advance {s : TaskState} (h : call.Stands H k s) :
    call.Meets (H ++ (s.delivery? w.resources w.server k).toList) k (w.advance k s).2 ∧
      ∀ d, s.delivery? w.resources w.server k = some d → d.task = k ∧ call.Gets d := by
  cases s with
  | lock q l a =>
    refine ⟨?_, fun _ hd => by cases hd⟩
    simp only [World.advance, World.afterLock]
    split
    · trivial
    · exact meets_start _ (some l) h.1 h.2
  | acquiring held stage a =>
    obtain ⟨hasks, hfits, hmore, hgot⟩ := h
    constructor
    · refine meets_acquired held (hasks.acquired _) ?_ ?_ (Acquisition.resume_continues hmore hfits)
      · cases a.delivery? w.resources w.server k stage <;> simp <;> omega
      · intro c hc
        rcases List.mem_append.1 hc with hc | hc
        · exact (hgot c hc).mono (List.subset_append_left _ _)
        · obtain ⟨d, hd, rfl⟩ := Option.map_eq_some_iff.1 (Option.mem_toList.1 hc)
          have htask := (Acquisition.delivery?_eq hd).1
          refine ⟨d, List.mem_append_right _ (Option.mem_toList.2 hd), htask, rfl⟩
    · intro d hd
      obtain ⟨htask, hb, ht⟩ := Acquisition.delivery?_eq hd
      exact ⟨htask, hasks.gets hfits hb ht⟩
  | settling t => exact ⟨trivial, fun _ hd => by cases hd⟩
  | turn change => exact ⟨meets_changed h _, fun _ hd => by cases hd⟩
  | loading purpose pending query =>
    cases query with
    | none =>
      refine ⟨?_, fun _ hd => by cases hd⟩
      simp only [World.advance, World.load]
      split
      · exact meets_changed h _
      · split
        · exact meets_askBackend h _
        · exact meets_changed h _
    | some q =>
      constructor
      · simp only [World.advance, World.afterQuery]
        split
        · exact meets_changed h _
        · exact meets_askBackend h _
      · intro d hd
        obtain ⟨c, _, rfl⟩ := Option.map_eq_some_iff.1 hd
        exact ⟨rfl, h q.backend c⟩

end World

end ShardRegistry
