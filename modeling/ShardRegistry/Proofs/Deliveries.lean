import ShardRegistry.Proofs.Pins

/-! Deliveries. Each connection that a task gets is delivered for a transaction, or for none. What tasks
do with the pins of transactions keeps the deliveries of one transaction and backend to one connection,
and that connection to them. -/
namespace ShardRegistry

/-- What a task does with the pins of a transaction. -/
inductive Role where
  /-- It asks for them, or has got them, to find a connection. -/
  | gets (t : TransactionId)
  /-- It has got them, and waits for a pool to give it a connection of a backend. -/
  | draws (t : TransactionId) (backend : String)
  /-- It asks for them, or has got them, to drop them. -/
  | settles (t : TransactionId)

def Role.transaction : Role → TransactionId
  | .gets t | .draws t _ | .settles t => t

/-- A connection that a task got, from the pins of a transaction or from a pool. -/
structure Delivery where
  task : TaskId
  transaction : Option TransactionId
  backend : String
  connection : Connection
  drawn : Bool
  deriving DecidableEq

/-- The delivery of a new connection of a backend for a transaction. -/
def Delivery.draws (t : TransactionId) (b : String) (d : Delivery) : Bool :=
  d.drawn && decide (d.transaction = some t) && decide (d.backend = b)

namespace Delivery

/-- One transaction and backend has one connection, which no other has. -/
structure Tallies (d d' : Delivery) : Prop where
  same : ∀ t, d.transaction = some t → d'.transaction = some t → d.backend = d'.backend →
    d.connection = d'.connection
  apart : d.connection = d'.connection → d.transaction = d'.transaction ∧ d.backend = d'.backend

namespace Tallies
variable {d d' : Delivery}

theorem refl (d : Delivery) : d.Tallies d := ⟨fun _ _ _ _ => rfl, fun _ => ⟨rfl, rfl⟩⟩

theorem symm (h : d.Tallies d') : d'.Tallies d where
  same t ht ht' hb := (h.same t ht' ht hb.symm).symm
  apart hc := ⟨(h.apart hc.symm).1.symm, (h.apart hc.symm).2.symm⟩

/-- Another connection, for another transaction or backend. -/
theorem of_ne (hc : d.connection ≠ d'.connection)
    (hb : ∀ t, d.transaction = some t → d'.transaction = some t → d.backend ≠ d'.backend) :
    d.Tallies d' :=
  ⟨fun t ht ht' heq => absurd heq (hb t ht ht'), fun heq => absurd heq hc⟩

end Tallies

theorem draws_iff {t : TransactionId} {b : String} {d : Delivery} :
    d.draws t b = true ↔ d.drawn = true ∧ d.transaction = some t ∧ d.backend = b := by
  simp [draws, and_assoc]

end Delivery

namespace Resources

/-- The queue of a transaction is that of the tasks with a role in it: one of them that waits for a pool
comes first and finds no connection, and one that ends the transaction comes last. -/
structure Served (R : List (TaskId × Role)) (r : Resources) (t : TransactionId) (m : Mutex) :
    Prop where
  fair : m.Fair
  nodup : m.queue.Nodup
  mem : ∀ k, k ∈ m.queue ↔ ∃ ρ, (k, ρ) ∈ R ∧ ρ.transaction = t
  draws : ∀ k b, (k, .draws t b) ∈ R → m.holder = some k ∧ r.pinned? t b = none
  settles : ∀ k, (k, .settles t) ∈ R → ¬ r.Open t ∧ m.queue.getLast? = some k

structure Queued (R : List (TaskId × Role)) (r : Resources) : Prop where
  single : ∀ k ρ ρ', (k, ρ) ∈ R → (k, ρ') ∈ R → ρ = ρ'
  known : ∀ e ∈ R, r.mutex? e.2.transaction ≠ none
  served : ∀ t m, r.mutex? t = some m → r.Served R t m
  active : ∀ m t, r.isActive m t = true →
    r.mutex? t ≠ none ∧ ∀ m', r.isActive m' t = true → m' = m
  opened : ∀ m t, r.isActive m t = true → r.isManagerClosed m = false

/-- Nobody will get a connection for a transaction any more. -/
def Over (R : List (TaskId × Role)) (r : Resources) (t : TransactionId) : Prop :=
  ¬ r.Open t ∧ ∀ e ∈ R, e.2.transaction = t → e.2 = .settles t

/-- What was delivered for a transaction is pinned to it until it is over, and what is pinned was taken
from a pool for it. -/
structure Recorded (H : List Delivery) (R : List (TaskId × Role)) (r : Resources) : Prop where
  kept : ∀ d ∈ H, ∀ t, d.transaction = some t →
    r.mutex? t ≠ none ∧ (r.pinned? t d.backend = some d.connection ∨ r.Over R t)
  pinned : ∀ t b c, r.pinned? t b = some c →
    ∃ d ∈ H, d.drawn = true ∧ d.transaction = some t ∧ d.backend = b ∧ d.connection = c
  counted : ∀ d ∈ H, ∃ x, r.pools[d.connection.pool]? = some x ∧ d.connection.number ≤ x.issued
  tally : ∀ d ∈ H, ∀ d' ∈ H, d.Tallies d'
  once : ∀ t b, (H.filter (Delivery.draws t b)).length ≤ 1

/-- The tasks and the deliveries are in order. -/
structure Affine (H : List Delivery) (R : List (TaskId × Role)) (r : Resources) : Prop where
  queued : r.Queued R
  recorded : r.Recorded H R

variable {H : List Delivery} {R R' : List (TaskId × Role)} {r r' : Resources} {t : TransactionId}
  {k : TaskId} {ρ : Role}

theorem open_iff (h : ∀ m t, r'.isActive m t = r.isActive m t) (t : TransactionId) :
    r'.Open t ↔ r.Open t := by
  simp only [Open, h]

/-! ### Steps of others -/

theorem Affine.start (n : Nat) : Affine [] [] { stamps := n } where
  queued :=
    { single := fun _ _ _ h => absurd h List.not_mem_nil
      known := fun _ h => absurd h List.not_mem_nil
      served := fun _ _ h => by cases h
      active := fun _ _ h => by cases h
      opened := fun _ _ h => by cases h }
  recorded :=
    { kept := fun _ h => absurd h List.not_mem_nil
      pinned := fun _ _ _ h => by cases h
      counted := fun _ h => absurd h List.not_mem_nil
      tally := fun _ h => absurd h List.not_mem_nil
      once := fun _ _ => Nat.zero_le 1 }

/-- The order of the tasks does not matter. -/
theorem Affine.congr (h : r.Affine H R) (hR : ∀ e, e ∈ R' ↔ e ∈ R) : r.Affine H R' where
  queued :=
    { single := fun k ρ ρ' hρ hρ' => h.queued.single k ρ ρ' ((hR _).1 hρ) ((hR _).1 hρ')
      known := fun e he => h.queued.known e ((hR e).1 he)
      served := fun t m hm =>
        have hs := h.queued.served t m hm
        { fair := hs.fair
          nodup := hs.nodup
          mem := fun k => by simp only [hs.mem, hR]
          draws := fun k b hk => hs.draws k b ((hR _).1 hk)
          settles := fun k hk => hs.settles k ((hR _).1 hk) }
      active := h.queued.active
      opened := h.queued.opened }
  recorded :=
    { h.recorded with
      kept := fun d hd t ht => by
        obtain ⟨hknown, hcase⟩ := h.recorded.kept d hd t ht
        refine ⟨hknown, hcase.imp_right fun hover => ⟨hover.1, fun e he => ?_⟩⟩
        exact hover.2 e ((hR e).1 he) }

theorem not_open_of_retires (hr : r.Retires r') (ht : ¬ r.Open t) : ¬ r'.Open t := fun ⟨m, hm⟩ =>
  ht ⟨m, hr.active m t hm⟩

theorem Queued.retires (h : r.Queued R) (hr : r.Retires r') : r'.Queued R where
  single := h.single
  known e he := by
    rw [hr.mutexes]
    exact h.known e he
  served t m hm := by
    rw [hr.mutexes] at hm
    obtain ⟨hfair, hnodup, hmem, hdraws, hsettles⟩ := h.served t m hm
    refine ⟨hfair, hnodup, hmem, fun k b hk => ?_, fun k hk => ?_⟩
    · obtain ⟨hholder, hnone⟩ := hdraws k b hk
      refine ⟨hholder, ?_⟩
      cases hc : r'.pinned? t b with
      | none => rfl
      | some c =>
        rw [hr.pinned t b c hc] at hnone
        cases hnone
    · exact ⟨not_open_of_retires hr (hsettles k hk).1, (hsettles k hk).2⟩
  active m t hm := by
    obtain ⟨hknown, hunique⟩ := h.active m t (hr.active m t hm)
    rw [hr.mutexes]
    exact ⟨hknown, fun m' hm' => hunique m' (hr.active m' t hm')⟩
  opened m t hm := by
    cases hc : r'.isManagerClosed m with
    | false => rfl
    | true =>
      have hopened := h.opened m t (hr.active m t hm)
      rw [hr.closed m t hm hc] at hopened
      cases hopened

theorem Affine.retires (h : r.Affine H R) (hr : r.Retires r') : r'.Affine H R := by
  refine ⟨h.queued.retires hr, { h.recorded with
    kept := fun d hd t ht => ?_, pinned := fun t b c hc => ?_, counted := fun d hd => ?_ }⟩
  · obtain ⟨hknown, hcase⟩ := h.recorded.kept d hd t ht
    rw [hr.mutexes]
    refine ⟨hknown, ?_⟩
    rcases hcase with hc | hover
    · rcases hr.cleared t d.backend d.connection hc with hc | ⟨hfree, m, hm, hm'⟩
      · exact .inl hc
      · -- the transaction was closed with nobody in its queue
        refine .inr ⟨?_, fun e he heq => ?_⟩
        · rintro ⟨m', hopen'⟩
          obtain rfl := (h.queued.active m t hm).2 m' (hr.active m' t hopen')
          rw [hm'] at hopen'
          cases hopen'
        · obtain ⟨x, hx⟩ := Option.ne_none_iff_exists'.1 hknown
          have hserved := h.queued.served t x hx
          have hmem := (hserved.mem e.1).2 ⟨e.2, he, heq⟩
          rw [Mutex.queue_eq_nil hserved.fair (hfree x hx)] at hmem
          cases hmem
    · exact .inr ⟨not_open_of_retires hr hover.1, hover.2⟩
  · exact h.recorded.pinned t b c (hr.pinned t b c hc)
  · obtain ⟨x, hx, hle⟩ := h.recorded.counted d hd
    obtain ⟨y, hy, hcounts⟩ := hr.pools _ x hx
    exact ⟨y, hy, Nat.le_trans hle hcounts⟩

/-! ### Steps of one task -/

/-- A step on the pins of one transaction, which changes roles in that transaction only. -/
theorem Queued.repins (h : r.Queued R) (hr : Repins t r r') {m m' : Mutex}
    (hm : r.mutex? t = some m) (hm' : r'.mutex? t = some m')
    (hothers : ∀ e, e.2.transaction ≠ t → (e ∈ R' ↔ e ∈ R))
    (hsingle : ∀ k ρ ρ', (k, ρ) ∈ R' → (k, ρ') ∈ R' → ρ = ρ') (hserved : r'.Served R' t m') :
    r'.Queued R' := by
  refine ⟨hsingle, fun e he => ?_, fun t' x hx => ?_, fun m t' hactive => ?_, fun m t' hactive => ?_⟩
  · by_cases ht : e.2.transaction = t
    · rw [ht, hm']
      simp
    · rw [hr.mutexes _ ht]
      exact h.known e ((hothers e ht).1 he)
  · by_cases ht : t' = t
    · subst ht
      rw [hm'] at hx
      cases hx
      exact hserved
    · rw [hr.mutexes _ ht] at hx
      obtain ⟨hfair, hnodup, hmem, hdraws, hsettles⟩ := h.served t' x hx
      refine ⟨hfair, hnodup, fun k => ?_, fun k b hk => ?_, fun k hk => ?_⟩
      · rw [hmem]
        refine exists_congr fun ρ => and_congr_left fun heq => ?_
        exact (hothers (k, ρ) (by rw [heq]; exact ht)).symm
      · rw [hr.pinned t' ht]
        exact hdraws k b ((hothers (k, .draws t' b) ht).1 hk)
      · rw [open_iff hr.active]
        exact hsettles k ((hothers (k, .settles t') ht).1 hk)
  · rw [hr.active] at hactive
    obtain ⟨hknown, hunique⟩ := h.active m t' hactive
    refine ⟨?_, fun m' hm' => hunique m' (hr.active m' t' ▸ hm')⟩
    by_cases ht : t' = t
    · rw [ht, hm']
      simp
    · rw [hr.mutexes _ ht]
      exact hknown
  · rw [hr.active] at hactive
    rw [isManagerClosed, hr.managers]
    exact h.opened m t' hactive

/-- Deliveries for another transaction are kept. -/
theorem Recorded.kept_of_repins (h : r.Recorded H R) (hr : Repins t r r')
    (hothers : ∀ e, e.2.transaction ≠ t → (e ∈ R' ↔ e ∈ R)) {d : Delivery} (hd : d ∈ H)
    {t' : TransactionId} (ht : t' ≠ t) (htransaction : d.transaction = some t') :
    r'.mutex? t' ≠ none ∧ (r'.pinned? t' d.backend = some d.connection ∨ r'.Over R' t') := by
  obtain ⟨hknown, hcase⟩ := h.kept d hd t' htransaction
  rw [hr.mutexes t' ht, hr.pinned t' ht]
  refine ⟨hknown, hcase.imp_right fun hover => ?_⟩
  refine ⟨fun ho => hover.1 ((open_iff hr.active t').1 ho), fun e he heq => ?_⟩
  exact hover.2 e ((hothers e (by rw [heq]; exact ht)).1 he) heq

theorem Recorded.repins (h : r.Recorded H R) (hr : Repins t r r') (hm' : r'.mutex? t ≠ none)
    (hothers : ∀ e, e.2.transaction ≠ t → (e ∈ R' ↔ e ∈ R))
    (hkept : ∀ d ∈ H, d.transaction = some t →
      r'.pinned? t d.backend = some d.connection ∨ r'.Over R' t)
    (hpinned : ∀ b c, r'.pinned? t b = some c →
      ∃ d ∈ H, d.drawn = true ∧ d.transaction = some t ∧ d.backend = b ∧ d.connection = c) :
    r'.Recorded H R' := by
  refine { h with kept := fun d hd t' ht' => ?_, pinned := fun t' b c hc => ?_, counted := ?_ }
  · by_cases ht : t' = t
    · subst ht
      exact ⟨hm', hkept d hd ht'⟩
    · exact h.kept_of_repins hr hothers hd ht ht'
  · by_cases ht : t' = t
    · subst ht
      exact hpinned b c hc
    · rw [hr.pinned t' ht] at hc
      exact h.pinned t' b c hc
  · rw [hr.pools]
    exact h.counted

/-- Whoever has no role yet joins the queue of a transaction: to get a connection while it is open, or to
end it once it is not, if nobody does so yet. -/
theorem Affine.request (h : r.Affine H R) (hk : ∀ ρ, (k, ρ) ∉ R) (hknown : r.mutex? t ≠ none)
    (hnone : ∀ k, (k, .settles t) ∉ R) (hρ : (ρ = .gets t ∧ r.Open t) ∨ (ρ = .settles t ∧ ¬ r.Open t)) :
    (r.requestPins t k).Affine H ((k, ρ) :: R) := by
  obtain ⟨hrepins, hmutex, hpinned⟩ := requestPins_eq r t k
  obtain ⟨m, hm⟩ := Option.ne_none_iff_exists'.1 hknown
  rw [hm, Option.map_some] at hmutex
  have ht : ρ.transaction = t := by rcases hρ with ⟨rfl, _⟩ | ⟨rfl, _⟩ <;> rfl
  obtain ⟨hfair, hnodup, hmem, hdraws, _⟩ := h.queued.served t m hm
  have hnew : k ∉ m.queue := fun hmem' => by
    obtain ⟨ρ', hρ', _⟩ := (hmem k).1 hmem'
    exact hk ρ' hρ'
  have hqueue := Mutex.queue_request hfair k
  have hothers : ∀ e : TaskId × Role, e.2.transaction ≠ t → (e ∈ (k, ρ) :: R ↔ e ∈ R) := by
    rintro e he
    rw [List.mem_cons, or_iff_right]
    rintro rfl
    exact he ht
  refine ⟨h.queued.repins hrepins hm hmutex hothers ?_ ⟨hfair.request k, ?_, ?_, ?_, ?_⟩,
    h.recorded.repins hrepins (by simp [hmutex]) hothers ?_ ?_⟩
  · intro k' ρ₁ ρ₂ h₁ h₂
    rcases List.mem_cons.1 h₁ with h₁ | h₁ <;> rcases List.mem_cons.1 h₂ with h₂ | h₂
    · rw [(Prod.mk.inj h₁).2, (Prod.mk.inj h₂).2]
    · exact absurd ((Prod.mk.inj h₁).1 ▸ h₂) (hk ρ₂)
    · exact absurd ((Prod.mk.inj h₂).1 ▸ h₁) (hk ρ₁)
    · exact h.queued.single k' ρ₁ ρ₂ h₁ h₂
  · rw [hqueue, List.nodup_append']
    exact ⟨hnodup, List.nodup_singleton k, List.disjoint_singleton.2 hnew⟩
  · intro k'
    rw [hqueue, List.mem_append, List.mem_singleton, hmem]
    constructor
    · rintro (⟨ρ', hρ', heq⟩ | rfl)
      · exact ⟨ρ', List.mem_cons_of_mem _ hρ', heq⟩
      · exact ⟨ρ, List.mem_cons_self, ht⟩
    · rintro ⟨ρ', hρ', heq⟩
      rcases List.mem_cons.1 hρ' with hρ' | hρ'
      · exact .inr (Prod.mk.inj hρ').1
      · exact .inl ⟨ρ', hρ', heq⟩
  · intro k' b hk'
    rcases List.mem_cons.1 hk' with hk' | hk'
    · rcases hρ with ⟨rfl, _⟩ | ⟨rfl, _⟩ <;> cases hk'
    · obtain ⟨hholder, hpin⟩ := hdraws k' b hk'
      refine ⟨?_, (hpinned b).trans hpin⟩
      simp [Mutex.request, Mutex.isFree, hholder]
  · intro k' hk'
    rcases List.mem_cons.1 hk' with hk' | hk'
    · rcases hρ with ⟨rfl, _⟩ | ⟨rfl, hopen⟩
      · cases hk'
      · cases hk'
        rw [open_iff hrepins.active, hqueue]
        exact ⟨hopen, by simp⟩
    · exact absurd hk' (hnone k')
  · intro d hd htransaction
    rw [hpinned]
    refine (h.recorded.kept d hd t htransaction).2.imp_right fun hover => ?_
    rcases hρ with ⟨_, hopen⟩ | ⟨rfl, hopen⟩
    · exact absurd hopen hover.1
    · refine ⟨fun ho => hopen ((open_iff hrepins.active t).1 ho), fun e he heq => ?_⟩
      rcases List.mem_cons.1 he with rfl | he
      · rfl
      · exact hover.2 e he heq
  · intro b c hc
    exact h.recorded.pinned t b c (hpinned b ▸ hc)

/-- A task that had a role in a transaction has none any more. -/
theorem Affine.dismiss (h : r.Affine H ((k, ρ) :: R)) (hk : ∀ ρ, (k, ρ) ∉ R) {m m' : Mutex}
    (ht : ρ.transaction = t) (hr : Repins t r r') (hm : r.mutex? t = some m)
    (hm' : r'.mutex? t = some m') (hpinned : ∀ b, r'.pinned? t b = r.pinned? t b)
    (hfair : m'.Fair) (hqueue : m'.queue = m.queue.erase k)
    (hholder : ∀ k', k' ≠ k → m.holder = some k' → m'.holder = some k') : r'.Affine H R := by
  obtain ⟨_, hnodup, hmem, hdraws, hsettles⟩ := h.queued.served t m hm
  have hsub : ∀ e ∈ R, e ∈ (k, ρ) :: R := fun e he => List.mem_cons_of_mem _ he
  have hne : ∀ {k' ρ'}, (k', ρ') ∈ R → k' ≠ k := by
    rintro k' ρ' hk' rfl
    exact hk ρ' hk'
  have hothers : ∀ e : TaskId × Role, e.2.transaction ≠ t → (e ∈ R ↔ e ∈ (k, ρ) :: R) := by
    rintro e he
    rw [List.mem_cons, or_iff_right]
    rintro rfl
    exact he ht
  refine ⟨h.queued.repins hr hm hm' hothers ?_ ⟨hfair, ?_, ?_, ?_, ?_⟩,
    h.recorded.repins hr (by simp [hm']) hothers ?_ ?_⟩
  · exact fun k' ρ₁ ρ₂ h₁ h₂ => h.queued.single k' ρ₁ ρ₂ (hsub _ h₁) (hsub _ h₂)
  · rw [hqueue]
    exact hnodup.erase k
  · intro k'
    rw [hqueue, hnodup.mem_erase_iff, hmem]
    constructor
    · rintro ⟨hne', ρ', hρ', heq⟩
      rcases List.mem_cons.1 hρ' with hρ' | hρ'
      · exact absurd (Prod.mk.inj hρ').1 hne'
      · exact ⟨ρ', hρ', heq⟩
    · rintro ⟨ρ', hρ', heq⟩
      exact ⟨hne hρ', ρ', hsub _ hρ', heq⟩
  · intro k' b hk'
    obtain ⟨hholder', hpin⟩ := hdraws k' b (hsub _ hk')
    exact ⟨hholder k' (hne hk') hholder', (hpinned b).trans hpin⟩
  · intro k' hk'
    obtain ⟨hopen, hlast⟩ := hsettles k' (hsub _ hk')
    rw [open_iff hr.active, hqueue]
    exact ⟨hopen, getLast?_erase hlast (hne hk').symm⟩
  · intro d hd htransaction
    rw [hpinned]
    refine (h.recorded.kept d hd t htransaction).2.imp_right fun hover => ?_
    exact ⟨fun ho => hover.1 ((open_iff hr.active t).1 ho), fun e he => hover.2 e (hsub e he)⟩
  · exact fun b c hc => h.recorded.pinned t b c (hpinned b ▸ hc)

/-- The task that holds the pins gives them back. -/
theorem Affine.release (h : r.Affine H ((k, ρ) :: R)) (hk : ∀ ρ, (k, ρ) ∉ R)
    (ht : ρ.transaction = t) (hheld : r.holdsPins t k = true) : (r.releasePins t).Affine H R := by
  obtain ⟨hrepins, hmutex, hpinned⟩ := releasePins_eq r t
  obtain ⟨m, hm, hholder⟩ := holdsPins_iff.1 hheld
  rw [hm, Option.map_some] at hmutex
  refine h.dismiss hk ht hrepins hm hmutex hpinned m.fair_release ?_ ?_
  · rw [Mutex.queue_release hholder, List.erase_cons_head]
  · intro k' hne hholder'
    rw [hholder] at hholder'
    exact absurd (Option.some.inj hholder').symm hne

/-- A task that waits for the pins gives up. -/
theorem Affine.leave (h : r.Affine H ((k, ρ) :: R)) (hk : ∀ ρ, (k, ρ) ∉ R)
    (ht : ρ.transaction = t) (hheld : r.holdsPins t k ≠ true) :
    (r.modifyPins t fun p => { p with mutex := p.mutex.leaveQueue k }).Affine H R := by
  obtain ⟨hmutex, hpinned⟩ := modifyMutex r t (·.leaveQueue k)
  have hknown := h.queued.known _ List.mem_cons_self
  rw [ht] at hknown
  obtain ⟨m, hm⟩ := Option.ne_none_iff_exists'.1 hknown
  have hholder : m.holder ≠ some k := fun hholder => hheld (holdsPins_iff.2 ⟨m, hm, hholder⟩)
  rw [hm, Option.map_some] at hmutex
  refine h.dismiss hk ht (repins_modifyPins r t _) hm hmutex hpinned ?_ ?_ ?_
  · exact (h.queued.served t m hm).fair.leaveQueue k
  · exact Mutex.queue_leaveQueue hholder
  · exact fun k' _ hholder' => hholder'

/-- A task that looks for a connection changes its role. -/
theorem mem_others {ρ₁ ρ₂ : Role} (h₁ : ρ₁.transaction = t) (h₂ : ρ₂.transaction = t)
    (e : TaskId × Role) (he : e.2.transaction ≠ t) : e ∈ (k, ρ₁) :: R ↔ e ∈ (k, ρ₂) :: R := by
  have hne : ∀ ρ : Role, ρ.transaction = t → e ≠ (k, ρ) := by
    rintro ρ hρ rfl
    exact he hρ
  simp only [List.mem_cons, hne ρ₁ h₁, hne ρ₂ h₂, false_or]

theorem Queued.recast {ρ₁ ρ₂ : Role} (h : r.Queued ((k, ρ₁) :: R)) (hk : ∀ ρ, (k, ρ) ∉ R)
    (h₁ : ρ₁.transaction = t) (h₂ : ρ₂.transaction = t) (hr : Repins t r r') {m : Mutex}
    (hm : r.mutex? t = some m) (hm' : r'.mutex? t = some m) (hheld : m.holder = some k)
    (hdraws : ∀ b, ρ₂ = .draws t b → r'.pinned? t b = none) (hsettles : ρ₂ ≠ .settles t) :
    r'.Queued ((k, ρ₂) :: R) := by
  obtain ⟨hfair, hnodup, hmem, hdraws', hsettles'⟩ := h.served t m hm
  have hsub : ∀ {e}, e ∈ R → e ∈ (k, ρ₁) :: R := List.mem_cons_of_mem _
  refine h.repins hr hm hm' (mem_others h₂ h₁) ?_ ⟨hfair, hnodup, ?_, ?_, ?_⟩
  · intro k' ρ ρ' hρ hρ'
    rcases List.mem_cons.1 hρ with hρ | hρ <;> rcases List.mem_cons.1 hρ' with hρ' | hρ'
    · rw [(Prod.mk.inj hρ).2, (Prod.mk.inj hρ').2]
    · exact absurd ((Prod.mk.inj hρ).1 ▸ hρ') (hk ρ')
    · exact absurd ((Prod.mk.inj hρ').1 ▸ hρ) (hk ρ)
    · exact h.single k' ρ ρ' (hsub hρ) (hsub hρ')
  · intro k'
    rw [hmem]
    constructor
    · rintro ⟨ρ, hρ, heq⟩
      rcases List.mem_cons.1 hρ with hρ | hρ
      · exact ⟨ρ₂, by rw [(Prod.mk.inj hρ).1]; exact List.mem_cons_self, h₂⟩
      · exact ⟨ρ, List.mem_cons_of_mem _ hρ, heq⟩
    · rintro ⟨ρ, hρ, heq⟩
      rcases List.mem_cons.1 hρ with hρ | hρ
      · exact ⟨ρ₁, by rw [(Prod.mk.inj hρ).1]; exact List.mem_cons_self, h₁⟩
      · exact ⟨ρ, hsub hρ, heq⟩
  · intro k' b hk'
    rcases List.mem_cons.1 hk' with hk' | hk'
    · obtain ⟨rfl, rfl⟩ := Prod.mk.inj hk'
      exact ⟨hheld, hdraws b rfl⟩
    · have hholder := (hdraws' k' b (hsub hk')).1
      rw [hheld] at hholder
      exact absurd (Option.some.inj hholder ▸ hk') (hk _)
  · intro k' hk'
    rcases List.mem_cons.1 hk' with hk' | hk'
    · exact absurd (Prod.mk.inj hk').2.symm hsettles
    · rw [open_iff hr.active]
      exact hsettles' k' (hsub hk')

/-- Somebody still looks for a connection. -/
theorem Recorded.pinned_of_role (h : r.Recorded H ((k, ρ) :: R)) (ht : ρ.transaction = t)
    (hρ : ρ ≠ .settles t) {d : Delivery} (hd : d ∈ H) (htransaction : d.transaction = some t) :
    r.pinned? t d.backend = some d.connection :=
  (h.kept d hd t htransaction).2.resolve_right fun hover =>
    hρ (hover.2 (k, ρ) List.mem_cons_self ht)

/-- A task that finds no connection in the pins draws one from a pool. -/
theorem Affine.lacks (h : r.Affine H ((k, .gets t) :: R)) (hk : ∀ ρ, (k, ρ) ∉ R) {b : String}
    (hheld : r.holdsPins t k = true) (hnone : r.pinned? t b = none) :
    r.Affine H ((k, .draws t b) :: R) := by
  have hrepins : Repins t r r := ⟨fun _ _ => rfl, fun _ _ _ => rfl, rfl, rfl⟩
  obtain ⟨m, hm, hholder⟩ := holdsPins_iff.1 hheld
  refine ⟨h.queued.recast hk rfl rfl hrepins hm hm hholder ?_ Role.noConfusion,
    h.recorded.repins hrepins (by simp [hm]) (mem_others rfl rfl) ?_ (h.recorded.pinned t)⟩
  · rintro _ ⟨⟩
    exact hnone
  · exact fun d hd ht => .inl (h.recorded.pinned_of_role rfl Role.noConfusion hd ht)

/-- A task that waits for a pool holds the pins meanwhile. -/
theorem Affine.holds_of_draws {b : String} (h : r.Affine H ((k, .draws t b) :: R)) :
    r.holdsPins t k = true := by
  obtain ⟨m, hm⟩ := Option.ne_none_iff_exists'.1 (h.queued.known _ List.mem_cons_self)
  exact holdsPins_iff.2 ⟨m, hm, ((h.queued.served t m hm).draws k b List.mem_cons_self).1⟩

/-! ### Deliveries -/

/-- One more connection is delivered. If it comes from a pool, it is the first one of the backend for
the transaction. -/
theorem Recorded.deliver (h : r.Recorded H R) {d : Delivery} (hpools : r'.pools = r.pools)
    (htally : ∀ d' ∈ H, d'.Tallies d)
    (hfirst : d.drawn = true → ∀ d' ∈ H, ∀ t, d'.transaction = some t → d.transaction = some t →
      d'.backend ≠ d.backend)
    (hkept : ∀ d' ∈ H, ∀ t, d'.transaction = some t →
      r'.mutex? t ≠ none ∧ (r'.pinned? t d'.backend = some d'.connection ∨ r'.Over R' t))
    (hnew : ∀ t, d.transaction = some t →
      r'.mutex? t ≠ none ∧ (r'.pinned? t d.backend = some d.connection ∨ r'.Over R' t))
    (hpinned : ∀ t b c, r'.pinned? t b = some c →
      ∃ d' ∈ H ++ [d], d'.drawn = true ∧ d'.transaction = some t ∧ d'.backend = b ∧
        d'.connection = c)
    (hcounted : ∃ x, r.pools[d.connection.pool]? = some x ∧ d.connection.number ≤ x.issued) :
    r'.Recorded (H ++ [d]) R' := by
  refine ⟨List.forall_mem_append.2 ⟨hkept, List.forall_mem_singleton.2 hnew⟩, hpinned, ?_, ?_, ?_⟩
  · rw [hpools]
    exact List.forall_mem_append.2 ⟨h.counted, List.forall_mem_singleton.2 hcounted⟩
  · refine List.forall_mem_append.2 ⟨fun d₁ hd₁ => ?_, List.forall_mem_singleton.2 ?_⟩
    · exact List.forall_mem_append.2
        ⟨h.tally d₁ hd₁, List.forall_mem_singleton.2 (htally d₁ hd₁)⟩
    · exact List.forall_mem_append.2
        ⟨fun d₂ hd₂ => (htally d₂ hd₂).symm, List.forall_mem_singleton.2 (.refl d)⟩
  · intro t b
    rw [List.filter_append, List.length_append]
    cases hdraws : d.draws t b with
    | false => simpa [hdraws] using h.once t b
    | true =>
      obtain ⟨hdrawn, ht, hb⟩ := Delivery.draws_iff.1 hdraws
      have hnone : H.filter (Delivery.draws t b) = [] := by
        rw [List.filter_eq_nil_iff]
        intro d' hd' hdraws'
        obtain ⟨_, ht', hb'⟩ := Delivery.draws_iff.1 hdraws'
        exact hfirst hdrawn d' hd' t ht' ht (hb'.trans hb.symm)
      rw [hnone, List.length_nil, Nat.zero_add]
      exact List.length_filter_le _ [d]

/-- The connection that is pinned is delivered again. -/
theorem Affine.served (h : r.Affine H ((k, .gets t) :: R)) {b : String} {c : Connection}
    (hc : r.pinned? t b = some c) :
    r.Affine (H ++ [⟨k, some t, b, c, false⟩]) ((k, .gets t) :: R) := by
  obtain ⟨d₀, hd₀, _, ht₀, hb₀, hc₀⟩ := h.recorded.pinned t b c hc
  obtain ⟨m, hm⟩ := mutex?_of_pinned hc
  refine ⟨h.queued, h.recorded.deliver rfl (fun d hd => ⟨?_, fun heq => ?_⟩) Bool.noConfusion
    h.recorded.kept ?_ ?_ ?_⟩
  · rintro _ ht ⟨⟩ hb
    have hpinned : r.pinned? t d.backend = some d.connection :=
      h.recorded.pinned_of_role rfl Role.noConfusion hd ht
    rw [hb, hc] at hpinned
    exact (Option.some.inj hpinned).symm
  · obtain ⟨ht, hb⟩ := (h.recorded.tally d hd d₀ hd₀).apart (heq.trans hc₀.symm)
    exact ⟨ht.trans ht₀, hb.trans hb₀⟩
  · rintro _ ⟨⟩
    exact ⟨by simp [hm], .inl hc⟩
  · intro t' b' c' hc'
    obtain ⟨d, hd, hrest⟩ := h.recorded.pinned t' b' c' hc'
    exact ⟨d, List.mem_append_left _ hd, hrest⟩
  · rw [← hc₀]
    exact h.recorded.counted d₀ hd₀

/-- A new connection is pinned for a task that draws. -/
theorem Affine.drawn (h : r.Affine H ((k, .draws t b) :: R)) (hk : ∀ ρ, (k, ρ) ∉ R) {c : Connection}
    (hnew : ∀ d ∈ H, d.connection ≠ c)
    (hcounted : ∃ x, r.pools[c.pool]? = some x ∧ c.number ≤ x.issued) :
    (r.pin t b c).Affine (H ++ [⟨k, some t, b, c, true⟩]) ((k, .gets t) :: R) := by
  obtain ⟨hrepins, hmutex, hothers, hpin⟩ := pin_eq r t b c
  obtain ⟨m, hm⟩ := Option.ne_none_iff_exists'.1 (h.queued.known _ List.mem_cons_self)
  have hm : r.mutex? t = some m := hm
  obtain ⟨hholder, hnone⟩ := (h.queued.served t m hm).draws k b List.mem_cons_self
  have hpin := hpin (by simp [hm])
  have hqueued : (r.pin t b c).Queued ((k, .gets t) :: R) :=
    h.queued.recast hk rfl rfl hrepins hm (hmutex.trans hm) hholder (fun _ h => by cases h)
      Role.noConfusion
  have hpinned : ∀ d ∈ H, d.transaction = some t → r.pinned? t d.backend = some d.connection :=
    fun d hd ht => h.recorded.pinned_of_role rfl Role.noConfusion hd ht
  have hfirst : ∀ d ∈ H, d.transaction = some t → d.backend ≠ b := by
    rintro d hd ht rfl
    rw [hpinned d hd ht] at hnone
    cases hnone
  refine ⟨hqueued, h.recorded.deliver hrepins.pools (fun d hd => .of_ne (hnew d hd) ?_) ?_ ?_ ?_ ?_
    hcounted⟩
  · rintro _ ht ⟨⟩
    exact hfirst d hd ht
  · rintro _ d hd _ ht ⟨⟩
    exact hfirst d hd ht
  · intro d hd t' ht'
    by_cases heq : t' = t
    · rw [heq] at ht' ⊢
      rw [hmutex, hothers _ (hfirst d hd ht')]
      exact ⟨by simp [hm], .inl (hpinned d hd ht')⟩
    · exact h.recorded.kept_of_repins hrepins (mem_others rfl rfl) hd heq ht'
  · rintro _ ⟨⟩
    exact ⟨by simp [hmutex, hm], .inl hpin⟩
  · intro t' b' c' hc'
    by_cases heq : t' = t ∧ b' = b
    · obtain ⟨rfl, rfl⟩ := heq
      rw [hpin] at hc'
      cases hc'
      exact ⟨_, List.mem_append_right _ List.mem_cons_self, rfl, rfl, rfl, rfl⟩
    · have hold : r.pinned? t' b' = some c' := by
        by_cases ht : t' = t
        · subst ht
          rw [← hothers b' fun hb => heq ⟨rfl, hb⟩]
          exact hc'
        · rw [← hrepins.pinned t' ht]
          exact hc'
      obtain ⟨d, hd, hrest⟩ := h.recorded.pinned t' b' c' hold
      exact ⟨d, List.mem_append_left _ hd, hrest⟩

/-- A new connection is delivered for no transaction. -/
theorem Affine.lent (h : r.Affine H R) {b : String} {c : Connection}
    (hnew : ∀ d ∈ H, d.connection ≠ c)
    (hcounted : ∃ x, r.pools[c.pool]? = some x ∧ c.number ≤ x.issued) :
    r.Affine (H ++ [⟨k, none, b, c, true⟩]) R := by
  refine ⟨h.queued, h.recorded.deliver rfl (fun d hd => .of_ne (hnew d hd) ?_) ?_ h.recorded.kept
    ?_ ?_ hcounted⟩
  · exact fun _ _ ht => by cases ht
  · exact fun _ _ _ _ _ ht => by cases ht
  · exact fun _ ht => by cases ht
  · intro t b c hc
    obtain ⟨d, hd, hrest⟩ := h.recorded.pinned t b c hc
    exact ⟨d, List.mem_append_left _ hd, hrest⟩

/-- What a pool gives is new. -/
theorem leavePool_ok {server : Option Server} {p : PoolId} {n : Nat} {c : Connection}
    (h : r.leavePool server p n = (r', .ok c)) :
    (∃ x, r.pools[c.pool]? = some x ∧ x.issued < c.number) ∧
      ∃ x, r'.pools[c.pool]? = some x ∧ c.number ≤ x.issued := by
  simp only [Resources.leavePool] at h
  split at h
  · cases h
  · rename_i x hx
    split at h
    · cases h
    · cases h
      refine ⟨⟨x, hx, Nat.lt_succ_self _⟩, { x.leave with issued := x.issued + 1 }, ?_, Nat.le_refl _⟩
      simp [modifyPool, hx]

theorem Recorded.new (h : r.Recorded H R) {c : Connection}
    (hc : ∃ x, r.pools[c.pool]? = some x ∧ x.issued < c.number) : ∀ d ∈ H, d.connection ≠ c := by
  rintro d hd rfl
  obtain ⟨x, hx, hle⟩ := h.counted d hd
  obtain ⟨y, hy, hlt⟩ := hc
  rw [hx] at hy
  cases hy
  exact absurd hle (Nat.not_le_of_lt hlt)

/-! ### The life of transactions -/

/-- A task that ends a transaction comes last for its pins. -/
theorem Affine.settle (h : r.Affine H R) (hk : ∀ ρ, (k, ρ) ∉ R) {m : ManagerId}
    (hd : r.dropTransaction m t = .ok r') :
    (r'.requestPins t k).Affine H ((k, .settles t) :: R) := by
  obtain ⟨hactive, hactive'⟩ := dropTransaction_ok hd
  obtain ⟨hknown, hunique⟩ := h.queued.active m t hactive
  obtain ⟨x, hx⟩ := Option.ne_none_iff_exists'.1 hknown
  have hretires := Retires.dropTransaction hd
  have hclosed : ¬ r'.Open t := by
    rintro ⟨m', hm'⟩
    rw [hactive', Bool.and_eq_true] at hm'
    simp [hunique m' hm'.1] at hm'
  refine (h.retires hretires).request hk ?_ ?_ (.inr ⟨rfl, hclosed⟩)
  · rwa [hretires.mutexes]
  · exact fun k' hk' => ((h.queued.served t x hx).settles k' hk').1 ⟨m, hactive⟩

/-- A task that ends a transaction and has got its pins drops them: it is the last in the queue. -/
theorem Affine.cleared (h : r.Affine H ((k, .settles t) :: R)) (hheld : r.holdsPins t k = true) :
    (r.clearPins t).Affine H ((k, .settles t) :: R) := by
  obtain ⟨hrepins, hmutex, hnone⟩ := clearPins_eq r t
  obtain ⟨m, hm, hholder⟩ := holdsPins_iff.1 hheld
  have hserved := h.queued.served t m hm
  obtain ⟨hopen, hlast⟩ := hserved.settles k List.mem_cons_self
  have hqueue : m.queue = [k] := by
    have hnodup := hserved.nodup
    rw [Mutex.queue_release hholder] at hlast hnodup ⊢
    cases hrest : m.release.queue with
    | nil => rfl
    | cons a l =>
      rw [hrest, List.getLast?_cons_cons] at hlast
      exact absurd (hrest ▸ List.mem_of_getLast? hlast) (List.nodup_cons.1 hnodup).1
  -- so nobody else has a role in the transaction
  have halone : ∀ e ∈ (k, Role.settles t) :: R, e.2.transaction = t → e = (k, .settles t) := by
    rintro ⟨k', ρ⟩ he heq
    have hmem := (hserved.mem k').2 ⟨ρ, he, heq⟩
    rw [hqueue, List.mem_singleton] at hmem
    subst hmem
    rw [h.queued.single k' ρ _ he List.mem_cons_self]
  have hopen' : ¬ (r.clearPins t).Open t := fun ho => hopen ((open_iff hrepins.active t).1 ho)
  refine ⟨h.queued.repins hrepins hm (hmutex.trans hm) (fun _ _ => .rfl) h.queued.single
      { hserved with draws := fun k' b hk' => ?_, settles := fun k' hk' => ?_ },
    h.recorded.repins hrepins (by simp [hmutex, hm]) (fun _ _ => .rfl) ?_ ?_⟩
  · cases halone _ hk' rfl
  · exact ⟨hopen', (hserved.settles k' hk').2⟩
  · exact fun d _ _ => .inr ⟨hopen', fun e he heq => by rw [halone e he heq]⟩
  · intro b c hc
    rw [hnone] at hc
    cases hc

/-- A transaction that begins is new to everybody. -/
theorem Queued.begin {m : ManagerId} (h : r.Queued R) (hb : Begins m t r r') : r'.Queued R := by
  have hrole : ∀ e ∈ R, e.2.transaction ≠ t := fun e he => hb.ne_of_known (h.known e he)
  refine ⟨h.single, fun e he => ?_, fun t' x hx => ?_, fun m' t' hactive => ?_,
    fun m' t' hactive => ?_⟩
  · rw [hb.mutexes _ (hrole e he)]
    exact h.known e he
  · by_cases ht : t' = t
    · subst ht
      rw [hb.mutex] at hx
      cases hx
      refine ⟨fun _ => rfl, List.nodup_nil, fun k => ?_, fun k b hk => ?_, fun k hk => ?_⟩
      · refine ⟨fun hmem => absurd hmem List.not_mem_nil, ?_⟩
        rintro ⟨ρ, hρ, heq⟩
        exact absurd heq (hrole _ hρ)
      · exact absurd rfl (hrole _ hk)
      · exact absurd rfl (hrole _ hk)
    · rw [hb.mutexes t' ht] at hx
      obtain ⟨hfair, hnodup, hmem, hdraws, hsettles⟩ := h.served t' x hx
      refine ⟨hfair, hnodup, hmem, fun k b hk => ?_, fun k hk => ?_⟩
      · rw [hb.pinned]
        exact hdraws k b hk
      · rw [hb.open_iff ht]
        exact hsettles k hk
  · simp only [hb.active, Bool.or_eq_true, decide_eq_true_eq] at hactive ⊢
    rcases hactive with hactive | ⟨rfl, rfl⟩
    · obtain ⟨hknown, hunique⟩ := h.active m' t' hactive
      have ht := hb.ne_of_known hknown
      rw [hb.mutexes t' ht]
      exact ⟨hknown, fun m'' hm'' => hunique m'' (hm''.resolve_right fun heq => ht heq.2)⟩
    · refine ⟨by simp [hb.mutex], fun m'' hm'' => ?_⟩
      rcases hm'' with hm'' | ⟨rfl, _⟩
      · exact absurd hb.new (h.active m'' t' hm'').1
      · rfl
  · rw [hb.closed]
    simp only [hb.active, Bool.or_eq_true, decide_eq_true_eq] at hactive
    rcases hactive with hactive | ⟨rfl, _⟩
    · exact h.opened m' t' hactive
    · exact hb.opened

theorem Recorded.begin {m : ManagerId} (h : r.Recorded H R) (hb : Begins m t r r') :
    r'.Recorded H R := by
  refine { h with kept := fun d hd t' ht' => ?_, pinned := fun t' b c hc => ?_, counted := ?_ }
  · obtain ⟨hknown, hcase⟩ := h.kept d hd t' ht'
    have ht := hb.ne_of_known hknown
    rw [hb.mutexes t' ht, hb.pinned]
    refine ⟨hknown, hcase.imp_right fun hover => ⟨fun ho => ?_, hover.2⟩⟩
    exact hover.1 ((hb.open_iff ht).1 ho)
  · exact h.pinned t' b c (hb.pinned t' b ▸ hc)
  · rw [hb.pools]
    exact h.counted

theorem Affine.begin (h : r.Affine H R) {m : ManagerId} (hb : r.beginTransaction m = (r', .ok t)) :
    r'.Affine H R :=
  ⟨h.queued.begin (begins_of_ok hb), h.recorded.begin (begins_of_ok hb)⟩

end Resources

end ShardRegistry
