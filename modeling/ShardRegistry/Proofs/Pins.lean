import ShardRegistry.Proofs.Respect
import ShardRegistry.Registry.Acquisition

/-! The pins of transactions. Whoever looks into the pins of a transaction stands in the queue of their
lock, and whoever ends the transaction comes last. So a connection that was pinned stays until nobody
asks for it any more, and each backend is asked for a connection once. -/
namespace ShardRegistry

/-! ### Queues -/

namespace Mutex

/-- The holder and those that wait, in the order in which they get the lock. -/
def queue (m : Mutex) : List TaskId := m.holder.toList ++ m.waiting

/-- Nobody waits for a lock that is free. -/
def Fair (m : Mutex) : Prop := m.holder = none → m.waiting = []

variable {m : Mutex}

theorem Fair.request (h : m.Fair) (t : TaskId) : (m.request t).Fair := by
  cases hm : m.holder <;> simp_all [Fair, Mutex.request, isFree]

theorem fair_release (m : Mutex) : m.release.Fair := by
  cases hw : m.waiting <;> simp [Fair, release, hw]

theorem Fair.leaveQueue (h : m.Fair) (t : TaskId) : (m.leaveQueue t).Fair := by
  intro hm
  simp [Mutex.leaveQueue, h hm]

theorem queue_request (h : m.Fair) (t : TaskId) : (m.request t).queue = m.queue ++ [t] := by
  cases hm : m.holder with
  | none => simp [queue, Mutex.request, isFree, hm, h hm]
  | some t' => simp [queue, Mutex.request, isFree, hm]

theorem queue_release {t : TaskId} (h : m.holder = some t) : m.queue = t :: m.release.queue := by
  cases hw : m.waiting <;> simp [queue, release, h, hw]

theorem queue_leaveQueue {t : TaskId} (h : m.holder ≠ some t) :
    (m.leaveQueue t).queue = m.queue.erase t := by
  cases hm : m.holder with
  | none => simp [queue, Mutex.leaveQueue, hm]
  | some t' =>
    have hne : t' ≠ t := by
      rintro rfl
      exact h hm
    simp [queue, Mutex.leaveQueue, hm, hne]

theorem queue_eq_nil (h : m.Fair) (hm : m.isFree = true) : m.queue = [] := by
  have hnone : m.holder = none := by simpa [isFree] using hm
  simp [queue, hnone, h hnone]

end Mutex

/-- The last item stays when another one is taken out. -/
theorem getLast?_erase {l : List Nat} {a b : Nat} (h : l.getLast? = some a) (hne : b ≠ a) :
    (l.erase b).getLast? = some a := by
  obtain ⟨l', rfl⟩ := List.getLast?_eq_some_iff.1 h
  by_cases hb : b ∈ l'
  · simp [List.erase_append_left _ hb]
  · simp [List.erase_append_right _ hb, hne.symm]

/-- How the count of connections of a pool may change: no number is given twice. -/
def Pool.Counts (x y : Pool) : Prop := x.issued ≤ y.issued

theorem Pool.Counts.refl (x : Pool) : x.Counts x := Nat.le_refl x.issued

theorem Pool.Counts.trans (x y z : Pool) (h : x.Counts y) (h' : y.Counts z) : x.Counts z :=
  Nat.le_trans h h'

namespace Resources

/-- The lock on the pins of a transaction. -/
def mutex? (r : Resources) (t : TransactionId) : Option Mutex :=
  (r.pins[t.serial]?).map (·.mutex)

/-- A transaction is open while a manager has it in its table. -/
def Open (r : Resources) (t : TransactionId) : Prop := ∃ m, r.isActive m t = true

def isManagerClosed (r : Resources) (m : ManagerId) : Bool :=
  ((r.managers[m]?).map (·.isClosed)).getD false

variable {r r' : Resources} {t t' : TransactionId} {k : TaskId}

theorem holdsPins_iff : r.holdsPins t k = true ↔ ∃ m, r.mutex? t = some m ∧ m.holder = some k := by
  cases h : r.pins[t.serial]? <;> simp [holdsPins, mutex?, Mutex.isHeldBy, h]

theorem mutex?_of_pinned {b : String} {c : Connection} (h : r.pinned? t b = some c) :
    ∃ m, r.mutex? t = some m := by
  obtain ⟨p, hp, _⟩ := Option.bind_eq_some_iff.1 h
  exact ⟨p.mutex, by simp [mutex?, hp]⟩

theorem pins_modifyPins (r : Resources) (t t' : TransactionId) (f : Pins → Pins) :
    (r.modifyPins t f).pins[t'.serial]? =
      if t' = t then (r.pins[t.serial]?).map f else r.pins[t'.serial]? := by
  by_cases ht : t' = t
  · subst ht
    simp [modifyPins]
  · have hne : t.serial ≠ t'.serial := fun h => ht (by cases t; cases t'; simp_all)
    simp [modifyPins, ht, List.getElem?_modify_ne f _ hne]

theorem isActive_of_managers (h : r'.managers = r.managers) (m : ManagerId) (t : TransactionId) :
    r'.isActive m t = r.isActive m t := by
  simp [isActive, h]

theorem isActive_modifyManager (r : Resources) (m m' : ManagerId) (f : Manager → Manager)
    (t : TransactionId) : (r.modifyManager m f).isActive m' t =
      if m' = m then ((r.managers[m]?).map fun x => (f x).isActive t).getD false
      else r.isActive m' t := by
  by_cases hm : m' = m
  · subst hm
    cases h : r.managers[m']? <;> simp [isActive, modifyManager, h]
  · simp [isActive, modifyManager, hm, List.getElem?_modify_ne f _ (Ne.symm hm)]

theorem dropTransaction_error {m : ManagerId} {e : Error} (h : r.dropTransaction m t = .error e) :
    r.isActive m t = false := by
  simp only [Resources.dropTransaction] at h
  split at h
  · rename_i hx
    simp [isActive, hx]
  · rename_i x hx
    split at h
    · cases h
    · rename_i hactive
      simpa [isActive, hx] using hactive

theorem isManagerClosed_modifyManager (r : Resources) (m m' : ManagerId) {f : Manager → Manager}
    (hf : ∀ x, (f x).isClosed = x.isClosed) :
    (r.modifyManager m f).isManagerClosed m' = r.isManagerClosed m' := by
  by_cases hm : m = m'
  · subst hm
    cases h : r.managers[m]? <;> simp [isManagerClosed, modifyManager, h, hf]
  · simp [isManagerClosed, modifyManager, List.getElem?_modify_ne f _ hm]

/-- A transaction begins, with a number that was not given yet. -/
structure Begins (m : ManagerId) (t : TransactionId) (r r' : Resources) : Prop where
  new : r.mutex? t = none
  mutex : r'.mutex? t = some {}
  mutexes : ∀ t', t' ≠ t → r'.mutex? t' = r.mutex? t'
  pinned : ∀ t' b, r'.pinned? t' b = r.pinned? t' b
  active : ∀ m' t', r'.isActive m' t' = (r.isActive m' t' || decide (m' = m ∧ t' = t))
  opened : r.isManagerClosed m = false
  closed : ∀ m', r'.isManagerClosed m' = r.isManagerClosed m'
  pools : r'.pools = r.pools

theorem Begins.ne_of_known {m : ManagerId} (h : Begins m t r r') (hknown : r.mutex? t' ≠ none) :
    t' ≠ t := by
  rintro rfl
  exact hknown h.new

theorem Begins.open_iff {m : ManagerId} (h : Begins m t r r') (ht : t' ≠ t) :
    r'.Open t' ↔ r.Open t' := by
  simp only [Open, h.active, Bool.or_eq_true, decide_eq_true_eq, ht, and_false, or_false]

theorem begins_of_ok {m : ManagerId} (h : r.beginTransaction m = (r', .ok t)) :
    Begins m t r r' := by
  simp only [Resources.beginTransaction] at h
  split at h
  · cases h
  · rename_i x hx
    split at h
    · cases h
    · rename_i hopen
      obtain ⟨rfl, ht⟩ := Prod.mk.inj h
      cases ht
      have hold : ∀ t' : TransactionId, t' ≠ ⟨r.pins.length⟩ →
          (r.pins ++ [Pins.mk [] {}])[t'.serial]? = r.pins[t'.serial]? := by
        intro t' ht
        have hne : t'.serial ≠ r.pins.length := fun heq => ht (by cases t'; simp_all)
        rcases Nat.lt_or_gt_of_ne hne with hlt | hgt
        · exact List.getElem?_append_left hlt
        · rw [List.getElem?_eq_none (Nat.le_of_lt hgt),
            List.getElem?_eq_none (by simp; omega)]
      refine ⟨by simp [mutex?], by simp [mutex?, modifyManager], fun t' ht => ?_, fun t' b => ?_,
        fun m' t' => ?_, by simpa [isManagerClosed, hx] using hopen,
        fun m' => isManagerClosed_modifyManager _ m m' fun _ => rfl, rfl⟩
      · simp [mutex?, modifyManager, hold t' ht]
      · by_cases ht : t' = ⟨r.pins.length⟩
        · subst ht
          simp [pinned?, modifyManager, Entries.find?]
        · simp [pinned?, modifyManager, hold t' ht]
      · rw [isActive_modifyManager]
        by_cases hm : m' = m
        · subst hm
          simp [isActive, hx, Manager.isActive]
        · simp [hm, isActive]

theorem beginTransaction_error {m : ManagerId} {e : Error}
    (h : r.beginTransaction m = (r', .error e)) : r' = r := by
  simp only [Resources.beginTransaction] at h
  split at h
  · exact (Prod.mk.inj h).1.symm
  · split at h
    · exact (Prod.mk.inj h).1.symm
    · cases h

/-- A transaction that ends leaves the table of its manager. -/
theorem dropTransaction_ok {m : ManagerId} (h : r.dropTransaction m t = .ok r') :
    r.isActive m t = true ∧
      ∀ m' t', r'.isActive m' t' = (r.isActive m' t' && !decide (m' = m ∧ t' = t)) := by
  simp only [Resources.dropTransaction] at h
  split at h
  · cases h
  · rename_i x hx
    split at h <;> cases h
    rename_i hactive
    refine ⟨by simpa [isActive, hx] using hactive, fun m' t' => ?_⟩
    rw [isActive_modifyManager]
    by_cases hm : m' = m
    · subst hm
      by_cases ht : t' = t <;> simp [isActive, hx, Manager.isActive, ht]
    · simp [hm]

/-! ### Locks of pins -/

/-- What a step leaves as it is that works on the pins of one transaction. -/
structure Repins (t : TransactionId) (r r' : Resources) : Prop where
  mutexes : ∀ t', t' ≠ t → r'.mutex? t' = r.mutex? t'
  pinned : ∀ t', t' ≠ t → ∀ b, r'.pinned? t' b = r.pinned? t' b
  managers : r'.managers = r.managers
  pools : r'.pools = r.pools

theorem Repins.active (h : Repins t r r') (m : ManagerId) (t' : TransactionId) :
    r'.isActive m t' = r.isActive m t' := isActive_of_managers h.managers m t'

theorem repins_modifyPins (r : Resources) (t : TransactionId) (f : Pins → Pins) :
    Repins t r (r.modifyPins t f) where
  mutexes t' ht := by simp [mutex?, pins_modifyPins, ht]
  pinned t' ht b := by simp [pinned?, pins_modifyPins, ht]
  managers := rfl
  pools := rfl

/-- A step on the lock alone. -/
theorem modifyMutex (r : Resources) (t : TransactionId) (f : Mutex → Mutex) :
    (r.modifyPins t fun p => { p with mutex := f p.mutex }).mutex? t = (r.mutex? t).map f ∧
      ∀ b, (r.modifyPins t fun p => { p with mutex := f p.mutex }).pinned? t b = r.pinned? t b := by
  constructor
  · cases h : r.pins[t.serial]? <;> simp [mutex?, pins_modifyPins, h]
  · intro b
    cases h : r.pins[t.serial]? <;> simp [pinned?, pins_modifyPins, h]

theorem requestPins_eq (r : Resources) (t : TransactionId) (k : TaskId) :
    Repins t r (r.requestPins t k) ∧ (r.requestPins t k).mutex? t = (r.mutex? t).map (·.request k) ∧
      ∀ b, (r.requestPins t k).pinned? t b = r.pinned? t b :=
  ⟨repins_modifyPins r t _, modifyMutex r t (·.request k)⟩

theorem releasePins_eq (r : Resources) (t : TransactionId) :
    Repins t r (r.releasePins t) ∧ (r.releasePins t).mutex? t = (r.mutex? t).map (·.release) ∧
      ∀ b, (r.releasePins t).pinned? t b = r.pinned? t b := by
  cases h : r.pins[t.serial]? with
  | none =>
    have heq : r.releasePins t = r := by simp [releasePins, h]
    rw [heq]
    exact ⟨⟨fun _ _ => rfl, fun _ _ _ => rfl, rfl, rfl⟩, by simp [mutex?, h], fun _ => rfl⟩
  | some p =>
    have heq : r.releasePins t = (r.modifyPins t fun x => { x with mutex := p.mutex.release }).wake
        p.mutex.release.holder.toList := by simp [releasePins, h]
    obtain ⟨hmutexes, hpinned, hmanagers, hpools⟩ :=
      repins_modifyPins r t fun x => { x with mutex := p.mutex.release }
    rw [heq]
    refine ⟨⟨hmutexes, hpinned, hmanagers, hpools⟩, ?_, fun b => ?_⟩
    · simp [wake, mutex?, pins_modifyPins, h]
    · simp [wake, pinned?, pins_modifyPins, h]

theorem pin_eq (r : Resources) (t : TransactionId) (b : String) (c : Connection) :
    Repins t r (r.pin t b c) ∧ (r.pin t b c).mutex? t = r.mutex? t ∧
      (∀ b', b' ≠ b → (r.pin t b c).pinned? t b' = r.pinned? t b') ∧
      (r.mutex? t ≠ none → (r.pin t b c).pinned? t b = some c) := by
  refine ⟨repins_modifyPins r t _, ?_, fun b' hb => ?_, fun hm => ?_⟩
  · cases h : r.pins[t.serial]? <;> simp [pin, mutex?, pins_modifyPins, h]
  · cases h : r.pins[t.serial]? <;>
      simp [pin, pinned?, pins_modifyPins, h, Entries.find?_put_of_ne c hb.symm]
  · cases h : r.pins[t.serial]? with
    | none => simp [mutex?, h] at hm
    | some p => simp [pin, pinned?, pins_modifyPins, h, Entries.find?_put_self]

theorem clearPins_eq (r : Resources) (t : TransactionId) :
    Repins t r (r.clearPins t) ∧ (r.clearPins t).mutex? t = r.mutex? t ∧
      ∀ b, (r.clearPins t).pinned? t b = none := by
  refine ⟨repins_modifyPins r t _, ?_, fun b => ?_⟩
  · cases h : r.pins[t.serial]? <;> simp [clearPins, mutex?, pins_modifyPins, h]
  · cases h : r.pins[t.serial]? <;> simp [clearPins, pinned?, pins_modifyPins, h, Entries.find?]

/-! ### The end of transactions -/

/-- What others may do around the tasks that deal with transactions: transactions end, and with that
their pins may go when nobody is in the queue. -/
structure Retires (r r' : Resources) : Prop where
  pools : Evolves Pool.Counts r.pools r'.pools
  managers : Evolves Manager.Ages r.managers r'.managers
  active : ∀ m t, r'.isActive m t = true → r.isActive m t = true
  closed : ∀ m t, r'.isActive m t = true → r'.isManagerClosed m = true →
    r.isManagerClosed m = true
  mutexes : ∀ t, r'.mutex? t = r.mutex? t
  pinned : ∀ t b c, r'.pinned? t b = some c → r.pinned? t b = some c
  cleared : ∀ t b c, r.pinned? t b = some c → r'.pinned? t b = some c ∨
    (∀ x, r.mutex? t = some x → x.isFree = true) ∧
      ∃ m, r.isActive m t = true ∧ r'.isActive m t = false

namespace Retires
variable {r r' r'' : Resources}

/-- Nothing that has to do with transactions differs. -/
theorem of_pools (hp : Evolves Pool.Counts r.pools r'.pools)
    (hm : r'.managers = r.managers) (hpins : r'.pins = r.pins) : r.Retires r' where
  pools := hp
  managers := hm ▸ .refl Manager.Ages.refl _
  active m t h := isActive_of_managers hm m t ▸ h
  closed m t _ h := by rwa [isManagerClosed, hm, ← isManagerClosed] at h
  mutexes t := by rw [mutex?, hpins, mutex?]
  pinned t b c h := by rwa [pinned?, hpins, ← pinned?] at h
  cleared t b c h := by
    left
    rwa [pinned?, hpins, ← pinned?]

theorem of_eq (hp : r'.pools = r.pools) (hm : r'.managers = r.managers) (hpins : r'.pins = r.pins) :
    r.Retires r' := of_pools (hp ▸ .refl Pool.Counts.refl _) hm hpins

theorem refl (r : Resources) : r.Retires r := of_eq rfl rfl rfl

theorem trans (h : r.Retires r') (h' : r'.Retires r'') : r.Retires r'' where
  pools := h.pools.trans Pool.Counts.trans h'.pools
  managers := h.managers.trans Manager.Ages.trans h'.managers
  active m t hm := h.active m t (h'.active m t hm)
  closed m t hm hc := h.closed m t (h'.active m t hm) (h'.closed m t hm hc)
  mutexes t := (h'.mutexes t).trans (h.mutexes t)
  pinned t b c hc := h.pinned t b c (h'.pinned t b c hc)
  cleared t b c hc := by
    rcases h.cleared t b c hc with hc | ⟨hfree, m, hm, hm'⟩
    · rcases h'.cleared t b c hc with hc | ⟨hfree, m, hm, hm'⟩
      · exact .inl hc
      · exact .inr ⟨fun x hx => hfree x ((h.mutexes t).trans hx), m, h.active m t hm, hm'⟩
    · refine .inr ⟨hfree, m, hm, ?_⟩
      cases hm'' : r''.isActive m t with
      | false => rfl
      | true =>
        rw [h'.active m t hm''] at hm'
        cases hm'

theorem modifyPool (r : Resources) (p : PoolId) {f : Pool → Pool} (hf : ∀ x : Pool, x.Counts (f x)) :
    r.Retires (r.modifyPool p f) :=
  of_pools (.modify Pool.Counts.refl _ p hf) rfl rfl

theorem addPool (r : Resources) (f : Factory) (name : String) (p : ConnectionParameters) :
    r.Retires (r.addPool f name p).1 := by
  simp only [Resources.addPool]
  split
  · exact of_eq rfl rfl rfl
  · exact of_pools (.append Pool.Counts.refl _ _) rfl rfl

/-- Managers that are added have no transactions. -/
theorem addManagers (r : Resources) {ms : List Manager} (hms : ∀ x ∈ ms, x.active = [])
    (engines : List Engine) :
    r.Retires { r with managers := r.managers ++ ms, engines } := by
  have hold : ∀ m t, isActive { r with managers := r.managers ++ ms, engines } m t = true →
      (r.managers ++ ms)[m]? = r.managers[m]? := by
    intro m t h
    by_cases hlt : m < r.managers.length
    · exact List.getElem?_append_left hlt
    · simp only [isActive, List.getElem?_append_right (Nat.le_of_not_lt hlt)] at h
      split at h
      · rename_i x hx
        rw [Manager.isActive, hms x (List.mem_of_getElem? hx)] at h
        cases h
      · cases h
  refine ⟨.refl Pool.Counts.refl _, .append Manager.Ages.refl _ _, fun m t h => ?_,
    fun m t h hc => ?_, fun _ => rfl, fun _ _ _ h => h, fun _ _ _ h => .inl h⟩
  · have heq := hold m t h
    simpa only [isActive, heq] using h
  · have heq := hold m t h
    simpa only [isManagerClosed, heq] using hc

theorem addEngine (r : Resources) (pools : OrderedMap PoolId) : r.Retires (r.addEngine pools).1 := by
  rw [addEngine_eq]
  exact addManagers r (by simp) _

/-- Of the transactions in question those lose their pins whose lock is free. -/
theorem clearFree_pins (ts : List TransactionId) (r : Resources) :
    (∀ t, (r.clearFree ts).1.mutex? t = r.mutex? t) ∧
    (∀ t b c, (r.clearFree ts).1.pinned? t b = some c → r.pinned? t b = some c) ∧
    ∀ t b c, r.pinned? t b = some c → (r.clearFree ts).1.pinned? t b = some c ∨
      (∀ x, r.mutex? t = some x → x.isFree = true) ∧ t ∈ ts := by
  induction ts generalizing r with
  | nil => exact ⟨fun _ => rfl, fun _ _ _ h => h, fun _ _ _ h => .inl h⟩
  | cons t₀ ts ih =>
    simp only [clearFree]
    split
    · rename_i hfree
      obtain ⟨hmutexes, hpinned, hcleared⟩ := ih (r.clearPins t₀)
      obtain ⟨hrepins, hmutex, hnone⟩ := clearPins_eq r t₀
      have hmutexes' (t : TransactionId) : (r.clearPins t₀).mutex? t = r.mutex? t := by
        by_cases ht : t = t₀
        · rw [ht, hmutex]
        · exact hrepins.mutexes t ht
      refine ⟨fun t => (hmutexes t).trans (hmutexes' t), fun t b c hc => ?_, fun t b c hc => ?_⟩
      · have hc := hpinned t b c hc
        by_cases ht : t = t₀
        · rw [ht, hnone] at hc
          cases hc
        · exact hrepins.pinned t ht b ▸ hc
      · by_cases ht : t = t₀
        · subst ht
          refine .inr ⟨fun x hx => ?_, List.mem_cons_self⟩
          obtain ⟨p, hp, rfl⟩ := Option.map_eq_some_iff.1 hx
          simpa [hp] using hfree
        · rcases hcleared t b c ((hrepins.pinned t ht b).trans hc) with hc | ⟨hfree, hmem⟩
          · exact .inl hc
          · exact .inr ⟨fun x hx => hfree x ((hmutexes' t).trans hx), List.mem_cons_of_mem _ hmem⟩
    · obtain ⟨hmutexes, hpinned, hcleared⟩ := ih r
      refine ⟨hmutexes, hpinned, fun t b c hc => ?_⟩
      exact (hcleared t b c hc).imp_right fun h => ⟨h.1, List.mem_cons_of_mem _ h.2⟩

theorem closeManager (r : Resources) (m : ManagerId) : r.Retires (r.closeManager m).1 := by
  simp only [Resources.closeManager]
  split
  · exact refl r
  · rename_i x hx
    split
    · exact refl r
    · generalize hr₁ : (r.modifyManager m fun x => { x with isClosed := true, active := [] }) = r₁
      have hactive (m' : ManagerId) (t : TransactionId) :
          r₁.isActive m' t = if m' = m then false else r.isActive m' t := by
        rw [← hr₁, isActive_modifyManager, hx]
        rfl
      obtain ⟨hmutexes, hpinned, hcleared⟩ := clearFree_pins x.active r₁
      obtain ⟨pins, hfst, _⟩ := clearFree_fst x.active r₁
      have hmutexes' (t : TransactionId) : r₁.mutex? t = r.mutex? t := by rw [← hr₁]; rfl
      have hpinned' (t : TransactionId) (b : String) : r₁.pinned? t b = r.pinned? t b := by
        rw [← hr₁]
        rfl
      have hactive' (m' : ManagerId) (t : TransactionId) :
          (r₁.clearFree x.active).1.isActive m' t = if m' = m then false else r.isActive m' t := by
        rw [← hactive]
        exact isActive_of_managers (by rw [hfst]) m' t
      refine ⟨?_, ?_, fun m' t h => ?_, fun m' t h hc => ?_,
        fun t => (hmutexes t).trans (hmutexes' t), ?_, ?_⟩
      · rw [hfst, ← hr₁]
        exact .refl Pool.Counts.refl _
      · rw [hfst, ← hr₁]
        exact .modify Manager.Ages.refl _ _ fun _ => ⟨⟨rfl, rfl⟩, fun _ => rfl⟩
      · rw [hactive'] at h
        split at h
        · cases h
        · exact h
      · rw [hactive'] at h
        split at h
        · cases h
        · rename_i hne
          rw [hfst, ← hr₁] at hc
          simpa [isManagerClosed, modifyManager, List.getElem?_modify_ne _ _ (Ne.symm hne)] using hc
      · exact fun t b c hc => hpinned' t b ▸ hpinned t b c hc
      · intro t b c hc
        rcases hcleared t b c ((hpinned' t b).trans hc) with hc | ⟨hfree, hmem⟩
        · exact .inl hc
        · refine .inr ⟨fun x hx => hfree x ((hmutexes' t).trans hx), m, ?_, by simp [hactive']⟩
          simp [isActive, hx, Manager.isActive, hmem]

theorem closeEngineQuietly (r : Resources) (e : EngineId) : r.Retires (r.closeEngineQuietly e) := by
  simp only [Resources.closeEngineQuietly, Resources.closeEngine]
  split
  · exact refl r
  · split
    · exact refl r
    · rename_i x _ _
      have h : r.Retires { r with engines := r.engines.modify e fun x => { x with isClosed := true } } :=
        of_eq rfl rfl rfl
      exact (h.trans (closeManager _ x.xa)).trans (closeManager _ x.base)

/-- So does every part of a change. -/
theorem respected : Respected Retires where
  refl := refl
  trans := trans
  marks _ _ _ := of_eq rfl rfl rfl
  addPool := addPool
  closePool r p := modifyPool r p fun _ => Nat.le_refl _
  addEngine := addEngine
  closeEngine := closeEngineQuietly

theorem dropTransaction {m : ManagerId} {t : TransactionId} (h : r.dropTransaction m t = .ok r') :
    r.Retires r' := by
  have hactive := (dropTransaction_ok h).2
  simp only [Resources.dropTransaction] at h
  split at h
  · cases h
  · split at h <;> cases h
    refine ⟨.refl Pool.Counts.refl _, .modify Manager.Ages.refl _ _ fun _ => ⟨⟨rfl, rfl⟩, id⟩,
      fun m' t' h => ?_, fun m' _ _ hc => ?_, fun _ => rfl, fun _ _ _ h => h,
      fun _ _ _ h => .inl h⟩
    · rw [hactive] at h
      exact (Bool.and_eq_true_iff.1 h).1
    · rwa [isManagerClosed_modifyManager r m m' (by exact fun _ => rfl)] at hc

theorem enterPool (r : Resources) (k : TaskId) (p : PoolId) : r.Retires (r.enterPool k p).1 := by
  simp only [Resources.enterPool]
  split
  · exact refl r
  · rename_i x hx
    have hwrite (y : Pool) (hy : x.Counts y) : r.Retires (r.modifyPool p fun _ => y) := by
      refine of_pools (fun i z hz => ?_) rfl rfl
      by_cases hi : p = i
      · subst hi
        rw [hx] at hz
        cases hz
        exact ⟨y, by simp [Resources.modifyPool, hx], hy⟩
      · exact ⟨z, by simp [Resources.modifyPool, List.getElem?_modify_ne _ _ hi, hz], Nat.le_refl _⟩
    split <;> exact hwrite _ (Nat.le_refl _)

theorem leavePool (r : Resources) (server : Option Server) (p : PoolId) (attempt : Nat) :
    r.Retires (r.leavePool server p attempt).1 := by
  simp only [Resources.leavePool]
  split
  · exact refl r
  · rename_i x hx
    split
    · exact modifyPool r p fun _ => Nat.le_refl _
    · refine of_pools (fun i z hz => ?_) rfl rfl
      by_cases hi : p = i
      · subst hi
        rw [hx] at hz
        cases hz
        refine ⟨{ x.leave with issued := x.issued + 1 }, ?_, Nat.le_succ _⟩
        simp [Resources.modifyPool, hx]
      · exact ⟨z, by simp [Resources.modifyPool, List.getElem?_modify_ne _ _ hi, hz], Nat.le_refl _⟩

theorem quitPool (r : Resources) (k : TaskId) (p : PoolId) : r.Retires (r.quitPool k p) :=
  modifyPool r p fun _ => Nat.le_refl _

end Retires

end Resources

end ShardRegistry
