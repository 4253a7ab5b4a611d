import ShardRegistry.Proofs.Draws
import ShardRegistry.Proofs.References

/-! Departures. Transactions leave the tables of managers that close. What is pinned to them goes at
once if nobody has the lock on it, and else with the last task that deals with the transaction. -/
namespace ShardRegistry

namespace Resources

/-- The transactions that are open. -/
def tables (r : Resources) : List TransactionId := r.managers.flatMap (·.active)

def contents (r : Resources) (t : TransactionId) : List Connection :=
  ((r.pins[t.serial]?).map fun p => p.connections.map (·.2)).getD []

def isFree (r : Resources) (t : TransactionId) : Bool := ((r.mutex? t).map (·.isFree)).getD true

variable {r r' r'' : Resources} {t : TransactionId}

theorem mem_tables_iff : t ∈ r.tables ↔ r.Open t := by
  simp only [tables, List.mem_flatMap, Open, isActive]
  constructor
  · rintro ⟨x, hx, ht⟩
    obtain ⟨m, hm⟩ := List.mem_iff_getElem?.1 hx
    exact ⟨m, by simpa [hm, Manager.isActive] using ht⟩
  · rintro ⟨m, hm⟩
    split at hm
    · rename_i x hx
      exact ⟨x, List.mem_of_getElem? hx, by simpa [Manager.isActive] using hm⟩
    · cases hm

theorem tables_of_managers (h : r'.managers = r.managers) : r'.tables = r.tables := by
  rw [tables, h, tables]

/-! ### What is pinned -/

theorem contents_of_pins (h : r'.pins = r.pins) : r'.contents = r.contents := by
  funext t
  rw [contents, h, contents]

theorem contents_modifyPins (r : Resources) (t : TransactionId) {f : Pins → Pins}
    (hf : ∀ p, (f p).connections = p.connections) : (r.modifyPins t f).contents = r.contents := by
  funext t'
  rw [contents, pins_modifyPins]
  split
  · rename_i ht
    subst ht
    cases h : r.pins[t'.serial]? <;> simp [contents, h, hf]
  · rfl

@[simp] theorem contents_requestPins (r : Resources) (t : TransactionId) (k : TaskId) :
    (r.requestPins t k).contents = r.contents := contents_modifyPins r t fun _ => rfl

@[simp] theorem contents_releasePins (r : Resources) (t : TransactionId) :
    (r.releasePins t).contents = r.contents := by
  simp only [releasePins]
  split
  · exact contents_modifyPins r t fun _ => rfl
  · rfl

@[simp] theorem contents_enterPool (r : Resources) (k : TaskId) (p : PoolId) :
    (r.enterPool k p).1.contents = r.contents := by
  refine contents_of_pins ?_
  simp only [enterPool]
  split
  · rfl
  · split <;> rfl

@[simp] theorem contents_leavePool (r : Resources) (server : Option Server) (p : PoolId) (attempt : Nat) :
    (r.leavePool server p attempt).1.contents = r.contents := by
  refine contents_of_pins ?_
  simp only [leavePool]
  split
  · rfl
  · split <;> rfl

theorem contents_clearPins (r : Resources) (t t' : TransactionId) :
    (r.clearPins t).contents t' = if t' = t then [] else r.contents t' := by
  simp only [contents, clearPins, pins_modifyPins]
  split
  · cases r.pins[t.serial]? <;> rfl
  · rfl

/-- A connection of a backend that has none comes last. -/
theorem contents_pin {b : String} (c : Connection) (hknown : r.mutex? t ≠ none)
    (hnone : r.pinned? t b = none) (t' : TransactionId) :
    (r.pin t b c).contents t' = if t' = t then r.contents t ++ [c] else r.contents t' := by
  simp only [contents, pin, pins_modifyPins]
  split
  · obtain ⟨x, hx⟩ := Option.ne_none_iff_exists'.1 hknown
    obtain ⟨p, hp, _⟩ := Option.map_eq_some_iff.1 hx
    have hfind : Entries.find? b p.connections = none := by simpa [pinned?, hp] using hnone
    simp [hp, Entries.put_of_not_mem c (Entries.find?_eq_none_iff.1 hfind)]
  · rfl

/-! ### Closing -/

/-- With fewer items from one place there are fewer in all. -/
theorem sublist_flatMap_modify {α β : Type} {g : α → List β} {f : α → α} (xs : List α) (i : Nat)
    (hf : ∀ x, (g (f x)).Sublist (g x)) : ((xs.modify i f).flatMap g).Sublist (xs.flatMap g) := by
  induction xs generalizing i with
  | nil => simp
  | cons x xs ih =>
    cases i with
    | zero => simpa using (hf x).append_right (xs.flatMap g)
    | succ i => simpa using (ih i).append_left (g x)

/-- Managers were closed at most: the pins are gone of those transactions which left their tables while
the lock was free. -/
structure Vacates (r r' : Resources) : Prop where
  retires : r.Retires r'
  begun : r'.pins.length = r.pins.length
  tables : r'.tables.Sublist r.tables
  emptied : ∀ m t, r.isActive m t = true → r'.isActive m t = false → r.isFree t = true →
    r'.contents t = []
  kept : ∀ t, (∀ m, r.isActive m t = true → r.isFree t = true → r'.isActive m t = true) →
    r'.contents t = r.contents t

theorem Retires.isFree (h : r.Retires r') (t : TransactionId) : r'.isFree t = r.isFree t := by
  rw [Resources.isFree, h.mutexes, Resources.isFree]

namespace Vacates

/-- Nothing that has to do with transactions differs. -/
theorem of_retires (h : r.Retires r') (ht : r'.table = r.table) (hc : r'.contents = r.contents) :
    r.Vacates r' where
  retires := h
  begun := (Prod.mk.inj ht).2
  tables := by rw [tables_of_managers (Prod.mk.inj ht).1]
  emptied m t hm hm' _ := by
    rw [isActive_of_managers (Prod.mk.inj ht).1, hm] at hm'
    cases hm'
  kept t _ := by rw [hc]

theorem refl (r : Resources) : r.Vacates r := of_retires (.refl r) rfl rfl

theorem trans (h : r.Vacates r') (h' : r'.Vacates r'') : r.Vacates r'' where
  retires := h.retires.trans h'.retires
  begun := h'.begun.trans h.begun
  tables := h'.tables.trans h.tables
  emptied m t ht ht'' hfree := by
    have hfree' : r'.isFree t = true := (h.retires.isFree t).trans hfree
    cases ht' : r'.isActive m t with
    | true => exact h'.emptied m t ht' ht'' hfree'
    | false =>
      have hnil := h.emptied m t ht ht' hfree
      by_cases hstays : ∀ m, r'.isActive m t = true → r'.isFree t = true → r''.isActive m t = true
      · rw [h'.kept t hstays, hnil]
      · simp only [not_forall, Bool.not_eq_true] at hstays
        obtain ⟨m', hm', hfree', hm''⟩ := hstays
        exact h'.emptied m' t hm' hm'' hfree'
  kept t hstays := by
    have hfree := h.retires.isFree t
    rw [h'.kept t fun m hm hf => hstays m (h.retires.active m t hm) (hfree ▸ hf),
      h.kept t fun m hm hf => h'.retires.active m t (hstays m hm hf)]

theorem addEngine (r : Resources) (pools : OrderedMap PoolId) : r.Vacates (r.addEngine pools).1 := by
  have hretires := Retires.addEngine r pools
  have htables : (r.addEngine pools).1.tables = r.tables := by simp [addEngine_eq, Resources.tables]
  have hpins : (r.addEngine pools).1.pins = r.pins := by rw [addEngine_eq]
  have hactive (m : ManagerId) (t : TransactionId) (h : r.isActive m t = true) :
      (r.addEngine pools).1.isActive m t = true := by
    simp only [isActive] at h
    split at h
    · rename_i x hx
      have hlt := (List.getElem?_eq_some_iff.1 hx).1
      simpa [isActive, addEngine_eq, List.getElem?_append_left hlt, hx] using h
    · cases h
  refine ⟨hretires, by rw [hpins], by rw [htables], fun m t ht ht' _ => ?_, fun t _ => ?_⟩
  · rw [hactive m t ht] at ht'
    cases ht'
  · rw [contents_of_pins hpins]

/-- Of the transactions in question those are cleared whose lock is free. -/
theorem clearFree_contents (ts : List TransactionId) (r : Resources) (t : TransactionId) :
    (r.clearFree ts).1.contents t = if t ∈ ts ∧ r.isFree t = true then [] else r.contents t := by
  induction ts generalizing r with
  | nil => simp [clearFree]
  | cons t₀ ts ih =>
    have hfree₀ : ((r.pins[t₀.serial]?).map (·.mutex.isFree)).getD true = r.isFree t₀ := by
      simp [Resources.isFree, mutex?, Function.comp_def]
    simp only [clearFree, hfree₀]
    cases hf : r.isFree t₀ with
    | false =>
      by_cases ht : t = t₀
      · subst ht
        simp [ih, hf]
      · simp [ih, ht]
    | true =>
      have hfree : (r.clearPins t₀).isFree t = r.isFree t := by
        by_cases ht : t = t₀
        · rw [Resources.isFree, ht, (clearPins_eq r t₀).2.1, Resources.isFree]
        · rw [Resources.isFree, (clearPins_eq r t₀).1.mutexes t ht, Resources.isFree]
      by_cases ht : t = t₀
      · subst ht
        simp [ih, hf, contents_clearPins]
      · simp [ih, ht, hfree, contents_clearPins]

theorem closeManager (r : Resources) (m : ManagerId) : r.Vacates (r.closeManager m).1 := by
  have hretires := Retires.closeManager r m
  simp only [Resources.closeManager] at hretires ⊢
  split
  · exact refl r
  · rename_i x hx
    split
    · exact refl r
    · rename_i hopen
      simp only [hx, hopen] at hretires
      generalize hr₁ : (r.modifyManager m fun x => { x with isClosed := true, active := [] }) = r₁ at *
      obtain ⟨pins, hfst, hlength, _⟩ := clearFree_fst x.active r₁
      have hpins : r₁.pins = r.pins := by rw [← hr₁]; rfl
      have hactive (m' : ManagerId) (t : TransactionId) :
          (r₁.clearFree x.active).1.isActive m' t = if m' = m then false else r.isActive m' t := by
        rw [isActive_of_managers (r := r₁) (by rw [hfst]), ← hr₁, isActive_modifyManager, hx]
        rfl
      have hcontents (t : TransactionId) : (r₁.clearFree x.active).1.contents t =
          if t ∈ x.active ∧ r.isFree t = true then [] else r.contents t := by
        have hfree : r₁.isFree t = r.isFree t := by simp [Resources.isFree, mutex?, hpins]
        rw [clearFree_contents, contents_of_pins hpins, hfree]
      have hmem {t : TransactionId} : t ∈ x.active ↔ r.isActive m t = true := by
        simp [isActive, hx, Manager.isActive]
      refine ⟨hretires, ?_, ?_, fun m' t ht ht' hfree => ?_, fun t hstays => ?_⟩
      · rw [hfst, ← hpins]
        exact hlength
      · rw [tables_of_managers (r := r₁) (by rw [hfst]), ← hr₁]
        exact sublist_flatMap_modify r.managers m fun _ => List.nil_sublist _
      · rw [hactive] at ht'
        split at ht'
        · rename_i heq
          rw [hcontents, if_pos ⟨hmem.2 (heq ▸ ht), hfree⟩]
        · rw [ht] at ht'
          cases ht'
      · rw [hcontents, if_neg]
        rintro ⟨ht, hfree⟩
        have hstays := hstays m (hmem.1 ht) hfree
        rw [hactive, if_pos rfl] at hstays
        cases hstays

theorem closeEngineQuietly (r : Resources) (e : EngineId) : r.Vacates (r.closeEngineQuietly e) := by
  simp only [Resources.closeEngineQuietly, Resources.closeEngine]
  split
  · exact refl r
  · split
    · exact refl r
    · rename_i x _ _
      have h : r.Vacates { r with engines := r.engines.modify e fun x => { x with isClosed := true } } :=
        of_retires (.of_eq rfl rfl rfl) rfl rfl
      exact (h.trans (closeManager _ x.xa)).trans (closeManager _ x.base)

theorem respected : Respected Vacates where
  refl := refl
  trans := trans
  marks _ _ _ := of_retires (.of_eq rfl rfl rfl) rfl rfl
  addPool r f name p := by
    refine of_retires (.addPool r f name p) ?_ (contents_of_pins ?_) <;>
      · simp only [Resources.addPool]
        split <;> rfl
  closePool r p := of_retires (.modifyPool r p fun _ => Nat.le_refl _) rfl rfl
  addEngine := addEngine
  closeEngine := closeEngineQuietly

end Vacates

/-! ### Handles on pins -/

/-- What becomes of the handles of the tables. -/
def departures (r r' : Resources) : List Reference :=
  (r.tables.filter (· ∉ r'.tables)).flatMap fun t =>
    if r.isFree t then [.cleared t, .left t] else [.left t]

end Resources

namespace Ledger.Balances
variable {l : Ledger} {n : Nat} {P : TransactionId → List Connection} {B : List Connection}
  {T : List TransactionId}

/-- Transactions leave one after the other. -/
theorem leaves (free : TransactionId → Bool) {ts : List TransactionId}
    (h : l.Balances n P B (ts ++ T)) (hlt : ∀ t ∈ ts, t.serial < n) :
    (l.posts (ts.flatMap fun t => if free t then [.cleared t, .left t] else [.left t])).Balances n
      (fun t => if t ∈ ts ∧ free t = true then [] else P t) B T := by
  induction ts generalizing l P with
  | nil => simpa using h
  | cons t₀ ts ih =>
    obtain ⟨hlt₀, hlt⟩ := List.forall_mem_cons.1 hlt
    cases hf : free t₀ with
    | false =>
      have hrest := ih (h.leave hlt₀) hlt
      have heq : (fun t => if t ∈ t₀ :: ts ∧ free t = true then [] else P t) =
          fun t => if t ∈ ts ∧ free t = true then [] else P t := by
        funext t
        by_cases ht : t = t₀
        · subst ht
          simp [hf]
        · simp [ht]
      rw [heq]
      simpa [hf] using hrest
    | true =>
      have hclear : (l.post (.cleared t₀)).Balances n (fun t => if t = t₀ then [] else P t) B
          (t₀ :: (ts ++ T)) := h.clear hlt₀ (if_pos rfl) fun t ht => if_neg ht
      have hrest := ih (hclear.leave hlt₀) hlt
      have heq : (fun t => if t ∈ t₀ :: ts ∧ free t = true then [] else P t) =
          fun t => if t ∈ ts ∧ free t = true then [] else if t = t₀ then [] else P t := by
        funext t
        by_cases ht : t = t₀
        · subst ht
          simp [hf]
        · simp [ht]
      rw [heq]
      simpa [hf] using hrest

/-- Each open transaction is in one table. -/
theorem departs {r r' : Resources} {D : List TransactionId} (hv : r.Vacates r')
    (hn : r.tables.Nodup) (hactive : ∀ m t, r.isActive m t = true →
      t.serial < r.pins.length ∧ ∀ m', r.isActive m' t = true → m' = m)
    (h : l.Balances r.pins.length r.contents B (r.tables ++ D)) :
    (l.posts (r.departures r')).Balances r'.pins.length r'.contents B (r'.tables ++ D) := by
  have hmem : ∀ t, t ∈ r'.tables → t ∈ r.tables := fun t ht => hv.tables.subset ht
  have hstay : (r.tables.filter (· ∈ r'.tables)).Perm r'.tables := by
    refine (List.perm_ext_iff_of_nodup (hn.filter _) (hv.tables.nodup hn)).2 fun t => ?_
    simpa using hmem t
  have hperm : r.tables.Perm (r.tables.filter (· ∉ r'.tables) ++ r'.tables) := by
    have hsplit := List.filter_append_perm (fun t => decide (t ∈ r'.tables)) r.tables
    simp only [← decide_not] at hsplit
    exact (hsplit.symm.trans List.perm_append_comm).trans (hstay.append_left _)
  have hlt : ∀ t ∈ r.tables.filter (· ∉ r'.tables), t.serial < r.pins.length := fun t ht => by
    obtain ⟨m, hm⟩ := Resources.mem_tables_iff.1 (List.mem_filter.1 ht).1
    exact (hactive m t hm).1
  have hleft := (h.perm (.refl B)
    ((hperm.append_right D).trans (.of_eq (List.append_assoc _ _ _)))).leaves r.isFree hlt
  have hcontents : (fun t => if t ∈ r.tables.filter (· ∉ r'.tables) ∧ r.isFree t = true then []
      else r.contents t) = r'.contents := by
    funext t
    split
    · rename_i hgone
      obtain ⟨hgone, hfree⟩ := hgone
      simp only [List.mem_filter, decide_eq_true_eq] at hgone
      obtain ⟨m, hm⟩ := Resources.mem_tables_iff.1 hgone.1
      refine (hv.emptied m t hm ?_ hfree).symm
      cases hm' : r'.isActive m t with
      | false => rfl
      | true => exact absurd (Resources.mem_tables_iff.2 ⟨m, hm'⟩) hgone.2
    · rename_i hgone
      refine (hv.kept t fun m hm hfree => ?_).symm
      simp only [List.mem_filter, decide_eq_true_eq, not_and] at hgone
      by_cases hmem' : t ∈ r'.tables
      · obtain ⟨m', hm'⟩ := Resources.mem_tables_iff.1 hmem'
        rwa [← (hactive m t hm).2 m' (hv.retires.active m' t hm')]
      · exact absurd hfree (hgone ⟨Resources.mem_tables_iff.2 ⟨m, hm⟩, hmem'⟩)
  rw [hv.begun, ← hcontents]
  exact hleft

end Ledger.Balances

end ShardRegistry
