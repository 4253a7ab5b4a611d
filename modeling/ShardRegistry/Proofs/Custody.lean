import ShardRegistry.Proofs.Growth
import ShardRegistry.Proofs.Maps

/-! Custody of pools and engines. Between any two moments, what was made is either in somebody's hands
and open, or closed, each pool by one call. The hands are two lists, so that building puts an item
into a list, closing takes it out, and a change that gives up closes exactly what it holds. -/
namespace ShardRegistry

/-- Whether a pool is closed, and how often that was asked for. -/
def Pool.closing (p : Pool) : Bool × Nat := (p.isClosed, p.closeAttempts)

/-- The pools of a map, one for each backend. -/
def DataSourceMap.held (m : DataSourceMap) : List PoolId := m.values.map (·.pool)

theorem prefix_modify {α : Type} {l₀ l : List α} {i : Nat} {f : α → α} (h : l₀ <+: l)
    (hi : l₀.length ≤ i) : l₀ <+: l.modify i f := by
  rw [List.prefix_iff_getElem?]
  intro j hj
  rw [List.getElem?_modify_ne f l (by omega)]
  exact List.prefix_iff_getElem?.1 h j hj

theorem getElem?_modify_cases {α : Type} {l : List α} {f : α → α} {i j : Nat} {y : α}
    (h : (l.modify i f)[j]? = some y) :
    (i = j ∧ ∃ x, l[j]? = some x ∧ y = f x) ∨ (i ≠ j ∧ l[j]? = some y) := by
  by_cases hij : i = j
  · subst hij
    rw [List.getElem?_modify_eq] at h
    obtain ⟨x, hx, rfl⟩ := Option.map_eq_some_iff.1 h
    exact .inl ⟨rfl, x, hx, rfl⟩
  · rw [List.getElem?_modify_ne f l hij] at h
    exact .inr ⟨hij, h⟩

/-- Of the pools made since `l₀`, those of `ps` were never closed and the others were closed once. -/
structure PoolCustody (l₀ l : List Pool) (ps : List Nat) : Prop where
  kept : l₀ <+: l
  nodup : ps.Nodup
  since : ∀ p ∈ ps, l₀.length ≤ p ∧ p < l.length
  closing : ∀ (p : Nat) (x : Pool), l₀.length ≤ p → l[p]? = some x →
    x.closing = if p ∈ ps then (false, 0) else (true, 1)

namespace PoolCustody
variable {l₀ l l' : List Pool} {p : Nat} {ps qs : List Nat}

theorem start (l : List Pool) : PoolCustody l l [] where
  kept := List.prefix_refl l
  nodup := List.nodup_nil
  since := by simp
  closing p x hp hx := absurd (List.getElem?_eq_some_iff.1 hx).1 (by omega)

theorem perm (h : PoolCustody l₀ l ps) (hp : ps.Perm qs) : PoolCustody l₀ l qs where
  kept := h.kept
  nodup := hp.nodup_iff.1 h.nodup
  since p hq := h.since p (hp.mem_iff.2 hq)
  closing p x hl hx := by simpa only [hp.mem_iff] using h.closing p x hl hx

theorem append (h : PoolCustody l₀ l ps) {x : Pool} (hx : x.closing = (false, 0)) :
    PoolCustody l₀ (l ++ [x]) (l.length :: ps) where
  kept := h.kept.trans (List.prefix_append l [x])
  nodup := List.nodup_cons.2 ⟨fun hm => absurd (h.since _ hm).2 (Nat.lt_irrefl _), h.nodup⟩
  since p hp := by
    have hlen := h.kept.length_le
    simp only [List.length_append, List.length_cons, List.length_nil]
    rcases List.mem_cons.1 hp with rfl | hp
    · omega
    · have := h.since p hp
      omega
  closing p y hl hy := by
    by_cases hp : p = l.length
    · subst hp
      simp only [List.getElem?_concat_length, Option.some.injEq] at hy
      simp [← hy, hx]
    · have hlt : p < l.length := by
        have := (List.getElem?_eq_some_iff.1 hy).1
        simp at this
        omega
      rw [List.getElem?_append_left hlt] at hy
      simpa [hp] using h.closing p y hl hy

theorem close (h : PoolCustody l₀ l (p :: ps)) : PoolCustody l₀ (l.modify p Pool.close) ps where
  kept := prefix_modify h.kept (h.since p (by simp)).1
  nodup := (List.nodup_cons.1 h.nodup).2
  since q hq := by simpa using h.since q (List.mem_cons_of_mem p hq)
  closing q x hl hx := by
    have hnot := (List.nodup_cons.1 h.nodup).1
    by_cases hq : p = q
    · subst hq
      rw [List.getElem?_modify_eq] at hx
      obtain ⟨y, hy, rfl⟩ := Option.map_eq_some_iff.1 hx
      have hc := h.closing p y hl hy
      simp only [List.mem_cons_self, if_true, Pool.closing, Prod.mk.injEq] at hc
      simp [Pool.closing, Pool.close, hnot, hc.2]
    · rw [List.getElem?_modify_ne _ l hq] at hx
      simpa [Ne.symm hq] using h.closing q x hl hx

/-- Custody since the very beginning does not depend on what else happens to the pools. -/
theorem congr (h : PoolCustody [] l ps) (hl : l'.map Pool.closing = l.map Pool.closing) :
    PoolCustody [] l' ps where
  kept := List.nil_prefix
  nodup := h.nodup
  since p hp := by
    have hlen := congrArg List.length hl
    simp only [List.length_map] at hlen
    exact ⟨Nat.zero_le _, hlen ▸ (h.since p hp).2⟩
  closing p x _ hx := by
    have hmap : (l.map Pool.closing)[p]? = some x.closing := by simp [← hl, hx]
    rw [List.getElem?_map] at hmap
    obtain ⟨y, hy, hyx⟩ := Option.map_eq_some_iff.1 hmap
    exact hyx ▸ h.closing p y (Nat.zero_le _) hy

end PoolCustody

/-- Of the engines started since `r₀`, exactly those of `es` are open. Each has two managers of its
own, which are open as long as it is. -/
structure EngineCustody (r₀ r : Resources) (es : List Nat) : Prop where
  engines_kept : r₀.engines <+: r.engines
  managers_kept : r₀.managers <+: r.managers
  pins_kept : r₀.pins <+: r.pins
  nodup : es.Nodup
  since : ∀ e ∈ es, r₀.engines.length ≤ e ∧ e < r.engines.length
  closed : ∀ (e : Nat) (x : Engine), r₀.engines.length ≤ e → r.engines[e]? = some x →
    (x.isClosed = true ↔ e ∉ es)
  count : r.managers.length + 2 * r₀.engines.length = r₀.managers.length + 2 * r.engines.length
  paired : ∀ (e : Nat) (x : Engine), r₀.engines.length ≤ e → r.engines[e]? = some x →
    ∃ m : Nat, m + 2 * r₀.engines.length = r₀.managers.length + 2 * e ∧ x = ⟨m, m + 1, x.isClosed⟩
  manager_closed : ∀ (e : Nat) (x : Engine) (m : Nat) (y : Manager),
    r₀.engines.length ≤ e → r.engines[e]? = some x → m = x.xa ∨ m = x.base →
    r.managers[m]? = some y → y.isClosed = x.isClosed
  /-- The transactions of the new managers are new. -/
  active_since : ∀ (m : Nat) (y : Manager) (t : TransactionId), r₀.managers.length ≤ m →
    r.managers[m]? = some y → t ∈ y.active → r₀.pins.length ≤ t.serial

namespace EngineCustody
variable {r₀ r r' : Resources} {e : Nat} {es fs : List Nat}

theorem start (r : Resources) : EngineCustody r r [] where
  engines_kept := List.prefix_refl _
  managers_kept := List.prefix_refl _
  pins_kept := List.prefix_refl _
  nodup := List.nodup_nil
  since := by simp
  closed e x he hx := absurd (List.getElem?_eq_some_iff.1 hx).1 (by omega)
  count := rfl
  paired e x he hx := absurd (List.getElem?_eq_some_iff.1 hx).1 (by omega)
  manager_closed e x _ _ he hx := absurd (List.getElem?_eq_some_iff.1 hx).1 (by omega)
  active_since m y _ hm hy := absurd (List.getElem?_eq_some_iff.1 hy).1 (by omega)

theorem perm (h : EngineCustody r₀ r es) (hp : es.Perm fs) : EngineCustody r₀ r fs :=
  { h with
    nodup := hp.nodup_iff.1 h.nodup
    since := fun e he => h.since e (hp.mem_iff.2 he)
    closed := fun e x hl hx => by simpa only [hp.mem_iff] using h.closed e x hl hx }

/-- Of resources with the same engines, managers and pins. -/
theorem of_eq (h : EngineCustody r₀ r es) (he : r'.engines = r.engines)
    (hm : r'.managers = r.managers) (hp : r'.pins = r.pins) : EngineCustody r₀ r' es := by
  obtain ⟨engines_kept, managers_kept, pins_kept, nodup, since, closed, count, paired,
    manager_closed, active_since⟩ := h
  rw [← he] at engines_kept since closed count paired manager_closed
  rw [← hm] at managers_kept count manager_closed active_since
  rw [← hp] at pins_kept
  exact ⟨engines_kept, managers_kept, pins_kept, nodup, since, closed, count, paired,
    manager_closed, active_since⟩

theorem addEngine (h : EngineCustody r₀ r es) (pools : OrderedMap PoolId) :
    EngineCustody r₀ (r.addEngine pools).1 (r.engines.length :: es) := by
  rw [Resources.addEngine_eq]
  have hlen := h.engines_kept.length_le
  have hmlen := h.managers_kept.length_le
  have hcount := h.count
  -- an engine of the longer list is an old one or the one at its end
  have hcase : ∀ (e : Nat) (x : Engine),
      (r.engines ++ [⟨r.managers.length, r.managers.length + 1, false⟩])[e]? = some x →
      (e < r.engines.length ∧ r.engines[e]? = some x) ∨
        (e = r.engines.length ∧ x = ⟨r.managers.length, r.managers.length + 1, false⟩) := by
    intro e x hx
    rcases Nat.lt_trichotomy e r.engines.length with hlt | rfl | hgt
    · rw [List.getElem?_append_left hlt] at hx
      exact .inl ⟨hlt, hx⟩
    · simp only [List.getElem?_concat_length, Option.some.injEq] at hx
      exact .inr ⟨rfl, hx.symm⟩
    · have := (List.getElem?_eq_some_iff.1 hx).1
      simp at this
      omega
  refine
    { engines_kept := h.engines_kept.trans (List.prefix_append _ _)
      managers_kept := h.managers_kept.trans (List.prefix_append _ _)
      pins_kept := h.pins_kept
      nodup := List.nodup_cons.2 ⟨fun hm => absurd (h.since _ hm).2 (Nat.lt_irrefl _), h.nodup⟩
      since := ?_, closed := ?_, count := ?_, paired := ?_, manager_closed := ?_, active_since := ?_ }
  · intro e he
    simp only [List.length_append, List.length_cons, List.length_nil]
    rcases List.mem_cons.1 he with rfl | he
    · omega
    · have := h.since e he
      omega
  · intro e x hl hx
    rcases hcase e x hx with ⟨hlt, hx⟩ | ⟨rfl, rfl⟩
    · have hne : e ≠ r.engines.length := by omega
      simpa [hne] using h.closed e x hl hx
    · simp
  · simp only [List.length_append, List.length_cons, List.length_nil]
    omega
  · intro e x hl hx
    rcases hcase e x hx with ⟨_, hx⟩ | ⟨rfl, rfl⟩
    · exact h.paired e x hl hx
    · exact ⟨r.managers.length, by omega, rfl⟩
  · intro e x m y hl hx hm hy
    rcases hcase e x hx with ⟨hlt, hx⟩ | ⟨rfl, rfl⟩
    · obtain ⟨k, hk, hp⟩ := h.paired e x hl hx
      have hm' : m = k ∨ m = k + 1 := by
        rw [hp] at hm
        exact hm
      have hmlt : m < r.managers.length := by omega
      rw [List.getElem?_append_left hmlt] at hy
      exact h.manager_closed e x m y hl hx hm hy
    · rcases hm with rfl | rfl
      · simp only [List.getElem?_append_right (Nat.le_refl _), Nat.sub_self,
          List.getElem?_cons_zero, Option.some.injEq] at hy
        simp [← hy]
      · have hsub : r.managers.length + 1 - r.managers.length = 1 := by omega
        simp only [List.getElem?_append_right (Nat.le_add_right _ 1), hsub,
          List.getElem?_cons_succ, List.getElem?_cons_zero, Option.some.injEq] at hy
        simp [← hy]
  · intro m y t hl hy ht
    by_cases hm : m < r.managers.length
    · rw [List.getElem?_append_left hm] at hy
      exact h.active_since m y t hl hy ht
    · rw [List.getElem?_append_right (by omega)] at hy
      have hmem := List.mem_of_getElem? hy
      simp only [List.mem_cons, List.not_mem_nil, or_false] at hmem
      rcases hmem with rfl | rfl <;> simp at ht

/-- Closing an open engine takes it out of the hands that held it. -/
theorem closeEngine (h : EngineCustody r₀ r (e :: es)) :
    EngineCustody r₀ (r.closeEngineQuietly e) es := by
  have hmlen := h.managers_kept.length_le
  have hcount := h.count
  have hnot := (List.nodup_cons.1 h.nodup).1
  have hsince := h.since e (by simp)
  obtain ⟨x, hx⟩ : ∃ x, r.engines[e]? = some x := ⟨_, List.getElem?_eq_getElem hsince.2⟩
  have hopen : x.isClosed = false := by
    simpa using mt (h.closed e x hsince.1 hx).1 (by simp)
  obtain ⟨m, hm, hpair⟩ := h.paired e x hsince.1 hx
  rw [hopen] at hpair
  subst hpair
  obtain ⟨a, ha⟩ : ∃ a, r.managers[m]? = some a :=
    ⟨_, List.getElem?_eq_getElem (by omega : m < r.managers.length)⟩
  obtain ⟨b, hb⟩ : ∃ b, r.managers[m + 1]? = some b :=
    ⟨_, List.getElem?_eq_getElem (by omega : m + 1 < r.managers.length)⟩
  have hca := h.manager_closed e _ m a hsince.1 hx (.inl rfl) ha
  have hcb := h.manager_closed e _ (m + 1) b hsince.1 hx (.inr rfl) hb
  obtain ⟨pins, heq, _, hpins⟩ := Resources.closeEngineQuietly_eq hx rfl
    (Nat.succ_ne_self m).symm ha hca hb hcb
  have hm₀ : r₀.managers.length ≤ m := by omega
  have hm₁ : r₀.managers.length ≤ m + 1 := by omega
  rw [heq]
  refine
    { engines_kept := prefix_modify h.engines_kept hsince.1
      managers_kept := prefix_modify (prefix_modify h.managers_kept hm₀) hm₁
      pins_kept := ?_
      nodup := (List.nodup_cons.1 h.nodup).2
      since := fun d hd => by simpa using h.since d (List.mem_cons_of_mem e hd)
      closed := ?_, count := by simpa using hcount, paired := ?_, manager_closed := ?_
      active_since := ?_ }
  · rw [List.prefix_iff_getElem?]
    intro i hi
    rw [hpins i]
    · exact List.prefix_iff_getElem?.1 h.pins_kept i hi
    · intro t ht
      rcases List.mem_append.1 ht with ht | ht
      · have := h.active_since m a t hm₀ ha ht
        omega
      · have := h.active_since (m + 1) b t hm₁ hb ht
        omega
  · intro d y hl hy
    rcases getElem?_modify_cases hy with ⟨rfl, z, _, rfl⟩ | ⟨hne, hy⟩
    · simpa using hnot
    · simpa [Ne.symm hne] using h.closed d y hl hy
  · intro d y hl hy
    rcases getElem?_modify_cases hy with ⟨rfl, z, hz, rfl⟩ | ⟨_, hy⟩
    · obtain ⟨k, hk, hz'⟩ := h.paired e z hl hz
      exact ⟨k, hk, by rw [hz']⟩
    · exact h.paired d y hl hy
  · intro d y k z hl hy hk hz
    rcases getElem?_modify_cases hy with ⟨rfl, w, hw, rfl⟩ | ⟨hne, hy⟩
    · -- the engine that is closed: both its managers are
      rw [hx] at hw
      cases hw
      rcases hk with rfl | rfl
      · rcases getElem?_modify_cases hz with ⟨_, _, _, rfl⟩ | ⟨_, hz⟩
        · rfl
        · rcases getElem?_modify_cases hz with ⟨_, _, _, rfl⟩ | ⟨hm, _⟩
          · rfl
          · exact absurd rfl hm
      · rcases getElem?_modify_cases hz with ⟨_, _, _, rfl⟩ | ⟨hm, _⟩
        · rfl
        · exact absurd rfl hm
    · -- another engine has other managers
      obtain ⟨j, hj, hy'⟩ := h.paired d y hl hy
      have hkj : k = j ∨ k = j + 1 := by
        rw [hy'] at hk
        exact hk
      rcases getElem?_modify_cases hz with ⟨(hk' : m + 1 = k), _⟩ | ⟨_, hz⟩
      · omega
      · rcases getElem?_modify_cases hz with ⟨(hk' : m = k), _⟩ | ⟨_, hz⟩
        · omega
        · exact h.manager_closed d y k z hl hy hk hz
  · intro k z t hk hz ht
    rcases getElem?_modify_cases hz with ⟨_, _, _, rfl⟩ | ⟨_, hz⟩
    · simp at ht
    · rcases getElem?_modify_cases hz with ⟨_, _, _, rfl⟩ | ⟨_, hz⟩
      · simp at ht
      · exact h.active_since k z t hk hz ht

end EngineCustody

namespace Resources

/-- Custody of pools and engines together; the sets of disabled replicas of `r₀` are kept as well. -/
structure Custody (r₀ r : Resources) (ps es : List Nat) : Prop where
  pools : PoolCustody r₀.pools r.pools ps
  engines : EngineCustody r₀ r es
  disabled_kept : r₀.disabled <+: r.disabled

namespace Custody
variable {r₀ r r' : Resources} {p e : Nat} {ps qs es fs : List Nat}

theorem start (r : Resources) : Custody r r [] [] :=
  ⟨.start _, .start r, List.prefix_refl _⟩

theorem perm (h : Custody r₀ r ps es) (hp : ps.Perm qs) (he : es.Perm fs) : Custody r₀ r qs fs :=
  ⟨h.pools.perm hp, h.engines.perm he, h.disabled_kept⟩

theorem perm_pools (h : Custody r₀ r ps es) (hp : ps.Perm qs) : Custody r₀ r qs es :=
  h.perm hp (List.Perm.refl es)

/-- Of resources with the same pools and engines. -/
theorem of_eq (h : Custody r₀ r ps es) (hp : r'.pools = r.pools) (he : r'.engines = r.engines)
    (hm : r'.managers = r.managers) (hi : r'.pins = r.pins) (hd : r.disabled <+: r'.disabled) :
    Custody r₀ r' ps es :=
  ⟨hp ▸ h.pools, h.engines.of_eq he hm hi, h.disabled_kept.trans hd⟩

theorem stamped {α : Type} (h : Custody r₀ r ps es) (x : α) : Custody r₀ (r.stamped x).1 ps es :=
  h.of_eq rfl rfl rfl rfl (List.prefix_refl _)

theorem closePool (h : Custody r₀ r (p :: ps) es) : Custody r₀ (r.closePool p) ps es :=
  ⟨h.pools.close, h.engines.of_eq rfl rfl rfl, h.disabled_kept⟩

theorem closePools (h : Custody r₀ r (qs ++ ps) es) : Custody r₀ (r.closePools qs) ps es := by
  induction qs generalizing r with
  | nil => exact h
  | cons q qs ih => exact ih h.closePool

theorem closeDataSources {m : DataSourceMap} (h : Custody r₀ r (m.held ++ ps) es) :
    Custody r₀ (r.closeDataSources m) ps es := h.closePools

theorem addEngine (h : Custody r₀ r ps es) (pools : OrderedMap PoolId) :
    Custody r₀ (r.addEngine pools).1 ps (r.engines.length :: es) :=
  ⟨h.pools, h.engines.addEngine pools, h.disabled_kept⟩

theorem closeEngine (h : Custody r₀ r ps (e :: es)) : Custody r₀ (r.closeEngineQuietly e) ps es := by
  have hengines := h.engines.closeEngine
  obtain ⟨_, _, _, heq⟩ := closeEngineQuietly_only r e
  rw [heq] at hengines ⊢
  exact ⟨h.pools, hengines, h.disabled_kept⟩

end Custody

end Resources

end ShardRegistry
