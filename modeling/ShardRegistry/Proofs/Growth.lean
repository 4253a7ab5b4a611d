import ShardRegistry.DataSource.Reconciliation
import ShardRegistry.Proofs.Effects

/-! Growth of resources. Whatever is done to them, an object keeps its number, its wiring and, once it
is closed, stays closed; no operation of this module's functions touches a lock. -/
namespace ShardRegistry

/-- Every item of the first list stands in the second one at its place, changed along `R`. -/
def Evolves {α : Type} (R : α → α → Prop) (l l' : List α) : Prop :=
  ∀ (i : Nat) (x : α), l[i]? = some x → ∃ y, l'[i]? = some y ∧ R x y

namespace Evolves
variable {α : Type} {R : α → α → Prop} {l l' l'' : List α}

theorem refl (hR : ∀ x, R x x) (l : List α) : Evolves R l l :=
  fun _ x hx => ⟨x, hx, hR x⟩

theorem trans (hR : ∀ x y z, R x y → R y z → R x z) (h : Evolves R l l')
    (h' : Evolves R l' l'') : Evolves R l l'' := by
  intro i x hx
  obtain ⟨y, hy, hxy⟩ := h i x hx
  obtain ⟨z, hz, hyz⟩ := h' i y hy
  exact ⟨z, hz, hR x y z hxy hyz⟩

theorem length_le (h : Evolves R l l') : l.length ≤ l'.length := by
  refine Nat.le_of_not_lt fun hlt => ?_
  obtain ⟨y, hy, _⟩ := h l'.length _ (List.getElem?_eq_getElem hlt)
  simp at hy

theorem append (hR : ∀ x, R x x) (l t : List α) : Evolves R l (l ++ t) := by
  intro i x hx
  have hi : i < l.length := (List.getElem?_eq_some_iff.1 hx).1
  exact ⟨x, by rw [List.getElem?_append_left hi, hx], hR x⟩

theorem modify (hR : ∀ x, R x x) (l : List α) (k : Nat) {f : α → α} (hf : ∀ x, R x (f x)) :
    Evolves R l (l.modify k f) := by
  intro i x hx
  by_cases hk : k = i
  · subst hk
    exact ⟨f x, by rw [List.getElem?_modify_eq, hx]; rfl, hf x⟩
  · exact ⟨x, by rw [List.getElem?_modify_ne f l hk, hx], hR x⟩

end Evolves

/-- How a pool may change: it never opens again. -/
def Pool.Ages (x y : Pool) : Prop := x.isClosed = true → y.isClosed = true

/-- How an engine may change: it keeps its managers and never opens again. -/
def Engine.Ages (x y : Engine) : Prop :=
  (y.xa = x.xa ∧ y.base = x.base) ∧ (x.isClosed = true → y.isClosed = true)

/-- How a manager may change: it keeps its kind and its pools and never opens again. -/
def Manager.Ages (x y : Manager) : Prop :=
  (y.kind = x.kind ∧ y.pools = x.pools) ∧ (x.isClosed = true → y.isClosed = true)

theorem Pool.Ages.refl (x : Pool) : x.Ages x := id

theorem Pool.Ages.trans (x y z : Pool) (h : x.Ages y) (h' : y.Ages z) : x.Ages z := h' ∘ h

theorem Engine.Ages.refl (x : Engine) : x.Ages x := ⟨⟨rfl, rfl⟩, id⟩

theorem Engine.Ages.trans (x y z : Engine) (h : x.Ages y) (h' : y.Ages z) : x.Ages z :=
  ⟨⟨h'.1.1.trans h.1.1, h'.1.2.trans h.1.2⟩, h'.2 ∘ h.2⟩

theorem Engine.Ages.manager? {x y : Engine} (h : x.Ages y) (kind : TransactionKind) :
    y.manager? kind = x.manager? kind := by
  cases kind <;> simp [Engine.manager?, h.1.1, h.1.2]

theorem Manager.Ages.refl (x : Manager) : x.Ages x := ⟨⟨rfl, rfl⟩, id⟩

theorem Manager.Ages.trans (x y z : Manager) (h : x.Ages y) (h' : y.Ages z) : x.Ages z :=
  ⟨⟨h'.1.1.trans h.1.1, h'.1.2.trans h.1.2⟩, h'.2 ∘ h.2⟩

namespace Resources

structure Grows (r r' : Resources) : Prop where
  pools : Evolves Pool.Ages r.pools r'.pools
  engines : Evolves Engine.Ages r.engines r'.engines
  managers : Evolves Manager.Ages r.managers r'.managers
  locks : r'.locks = r.locks

namespace Grows
variable {r r' r'' : Resources}

theorem refl (r : Resources) : r.Grows r :=
  ⟨.refl Pool.Ages.refl _, .refl Engine.Ages.refl _, .refl Manager.Ages.refl _, rfl⟩

theorem trans (h : r.Grows r') (h' : r'.Grows r'') : r.Grows r'' :=
  ⟨h.pools.trans Pool.Ages.trans h'.pools, h.engines.trans Engine.Ages.trans h'.engines,
    h.managers.trans Manager.Ages.trans h'.managers, h'.locks.trans h.locks⟩

/-- Of resources that differ in nothing that is numbered. -/
theorem of_eq (hp : r'.pools = r.pools) (he : r'.engines = r.engines)
    (hm : r'.managers = r.managers) (hl : r'.locks = r.locks) : r.Grows r' :=
  ⟨hp ▸ .refl Pool.Ages.refl _, he ▸ .refl Engine.Ages.refl _, hm ▸ .refl Manager.Ages.refl _, hl⟩

theorem modifyPool (r : Resources) (p : PoolId) {f : Pool → Pool} (hf : ∀ x : Pool, x.Ages (f x)) :
    r.Grows (r.modifyPool p f) :=
  { refl r with pools := .modify Pool.Ages.refl _ _ hf }

theorem modifyManager (r : Resources) (m : ManagerId) {f : Manager → Manager}
    (hf : ∀ x, Manager.Ages x (f x)) : r.Grows (r.modifyManager m f) :=
  { refl r with managers := .modify Manager.Ages.refl _ _ hf }

theorem foldl {α : Type} {f : Resources → α → Resources} (hf : ∀ r x, Grows r (f r x))
    (xs : List α) (r : Resources) : r.Grows (xs.foldl f r) := by
  induction xs generalizing r with
  | nil => exact refl r
  | cons x xs ih => exact (hf r x).trans (ih (f r x))

/-! ### Pools -/

theorem addPool (r : Resources) (f : Factory) (name : String) (p : ConnectionParameters) :
    r.Grows (r.addPool f name p).1 := by
  simp only [Resources.addPool]
  split
  · exact of_eq rfl rfl rfl rfl
  · exact { refl r with pools := .append Pool.Ages.refl _ _ }

theorem closePool (r : Resources) (p : PoolId) : r.Grows (r.closePool p) :=
  modifyPool r p (f := Pool.close) fun _ _ => rfl

theorem closePools (r : Resources) (ps : List PoolId) : r.Grows (r.closePools ps) :=
  foldl closePool ps r

theorem closeDataSources (r : Resources) (m : DataSourceMap) : r.Grows (r.closeDataSources m) :=
  closePools r _

theorem buildDataSource (r : Resources) (f : Factory) (name : String)
    (p : ConnectionParameters) : r.Grows (r.buildDataSource f name p).1 := by
  have h := addPool r f name p
  simp only [Resources.buildDataSource]
  split
  · exact refl r
  · split <;> rename_i heq <;> simpa [heq] using h

theorem buildAll (f : Factory) (es : List (String × ConnectionParameters)) (r : Resources)
    (built : DataSourceMap) : r.Grows (r.buildAll f built es).1 := by
  induction es generalizing r built with
  | nil => exact refl r
  | cons e es ih =>
    have h := buildDataSource r f e.1 e.2
    simp only [Resources.buildAll]
    split <;> rename_i heq <;> simp only [heq] at h
    · exact h.trans (closePools _ _)
    · exact h.trans (ih _ _)

theorem reconcile (f : Factory) (r : Resources) (current : DataSourceMap) (new : ParameterMap) :
    r.Grows (Reconciliation.compute r f current new).1 := by
  simp only [Reconciliation.compute]
  split
  all_goals
    rename_i heq
    have h := congrArg Prod.fst heq
    simp only at h
    rw [← h]
    exact buildAll f _ r .empty

/-! ### Transactions -/

theorem clearFree (ts : List TransactionId) (r : Resources) : r.Grows (r.clearFree ts).1 := by
  obtain ⟨pins, h, _⟩ := clearFree_fst ts r
  rw [h]
  exact of_eq rfl rfl rfl rfl

theorem addEngine (r : Resources) (pools : OrderedMap PoolId) : r.Grows (r.addEngine pools).1 := by
  rw [addEngine_eq]
  exact { refl r with engines := .append Engine.Ages.refl _ _
                      managers := .append Manager.Ages.refl _ _ }

theorem closeManager (r : Resources) (m : ManagerId) : r.Grows (r.closeManager m).1 := by
  simp only [Resources.closeManager]
  split
  · exact refl r
  · split
    · exact refl r
    · refine (modifyManager r m (f := fun x => { x with isClosed := true, active := [] }) ?_).trans
        (clearFree _ _)
      exact fun _ => ⟨⟨rfl, rfl⟩, fun _ => rfl⟩

theorem closeEngineQuietly (r : Resources) (e : EngineId) :
    r.Grows (r.closeEngineQuietly e) := by
  simp only [Resources.closeEngineQuietly, Resources.closeEngine]
  split
  · exact refl r
  · split
    · exact refl r
    · have h : r.Grows { r with engines := r.engines.modify e fun x => { x with isClosed := true } } :=
        { refl r with
          engines := .modify Engine.Ages.refl _ _ fun _ => ⟨⟨rfl, rfl⟩, fun _ => rfl⟩ }
      exact (h.trans (closeManager _ _)).trans (closeManager _ _)

theorem closeContext (r : Resources) (c : SchemaContext) : r.Grows (c.close r) :=
  (closeDataSources r _).trans (closeEngineQuietly _ _)

/-! ### Schemas -/

theorem stamped {α : Type} (r : Resources) (x : α) : r.Grows (r.stamped x).1 :=
  of_eq rfl rfl rfl rfl

theorem finishSchema {r r' : Resources} {p : PendingSchema} {loaded : SortedMap Tables}
    {result : Except Stop (Stamped SchemaContext)} (h : r.finishSchema p loaded = (r', result)) :
    r.Grows r' := by
  rcases finishSchema_cases h with ⟨_, _, rfl⟩ | ⟨_, _, _, _, rfl⟩ | ⟨_, _, _, _, _, _, _, rfl⟩
  · exact refl _
  · exact of_eq rfl rfl rfl rfl
  · exact (addEngine _ _).trans (of_eq rfl rfl rfl rfl)

end Grows

/-! ### What is closed -/

def PoolClosed (r : Resources) (p : Nat) : Prop := ∃ x, r.pools[p]? = some x ∧ x.isClosed = true

def EngineClosed (r : Resources) (e : Nat) : Prop :=
  ∃ x, r.engines[e]? = some x ∧ x.isClosed = true

variable {r r' : Resources} {p e : Nat} {ps : List Nat}

theorem PoolClosed.grows (h : r.PoolClosed p) (hg : r.Grows r') : r'.PoolClosed p := by
  obtain ⟨x, hx, hc⟩ := h
  obtain ⟨y, hy, hages⟩ := hg.pools p x hx
  exact ⟨y, hy, hages hc⟩

theorem EngineClosed.grows (h : r.EngineClosed e) (hg : r.Grows r') : r'.EngineClosed e := by
  obtain ⟨x, hx, hc⟩ := h
  obtain ⟨y, hy, hages⟩ := hg.engines e x hx
  exact ⟨y, hy, hages.2 hc⟩

theorem poolClosed_closePools (hp : p ∈ ps) (hlt : p < r.pools.length) :
    (r.closePools ps).PoolClosed p := by
  induction ps generalizing r with
  | nil => simp at hp
  | cons q qs ih =>
    rcases List.mem_cons.1 hp with rfl | hp
    · have hclosed : (r.closePool p).PoolClosed p :=
        ⟨r.pools[p].close, by simp [closePool, modifyPool, List.getElem?_eq_getElem hlt], rfl⟩
      exact hclosed.grows (.closePools _ qs)
    · exact ih hp (Nat.lt_of_lt_of_le hlt (Grows.closePool r q).pools.length_le)

theorem engineClosed_closeEngineQuietly (hlt : e < r.engines.length) :
    (r.closeEngineQuietly e).EngineClosed e := by
  have hx := List.getElem?_eq_getElem hlt
  by_cases hc : r.engines[e].isClosed = true
  · exact EngineClosed.grows ⟨_, hx, hc⟩ (.closeEngineQuietly r e)
  · simp only [closeEngineQuietly, closeEngine, hx, hc, Bool.false_eq_true, if_false]
    have hclosed : Resources.EngineClosed
        { r with engines := r.engines.modify e fun x => { x with isClosed := true } } e :=
      ⟨{ r.engines[e] with isClosed := true }, by simp [hx], rfl⟩
    exact hclosed.grows ((Grows.closeManager _ _).trans (.closeManager _ _))

theorem closed_closeContext {c : SchemaContext} (hp : p ∈ c.dataSources.values.map (·.pool))
    (hlt : p < r.pools.length) : (c.close r).PoolClosed p :=
  (poolClosed_closePools hp hlt).grows (.closeEngineQuietly _ _)

theorem engineClosed_closeContext {c : SchemaContext} (hlt : c.engine < r.engines.length) :
    (c.close r).EngineClosed c.engine :=
  engineClosed_closeEngineQuietly
    (Nat.lt_of_lt_of_le hlt (Grows.closeDataSources r _).engines.length_le)

/-- What the closing of one schema closes stays closed while others are closed around it. -/
theorem closed_closeContexts {c : SchemaContext} {cs : List SchemaContext} (hc : c ∈ cs)
    (hlt : ∀ p ∈ c.dataSources.values.map (·.pool), p < r.pools.length)
    (he : c.engine < r.engines.length) :
    (∀ p ∈ c.dataSources.values.map (·.pool),
      (cs.foldl (fun r c => c.close r) r).PoolClosed p) ∧
    (cs.foldl (fun r c => c.close r) r).EngineClosed c.engine := by
  induction cs generalizing r with
  | nil => simp at hc
  | cons d cs ih =>
    have hrest := Grows.foldl Grows.closeContext cs (d.close r)
    rcases List.mem_cons.1 hc with rfl | hc
    · refine ⟨fun p hp => ?_, (engineClosed_closeContext he).grows hrest⟩
      exact (closed_closeContext hp (hlt p hp)).grows hrest
    · have hfirst := Grows.closeContext r d
      refine ih hc (fun p hp => ?_) (Nat.lt_of_lt_of_le he hfirst.engines.length_le)
      exact Nat.lt_of_lt_of_le (hlt p hp) hfirst.pools.length_le

end Resources

end ShardRegistry
