import Mathlib.Data.List.Induction
import ShardRegistry.Proofs.Deeds
import ShardRegistry.Proofs.Exceeding

/-! Runs in which others close pools. Whatever they close, the registry keeps to its own work: it publishes, and
closes, what it would publish and close without them. So of the pools that it owns or has in hand those are
closed that others closed. -/
namespace ShardRegistry

/-! ### Who closed a pool -/

namespace World

theorem enact_snoc (w : World) (ds : List Deed) (d : Deed) :
    w.enact (ds ++ [d]) = if (w.enact ds).crashed then w.enact ds else (w.enact ds).undergo d := by
  rw [enact, List.foldl_append]
  rfl

/-- Somebody else than the registry closed a pool in a run, after it was built. -/
def ClosedByOthers (ds : List Deed) (p : PoolId) : Prop :=
  ∃ ds₁ ds₂, ds = ds₁ ++ .closePool p :: ds₂ ∧ p < (enact {} ds₁).resources.pools.length

theorem closedByOthers_snoc_iff {ds : List Deed} {d : Deed} {p : PoolId} :
    ClosedByOthers (ds ++ [d]) p ↔
      ClosedByOthers ds p ∨ (d = .closePool p ∧ p < (enact {} ds).resources.pools.length) := by
  constructor
  · rintro ⟨ds₁, ds₂, heq, hlt⟩
    rcases List.eq_nil_or_concat ds₂ with rfl | ⟨ds₂, d', rfl⟩
    · obtain ⟨rfl, rfl⟩ := List.append_singleton_inj.1 heq
      exact .inr ⟨rfl, hlt⟩
    · rw [List.concat_eq_append, ← List.cons_append, ← List.append_assoc] at heq
      obtain ⟨rfl, rfl⟩ := List.append_singleton_inj.1 heq
      exact .inl ⟨ds₁, ds₂, rfl, hlt⟩
  · rintro (⟨ds₁, ds₂, rfl, hlt⟩ | ⟨rfl, hlt⟩)
    · exact ⟨ds₁, ds₂ ++ [d], by simp, hlt⟩
    · exact ⟨ds, [], rfl, hlt⟩

end World

/-! ### Stillness -/

namespace Registry
variable {X Y : PoolId → Prop} {g g' g₀ : Registry}

theorem Still.poolClosed_iff (h : g.Still g') (p : PoolId) :
    g'.resources.PoolClosed p ↔ g.resources.PoolClosed p := by
  have hget : (g'.resources.pools[p]?).map Pool.closing = (g.resources.pools[p]?).map Pool.closing := by
    rw [← List.getElem?_map, ← List.getElem?_map, h.closing]
  have hflag (r : Resources) : r.PoolClosed p ↔ ∃ n, (r.pools[p]?).map Pool.closing = some (true, n) := by
    simp [Resources.PoolClosed, Pool.closing, Option.map_eq_some_iff]
  rw [hflag, hflag, hget]

theorem Exceeds.still (h : Exceeds X g g₀) (hs : g.Still g') : Exceeds X g' g₀ where
  face := hs.face.trans h.face
  closed p := (hs.poolClosed_iff p).trans (h.closed p)

/-- Somebody else closes a pool. -/
theorem Exceeds.closePool (h : Exceeds X g g₀) (q : PoolId) :
    Exceeds (fun p => X p ∨ (p = q ∧ p < g.resources.pools.length))
      (g.owning (g.resources.closePool q)) g₀ where
  face := (face_owning (Resources.inventory_modifyPool _ q _)).trans h.face
  closed p := by
    rw [resources_owning, Resources.poolClosed_closePool, h.closed, or_right_comm]

/-- Somebody else closes an engine. -/
theorem Exceeds.closeEngine (h : Exceeds X g g₀) (e : EngineId) :
    Exceeds X (g.owning (g.resources.closeEngineQuietly e)) g₀ where
  face := (face_owning (Resources.inventory_closeEngineQuietly _ e)).trans h.face
  closed p := by
    rw [resources_owning, Resources.poolClosed_of_pools (Resources.pools_closeEngineQuietly _ e), h.closed]

theorem Exceeds.imp (h : Exceeds X g g₀) (hxy : ∀ p, X p ↔ Y p) : Exceeds Y g g₀ where
  face := h.face
  closed p := by rw [h.closed, hxy]

end Registry

namespace World

/-! ### What a registry would have done by itself -/

/-- There is a registry in whose place others have closed the pools of `X` besides: it has custody of what is
published and of what is loaded for. -/
structure Attended (X : PoolId → Prop) (w : World) : Prop where
  regular : w.Regular
  alone : ∃ g ps es, w.registry.Exceeds X g ∧ g.Keeps ps es ∧
    ∀ {t purpose pending}, w.Loads t purpose pending → purpose.Fits g pending ∧
      ∃ qs fs, ps.Perm (purpose.pools pending ++ qs) ∧ es.Perm (purpose.engines ++ fs)

namespace Attended
variable {X : PoolId → Prop} {w w' : World}

theorem start : Attended (fun _ => False) {} where
  regular := .start
  alone := by
    refine ⟨.empty, [], [], ⟨rfl, fun p => (false_or _).symm.to_iff⟩, ⟨?_, nofun, nofun⟩, ?_⟩
    · exact (Resources.Custody.start {}).of_eq rfl rfl rfl rfl (List.prefix_refl _)
    · rintro _ _ _ ⟨_, hmem⟩
      cases hmem

/-- After a part of a change, which the registry would have made by itself as well. -/
theorem afterPart {t : TaskId} {x y : Registry × Step} {ps es qs fs : List Nat} {g : Registry}
    (hr : w'.Regular) (h : World.AfterPart t x w') (hx : Registry.Exceeds X x.1 y.1) (hstep : x.2 = y.2)
    (hp : g.Proceeds ps es y) (hk : g.Keeps (ps ++ qs) (es ++ fs)) (hc : w'.crashed = false) :
    Attended X w' := by
  have hnot : y.2 ≠ .done (.error .crashed) := by
    intro hcrash
    rw [h.crashed (hstep.trans hcrash)] at hc
    cases hc
  obtain ⟨hkeeps, _, hfits⟩ := hp.keeps hk hnot
  refine ⟨hr, y.1, _, _, hx.still h.registry, hkeeps, ?_⟩
  intro t' purpose pending hl
  have hload := hstep.symm.trans (h.loads hl).2
  refine ⟨hfits _ _ hload, qs, fs, ?_, ?_⟩
  · rw [hload]
    exact .refl _
  · rw [hload]
    exact .refl _

/-- A deed by which no pool is closed but by the registry. -/
theorem still (h : Attended X w) (hr : w'.Regular) (hs : w.registry.Still w'.registry)
    (hloads : ∀ {t purpose pending}, w'.Loads t purpose pending → w.Loads t purpose pending) :
    Attended X w' := by
  obtain ⟨g, ps, es, hx, hk, hl⟩ := h.alone
  exact ⟨hr, g, ps, es, hx.still hs, hk, fun h => hl (hloads h)⟩

theorem imp {Y : PoolId → Prop} (h : Attended X w) (hxy : ∀ p, X p ↔ Y p) : Attended Y w := by
  obtain ⟨g, ps, es, hx, hk, hl⟩ := h.alone
  exact ⟨h.regular, g, ps, es, hx.imp hxy, hk, hl⟩

/-- What a deed leaves behind. -/
theorem undergo (h : Attended X w) (d : Deed) (hc : (w.undergo d).crashed = false) :
    Attended (fun p => X p ∨ (d = .closePool p ∧ p < w.resources.pools.length)) (w.undergo d) := by
  have hr := h.regular.undergo d
  have heffect := h.regular.effect d
  generalize w.undergo d = w' at hc hr heffect
  have hother (hd : ∀ p, d ≠ .closePool p) (p : PoolId) :
      X p ↔ X p ∨ (d = .closePool p ∧ p < w.resources.pools.length) := by
    simp [hd p]
  cases heffect with
  | still hs hloads => exact (h.still hr hs hloads).imp (hother fun _ => Deed.noConfusion)
  | begins hs hturn hpart =>
    obtain ⟨g, ps, es, hx, hk, _⟩ := h.alone
    refine imp (afterPart hr hpart (hx.begin rfl _) (Registry.Alike.begin hx.face rfl _).2
      (.begin _ g _) hk hc) (hother fun _ => Deed.noConfusion)
  | resumes g' env answer hl hg hpart =>
    obtain ⟨g, ps, es, hx, hk, hloads⟩ := h.alone
    obtain ⟨hfits, qs, fs, hps, hes⟩ := hloads hl
    have hx' := hx.still hg
    refine imp (afterPart hr hpart (hx'.resume rfl _ _ _) (Registry.Alike.resume hx'.face rfl _ _ _).2
      (.resume env hfits answer) (hk.perm hps hes) hc) (hother fun _ => Deed.noConfusion)
  | closesPool hw hloads =>
    obtain ⟨g, ps, es, hx, hk, hl⟩ := h.alone
    refine ⟨hr, g, ps, es, ?_, hk, fun h => hl (hloads h)⟩
    rw [hw]
    refine (hx.closePool _).imp fun p => ?_
    rw [Deed.closePool.injEq, eq_comm]
    exact Iff.rfl
  | closesEngine hw hloads =>
    obtain ⟨g, ps, es, hx, hk, hl⟩ := h.alone
    refine imp ⟨hr, g, ps, es, ?_, hk, fun h => hl (hloads h)⟩ (hother fun _ => Deed.noConfusion)
    rw [hw]
    exact hx.closeEngine _
  | recounts hw hloads =>
    exact (h.still hr (hw ▸ .refl _) hloads).imp (hother fun _ => Deed.noConfusion)

end Attended

theorem regular_enact (ds : List Deed) : (enact {} ds).Regular := by
  induction ds using List.reverseRecOn with
  | nil => exact .start
  | append_singleton ds d ih =>
    rw [enact_snoc]
    split
    · exact ih
    · exact ih.undergo d

/-- In every run the closed pools are those that the registry would have closed by itself, and those that
others closed. -/
theorem attended {ds : List Deed} (hc : (enact {} ds).crashed = false) :
    Attended (ClosedByOthers ds) (enact {} ds) := by
  induction ds using List.reverseRecOn with
  | nil =>
    refine Attended.start.imp fun p => iff_of_false id ?_
    rintro ⟨ds₁, ds₂, heq, _⟩
    simp at heq
  | append_singleton ds d ih =>
    rw [enact_snoc] at hc ⊢
    split at hc
    · rename_i hcrashed
      rw [hcrashed] at hc
      cases hc
    · rename_i hok
      have hok : (enact {} ds).crashed = false := by simpa using hok
      simp only [hok]
      exact ((ih hok).undergo d hc).imp fun p => closedByOthers_snoc_iff.symm

end World

end ShardRegistry
