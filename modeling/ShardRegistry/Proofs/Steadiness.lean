import ShardRegistry.Proofs.Custody
import ShardRegistry.Registry.Acquisition

/-! Acquisitions and transactions leave custody alone: they count requests, take connections and move
pins, but open and close nothing. An acquisition keeps its source, and asks no pools but those of its
source. -/
namespace ShardRegistry

/-- What of a manager only its closing changes. -/
def Manager.settled (m : Manager) : TransactionKind × OrderedMap PoolId × Bool :=
  (m.kind, m.pools, m.isClosed)

theorem map_modify_eq {α β : Type} {f : α → α} {h : α → β} (hf : ∀ x, h (f x) = h x) (l : List α)
    (i : Nat) : (l.modify i f).map h = l.map h := by
  induction l generalizing i with
  | nil => simp
  | cons x l ih => cases i <;> simp [hf, ih]

theorem evolves_of_map {α β : Type} {R : α → α → Prop} {f : α → β} {l l' : List α}
    (h : l'.map f = l.map f) (hR : ∀ x y, f y = f x → R x y) : Evolves R l l' := by
  intro i x hx
  have hmap : (l'.map f)[i]? = some (f x) := by simp [h, hx]
  rw [List.getElem?_map] at hmap
  obtain ⟨y, hy, hyx⟩ := Option.map_eq_some_iff.1 hmap
  exact ⟨y, hy, hR x y hyx⟩

namespace Resources

structure Steady (r r' : Resources) : Prop where
  pools : r'.pools.map Pool.closing = r.pools.map Pool.closing
  engines : r'.engines = r.engines
  managers : r'.managers.map Manager.settled = r.managers.map Manager.settled
  locks : r'.locks = r.locks

namespace Steady
variable {r r' r'' : Resources} {ps es : List Nat}

theorem refl (r : Resources) : r.Steady r := ⟨rfl, rfl, rfl, rfl⟩

theorem trans (h : r.Steady r') (h' : r'.Steady r'') : r.Steady r'' :=
  ⟨h'.pools.trans h.pools, h'.engines.trans h.engines, h'.managers.trans h.managers,
    h'.locks.trans h.locks⟩

theorem grows (h : r.Steady r') : r.Grows r' where
  pools := evolves_of_map h.pools fun x y hxy hx => by
    rw [Pool.closing, Pool.closing, Prod.mk.injEq] at hxy
    rw [hxy.1]
    exact hx
  engines := h.engines ▸ .refl Engine.Ages.refl _
  managers := evolves_of_map h.managers fun x y hxy => by
    simp only [Manager.settled, Prod.mk.injEq] at hxy
    obtain ⟨hkind, hpools, hclosed⟩ := hxy
    exact ⟨⟨hkind, hpools⟩, fun hx => hclosed.trans hx⟩
  locks := h.locks

theorem custody (h : r.Steady r') (hc : Custody {} r ps es) : Custody {} r' ps es where
  pools := hc.pools.congr h.pools
  engines := by
    have hlen := congrArg List.length h.managers
    simp only [List.length_map] at hlen
    have he := h.engines
    refine
      { engines_kept := List.nil_prefix, managers_kept := List.nil_prefix
        pins_kept := List.nil_prefix, nodup := hc.engines.nodup
        since := fun e hm => he ▸ hc.engines.since e hm
        closed := fun e x hl hx => hc.engines.closed e x hl (he ▸ hx)
        count := by rw [he, hlen]; exact hc.engines.count
        paired := fun e x hl hx => hc.engines.paired e x hl (he ▸ hx)
        manager_closed := ?_, active_since := fun _ _ _ _ _ _ => Nat.zero_le _ }
    intro e x m y hl hx hm hy
    have hmap : (r.managers.map Manager.settled)[m]? = some y.settled := by simp [← h.managers, hy]
    rw [List.getElem?_map] at hmap
    obtain ⟨z, hz, hzy⟩ := Option.map_eq_some_iff.1 hmap
    simp only [Manager.settled, Prod.mk.injEq] at hzy
    exact hzy.2.2 ▸ hc.engines.manager_closed e x m z hl (he ▸ hx) hm hz
  disabled_kept := List.nil_prefix

theorem modifyPool (r : Resources) (p : PoolId) {f : Pool → Pool}
    (hf : ∀ x, Pool.closing (f x) = Pool.closing x) : r.Steady (r.modifyPool p f) :=
  ⟨map_modify_eq hf r.pools p, rfl, rfl, rfl⟩

theorem modifyManager (r : Resources) (m : ManagerId) {f : Manager → Manager}
    (hf : ∀ x, Manager.settled (f x) = Manager.settled x) : r.Steady (r.modifyManager m f) :=
  ⟨rfl, rfl, map_modify_eq hf r.managers m, rfl⟩

theorem modifyPins (r : Resources) (t : TransactionId) (f : Pins → Pins) :
    r.Steady (r.modifyPins t f) := ⟨rfl, rfl, rfl, rfl⟩

theorem wake (r : Resources) (ts : List TaskId) : r.Steady (r.wake ts) := ⟨rfl, rfl, rfl, rfl⟩

theorem releasePins (r : Resources) (t : TransactionId) : r.Steady (r.releasePins t) := by
  simp only [Resources.releasePins]
  split
  · exact (modifyPins r t _).trans (wake _ _)
  · exact refl r

theorem dropTransaction {m : ManagerId} {t : TransactionId}
    (h : r.dropTransaction m t = .ok r') : r.Steady r' := by
  simp only [Resources.dropTransaction] at h
  split at h
  · cases h
  · split at h <;> cases h
    exact modifyManager r m fun _ => rfl

theorem beginTransaction (r : Resources) (m : ManagerId) :
    r.Steady (r.beginTransaction m).1 := by
  simp only [Resources.beginTransaction]
  split
  · exact refl r
  · split
    · exact refl r
    · have h : r.Steady { r with pins := r.pins ++ [Pins.mk [] {}] } := ⟨rfl, rfl, rfl, rfl⟩
      exact h.trans (modifyManager _ m fun _ => rfl)

theorem enterPool (r : Resources) (task : TaskId) (p : PoolId) :
    r.Steady (r.enterPool task p).1 := by
  simp only [Resources.enterPool]
  split
  · exact refl r
  · rename_i pool hp
    -- the pool is written anew, from what stood there
    have hwrite : ∀ x : Pool, x.closing = pool.closing → r.Steady (r.modifyPool p fun _ => x) := by
      intro x hx
      refine ⟨?_, rfl, rfl, rfl⟩
      refine List.ext_getElem? fun i => ?_
      simp only [Resources.modifyPool, List.getElem?_map, List.getElem?_modify]
      by_cases hi : p = i
      · subst hi
        simp [hp, hx]
      · simp [hi]
    split <;> exact hwrite _ rfl

theorem leavePool (r : Resources) (server : Option Server) (p : PoolId) (attempt : Nat) :
    r.Steady (r.leavePool server p attempt).1 := by
  simp only [Resources.leavePool]
  split
  · exact refl r
  · split <;> exact modifyPool r p fun _ => rfl

theorem quitPool (r : Resources) (task : TaskId) (p : PoolId) : r.Steady (r.quitPool task p) :=
  modifyPool r p fun _ => rfl

end Steady

end Resources

namespace Acquisition

/-- The pools that connections of an acquisition come from. -/
def Draws (a : Acquisition) (r : Resources) (p : PoolId) : Prop :=
  match a.source with
  | .pool p' => p = p'
  | .transaction m _ otherwise =>
    otherwise = some p ∨ ∃ x, r.managers[m]? = some x ∧ x.pools.find? a.backend = some p

/-- Where an acquisition stands after a part of it: it goes on with its own source. -/
def Continues (a : Acquisition) (r : Resources) : Progress → Prop
  | .waits stage a' | .passes stage a' =>
    a'.source = a.source ∧ a'.backend = a.backend ∧
      ∀ p attempt pins, stage = .gate p attempt pins → a.Draws r p
  | .done _ => True

variable {a a' : Acquisition} {r r' : Resources}

theorem Draws.of_steady {p : PoolId} (h : r.Steady r') (hd : a.Draws r' p) : a.Draws r p := by
  simp only [Draws] at hd ⊢
  split at hd
  · exact hd
  · rcases hd with hd | ⟨x, hx, hp⟩
    · exact .inl hd
    · rename_i m _ _ _
      have hmap : (r.managers.map Manager.settled)[m]? = some x.settled := by simp [← h.managers, hx]
      rw [List.getElem?_map] at hmap
      obtain ⟨y, hy, hyx⟩ := Option.map_eq_some_iff.1 hmap
      simp only [Manager.settled, Prod.mk.injEq] at hyx
      exact .inr ⟨y, hy, by rw [hyx.2.1]; exact hp⟩

theorem Continues.of_steady {x : Progress} (h : r.Steady r') (hs : a'.source = a.source)
    (hb : a'.backend = a.backend) (hc : a'.Continues r' x) : a.Continues r x := by
  have hdraws : ∀ p, a'.Draws r' p → a.Draws r p := by
    intro p hp
    refine Draws.of_steady h ?_
    simpa only [Draws, hs, hb] using hp
  cases x with
  | waits stage a₂ | passes stage a₂ =>
    obtain ⟨hs', hb', hp⟩ := hc
    exact ⟨hs'.trans hs, hb'.trans hb, fun p n pins he => hdraws p (hp p n pins he)⟩
  | done _ => trivial

theorem askPool_steady (a : Acquisition) (r : Resources) (task : TaskId) {p : PoolId}
    (pins : Option TransactionId) (hp : a.Draws r p) :
    r.Steady (a.askPool r task p pins).1 ∧ a.Continues r (a.askPool r task p pins).2 := by
  have hsteady := Resources.Steady.enterPool r task p
  simp only [askPool]
  split <;> rename_i heq <;> rw [heq] at hsteady <;>
    exact ⟨hsteady, rfl, rfl, fun _ _ _ he => by cases he; exact hp⟩

theorem ask_steady (a : Acquisition) (r : Resources) (task : TaskId) :
    r.Steady (a.ask r task).1 ∧ a.Continues r (a.ask r task).2 := by
  simp only [ask]
  split
  · exact ⟨.refl r, trivial⟩
  · split
    · rename_i p hs
      exact askPool_steady a r task none (by simp [Draws, hs])
    · rename_i m t otherwise hs
      split
      · refine ⟨.modifyPins r t _, ?_⟩
        split <;> exact ⟨rfl, rfl, nofun⟩
      · split
        · exact askPool_steady a r task none (by simp [Draws, hs])
        · exact ⟨.refl r, trivial⟩
        · exact ⟨.refl r, trivial⟩

theorem start_steady (a : Acquisition) (r : Resources) (task : TaskId) :
    r.Steady (a.start r task).1 ∧ a.Continues r (a.start r task).2 := by
  simp only [start]
  split
  · exact ⟨.refl r, trivial⟩
  · exact ask_steady a r task

/-- A connection more, after work that was steady. -/
theorem obtain_steady (a : Acquisition) (task : TaskId) (c : Connection) (h : r.Steady r') :
    r.Steady (a.obtain r' task c).1 ∧ a.Continues r (a.obtain r' task c).2 := by
  have hask := ask_steady { a with acquired := a.acquired ++ [c] } r' task
  exact ⟨h.trans hask.1, Continues.of_steady h rfl rfl hask.2⟩

theorem resume_steady (a : Acquisition) (r : Resources) (server : Option Server) (task : TaskId)
    (stage : Stage) :
    r.Steady (a.resume r server task stage).1 ∧
      a.Continues r (a.resume r server task stage).2 := by
  cases stage with
  | pins t =>
    simp only [resume, afterPins]
    split
    · exact obtain_steady a task _ (.releasePins r t)
    · split
      · exact ⟨.releasePins r t, trivial⟩
      · rename_i p hp
        refine askPool_steady a r task (some t) ?_
        simp only [Draws]
        split at hp
        · rename_i m _ _ hs
          rw [hs]
          exact .inr (Option.bind_eq_some_iff.1 hp)
        · cases hp
  | gate p attempt pins =>
    have hsteady := Resources.Steady.leavePool r server p attempt
    simp only [resume, afterGate]
    split <;> rename_i heq <;> rw [heq] at hsteady
    · refine ⟨hsteady.trans ?_, trivial⟩
      cases pins with
      | none => exact .refl _
      | some t => exact .releasePins _ t
    · refine obtain_steady a task _ (hsteady.trans ?_)
      cases pins with
      | none => exact .refl _
      | some t => exact (Resources.Steady.modifyPins _ t _).trans (.releasePins _ t)

end Acquisition

end ShardRegistry
