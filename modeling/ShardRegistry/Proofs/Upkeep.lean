import ShardRegistry.Proofs.Parts

/-! Upkeep. What the parts of changes keep up, of what is published and of what they have in hand, holds
in every run: no other part of a task touches either, and a load goes on under the snapshot that it
began under. -/
namespace ShardRegistry

namespace Registry

/-- What is published satisfies `P`, and what a step has in hand satisfies `L`. -/
def Upholds (P : Snapshot → Prop) (L : Registry → Purpose → PendingSchema → Prop)
    (x : Registry × Step) : Prop :=
  P x.1.current ∧ ∀ purpose pending, x.2 = .load purpose pending → L x.1 purpose pending

section
variable {P : Snapshot → Prop} {L : Registry → Purpose → PendingSchema → Prop} {g : Registry}

theorem Upholds.done {outcome : Except Stop Nat} (h : P g.current) :
    Upholds P L (g, .done outcome) := ⟨h, fun _ _ hload => by cases hload⟩

theorem Upholds.load {purpose : Purpose} {pending : PendingSchema} (h : P g.current)
    (hp : L g purpose pending) : Upholds P L (g, .load purpose pending) := by
  refine ⟨h, ?_⟩
  rintro _ _ ⟨⟩
  exact hp

end

/-- What the parts of changes keep up, as long as the factory is as `E` says. -/
structure Upkeep (E : Factory → Prop) (P : Snapshot → Prop)
    (L : Registry → Purpose → PendingSchema → Prop) : Prop where
  congr : ∀ {g g' : Registry} {purpose pending}, g'.current = g.current → L g purpose pending →
    L g' purpose pending
  begin : ∀ {env : Environment} {g : Registry} (change : Change), E env.factory → P g.current →
    Upholds P L (g.begin env change)
  resume : ∀ {env : Environment} {g : Registry} {purpose pending} (answer), E env.factory →
    P g.current → L g purpose pending → Upholds P L (g.resume env purpose pending answer)

end Registry

namespace World
variable {E : Factory → Prop} {P : Snapshot → Prop}
  {L : Registry → Purpose → PendingSchema → Prop}

/-- What is published satisfies `P`, and what changes under way have in hand satisfies `L`. -/
structure Upholds (P : Snapshot → Prop) (L : Registry → Purpose → PendingSchema → Prop)
    (w : World) : Prop where
  current : P w.registry.current
  loads : ∀ {t purpose pending query}, (t, .loading purpose pending query) ∈ w.tasks →
    L w.registry purpose pending

theorem changed_upholds {w : World} {y : Registry × Step} (h : Registry.Upholds P L y) :
    P (w.changed y).1.registry.current ∧ ∀ purpose pending query,
      (w.changed y).2.state? = some (.loading purpose pending query) →
        L (w.changed y).1.registry purpose pending := by
  obtain ⟨g, step⟩ := y
  cases step with
  | done outcome =>
    cases outcome with
    | ok n => exact ⟨h.1, fun _ _ _ hs => by cases hs⟩
    | error stop => cases stop <;> exact ⟨h.1, fun _ _ _ hs => by cases hs⟩
  | load purpose pending =>
    refine ⟨h.1, ?_⟩
    rintro _ _ _ ⟨⟩
    exact h.2 _ _ rfl

namespace Upholds
variable {keys : List (String × String)} {w : World}

theorem start (h : P Registry.empty.current) : Upholds P L {} where
  current := h
  loads hmem := absurd hmem List.not_mem_nil

/-- A part of a task by itself. -/
theorem part (h : w.Upholds P L) (hu : Registry.Upkeep E P L) (he : E w.factory) {t : TaskId}
    {s : TaskState} {x : World × Next} (hmem : (t, s) ∈ w.tasks) (hx : Part (w.without t) s x) :
    P x.1.registry.current ∧ ∀ purpose pending query,
      x.2.state? = some (.loading purpose pending query) → L x.1.registry purpose pending := by
  cases hx with
  | quiet _ hface _ _ _ hstate =>
    have hcurrent : x.1.registry.current = w.registry.current := Registry.current_of_face hface
    refine ⟨hcurrent ▸ h.current, fun purpose pending query hs => ?_⟩
    rcases hstate _ hs with ⟨_, _, _, ⟨⟩⟩ | ⟨_, _, _, _, rfl, ⟨⟩⟩
    exact hu.congr hcurrent (h.loads hmem)
  | opens change => exact changed_upholds (hu.begin change he h.current)
  | answers w' _ hface _ hfactory =>
    have hcurrent : w'.registry.current = w.registry.current := Registry.current_of_face hface
    have he' : E w'.factory := hfactory ▸ he
    exact changed_upholds (hu.resume _ he' (hcurrent ▸ h.current) (hu.congr hcurrent (h.loads hmem)))

/-- Others that move meanwhile leave the snapshot of a load as it is. -/
theorem move (h : w.Upholds P L) (hu : Registry.Upkeep E P L) (hs : Sound keys w) {m : Move}
    (he : ∀ t, m = .goOn t → E w.factory) (hc : (w.move m).crashed = false) :
    (w.move m).Upholds P L := by
  have hsame : (w.move m).registry.current = w.registry.current →
      (∀ x t, w.part? m = some (t, x) → ∀ purpose pending query,
        x.2.state? ≠ some (.loading purpose pending query)) → (w.move m).Upholds P L := by
    intro hcurrent hstate
    refine ⟨hcurrent ▸ h.current, fun hmem => ?_⟩
    rcases hs.mem_move hc hmem with ⟨hold, _⟩ | ⟨x, hx, hload⟩
    · exact hu.congr hcurrent (h.loads hold)
    · exact absurd hload (hstate x _ hx _ _ _)
  cases m with
  | start call =>
    refine hsame ?_ ?_
    · rw [World.move, registry_put]
      exact Registry.current_of_face (face_begin _ _ call)
    · intro x t hx _ _ _
      cases hx
      exact begin_ne_loading _ _ call
  | goOn t =>
    cases hpart : w.part? (.goOn t) with
    | none =>
      refine hsame (Registry.current_of_face (face_move_of_part_none hpart)) ?_
      intro x t' hx
      rw [hpart] at hx
      cases hx
    | some y =>
      obtain ⟨t', x⟩ := y
      have hmove := move_of_part hpart
      obtain ⟨s, hs', hgo, rfl, rfl⟩ := goOn_of_part hpart
      rw [hmove] at hc
      have ha := hs.advances hs' hgo (Sound.not_crashes hc)
      obtain ⟨hcurrent, hload⟩ := h.part hu (he t' rfl) ((lookup_some_iff hs.nodup t' s).1 hs')
        (Part.advance t' s)
      refine ⟨?_, ?_⟩
      · rw [hmove, registry_put]
        exact hcurrent
      · intro t₁ purpose pending query hmem
        rcases hs.mem_move (hmove ▸ hc) hmem with ⟨hold, hne⟩ | ⟨x, hx, hstate⟩
        · have ht : t₁ ≠ t' := by
            rintro rfl
            exact hne _ hpart
          have hsame := (ha.spares.writer t₁ ht (hs.writer_of_loading hold)).2
          rw [hmove]
          exact hu.congr ((congrArg Registry.current (registry_put _ _)).trans hsame) (h.loads hold)
        · rw [hpart] at hx
          cases hx
          rw [hmove, registry_put]
          exact hload _ _ _ hstate
  | cancel _ | beginTransaction _ | surround _ _ _ | tune _ _ _ | collect _ _ =>
    refine hsame (Registry.current_of_face (face_move_of_part_none rfl)) ?_
    intro x t hx
    cases hx

/-- In a run the factory may be replaced, and has to be right whenever a task goes on. -/
theorem play (h : w.Upholds P L) (hu : Registry.Upkeep E P L) (hs : Sound keys w)
    {moves : List Move} (he : ∀ ms t ms', moves = ms ++ .goOn t :: ms' → E (w.play ms).factory)
    (hc : (w.play moves).crashed = false) : (w.play moves).Upholds P L := by
  induction moves generalizing w keys with
  | nil => exact h
  | cons m moves ih =>
    have hw := Sound.not_crashed_of_play hc
    have hplay (ms : List Move) : w.play (m :: ms) = (w.move m).play ms := by
      simp [World.play, hw]
    rw [hplay] at hc ⊢
    have hmove := Sound.not_crashed_of_play hc
    obtain ⟨keys', _, hs'⟩ := hs.move m hmove
    refine ih (h.move hu hs (fun t ht => he [] t moves (by rw [ht]; rfl)) hmove) hs' ?_ hc
    intro ms t ms' heq
    rw [← hplay]
    exact he (m :: ms) t ms' (by rw [heq]; rfl)

end Upholds

end World

end ShardRegistry
