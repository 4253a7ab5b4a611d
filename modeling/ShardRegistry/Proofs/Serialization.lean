import ShardRegistry.Proofs.Turns

/-! Serialization. A run with many changes under way does to the registry what its turns do one after
the other, in the order in which the lock was obtained, and every change ends as it does in its turn. -/
namespace ShardRegistry

/-- A change in its turn: the factory that it began with, and the answers to its loads, each with the
factory that was at hand. -/
structure Turn where
  task : TaskId
  change : Change
  factory : Factory
  answers : List (Factory × Except Error (SortedMap Tables)) := []

namespace Turn

/-- Goes on with an answer, if a load is waited for. -/
def answered (x : Registry × Step) (a : Factory × Except Error (SortedMap Tables)) :
    Registry × Step :=
  match x.2 with
  | .done _ => x
  | .load purpose pending => x.1.resume { factory := a.1 } purpose pending a.2

/-- Makes the change, with nobody else around. -/
def run (u : Turn) (g : Registry) : Registry × Step :=
  u.answers.foldl answered (g.begin { factory := u.factory } u.change)

/-- The registry after some turns. -/
def after (g : Registry) (us : List Turn) : Registry := us.foldl (fun g u => (u.run g).1) g

/-- Turns one after the other, each with the registry that it finds. -/
def serial (g : Registry) (us : List Turn) : List (Turn × Registry) :=
  trail (fun g u => (u.run g).1) (fun g u => [(u, g)]) g us

/-- What a turn publishes, if it does. -/
def publication? (u : Turn) (g : Registry) : Option (TaskId × Stamped Snapshot) :=
  if (u.run g).1.generation = g.generation then none else some (u.task, (u.run g).1.snapshot)

def publications (g : Registry) (us : List Turn) : List (TaskId × Stamped Snapshot) :=
  (serial g us).filterMap fun x => x.1.publication? x.2

variable {g : Registry} {us : List Turn} {u : Turn}

theorem after_snoc : after g (us ++ [u]) = (u.run (after g us)).1 := by
  simp [after]

theorem serial_snoc : serial g (us ++ [u]) = serial g us ++ [(u, after g us)] :=
  trail_append g us [u]

theorem mem_of_mem_serial {x : Turn × Registry} (h : x ∈ serial g us) : x.1 ∈ us := by
  obtain ⟨us₁, u, us₂, rfl, hx⟩ := mem_trail_iff.1 h
  rw [List.mem_singleton.1 hx]
  exact List.mem_append_right us₁ List.mem_cons_self

theorem publications_snoc :
    publications g (us ++ [u]) = publications g us ++ (u.publication? (after g us)).toList := by
  rw [publications, serial_snoc, List.filterMap_append, publications]
  cases h : u.publication? (after g us) <;> simp [h]

theorem run_answer (a : Factory × Except Error (SortedMap Tables)) :
    { u with answers := u.answers ++ [a] }.run g = answered (u.run g) a := by
  simp [run]

/-! ### Turns by themselves -/

theorem concludes_answered {x : Registry × Step} (h : g.Concludes x)
    (a : Factory × Except Error (SortedMap Tables)) : g.Concludes (answered x a) := by
  simp only [answered]
  split
  · exact h
  · rename_i purpose pending hload
    rcases h with ⟨hsame, _⟩ | ⟨_, hdone⟩
    · exact .of_snapshot hsame (.resume _ x.1 purpose pending a.2)
    · rw [hload] at hdone
      cases hdone

/-- A turn publishes the next generation and ends with it, or leaves the snapshot as it is. -/
theorem concludes_run (u : Turn) (g : Registry) : g.Concludes (u.run g) := by
  have hfold (as : List (Factory × Except Error (SortedMap Tables))) {x : Registry × Step}
      (hx : g.Concludes x) : g.Concludes (as.foldl answered x) := by
    induction as generalizing x with
    | nil => exact hx
    | cons a as ih => exact ih (concludes_answered hx a)
  exact hfold u.answers (.begin _ g u.change)

theorem snapshot_of_load {purpose : Purpose} {pending : PendingSchema}
    (h : (u.run g).2 = .load purpose pending) : (u.run g).1.snapshot = g.snapshot := by
  rcases concludes_run u g with ⟨hsame, _⟩ | ⟨_, hdone⟩
  · exact hsame
  · rw [h] at hdone
    cases hdone

/-- A turn under one factory that came to its end is a way in which its change can end. -/
theorem ends_run (hf : ∀ a ∈ u.answers, a.1 = u.factory) {outcome : Except Stop Nat}
    (h : (u.run g).2 = .done outcome) :
    Registry.Ends { factory := u.factory } (g.begin { factory := u.factory } u.change)
      ((u.run g).1, outcome) := by
  have hfold (as : List (Factory × Except Error (SortedMap Tables)))
      (has : ∀ a ∈ as, a.1 = u.factory) {x : Registry × Step}
      (hx : (as.foldl answered x).2 = .done outcome) :
      Registry.Ends { factory := u.factory } x ((as.foldl answered x).1, outcome) := by
    induction as generalizing x with
    | nil =>
      obtain ⟨g', s⟩ := x
      obtain rfl : s = .done outcome := hx
      exact .done g' outcome
    | cons a as ih =>
      obtain ⟨g', s⟩ := x
      have hrest := ih (fun b hb => has b (List.mem_cons_of_mem a hb)) hx
      cases s with
      | done o => exact hrest
      | load purpose pending =>
        obtain ⟨f, answer⟩ := a
        obtain rfl : f = u.factory := has _ List.mem_cons_self
        exact .load answer hrest
  exact hfold u.answers hf h

/-- The generations that turns publish follow each other. -/
theorem generations (g : Registry) (us : List Turn) :
    (publications g us).map (·.2.value.generation) =
        List.range' (g.generation + 1) (publications g us).length ∧
      (after g us).generation = g.generation + (publications g us).length := by
  induction us using List.reverseRecOn with
  | nil => exact ⟨rfl, rfl⟩
  | append_singleton us u ih =>
    obtain ⟨hmap, hafter⟩ := ih
    rw [publications_snoc, after_snoc, publication?]
    rcases concludes_run u (after g us) with ⟨hsame, _⟩ | ⟨hnext, _⟩
    · have hgeneration : (u.run (after g us)).1.generation = (after g us).generation :=
        Registry.generation_of_snapshot hsame
      simp [hgeneration, hmap, hafter]
    · have hne : (u.run (after g us)).1.generation ≠ (after g us).generation := by
        rw [hnext]
        exact Nat.succ_ne_self _
      have hlast : (u.run (after g us)).1.snapshot.value.generation =
          g.generation + 1 + (publications g us).length := by
        have hnext : (u.run (after g us)).1.snapshot.value.generation =
          (after g us).generation + 1 := hnext
        omega
      rw [if_neg hne, hnext, hafter]
      simp [hmap, hlast, List.range'_concat, Nat.add_assoc]

/-- The snapshot is the last one that was published. -/
theorem snapshot_after (g : Registry) (us : List Turn) :
    (after g us).snapshot = ((publications g us).getLast?.map (·.2)).getD g.snapshot := by
  induction us using List.reverseRecOn with
  | nil => rfl
  | append_singleton us u ih =>
    rw [publications_snoc, after_snoc, publication?]
    rcases concludes_run u (after g us) with ⟨hsame, _⟩ | ⟨hnext, _⟩
    · have hgeneration : (u.run (after g us)).1.generation = (after g us).generation :=
        Registry.generation_of_snapshot hsame
      simp [hgeneration, hsame, ih]
    · have hne : (u.run (after g us)).1.generation ≠ (after g us).generation := by
        rw [hnext]
        exact Nat.succ_ne_self _
      simp [hne]

end Turn

/-! ### The turns of a run -/

/-- What a part of a task adds to the turns. -/
inductive Entry where
  | opens (t : TaskId) (change : Change) (factory : Factory)
  /-- An answer to the load of the last turn. -/
  | answers (factory : Factory) (answer : Except Error (SortedMap Tables))

def Entry.note (us : List Turn) : Entry → List Turn
  | .opens t change factory => us ++ [⟨t, change, factory, []⟩]
  | .answers factory answer => match us.getLast? with
    | none => us
    | some u => us.dropLast ++ [{ u with answers := u.answers ++ [(factory, answer)] }]

/-- The change that a call is for, if it is for one: it may be refused before it gets its turn. -/
def Call.change? : Call → Option (Except Error Change)
  | .event e => some (Change.ofEvent e)
  | .close => some (.ok .close)
  | .acquire _ | .pinned _ _ _ | .settle _ _ => none

/-- What comes of a change that is over. -/
def Step.outcome? : Step → Option Outcome
  | .done (.ok n) => some (.generation n)
  | .done (.error (.rejected e)) => some (.failed e)
  | .done (.error .crashed) | .load _ _ => none

/-- What the next part of a task's change finds of the turns that come after `vs`: none, when the change
gets its turn, or the change itself, which waits for a load. -/
inductive Turn.Resumes (g : Registry) (t : TaskId) (vs : List Turn) : List Turn → Prop
  | opens (hnew : t ∉ vs.map (·.task)) : Resumes g t vs vs
  | answers {v : Turn} {purpose : Purpose} {pending : PendingSchema} (htask : v.task = t)
      (hload : (v.run (after g vs)).2 = .load purpose pending) : Resumes g t vs (vs ++ [v])

/-- The last task that got the lock comes after those whose turns were before. -/
theorem sublist_snoc {l gs : List TaskId} {t : TaskId} (h : l.Sublist gs) (ht : t ∉ l)
    (hlast : gs.getLast? = some t) : (l ++ [t]).Sublist gs := by
  obtain ⟨gs', rfl⟩ := List.getLast?_eq_some_iff.1 hlast
  obtain ⟨l₁, l₂, rfl, h₁, h₂⟩ := List.sublist_append_iff.1 h
  rcases List.sublist_singleton.1 h₂ with rfl | rfl
  · simpa using h₁.append_right [t]
  · exact absurd (List.mem_append_right l₁ (List.mem_singleton_self t)) ht

namespace Turn.Resumes
variable {g : Registry} {t : TaskId} {vs us : List Turn} (h : Resumes g t vs us)
include h

theorem subset : vs ⊆ us := by
  cases h with
  | opens _ => exact List.Subset.refl vs
  | answers _ _ => exact List.subset_append_left vs _

/-- So far the change published nothing. -/
theorem snapshot : (after g us).snapshot = (after g vs).snapshot := by
  cases h with
  | opens _ => rfl
  | answers _ hload =>
    rw [after_snoc]
    exact snapshot_of_load hload

theorem publications : Turn.publications g us = Turn.publications g vs := by
  cases h with
  | opens _ => rfl
  | @answers v _ _ _ hload =>
    have hsame : (v.run (after g vs)).1.generation = (after g vs).generation :=
      Registry.generation_of_snapshot (snapshot_of_load hload)
    simp [publications_snoc, publication?, hsame]

/-- It did not end either, so the turns that did are all before it. -/
theorem ended {x : Turn × Registry} {o : Outcome} (hx : x ∈ serial g us)
    (ho : (x.1.run x.2).2.outcome? = some o) : x ∈ serial g vs := by
  cases h with
  | opens _ => exact hx
  | answers _ hload =>
    rw [serial_snoc] at hx
    rcases List.mem_append.1 hx with hx | hx
    · exact hx
    · rw [List.mem_singleton.1 hx, hload] at ho
      cases ho

/-- The task is the last one that got the lock. -/
theorem order {gs : List TaskId} (horder : (us.map (·.task)).Sublist gs)
    (hlast : gs.getLast? = some t) : (vs.map (·.task) ++ [t]).Sublist gs := by
  cases h with
  | opens hnew => exact sublist_snoc horder hnew hlast
  | answers htask _ => simpa [htask] using horder

end Turn.Resumes

namespace World

/-- What a task adds to the turns that goes on from a state. -/
def adds? (w : World) (t : TaskId) : TaskState → Option Entry
  | .turn change => some (.opens t change w.factory)
  | s => (w.answer? s).map (.answers w.factory)

def noted? (w : World) : Move → Option Entry
  | .goOn t => match w.tasks.lookup t with
    | none => none
    | some s => if w.mayGoOn t s then (w.without t).adds? t s else none
  | _ => none

/-- The changes that had their turns, in the order of these. -/
def turns (moves : List Move) : List Turn := (record noted? {} moves).foldl Entry.note []

/-- The task that publishes in a move, and what it publishes. -/
def publication? (w : World) (m : Move) : Option (TaskId × Stamped Snapshot) :=
  (w.part? m).bind fun x =>
    if x.2.1.registry.generation = w.registry.generation then none
    else some (x.1, x.2.1.registry.snapshot)

def publications (moves : List Move) : List (TaskId × Stamped Snapshot) :=
  record publication? {} moves

/-! ### Changes -/

section Changed
variable (w : World) (y : Registry × Step)

theorem face_changed : (w.changed y).1.registry.face = y.1.face := by
  obtain ⟨g, s⟩ := y
  cases s with
  | load purpose pending => rfl
  | done outcome =>
    cases outcome with
    | ok n => rfl
    | error stop => cases stop <;> rfl

theorem outcome_changed : (w.changed y).2.outcome? = y.2.outcome? := by
  obtain ⟨g, s⟩ := y
  cases s with
  | load purpose pending => rfl
  | done outcome =>
    cases outcome with
    | ok n => rfl
    | error stop => cases stop <;> rfl

variable {w y}

theorem state_changed {s : TaskState} (h : (w.changed y).2.state? = some s) :
    ∃ purpose pending, y.2 = .load purpose pending ∧ s = .loading purpose pending none := by
  obtain ⟨g, step⟩ := y
  cases step with
  | load purpose pending => exact ⟨purpose, pending, rfl, (Option.some.inj h).symm⟩
  | done outcome =>
    cases outcome with
    | ok n => cases h
    | error stop => cases stop <;> cases h

end Changed

/-- Where a call for a change stands, and where other calls stand. -/
def Intends (_ : World) (call : Call) : TaskState → Prop
  | .turn change => call.change? = some (.ok change)
  | .loading _ _ _ => True
  | .lock _ _ _ | .acquiring _ _ _ | .settling _ => call.change? = none

theorem intends_begin {w : World} {t : TaskId} {call : Call} {s : TaskState} (w' : World)
    (h : (w.begin t call).2.state? = some s) : w'.Intends call s := by
  have hacquiring {held : Option LockId} {y : Resources × Progress} (hcall : call.change? = none)
      (h : (w.acquired held y).2.state? = some s) : w'.Intends call s := by
    obtain ⟨_, _, rfl⟩ := state_acquired w h
    exact hcall
  cases call with
  | acquire q =>
    simp only [World.begin, beginAcquire] at h
    split at h
    · cases h
    · split at h
      · cases h
      · split at h
        · exact hacquiring rfl h
        · split at h <;> cases h <;> rfl
  | event event =>
    simp only [World.begin, beginEvent] at h
    split at h
    · cases h
    · rename_i change hchange
      simp only [beginChange] at h
      split at h <;> cases h <;> exact congrArg some hchange
  | close =>
    simp only [World.begin, beginChange] at h
    split at h <;> cases h <;> rfl
  | pinned m transaction backend => exact hacquiring rfl h
  | settle m transaction =>
    simp only [World.begin, beginSettle] at h
    split at h
    · cases h
    · split at h <;> cases h <;> rfl

theorem kept_intends : Kept Intends where
  begins _ _ h := intends_begin _ h
  goesOn {keys w t call s s'} hs hc hlookup hgo hp h := by
    have hpart := Part.advance (w := w.without t) t s
    generalize (w.without t).advance t s = x at hpart h
    cases hpart with
    | quiet hturn _ _ _ hload hstate =>
      rcases hstate s' h with ⟨_, _, _, rfl⟩ | ⟨_, _, _, _, _, rfl⟩
      · cases s with
        | turn change => exact absurd rfl (hturn change)
        | loading purpose pending query =>
          obtain ⟨_, hnext⟩ := hload purpose pending query rfl
          rw [h] at hnext
          cases hnext
        | lock _ _ _ | acquiring _ _ _ | settling _ => exact hp
      · trivial
    | opens change =>
      obtain ⟨_, _, _, rfl⟩ := state_changed h
      trivial
    | answers w' _ _ _ _ =>
      obtain ⟨_, _, _, rfl⟩ := state_changed h
      trivial
  stays {keys w m call s} _ _ hp := by
    cases s <;> exact hp

/-- A call that ends at once is for no change, or for one that is refused. -/
theorem begin_ends {w : World} {t : TaskId} {call : Call} {o : Outcome}
    (h : (w.begin t call).2 = .ends o) :
    call.change? = none ∨ ∃ e, call.change? = some (.error e) ∧ o = .failed e := by
  cases call with
  | acquire _ | pinned _ _ _ | settle _ _ => exact .inl rfl
  | event event =>
    simp only [World.begin, beginEvent] at h
    split at h
    · rename_i e he
      cases h
      exact .inr ⟨e, congrArg some he, rfl⟩
    · simp only [beginChange] at h
      split at h <;> cases h
  | close =>
    simp only [World.begin, beginChange] at h
    split at h <;> cases h

theorem nodup_calls (moves : List Move) : ((calls {} moves).map (·.1)).Nodup := by
  induction moves using List.reverseRecOn with
  | nil => exact List.nodup_nil
  | append_singleton moves m ih =>
    have hcalls : calls {} (moves ++ [m]) = calls {} moves ++
      if (play {} moves).crashed then [] else ((play {} moves).call? m).toList := record_snoc _ _ _
    rw [hcalls]
    cases halive : (play {} moves).crashed with
    | true => simpa using ih
    | false =>
      have hbefore := Assigned.of_play kept_intends moves halive
      cases m with
      | start call =>
        simp only [Bool.false_eq_true, if_false, call?, Option.toList_some, List.map_append]
        refine List.nodup_append'.2 ⟨ih, List.nodup_singleton _, ?_⟩
        refine List.disjoint_singleton.2 fun hmem => ?_
        obtain ⟨c, hc, hstarted⟩ := List.mem_map.1 hmem
        exact absurd hstarted (Nat.ne_of_lt (hbefore.started c hc))
      | goOn _ | cancel _ | beginTransaction _ | surround _ _ _ | tune _ _ _ | collect _ _ =>
        simpa [call?] using ih

theorem calls_unique {moves : List Move} {t : TaskId} {call call' : Call}
    (h : (t, call) ∈ calls {} moves) (h' : (t, call') ∈ calls {} moves) : call = call' := by
  have hsome := (lookup_some_iff (nodup_calls moves) t call).2 h
  rw [(lookup_some_iff (nodup_calls moves) t call').2 h'] at hsome
  exact (Option.some.inj hsome).symm

/-! ### One move -/

/-- The turns `us` account for a run: for what the registry is, for what was published, for the replies
of tasks, and for the change that is under way. -/
structure Serialized (us : List Turn) (moves : List Move) : Prop where
  face : (Turn.after .empty us).face = (play {} moves).registry.face
  order : (us.map (·.task)).Sublist (grants {} moves)
  calls : ∀ u ∈ us, ∃ call, (u.task, call) ∈ calls {} moves ∧ call.change? = some (.ok u.change)
  publications : publications moves = Turn.publications .empty us
  replies : ∀ t o, (t, o) ∈ replies {} moves →
    (∃ call, (t, call) ∈ World.calls {} moves ∧
      (call.change? = none ∨ ∃ e, call.change? = some (.error e) ∧ o = .failed e)) ∨
    ∃ x ∈ Turn.serial .empty us, x.1.task = t ∧ (x.1.run x.2).2.outcome? = some o
  turning : (play {} moves).crashed = false → ∀ t change,
    (t, .turn change) ∈ (play {} moves).tasks → t ∉ us.map (·.task)
  loading : (play {} moves).crashed = false → ∀ t purpose pending query,
    (t, .loading purpose pending query) ∈ (play {} moves).tasks →
    ∃ vs u, us = vs ++ [u] ∧ u.task = t ∧
      (u.run (Turn.after .empty vs)).2 = .load purpose pending

/-- In the move a task makes a part of a change, and the turn `u` does the same after the turns `vs`. -/
structure Continues (vs : List Turn) (u : Turn) (us : List Turn) (moves : List Move) (m : Move)
    (w : World) (y : Registry × Step) : Prop where
  part : (play {} moves).part? m = some (u.task, w.changed y)
  calls : (play {} moves).call? m = none
  writer : (play {} moves).writer.holder = some u.task
  call : ∃ call, (u.task, call) ∈ World.calls {} moves ∧ call.change? = some (.ok u.change)
  alike : Registry.Alike (u.run (Turn.after .empty vs)) y
  resumes : Turn.Resumes .empty u.task vs us

namespace Continues
variable {vs us : List Turn} {u : Turn} {moves : List Move} {m : Move} {w : World}
  {y : Registry × Step} (hm : Continues vs u us moves m w y)
include hm

theorem reply_eq : (play {} moves).reply? m =
    ((u.run (Turn.after .empty vs)).2.outcome?).map (u.task, ·) := by
  rw [reply?, hm.part, Option.bind_some, outcome_changed, ← hm.alike.2]

theorem publication_eq (h : Serialized us moves) :
    (play {} moves).publication? m = u.publication? (Turn.after .empty vs) := by
  -- neither the run nor its turns published since the turns before this one
  have hbefore : (play {} moves).registry.snapshot = (Turn.after .empty vs).snapshot :=
    (congrArg Face.snapshot h.face).symm.trans hm.resumes.snapshot
  have hafter : (w.changed y).1.registry.snapshot = (u.run (Turn.after .empty vs)).1.snapshot :=
    (congrArg Face.snapshot (face_changed w y)).trans (congrArg Face.snapshot hm.alike.1).symm
  simp only [publication?, hm.part, Option.bind_some, Turn.publication?, hafter,
    Registry.generation_of_snapshot hbefore, Registry.generation_of_snapshot hafter]

variable (halive : (play {} moves).crashed = false)
include halive

theorem calls_eq : World.calls {} (moves ++ [m]) = World.calls {} moves := by
  rw [World.calls, record_snoc_move _ halive, hm.calls]
  exact List.append_nil _

theorem face : (Turn.after .empty (vs ++ [u])).face = (play {} (moves ++ [m])).registry.face := by
  rw [play_snoc_move halive, move_of_part hm.part, registry_put, face_changed, Turn.after_snoc]
  exact hm.alike.1

/-- A load is waited for only by the task that has the lock. -/
theorem loading {t : TaskId} {purpose : Purpose} {pending : PendingSchema} {query : Option Query}
    (hc : (play {} (moves ++ [m])).crashed = false)
    (hmem : (t, .loading purpose pending query) ∈ (play {} (moves ++ [m])).tasks) :
    u.task = t ∧ (u.run (Turn.after .empty vs)).2 = .load purpose pending := by
  obtain ⟨keys, _, hs⟩ := Sound.start.play moves halive
  rw [play_snoc_move halive] at hc hmem
  rcases hs.mem_move hc hmem with ⟨hold, hne⟩ | ⟨x, hx, hstate⟩
  · have ht : u.task = t := Option.some.inj (hm.writer.symm.trans (hs.writer_of_loading hold))
    exact absurd (ht ▸ hm.part) (hne _)
  · rw [hm.part] at hx
    cases hx
    obtain ⟨_, _, hload, heq⟩ := state_changed hstate
    cases heq
    exact ⟨rfl, hm.alike.2.trans hload⟩

variable (h : Serialized us moves)
include h

theorem order : ((vs ++ [u]).map (·.task)).Sublist (grants {} (moves ++ [m])) := by
  obtain ⟨n, horderly, _⟩ := orderly_play moves
  rw [grants, record_snoc_move _ halive, List.map_append]
  exact (hm.resumes.order h.order (horderly.holder _ hm.writer)).trans
    (List.sublist_append_left _ _)

theorem publications :
    World.publications (moves ++ [m]) = Turn.publications .empty (vs ++ [u]) := by
  rw [World.publications, record_snoc_move _ halive, Turn.publications_snoc,
    ← hm.resumes.publications, ← hm.publication_eq h]
  exact congrArg (· ++ _) h.publications

theorem replies {t : TaskId} {o : Outcome} (hmem : (t, o) ∈ World.replies {} (moves ++ [m])) :
    (∃ call, (t, call) ∈ World.calls {} (moves ++ [m]) ∧
      (call.change? = none ∨ ∃ e, call.change? = some (.error e) ∧ o = .failed e)) ∨
    ∃ x ∈ Turn.serial .empty (vs ++ [u]), x.1.task = t ∧ (x.1.run x.2).2.outcome? = some o := by
  rw [World.replies, record_snoc_move _ halive] at hmem
  rw [hm.calls_eq halive, Turn.serial_snoc]
  rcases List.mem_append.1 hmem with hmem | hmem
  · rcases h.replies t o hmem with hcall | ⟨x, hx, ht, ho⟩
    · exact .inl hcall
    · exact .inr ⟨x, List.mem_append_left _ (hm.resumes.ended hx ho), ht, ho⟩
  · rw [hm.reply_eq, Option.mem_toList, Option.map_eq_some_iff] at hmem
    obtain ⟨o', ho, heq⟩ := hmem
    cases heq
    exact .inr ⟨_, List.mem_append_right _ (List.mem_singleton_self _), rfl, ho⟩

/-- Who waits for the lock has no turn yet: the task that has the lock is not one of them. -/
theorem turning {t : TaskId} {change : Change}
    (hc : (play {} (moves ++ [m])).crashed = false)
    (hmem : (t, .turn change) ∈ (play {} (moves ++ [m])).tasks) :
    t ∉ (vs ++ [u]).map (·.task) := by
  obtain ⟨keys, _, hs⟩ := Sound.start.play moves halive
  rw [play_snoc_move halive] at hc hmem
  rcases hs.mem_move hc hmem with ⟨hold, hne⟩ | ⟨x, hx, hstate⟩
  · have hother : t ≠ u.task := fun ht => hne _ (ht ▸ hm.part)
    have hbefore : t ∉ vs.map (·.task) := fun hv =>
      h.turning halive t change hold (List.map_subset _ hm.resumes.subset hv)
    simpa [hother] using hbefore
  · rw [hm.part] at hx
    cases hx
    obtain ⟨_, _, _, heq⟩ := state_changed hstate
    cases heq

/-- A move that opens a turn, or goes on with the last one. -/
theorem serialized : Serialized (vs ++ [u]) (moves ++ [m]) where
  face := hm.face halive
  order := hm.order halive h
  calls v hv := by
    rw [hm.calls_eq halive]
    rcases List.mem_append.1 hv with hv | hv
    · exact h.calls v (hm.resumes.subset hv)
    · exact List.mem_singleton.1 hv ▸ hm.call
  publications := hm.publications halive h
  replies _ _ hmem := hm.replies halive h hmem
  turning hc _ _ hmem := hm.turning halive h hc hmem
  loading hc _ _ _ _ hmem := ⟨vs, u, rfl, hm.loading halive hc hmem⟩

end Continues

namespace Serialized
variable {us : List Turn} {moves : List Move} {m : Move}

theorem start : Serialized [] [] where
  face := rfl
  order := .slnil
  calls _ h := absurd h List.not_mem_nil
  publications := rfl
  replies _ _ h := absurd h List.not_mem_nil
  turning _ _ _ h := absurd h List.not_mem_nil
  loading _ _ _ _ _ h := absurd h List.not_mem_nil

theorem crashed (h : Serialized us moves) (hc : (play {} moves).crashed = true) :
    Serialized us (moves ++ [m]) := by
  have hplay : play {} (moves ++ [m]) = play {} moves := by
    rw [play_snoc, tick, hc]
    rfl
  have hrecord {α : Type} (f : World → Move → Option α) :
      record f {} (moves ++ [m]) = record f {} moves := by
    simp [record_snoc, hc]
  obtain ⟨hface, horder, hcalls, hpublications, hreplies, hturning, hloading⟩ := h
  refine ⟨hplay ▸ hface, ?_, ?_, ?_, ?_, hplay ▸ hturning, hplay ▸ hloading⟩
  · rw [grants, hrecord]
    exact horder
  · rw [World.calls, hrecord]
    exact hcalls
  · rw [World.publications, hrecord]
    exact hpublications
  · rw [World.calls, World.replies, hrecord, hrecord]
    exact hreplies

section Move
variable (h : Serialized us moves) (halive : (play {} moves).crashed = false)
include h halive

/-- A move that the registry does not see. -/
theorem rests (hface : ((play {} moves).move m).registry.face = (play {} moves).registry.face)
    (hpublication : (play {} moves).publication? m = none)
    (hreply : ∀ t o, (play {} moves).reply? m = some (t, o) →
      ∃ call, (t, call) ∈ World.calls {} (moves ++ [m]) ∧
        (call.change? = none ∨ ∃ e, call.change? = some (.error e) ∧ o = .failed e))
    (hturn : ∀ t x change, (play {} moves).part? m = some (t, x) →
      x.2.state? = some (.turn change) → t ∉ us.map (·.task))
    (hload : ∀ t x purpose pending query, (play {} moves).part? m = some (t, x) →
      x.2.state? = some (.loading purpose pending query) →
      ∃ query', (t, .loading purpose pending query') ∈ (play {} moves).tasks) :
    Serialized us (moves ++ [m]) := by
  have hplay : play {} (moves ++ [m]) = (play {} moves).move m := play_snoc_move halive
  have hcalls : World.calls {} moves ⊆ World.calls {} (moves ++ [m]) := by
    rw [World.calls, World.calls, record_snoc_move _ halive]
    exact List.subset_append_left _ _
  obtain ⟨keys, _, hs⟩ := Sound.start.play moves halive
  refine ⟨?_, ?_, ?_, ?_, ?_, ?_, ?_⟩
  · rw [hplay, hface]
    exact h.face
  · rw [grants, record_snoc_move _ halive]
    exact h.order.trans (List.sublist_append_left _ _)
  · intro u hu
    obtain ⟨call, hmem, hchange⟩ := h.calls u hu
    exact ⟨call, hcalls hmem, hchange⟩
  · rw [World.publications, record_snoc_move _ halive, hpublication]
    exact (List.append_nil _).trans h.publications
  · intro t o hmem
    rw [World.replies, record_snoc_move _ halive] at hmem
    rcases List.mem_append.1 hmem with hmem | hmem
    · rcases h.replies t o hmem with ⟨call, hcall, hkind⟩ | hturn
      · exact .inl ⟨call, hcalls hcall, hkind⟩
      · exact .inr hturn
    · exact .inl (hreply t o (Option.mem_toList.1 hmem))
  · rw [hplay]
    intro hc t change hmem
    rcases hs.mem_move hc hmem with ⟨hold, _⟩ | ⟨x, hx, hstate⟩
    · exact h.turning halive t change hold
    · exact hturn t x change hx hstate
  · rw [hplay]
    intro hc t purpose pending query hmem
    rcases hs.mem_move hc hmem with ⟨hold, _⟩ | ⟨x, hx, hstate⟩
    · exact h.loading halive t purpose pending query hold
    · obtain ⟨query', hold⟩ := hload t x purpose pending query hx hstate
      exact h.loading halive t purpose pending query' hold

/-- The part that a task begins with changes nothing. -/
theorem startMove (call : Call) : Serialized us (moves ++ [.start call]) := by
  have hface := face_begin { play {} moves with started := (play {} moves).started + 1 }
    (play {} moves).started call
  refine h.rests halive ?_ ?_ ?_ ?_ ?_
  · rw [World.move, registry_put]
    exact hface
  · exact if_pos (Registry.generation_of_face hface)
  · intro t o hreply
    obtain ⟨x, hx, ho⟩ := Option.bind_eq_some_iff.1 hreply
    cases hx
    obtain ⟨o', ho', heq⟩ := Option.map_eq_some_iff.1 ho
    cases heq
    exact ⟨call, mem_record_iff.2 ⟨moves, _, [], rfl, halive, rfl⟩,
      begin_ends (outcome?_eq_some ho')⟩
  · intro t x change hx _ hmem
    cases hx
    obtain ⟨n, horderly, hn⟩ := orderly_play moves
    have hlt := horderly.below _ (List.mem_append_left _ (h.order.subset hmem))
    exact Nat.not_lt_of_le (hn halive) hlt
  · intro t x purpose pending query hx hstate
    cases hx
    exact absurd hstate (begin_ne_loading _ _ call)

/-- Other parts neither open a turn nor go on with one. -/
theorem quietMove {t : TaskId} {s : TaskState} {x : World × Next}
    (hs : (play {} moves).tasks.lookup t = some s)
    (hpart : (play {} moves).part? (.goOn t) = some (t, x)) (hturn : ∀ change, s ≠ .turn change)
    (hface : x.1.registry.face = (play {} moves).registry.face)
    (hload : ∀ purpose pending query, s = .loading purpose pending query →
      ∃ query', x.2.state? = some (.loading purpose pending query'))
    (hstate : ∀ s', x.2.state? = some s' → (∃ held stage a, s' = .acquiring held stage a) ∨
      ∃ purpose pending query query', s = .loading purpose pending query ∧
        s' = .loading purpose pending query') : Serialized us (moves ++ [.goOn t]) := by
  obtain ⟨keys, _, hsound⟩ := Sound.start.play moves halive
  have hmem := (lookup_some_iff hsound.nodup t s).1 hs
  obtain ⟨call, hcall, hintends⟩ := (Assigned.of_play kept_intends moves halive).tasks _ hmem
  refine h.rests halive ?_ ?_ ?_ ?_ ?_
  · rw [move_of_part hpart, registry_put]
    exact hface
  · simp only [publication?, hpart, Option.bind_some]
    exact if_pos (Registry.generation_of_face hface)
  · intro t o hreply
    simp only [reply?, hpart, Option.bind_some] at hreply
    obtain ⟨o', ho', heq⟩ := Option.map_eq_some_iff.1 hreply
    cases heq
    refine ⟨call, ?_, .inl ?_⟩
    · rw [World.calls, record_append]
      exact List.mem_append_left _ hcall
    · cases s with
      | turn change => exact absurd rfl (hturn change)
      | loading purpose pending query =>
        obtain ⟨_, hnext⟩ := hload purpose pending query rfl
        rw [outcome?_eq_some ho'] at hnext
        cases hnext
      | lock _ _ _ | acquiring _ _ _ | settling _ => exact hintends
  · intro t x' change hx' hnext
    rw [hpart] at hx'
    cases hx'
    rcases hstate _ hnext with ⟨_, _, _, heq⟩ | ⟨_, _, _, _, _, heq⟩ <;> cases heq
  · intro t x' purpose pending query hx' hnext
    rw [hpart] at hx'
    cases hx'
    rcases hstate _ hnext with ⟨_, _, _, heq⟩ | ⟨_, _, query', _, rfl, heq⟩
    · cases heq
    · cases heq
      exact ⟨query', hmem⟩

theorem opensMove {t : TaskId} {change : Change}
    (hs : (play {} moves).tasks.lookup t = some (.turn change))
    (hgo : (play {} moves).mayGoOn t (.turn change) = true) :
    Serialized (us ++ [⟨t, change, (play {} moves).factory, []⟩]) (moves ++ [.goOn t]) := by
  obtain ⟨keys, _, hsound⟩ := Sound.start.play moves halive
  have hmem := (lookup_some_iff hsound.nodup t _).1 hs
  have hcall := (Assigned.of_play kept_intends moves halive).tasks _ hmem
  have hwriter : (play {} moves).writer.holder = some t := by
    simpa [mayGoOn, Mutex.isHeldBy] using hgo
  have henv : ({ factory := (play {} moves).factory } : Environment).factory =
    ((play {} moves).without t).environment.factory := rfl
  have hcontinues : Continues us ⟨t, change, (play {} moves).factory, []⟩ us moves (.goOn t)
      ((play {} moves).without t) _ :=
    { part := part_of_goOn hs hgo
      calls := rfl
      writer := hwriter
      call := hcall
      alike := .begin h.face henv change
      resumes := .opens (h.turning halive t change hmem) }
  exact hcontinues.serialized halive h

theorem answersMove {t : TaskId} {purpose : Purpose} {pending : PendingSchema}
    {query : Option Query} {answer : Except Error (SortedMap Tables)} {w : World}
    (hs : (play {} moves).tasks.lookup t = some (.loading purpose pending query))
    (hpart : (play {} moves).part? (.goOn t) =
      some (t, w.changed (w.registry.resume w.environment purpose pending answer)))
    (hface : w.registry.face = (play {} moves).registry.face)
    (hfactory : w.factory = (play {} moves).factory) :
    Serialized ((Entry.answers (play {} moves).factory answer).note us) (moves ++ [.goOn t]) := by
  obtain ⟨keys, _, hsound⟩ := Sound.start.play moves halive
  have hmem := (lookup_some_iff hsound.nodup t _).1 hs
  obtain ⟨vs, v, rfl, rfl, hload⟩ := h.loading halive t purpose pending query hmem
  have hnote : (Entry.answers (play {} moves).factory answer).note (vs ++ [v]) =
      vs ++ [{ v with answers := v.answers ++ [((play {} moves).factory, answer)] }] := by
    simp [Entry.note]
  have hbefore := h.face
  rw [Turn.after_snoc] at hbefore
  have halike : Registry.Alike
      ({ v with answers := v.answers ++ [((play {} moves).factory, answer)] }.run
        (Turn.after .empty vs))
      (w.registry.resume w.environment purpose pending answer) := by
    rw [Turn.run_answer, Turn.answered, hload]
    exact .resume (hbefore.trans hface.symm) hfactory.symm purpose pending answer
  have hcontinues : Continues vs
      { v with answers := v.answers ++ [((play {} moves).factory, answer)] } (vs ++ [v]) moves
      (.goOn v.task) w _ :=
    { part := hpart
      calls := rfl
      writer := hsound.writer_of_loading hmem
      call := h.calls v (List.mem_append_right _ List.mem_cons_self)
      alike := halike
      resumes := .answers rfl hload }
  rw [hnote]
  exact hcontinues.serialized halive h

/-- A part of a task that goes on is seen by the registry when it opens a turn or has an answer. -/
theorem goOnMove (t : TaskId) :
    Serialized (((play {} moves).noted? (.goOn t)).toList.foldl Entry.note us)
      (moves ++ [.goOn t]) := by
  cases hpart : (play {} moves).part? (.goOn t) with
  | none =>
    have hnoted : (play {} moves).noted? (.goOn t) = none := by
      simp only [part?] at hpart
      simp only [noted?]
      split
      · rfl
      · rename_i s hs
        simp only [hs] at hpart
        split at hpart
        · cases hpart
        · rename_i hgo
          rw [if_neg hgo]
    rw [hnoted]
    refine h.rests halive (face_move_of_part_none hpart) ?_ ?_ ?_ ?_ <;>
      simp [publication?, reply?, hpart]
  | some y =>
    obtain ⟨t', x⟩ := y
    obtain ⟨s, hs, hgo, rfl, hx⟩ := goOn_of_part hpart
    have hnoted : (play {} moves).noted? (.goOn t') = ((play {} moves).without t').adds? t' s := by
      simp [noted?, hs, hgo]
    have hadvance := Part.advance (w := (play {} moves).without t') t' s
    rw [hnoted]
    rw [← hx] at hadvance
    cases hadvance with
    | quiet hturn hface _ hanswer hload hstate =>
      have hnone : ((play {} moves).without t').adds? t' s = none := by
        cases s with
        | turn change => exact absurd rfl (hturn change)
        | lock _ _ _ | acquiring _ _ _ | settling _ | loading _ _ _ => simp [adds?, hanswer]
      rw [hnone]
      exact h.quietMove halive hs hpart hturn hface hload hstate
    | opens change => exact h.opensMove halive hs hgo
    | answers w' hanswer hface hwriter hfactory =>
      simp only [adds?, hanswer]
      exact h.answersMove halive hs hpart hface hfactory

theorem move (m : Move) :
    Serialized (((play {} moves).noted? m).toList.foldl Entry.note us) (moves ++ [m]) := by
  cases m with
  | start call => exact h.startMove halive call
  | goOn t => exact h.goOnMove halive t
  | cancel _ | beginTransaction _ | surround _ _ _ | tune _ _ _ | collect _ _ =>
    refine h.rests halive (face_move_of_part_none rfl) rfl ?_ ?_ ?_ <;> simp [reply?, part?]

end Move

/-- Every run is accounted for by its turns. -/
theorem of_play (moves : List Move) : Serialized (turns moves) moves := by
  induction moves using List.reverseRecOn with
  | nil => exact start
  | append_singleton moves m ih =>
    rw [turns, record_snoc, List.foldl_append]
    cases halive : (play {} moves).crashed with
    | true => exact ih.crashed halive
    | false => exact ih.move halive m

end Serialized

/-! ### What was published -/

/-- A change that publishes ends with the generation that it publishes. -/
theorem outcome_of_concludes {w : World} {g : Registry} {y : Registry × Step} (h : g.Concludes y)
    (hne : (w.changed y).1.registry.generation ≠ g.generation) :
    (w.changed y).2.outcome? = some (.generation (w.changed y).1.registry.generation) := by
  have hface : (w.changed y).1.registry.generation = y.1.generation :=
    Registry.generation_of_face (face_changed w y)
  rw [hface] at hne ⊢
  rcases h with ⟨hsame, _⟩ | ⟨hnext, hdone⟩
  · exact absurd (Registry.generation_of_snapshot hsame) hne
  · rw [outcome_changed, hdone, hnext]
    rfl

theorem reply_of_publication {w : World} {m : Move} {t : TaskId} {s : Stamped Snapshot}
    (h : w.publication? m = some (t, s)) : w.reply? m = some (t, .generation s.value.generation) := by
  obtain ⟨⟨t', x⟩, hpart, hx⟩ := Option.bind_eq_some_iff.1 h
  simp only at hx
  split at hx
  · cases hx
  · rename_i hne
    cases hx
    suffices houtcome : x.2.outcome? = some (.generation x.1.registry.generation) by
      simp only [reply?, hpart, Option.bind_some, houtcome]
      rfl
    cases m with
    | start call =>
      cases hpart
      exact absurd (Registry.generation_of_face (face_begin _ _ call)) hne
    | goOn t₁ =>
      obtain ⟨s, _, _, _, rfl⟩ := goOn_of_part hpart
      have hadvance := Part.advance (w := w.without t₁) t₁ s
      generalize (w.without t₁).advance t₁ s = x at hadvance hne
      cases hadvance with
      | quiet _ hface _ _ _ _ =>
        exact absurd (Registry.generation_of_face hface) hne
      | opens change => exact outcome_of_concludes (.begin _ _ change) hne
      | answers w' _ hface _ _ =>
        have hgeneration : w'.registry.generation = w.registry.generation :=
          Registry.generation_of_face hface
        exact outcome_of_concludes (.resume _ _ _ _ _) (hgeneration ▸ hne)
    | cancel _ | beginTransaction _ | surround _ _ _ | tune _ _ _ | collect _ _ => cases hpart

/-- Some turns, one after the other from an empty registry, are all that a run does to its registry. -/
structure Serializes (us : List Turn) (moves : List Move) : Prop where
  /-- They stand in the order in which tasks got the lock, and no task gets it twice. -/
  order : (us.map (·.task)).Sublist (grants {} moves) ∧ (grants {} moves).Pairwise (· < ·)
  /-- Each is for a call, and makes the change that was asked for. -/
  calls : ∀ u ∈ us, ∃ call, (u.task, call) ∈ calls {} moves ∧ call.change? = some (.ok u.change)
  /-- Each is a way in which the change can end by itself, if the factory stayed the same. -/
  ends : ∀ x ∈ Turn.serial .empty us, (∀ a ∈ x.1.answers, a.1 = x.1.factory) → ∀ outcome,
    (x.1.run x.2).2 = .done outcome → Registry.Ends { factory := x.1.factory }
      (x.2.begin { factory := x.1.factory } x.1.change) ((x.1.run x.2).1, outcome)
  /-- Each publishes the next generation and ends with it, or leaves the one that it found. -/
  concludes : ∀ x ∈ Turn.serial .empty us, x.2.Concludes (x.1.run x.2)
  /-- The same is published by the same tasks. -/
  published : publications moves = Turn.publications .empty us
  /-- The registry is the same in the end. -/
  final : (Turn.after .empty us).snapshot = (play {} moves).registry.snapshot ∧
    (Turn.after .empty us).circuitOpen = (play {} moves).registry.circuitOpen ∧
    (Turn.after .empty us).resources.disabled = (play {} moves).resources.disabled
  /-- A call whose change is refused before its turn fails for that. -/
  refused : ∀ t call e o, (t, call) ∈ World.calls {} moves → call.change? = some (.error e) →
    (t, o) ∈ replies {} moves → o = .failed e
  /-- Any other call for a change ends as its turn does. -/
  results : ∀ t call change o, (t, call) ∈ World.calls {} moves →
    call.change? = some (.ok change) → (t, o) ∈ replies {} moves →
    ∃ x ∈ Turn.serial .empty us, x.1.task = t ∧ x.1.change = change ∧
      (x.1.run x.2).2.outcome? = some o
  /-- The generations follow each other from the first one on. -/
  generations : (publications moves).map (·.2.value.generation) =
    List.range' 1 (publications moves).length
  /-- Whoever publishes a generation returns it. -/
  returned : ∀ t s, (t, s) ∈ publications moves →
    (t, .generation s.value.generation) ∈ replies {} moves
  /-- The snapshot is the last that was published. -/
  current : (play {} moves).registry.snapshot =
    ((publications moves).getLast?.map (·.2)).getD Registry.empty.snapshot

/-- Whatever happens at once, every run does to its registry what its turns do one after the other:
nothing that was changed is lost, and all changes end as they do in their turns. -/
theorem serializable (moves : List Move) : Serializes (turns moves) moves := by
  obtain ⟨hface, horder, hcalls, hpublications, hreplies, _, _⟩ := Serialized.of_play moves
  obtain ⟨n, horderly, _⟩ := orderly_play moves
  have hsnapshot : (Turn.after .empty (turns moves)).snapshot = (play {} moves).registry.snapshot :=
    congrArg (·.snapshot) hface
  refine ⟨⟨horder, ?_⟩, hcalls, ?_, ?_, hpublications, ⟨hsnapshot, ?_, ?_⟩, ?_, ?_, ?_, ?_, ?_⟩
  · exact horderly.sorted.sublist (List.sublist_append_left _ _)
  · exact fun x _ hfactory outcome hdone => Turn.ends_run hfactory hdone
  · exact fun x _ => Turn.concludes_run x.1 x.2
  · exact congrArg (·.circuitOpen) hface
  · exact congrArg (·.inventory.disabled) hface
  · intro t call e o hcall hchange ho
    rcases hreplies t o ho with ⟨call', hcall', hkind⟩ | ⟨x, hx, rfl, _⟩
    · obtain rfl := calls_unique hcall hcall'
      rcases hkind with hnone | ⟨e', he', rfl⟩
      · rw [hchange] at hnone
        cases hnone
      · rw [hchange] at he'
        cases he'
        rfl
    · obtain ⟨call', hcall', hchange'⟩ := hcalls x.1 (Turn.mem_of_mem_serial hx)
      obtain rfl := calls_unique hcall hcall'
      rw [hchange] at hchange'
      cases hchange'
  · intro t call change o hcall hchange ho
    rcases hreplies t o ho with ⟨call', hcall', hkind⟩ | ⟨x, hx, rfl, hout⟩
    · obtain rfl := calls_unique hcall hcall'
      rcases hkind with hnone | ⟨e', he', _⟩
      · rw [hchange] at hnone
        cases hnone
      · rw [hchange] at he'
        cases he'
    · obtain ⟨call', hcall', hchange'⟩ := hcalls x.1 (Turn.mem_of_mem_serial hx)
      obtain rfl := calls_unique hcall hcall'
      rw [hchange] at hchange'
      cases hchange'
      exact ⟨x, hx, rfl, rfl, hout⟩
  · rw [hpublications]
    exact (Turn.generations .empty (turns moves)).1
  · intro t s hmem
    obtain ⟨ms, m, ms', rfl, halive, hpublication⟩ := mem_record_iff.1 hmem
    exact mem_record_iff.2 ⟨ms, m, ms', rfl, halive, reply_of_publication hpublication⟩
  · rw [hpublications, ← hsnapshot]
    exact Turn.snapshot_after .empty (turns moves)

/-- A second schema is added while the tables of the first one are loaded. -/
def overlapping : List Move :=
  [.start (.event (.schemaAdded "a" Registry.twoBackends [])), .goOn 0,
    .start (.event (.schemaAdded "b" Registry.twoBackends [])), .goOn 0, .goOn 1, .goOn 1]

example : (publications overlapping).map (fun x => (x.1, x.2.value.schemas.keys)) =
    [(0, ["a"]), (1, ["a", "b"])] := rfl

end World

end ShardRegistry
