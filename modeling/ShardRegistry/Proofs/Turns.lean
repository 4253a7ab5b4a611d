import Mathlib.Data.List.Induction
import ShardRegistry.Proofs.Determination

/-! Turns. Tasks get the lock under which the registry is changed in the order of their numbers, so a
run puts its changes in a row, each with the answers to its loads. By itself a change takes the same
steps from the registry that the one before it left behind. -/
namespace ShardRegistry

/-! ### The order of the lock -/

namespace Mutex

/-- Whom the lock goes to, if it changes hands. -/
def grant? (m m' : Mutex) : Option TaskId := if m'.holder = m.holder then none else m'.holder

/-- The tasks `gs` got the lock in the order of their numbers, and so will those that wait for it. -/
structure Orderly (m : Mutex) (gs : List TaskId) (n : Nat) : Prop where
  sorted : (gs ++ m.waiting).Pairwise (· < ·)
  below : ∀ t ∈ gs ++ m.waiting, t < n
  holder : ∀ t, m.holder = some t → gs.getLast? = some t
  free : m.holder = none → m.waiting = []

namespace Orderly
variable {m : Mutex} {gs : List TaskId} {n n' : Nat}

theorem start : Orderly {} [] 0 where
  sorted := .nil
  below _ h := absurd h List.not_mem_nil
  holder _ h := by cases h
  free _ := rfl

theorem mono (h : m.Orderly gs n) (hn : n ≤ n') : m.Orderly gs n' :=
  { h with below := fun t ht => Nat.lt_of_lt_of_le (h.below t ht) hn }

/-- Others may leave the queue. -/
theorem rests (h : m.Orderly gs n) {ts : List TaskId} (ht : ts.Sublist m.waiting) :
    Orderly { m with waiting := ts } gs n where
  sorted := h.sorted.sublist (ht.append_left gs)
  below t hmem := h.below t ((ht.append_left gs).subset hmem)
  holder := h.holder
  free hm := List.sublist_nil.1 (h.free hm ▸ ht)

/-- A new task asks for the lock. -/
theorem request (h : m.Orderly gs n) :
    (m.request n).Orderly (gs ++ (m.grant? (m.request n)).toList) (n + 1) := by
  have hnew : ((gs ++ m.waiting) ++ [n]).Pairwise (· < ·) :=
    List.pairwise_append.2 ⟨h.sorted, List.pairwise_singleton _ _, fun t ht t' ht' =>
      List.mem_singleton.1 ht' ▸ h.below t ht⟩
  have hbelow : ∀ t ∈ (gs ++ m.waiting) ++ [n], t < n + 1 := by
    intro t ht
    rcases List.mem_append.1 ht with ht | ht
    · exact Nat.lt_succ_of_lt (h.below t ht)
    · exact List.mem_singleton.1 ht ▸ Nat.lt_succ_self n
  cases hm : m.holder with
  | none =>
    have hempty := h.free hm
    rw [hempty, List.append_nil] at hnew hbelow
    have hgrant : (m.grant? (m.request n)).toList = [n] := by
      simp [grant?, Mutex.request, isFree, hm]
    rw [hgrant]
    refine ⟨?_, ?_, ?_, ?_⟩ <;> simp_all [Mutex.request, isFree]
  | some t =>
    have hgrant : (m.grant? (m.request n)).toList = [] := by
      simp [grant?, Mutex.request, isFree, hm]
    have hrequest : m.request n = { m with waiting := m.waiting ++ [n] } := by
      simp [Mutex.request, isFree, hm]
    rw [hgrant, List.append_nil, hrequest]
    rw [List.append_assoc] at hnew hbelow
    exact ⟨hnew, hbelow, h.holder, fun hfree => by simp [hm] at hfree⟩

/-- The lock goes to the first task that waits. -/
theorem release (h : m.Orderly gs n) :
    m.release.Orderly (gs ++ (m.grant? m.release).toList) n := by
  cases hw : m.waiting with
  | nil =>
    have hrelease : m.release = {} := by simp [Mutex.release, hw]
    have hgrant : (m.grant? m.release).toList = [] := by
      rw [hrelease, grant?]
      split <;> rfl
    rw [hgrant, List.append_nil, hrelease]
    have hsorted := h.sorted
    have hbelow := h.below
    rw [hw] at hsorted hbelow
    exact ⟨hsorted, hbelow, fun _ ht => (by cases ht), fun _ => rfl⟩
  | cons t ts =>
    have hrelease : m.release = ⟨some t, ts⟩ := by simp [Mutex.release, hw]
    have hsorted := h.sorted
    have hbelow := h.below
    rw [hw, List.append_cons] at hsorted hbelow
    -- the lock was not free, and its holder came before the others
    have hne : m.holder ≠ some t := by
      intro hm
      have hmem : t ∈ gs := List.mem_of_getLast? (h.holder t hm)
      have hnodup : (gs ++ [t]).Pairwise (· < ·) :=
        hsorted.sublist (List.sublist_append_left (gs ++ [t]) ts)
      have hlt := (List.pairwise_append.1 hnodup).2.2 t hmem t (List.mem_singleton_self t)
      exact Nat.lt_irrefl t hlt
    have hgrant : (m.grant? m.release).toList = [t] := by
      simp [grant?, hrelease, hne.symm]
    rw [hgrant, hrelease]
    refine ⟨hsorted, hbelow, ?_, fun hm => by cases hm⟩
    rintro _ ⟨⟩
    simp

end Orderly

end Mutex

namespace World

@[simp] theorem writer_put (t : TaskId) (x : World × Next) : (put t x).writer = x.1.writer := by
  obtain ⟨w', next⟩ := x
  cases next <;> rfl

theorem writer_begin (w : World) (t : TaskId) (call : Call) :
    (w.begin t call).1.writer = w.writer ∨ (w.begin t call).1.writer = w.writer.request t := by
  cases call with
  | acquire q =>
    left
    simp only [World.begin, beginAcquire]
    split
    · rfl
    · split
      · rfl
      · split
        · exact writer_acquired w none _
        · rfl
  | event event =>
    simp only [World.begin, beginEvent]
    split
    · exact .inl rfl
    · exact .inr rfl
  | close => exact .inr rfl
  | pinned m transaction backend => exact .inl (writer_acquired w none _)
  | settle m transaction =>
    left
    simp only [World.begin, beginSettle]
    split <;> rfl

theorem writer_changed (w : World) (y : Registry × Step) :
    (w.changed y).1.writer = w.writer ∨ (w.changed y).1.writer = w.writer.release := by
  obtain ⟨g, s⟩ := y
  cases s with
  | load purpose pending => exact .inl rfl
  | done outcome =>
    cases outcome with
    | ok n => exact .inr rfl
    | error stop =>
      cases stop with
      | rejected e => exact .inr rfl
      | crashed => exact .inl rfl

theorem Part.writer {w : World} {s : TaskState} {x : World × Next} (h : Part w s x) :
    x.1.writer = w.writer ∨ x.1.writer = w.writer.release := by
  cases h with
  | quiet _ _ hwriter _ _ _ => exact .inl hwriter
  | opens change => exact writer_changed w _
  | answers w' _ _ hwriter _ => exact hwriter ▸ writer_changed w' _

theorem writer_withdraw (w : World) (t : TaskId) (s : TaskState) :
    (w.withdraw t s).writer = w.writer ∨ (w.withdraw t s).writer = w.writer.release ∨
      (w.withdraw t s).writer = w.writer.leaveQueue t := by
  cases s with
  | lock q l a =>
    left
    simp only [withdraw]
    split
    · exact writer_releaseLock w l
    · rfl
  | acquiring held stage a => exact .inl (writer_releaseHeld _ held)
  | settling transaction => exact .inl rfl
  | turn change =>
    right
    simp only [withdraw]
    split
    · exact .inl rfl
    · exact .inr rfl
  | loading purpose pending query =>
    right
    left
    cases query <;> rfl

/-- To whom the moves gave the lock under which the registry is changed. -/
def grants (w : World) (moves : List Move) : List TaskId :=
  record (fun w m => w.writer.grant? (w.move m).writer) w moves

/-- A move of a task that was started lets the lock rest, or go to the next one. -/
theorem orderly_move {w : World} {gs : List TaskId} {n : Nat} (h : w.writer.Orderly gs n)
    (hn : n ≤ w.started) (m : Move) : ∃ n',
      (w.move m).writer.Orderly (gs ++ (w.writer.grant? (w.move m).writer).toList) n' ∧
        (n' ≤ w.started ∨ ∃ call, m = .start call ∧ n' = w.started + 1) := by
  have hrests (m' : Mutex) (hholder : m'.holder = w.writer.holder)
      (hwaiting : m'.waiting.Sublist w.writer.waiting) :
      m'.Orderly (gs ++ (w.writer.grant? m').toList) n := by
    have hgrant : (w.writer.grant? m').toList = [] := by simp [Mutex.grant?, hholder]
    rw [hgrant, List.append_nil]
    obtain ⟨holder, waiting⟩ := m'
    obtain rfl : holder = w.writer.holder := hholder
    exact h.rests hwaiting
  have hsame (m' : Mutex) (heq : m' = w.writer) :
      m'.Orderly (gs ++ (w.writer.grant? m').toList) n :=
    hrests m' (by rw [heq]) (heq ▸ List.Sublist.refl _)
  have hrelease (m' : Mutex) (heq : m' = w.writer.release) :
      m'.Orderly (gs ++ (w.writer.grant? m').toList) n := heq ▸ h.release
  cases m with
  | start call =>
    rw [World.move, writer_put]
    rcases writer_begin { w with started := w.started + 1 } w.started call with heq | heq
    · exact ⟨n, hsame _ heq, .inl hn⟩
    · exact ⟨w.started + 1, heq ▸ (h.mono hn).request, .inr ⟨call, rfl, rfl⟩⟩
  | goOn t =>
    refine ⟨n, ?_, .inl hn⟩
    simp only [World.move]
    split
    · exact hsame _ rfl
    · rename_i s _
      split
      · rw [writer_put]
        rcases (Part.advance (w := w.without t) t s).writer with heq | heq
        · exact hsame _ heq
        · exact hrelease _ heq
      · exact hsame _ rfl
  | cancel t =>
    refine ⟨n, ?_, .inl hn⟩
    simp only [World.move]
    split
    · exact hsame _ rfl
    · rename_i s _
      rcases writer_withdraw (w.without t) t s with heq | heq | heq
      · exact hsame _ heq
      · exact hrelease _ heq
      · exact hrests _ (heq ▸ rfl) (heq ▸ List.erase_sublist)
  | beginTransaction _ | surround _ _ _ | tune _ _ _ | collect _ _ =>
    exact ⟨n, hsame _ rfl, .inl hn⟩

/-- In every run tasks get the lock in the order of their numbers. -/
theorem orderly_play (moves : List Move) : ∃ n, (play {} moves).writer.Orderly (grants {} moves) n ∧
    ((play {} moves).crashed = false → n ≤ (play {} moves).started) := by
  induction moves using List.reverseRecOn with
  | nil => exact ⟨0, .start, fun _ => Nat.le_refl 0⟩
  | append_singleton moves m ih =>
    obtain ⟨n, h, hn⟩ := ih
    rw [grants, record_snoc, play_snoc, tick]
    cases halive : (play {} moves).crashed with
    | true =>
      simp only [if_true, List.append_nil]
      exact ⟨n, h, fun hc => absurd hc (by simp [halive])⟩
    | false =>
      obtain ⟨n', h', hn'⟩ := orderly_move h (hn halive) m
      simp only [Bool.false_eq_true, if_false]
      refine ⟨n', h', fun hc => ?_⟩
      rcases hn' with hle | ⟨call, rfl, rfl⟩
      · obtain ⟨keys, _, hs⟩ := Sound.start.play moves halive
        exact Nat.le_trans hle (hs.started_le m hc)
      · exact Nat.le_of_eq (started_start _ call).symm

end World

/-! ### Generations -/

namespace Registry

theorem generation_of_snapshot {g g' : Registry} (h : g.snapshot = g'.snapshot) :
    g.generation = g'.generation :=
  congrArg (fun s : Stamped Snapshot => s.value.generation) h

theorem generation_of_face {g g' : Registry} (h : g.face = g'.face) : g.generation = g'.generation :=
  generation_of_snapshot (congrArg Face.snapshot h)

/-- A part of a change publishes the next generation and ends with its number, or publishes nothing
and at most ends with the number that was there. -/
def Concludes (g : Registry) (x : Registry × Step) : Prop :=
  (x.1.snapshot = g.snapshot ∧ ∀ n, x.2 = .done (.ok n) → n = g.generation) ∨
    (x.1.generation = g.generation + 1 ∧ x.2 = .done (.ok (g.generation + 1)))

namespace Concludes
variable {g g' : Registry}

theorem finish_same (h : g'.snapshot = g.snapshot) : g.Concludes g'.finish := by
  refine .inl ⟨h, ?_⟩
  rintro _ ⟨⟩
  exact generation_of_snapshot h

theorem finish_next (h : g'.generation = g.generation + 1) : g.Concludes g'.finish :=
  .inr ⟨h, by rw [Registry.finish, h]⟩

theorem reject (h : g'.snapshot = g.snapshot) (e : Error) : g.Concludes (g'.reject e) :=
  .inl ⟨h, fun _ hn => by cases hn⟩

theorem load (h : g'.snapshot = g.snapshot) (purpose : Purpose) (pending : PendingSchema) :
    g.Concludes (g', .load purpose pending) :=
  .inl ⟨h, fun _ hn => by cases hn⟩

theorem of_snapshot {x : Registry × Step} (hs : g'.snapshot = g.snapshot) (h : g'.Concludes x) :
    g.Concludes x := by
  have hgeneration : g'.generation = g.generation := generation_of_snapshot hs
  rcases h with ⟨hsame, hn⟩ | ⟨hnext, hn⟩
  · exact .inl ⟨hsame.trans hs, fun n hx => (hn n hx).trans hgeneration⟩
  · exact .inr ⟨hgeneration ▸ hnext, hgeneration ▸ hn⟩

theorem nextSchema (env : Environment) (g : Registry) (a : Authentication) (p : Properties)
    (d : Dialect) (built : List (Stamped SchemaContext))
    (rest : List (String × SchemaConfiguration)) :
    g.Concludes (g.nextSchema env a p d built rest) := by
  cases rest with
  | nil => exact .inr ⟨rfl, rfl⟩
  | cons e rest =>
    simp only [Registry.nextSchema]
    split
    · exact reject rfl _
    · split
      · exact reject rfl _
      · exact load rfl _ _

theorem begin (env : Environment) (g : Registry) (change : Change) :
    g.Concludes (g.begin env change) := by
  cases change with
  | reset schemas a p d => exact nextSchema env g a p d [] schemas.entries
  | addSchema name sources rules =>
    simp only [Registry.begin, Registry.addSchema]
    split
    · exact reject rfl _
    · split
      · exact reject rfl _
      · split
        · exact reject rfl _
        · exact load rfl _ _
  | deleteSchema name =>
    simp only [Registry.begin]
    split
    · exact finish_same rfl
    · exact finish_next rfl
  | setProperties p =>
    simp only [Registry.begin, Registry.setProperties]
    split
    · exact .inl ⟨rfl, fun _ hn => by cases hn⟩
    · obtain ⟨⟨stamps, hg⟩, _⟩ := Publishes.resizeAll_eq p.executorSize g.current.schemas.values
        (g.owning (g.resources.stamped p).1)
      refine finish_next ?_
      rw [hg]
      rfl
  | setTables names tables =>
    obtain ⟨⟨stamps, hg⟩, _⟩ := Publishes.retable_eq tables names g
    simp only [Registry.begin, Registry.setTables]
    split
    · exact finish_same rfl
    · rename_i heq
      rw [heq] at hg
      simp only at hg
      subst hg
      exact finish_next rfl
  | setRules name rules =>
    simp only [Registry.begin, Registry.setRules]
    split
    · exact reject rfl _
    · split
      · exact reject rfl _
      · exact finish_next rfl
  | setDisabled name backend off =>
    simp only [Registry.begin]
    split
    · exact reject rfl _
    · exact finish_same rfl
  | setDataSources name new =>
    simp only [Registry.begin, Registry.setDataSources]
    split
    · exact reject rfl _
    · split
      · exact reject rfl _
      · split
        · exact reject rfl _
        · exact load rfl _ _
  | setCircuit _ | heartbeat => exact finish_same rfl
  | setAuthentication _ | close => exact finish_next rfl

theorem resume (env : Environment) (g : Registry) (purpose : Purpose) (pending : PendingSchema)
    (answer : Except Error (SortedMap Tables)) :
    g.Concludes (g.resume env purpose pending answer) := by
  have habandon (g' : Registry) : (g'.abandon purpose pending).snapshot = g'.snapshot := by
    cases purpose <;> rfl
  cases answer with
  | error e => exact reject (habandon g) e
  | ok tables =>
    simp only [Registry.resume]
    split
    · exact .inl ⟨rfl, fun _ hn => by cases hn⟩
    · exact reject (habandon _) _
    · rename_i r _ _
      have hsame : (g.owning r).snapshot = g.snapshot := rfl
      cases purpose with
      | reset a p d rest built => exact of_snapshot hsame (nextSchema env _ a p d _ rest)
      | add =>
        simp only
        split <;> exact finish_next rfl
      | reconcile x previous => exact finish_next rfl

end Concludes

end Registry

end ShardRegistry
