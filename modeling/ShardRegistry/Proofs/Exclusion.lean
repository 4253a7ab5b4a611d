import ShardRegistry.Proofs.Handling
import ShardRegistry.Proofs.Runs

/-! Mutual exclusion. Batches that are taken under locks exclude each other for each pool, in every
run and however locks are pruned, kept and made anew; and a lock serves one schema and backend only,
for good. -/
namespace ShardRegistry

namespace World

/-- The tasks of a world. A crash ends all of them. -/
def running (w : World) : List (TaskId × TaskState) := if w.crashed then [] else w.tasks

theorem mem_running_iff {w : World} {e : TaskId × TaskState} :
    e ∈ w.running ↔ w.crashed = false ∧ e ∈ w.tasks := by
  cases h : w.crashed <;> simp [running, h]

/-- A task got the lock of a backend and did not end its batch yet. The pool that it occupies is that
of its source, or the one at whose gate it stands. -/
def Occupies (w : World) (t : TaskId) (p : PoolId) : Prop :=
  (∃ q l a, (t, .lock q l a) ∈ w.running ∧ w.holdsLock l t = true ∧ a.source.pool? = some p) ∨
  (∃ l stage a, (t, .acquiring (some l) stage a) ∈ w.running ∧
    (a.source.pool? = some p ∨ ∃ n pins, stage = .gate p n pins))

theorem Occupies.bond {keys : List (String × String)} {w : World} {t : TaskId} {p : PoolId}
    (h : w.Occupies t p) (hw : Sound keys w) :
    ∃ s l source, (t, s) ∈ w.tasks ∧ s.bond? = some (l, source) ∧ source.pool? = some p ∧
      w.holdsLock l t = true := by
  rcases h with ⟨q, l, a, hmem, hholds, hp⟩ | ⟨l, stage, a, hmem, hp⟩
  · exact ⟨_, l, a.source, (mem_running_iff.1 hmem).2, rfl, hp, hholds⟩
  · have htask := (mem_running_iff.1 hmem).2
    obtain ⟨_, hholds, hgate⟩ := hw.fine _ htask
    refine ⟨_, l, a.source, htask, rfl, ?_, hholds⟩
    rcases hp with hp | ⟨n, pins, hstage⟩
    · exact hp
    · exact hgate p n pins hstage

theorem Occupies.alive {w : World} {t : TaskId} {p : PoolId} (h : w.Occupies t p) :
    w.crashed = false := by
  rcases h with ⟨_, _, _, hmem, _⟩ | ⟨_, _, _, hmem, _⟩ <;> exact (mem_running_iff.1 hmem).1

/-- After any moves at most one task occupies a pool; and tasks that wait for one lock, then or after
any further moves, do so for one schema and backend. -/
theorem exclusive (moves moves' : List Move) :
    (∀ t t' p, (play {} moves).Occupies t p → (play {} moves).Occupies t' p → t = t') ∧
    (∀ t t' q q' l a a', (t, .lock q l a) ∈ (play {} moves).running →
      (t', .lock q' l a') ∈ ((play {} moves).play moves').running →
      (q.schema, q.backend) = (q'.schema, q'.backend)) := by
  refine ⟨?_, ?_⟩
  · intro t t' p h h'
    obtain ⟨keys, _, hw⟩ := Sound.start.play moves h.alive
    obtain ⟨s, l, source, hs, hb, hp, hholds⟩ := h.bond hw
    obtain ⟨s', l', source', hs', hb', hp', hholds'⟩ := h'.bond hw
    have hl : l = l' := hw.alike _ hs _ hs' l source l' source' hb hb' (hp.trans hp'.symm)
    subst hl
    exact holdsLock_unique hholds hholds'
  · intro t t' q q' l a a' h h'
    obtain ⟨halive, hmem⟩ := mem_running_iff.1 h
    obtain ⟨halive', hmem'⟩ := mem_running_iff.1 h'
    obtain ⟨keys, _, hw⟩ := Sound.start.play moves halive
    obtain ⟨keys', hprefix, hw'⟩ := hw.play moves' halive'
    have hkey : keys[l]? = some (q.schema, q.backend) := (hw.fine _ hmem).1
    have hkey' : keys'[l]? = some (q'.schema, q'.backend) := (hw'.fine _ hmem').1
    obtain ⟨_, rfl⟩ := hprefix
    rw [List.getElem?_append_left (List.getElem?_eq_some_iff.1 hkey).1, hkey] at hkey'
    exact Option.some.inj hkey'

/-- A batch of one connection of the first backend, under its lock. -/
def firstShared : AcquireRequest := { schema := "s", backend := "b0", mode := .sharedMemory }

def secondShared : AcquireRequest := { firstShared with count := 2 }

/-- Two backends are published, and two batches are taken from the first one. -/
def contended : List Move :=
  [.start (.event (.schemaAdded "s" Registry.twoBackends [])), .goOn 0, .goOn 0,
    .start (.acquire firstShared), .start (.acquire secondShared)]

theorem exclusive_contended :
    (play {} contended).Occupies 1 0 ∧ (∀ t, (play {} contended).Occupies t 0 → t = 1) ∧
    ∃ a a', (1, .lock firstShared 0 a) ∈ (play {} contended).running ∧
      (2, .lock secondShared 0 a') ∈ ((play {} contended).play [.goOn 1]).running ∧
      (firstShared.schema, firstShared.backend) = (secondShared.schema, secondShared.backend) := by
  have hrun : (play {} contended).running =
      [(1, .lock firstShared 0 ⟨"b0", 1, .pool 0, []⟩),
        (2, .lock secondShared 0 ⟨"b0", 2, .pool 0, []⟩)] := rfl
  have hrun' : ((play {} contended).play [.goOn 1]).running =
      [(2, .lock secondShared 0 ⟨"b0", 2, .pool 0, []⟩),
        (1, .acquiring (some 0) (.gate 0 1 none) ⟨"b0", 1, .pool 0, []⟩)] := rfl
  have hmem : (1, TaskState.lock firstShared 0 ⟨"b0", 1, .pool 0, []⟩) ∈
      (play {} contended).running := by
    rw [hrun]
    simp
  have hmem' : (2, TaskState.lock secondShared 0 ⟨"b0", 2, .pool 0, []⟩) ∈
      ((play {} contended).play [.goOn 1]).running := by
    rw [hrun']
    simp
  have hone : (play {} contended).Occupies 1 0 := .inl ⟨_, 0, _, hmem, rfl, rfl⟩
  have h := exclusive contended [.goOn 1]
  exact ⟨hone, fun t ht => h.1 t 1 0 ht hone, _, _, hmem, hmem', h.2 1 2 _ _ 0 _ _ hmem hmem'⟩

end World

end ShardRegistry
