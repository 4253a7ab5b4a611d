import ShardRegistry.Proofs.Belongings
import ShardRegistry.Proofs.Repetitions

/-! Outcomes of batches. A request for connections of a published backend gets all of them or none, and tells
exactly how far it came. -/
namespace ShardRegistry

namespace World
variable {moves ms : List Move} {q : AcquireRequest} {s : SchemaContext} {p : PoolId} {m : ManagerId}
  {t : TransactionId}

/-- If nobody cancels the request, it was replied to, or will be as soon as its task goes on often enough,
with its turn under the lock of the backend if it waits for that. -/
def Arrives (moves ms : List Move) (q : AcquireRequest) : Prop :=
  .cancel (play {} moves).started ∉ ms →
    (∃ o, ((play {} moves).started, o) ∈ replies (play {} moves) (.start (.acquire q) :: ms)) ∨
    ∃ state, ((play {} moves).started, state) ∈
        ((play {} moves).play (.start (.acquire q) :: ms)).tasks ∧
      (((play {} moves).play (.start (.acquire q) :: ms)).Turn (play {} moves).started state →
        ∃ j o, ((play {} moves).started, o) ∈
          replies ((play {} moves).play (.start (.acquire q) :: ms))
            (List.replicate j (.goOn (play {} moves).started)))

/-- What holds of a request that names no open transaction. -/
structure AllOrNothing (moves ms : List Move) (q : AcquireRequest) (p : PoolId) : Prop where
  arrives : Arrives moves ms q
  /-- As long as it waits, all its attempts that are over succeeded, and it has the connections. One more
  is under way at most. -/
  waits : ∀ state, ((play {} moves).started, state) ∈
      ((play {} moves).play (.start (.acquire q) :: ms)).tasks →
    ∃ n, n ≤ (acquiredBy state).length + 1 ∧
      Made (play {} moves) (play {} moves).started p (.start (.acquire q) :: ms)
        ((acquiredBy state).map .ok) n
  /-- It replies with what its attempts gave, or with the failure of the last one. There are no other
  attempts, and no other pool is asked. -/
  ends : ∀ o, ((play {} moves).started, o) ∈ replies (play {} moves) (.start (.acquire q) :: ms) →
    ∃ rs, Made (play {} moves) (play {} moves).started p (.start (.acquire q) :: ms) rs rs.length ∧
      BatchEnds q.count rs o
  /-- If it fails, nobody has a connection that it got. -/
  released : Honest (moves ++ .start (.acquire q) :: ms) → ∀ e c,
    ((play {} moves).started, .failed e) ∈ replies (play {} moves) (.start (.acquire q) :: ms) →
    .ok c ∈ attempts (play {} moves).started (play {} moves) (.start (.acquire q) :: ms) →
      c ∉ (play {} (moves ++ .start (.acquire q) :: ms)).connections

/-- What holds of a request for an open transaction that no other call deals with. -/
structure OneForAll (moves ms : List Move) (q : AcquireRequest) (m : ManagerId) (t : TransactionId)
    (p : PoolId) : Prop where
  arrives : Arrives moves ms q
  active : ((play {} moves).play (.start (.acquire q) :: ms)).resources.isActive m t = true
  /-- It replies with copies of the one connection that is pinned, or with the failure of its only attempt,
  which left the pins as they were. -/
  ends : ∀ o, ((play {} moves).started, o) ∈ replies (play {} moves) (.start (.acquire q) :: ms) →
    ∃ rs, SharedEnds (play {} moves).resources
        ((play {} moves).play (.start (.acquire q) :: ms)).resources t q.backend q.count rs o ∧
      Made (play {} moves) (play {} moves).started p (.start (.acquire q) :: ms) rs rs.length

/-- An empty batch asks for nothing, not even for the lock of the backend. -/
theorem Requested.empty (h : Requested moves ms q s p) (hzero : q.count = 0) :
    (play {} moves).reply? (.start (.acquire q)) = some ((play {} moves).started, .connections []) ∧
      ((play {} moves).move (.start (.acquire q))).registry = (play {} moves).registry := by
  obtain ⟨_, hadmitted, _⟩ := Registry.admit_of_resolve h.published
  obtain ⟨_, hbegin⟩ := (begin_acquire (w := { play {} moves with started := (play {} moves).started + 1 })
    hadmitted (play {} moves).started).resolve_right fun hmore => hmore.1 hzero
  refine ⟨?_, (registry_put _ _).trans ?_⟩
  · simp only [reply?, part?, hbegin]
    rfl
  · rw [hbegin]

theorem Requested.arrives (h : Requested moves ms q s p)
    (harrives : ∀ state, ((play {} moves).started, state) ∈
        ((play {} moves).play (.start (.acquire q) :: ms)).tasks →
      ((play {} moves).play (.start (.acquire q) :: ms)).Turn (play {} moves).started state →
        ∃ j o, ((play {} moves).started, o) ∈
          replies ((play {} moves).play (.start (.acquire q) :: ms))
            (List.replicate j (.goOn (play {} moves).started))) : Arrives moves ms q := by
  intro hcancel
  obtain ⟨_, hs⟩ := h.sound
  exact (hs.replied_or_stands h.alive hcancel).imp_right fun ⟨state, hmem⟩ =>
    ⟨state, hmem, harrives state hmem⟩

theorem Requested.allOrNothing (h : Requested moves ms q s p) (hplain : Plain moves ms q) :
    AllOrNothing moves ms q p := by
  obtain ⟨source, hgives, hdrawing, hdrawn⟩ := h.drawn hplain
  refine ⟨h.arrives fun state hmem => h.drawing_arrives hgives hmem (hdrawing state hmem),
    fun state hmem => ?_, fun o ho => (hdrawn o ho).1,
    fun hh e c he hc => h.released hplain hh he hc⟩
  have hstands := hdrawing state hmem
  cases state with
  | lock q' l a =>
    obtain ⟨rfl, rfl, hmade⟩ := hstands
    exact ⟨0, Nat.zero_le _, hmade⟩
  | acquiring held stage a =>
    obtain ⟨n, cs, rfl, rfl, _, hmade⟩ := hstands
    exact ⟨_, Nat.le_refl _, hmade⟩
  | settling _ | turn _ | loading _ _ _ => exact hstands.elim

theorem Sole.oneForAll (h : Sole moves ms q m t) (hr : Requested moves ms q s p) :
    OneForAll moves ms q m t p where
  arrives := hr.arrives fun _ hmem hturn => h.sharing_arrives hr hmem hturn
  active := (h.serves hr).active
  ends o ho := ((h.sharing hr).2 o ho).1

/-- A request for connections of a published backend is all or nothing, in whatever run, as long as no change
of the registry is under way. With an open transaction it gets one connection as often as it asked for. -/
theorem batch_outcomes (h : Requested moves ms q s p) :
    (q.count = 0 →
      (play {} moves).reply? (.start (.acquire q)) = some ((play {} moves).started, .connections []) ∧
        ((play {} moves).move (.start (.acquire q))).registry = (play {} moves).registry) ∧
      (Plain moves ms q → AllOrNothing moves ms q p) ∧
      ∀ m t, Sole moves ms q m t → OneForAll moves ms q m t p :=
  ⟨h.empty, h.allOrNothing, fun _ _ hsole => hsole.oneForAll h⟩

/-- The pool of a backend is to refuse its second request. -/
def refusing : List Move := opening ++ [.tune 0 none [2]]

/-- Three connections of that backend are asked for. -/
def threefold : AcquireRequest := { schema := "s", backend := "b0", count := 3, mode := .sharedMemory }

/-- Two connections are asked for the open transaction. -/
def twofold : AcquireRequest := { transactional with count := 2 }

/-- While no task is under way, and none is started. -/
theorem requested_of_quiet {s : SchemaContext}
    (hr : Registry.resolve (play {} moves).registry.current q.schema q.backend = .ok (s, p))
    (htasks : (play {} moves).tasks = []) (hcalls : ∀ call, .start call ∉ ms) (hcount : q.count < batchLimit)
    (hc : ((play {} moves).play (.start (.acquire q) :: ms)).crashed = false) : Requested moves ms q s p := by
  refine ⟨hr, ⟨?_, fun call hmem => absurd hmem (hcalls call)⟩, hcount, hc⟩
  rw [htasks]
  exact fun e he => absurd he List.not_mem_nil

/-- The second attempt of one request fails, so it gives up the connection that it got. Another request gets
the connection of its transaction twice, with one attempt; if that had failed, it would have got nothing. -/
theorem batch_outcomes_opening :
    replies (play {} refusing) (.start (.acquire threefold) :: List.replicate 3 (.goOn 1)) =
        [(1, .failed (.batch 3 1 (.connection "connection 2 to `b0` refused")))] ∧
      AllOrNothing refusing (List.replicate 3 (.goOn 1)) threefold 0 ∧
      ⟨0, 1⟩ ∉ (play {} (refusing ++
        .start (.acquire threefold) :: List.replicate 3 (.goOn 1))).connections ∧
      replies (play {} opening) (.start (.acquire twofold) :: List.replicate 4 (.goOn 1)) =
        [(1, .connections [⟨0, 1⟩, ⟨0, 1⟩])] ∧
      OneForAll opening (List.replicate 4 (.goOn 1)) twofold 0 ⟨0⟩ 0 ∧
      replies (play {} (opening ++ [.tune 0 none [1]]))
          (.start (.acquire twofold) :: List.replicate 3 (.goOn 1)) =
        [(1, .failed (.batch 2 0 (.connection "connection 1 to `b0` refused")))] := by
  have hthreefold : Requested refusing (List.replicate 3 (.goOn 1)) threefold _ 0 :=
    requested_of_quiet rfl rfl (by simp) (by decide) rfl
  have htwofold : Requested opening (List.replicate 4 (.goOn 1)) twofold _ 0 :=
    requested_of_quiet rfl rfl (by simp) (by decide) rfl
  have hsole : Sole opening (List.replicate 4 (.goOn 1)) twofold 0 ⟨0⟩ :=
    ⟨⟨rfl, rfl, rfl⟩, fun e he => absurd (show e ∈ [] from he) List.not_mem_nil, by simp⟩
  have hplain := (batch_outcomes hthreefold).2.1 fun _ _ _ _ h => by cases h.1
  have hjoint := (batch_outcomes htwofold).2.2 0 ⟨0⟩ hsole
  refine ⟨rfl, hplain, hplain.released (.of_not_mem ?_) _ _ (List.mem_singleton_self _) List.mem_cons_self,
    rfl, hjoint, rfl⟩
  simp [refusing, opening]

end World

end ShardRegistry
