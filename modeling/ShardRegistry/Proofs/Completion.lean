import ShardRegistry.Proofs.Following

/-! Completion. A task that asks for the pins of a transaction has them as soon as nobody else deals with
them. So one that ends the transaction ends it when it goes on, and a request for a connection that is
pinned gets it as often as it asked for when it goes on often enough. -/
namespace ShardRegistry

namespace World
variable {keys : List (String × String)} {w : World} {k : TaskId} {m : ManagerId} {t : TransactionId}

/-! ### Pins that nobody else deals with -/

theorem pinsOf_of_role {s : TaskState} {ρ : Role} (h : s.role? = some ρ) :
    pinsOf s = some ρ.transaction := by
  cases s with
  | acquiring held stage a =>
    cases stage with
    | pins t' =>
      cases h
      rfl
    | gate p n o =>
      cases o with
      | none => cases h
      | some t' =>
        cases h
        rfl
  | settling t' =>
    cases h
    rfl
  | lock _ _ _ | turn _ | loading _ _ _ => cases h

/-- No other task has the pins of the transaction or waits for them. -/
def Alone (w : World) (k : TaskId) (t : TransactionId) : Prop :=
  ∀ e ∈ w.tasks, pinsOf e.2 = some t → e.1 = k

section
variable {H : List Delivery} {C : List (TaskId × Call)} {O : List (TaskId × Outcome)}

/-- Whoever waits for a lock that nobody has would have it. -/
theorem Ordered.holdsPins (h : w.Ordered H C O) {s : TaskState} {ρ : Role} (hmem : (k, s) ∈ w.tasks)
    (hρ : s.role? = some ρ) (halone : w.Alone k ρ.transaction) :
    w.resources.holdsPins ρ.transaction k = true := by
  have hrole : (k, ρ) ∈ w.roles := mem_roles_iff.2 ⟨s, hmem, hρ⟩
  obtain ⟨x, hx⟩ := Option.ne_none_iff_exists'.1 (h.affine.queued.known _ hrole)
  have hserved := h.affine.queued.served _ x hx
  have hin : k ∈ x.queue := (hserved.mem k).2 ⟨_, hrole, rfl⟩
  refine Resources.holdsPins_iff.2 ⟨x, hx, ?_⟩
  cases hholder : x.holder with
  | none =>
    rw [Mutex.queue, hholder, hserved.fair hholder] at hin
    cases hin
  | some k' =>
    have hin' : k' ∈ x.queue := by simp [Mutex.queue, hholder]
    obtain ⟨ρ', hρ', heq⟩ := (hserved.mem k').1 hin'
    obtain ⟨s', hs', hrole'⟩ := mem_roles_iff.1 hρ'
    exact congrArg some (halone _ hs' (heq ▸ pinsOf_of_role hrole'))

theorem Ordered.settles (h : w.Ordered H C O) (hmem : (k, .settling t) ∈ w.tasks)
    (halone : w.Alone k t) : w.reply? (.goOn k) = some (k, .settled) := by
  have hgo : w.mayGoOn k (.settling t) = true := h.holdsPins (ρ := .settles t) hmem rfl halone
  rw [reply?, part_of_goOn ((lookup_some_iff h.tended.nodup k _).2 hmem) hgo]
  rfl

/-- Others do not come to deal with them when the task goes on. -/
theorem Sound.alone_goOn (hs : Sound keys w) (hc : (w.move (.goOn k)).crashed = false)
    (halone : w.Alone k t) : (w.move (.goOn k)).Alone k t := by
  intro e he hp
  rcases hs.mem_move hc he with ⟨hold, _⟩ | ⟨x, hpart, _⟩
  · exact halone e hold hp
  · obtain ⟨_, _, _, hk, _⟩ := goOn_of_part hpart
    exact hk

end

/-! ### Requests for a connection that is pinned -/

/-- A task waits for the pins of an open transaction alone, to get the connection that is pinned to it
`n` times more at most. -/
structure Awaits (w : World) (schema : String) (kind : TransactionKind) (m : ManagerId)
    (t : TransactionId) (q : AcquireRequest) (c : Connection) (k : TaskId) (n : Nat) : Prop where
  alive : w.crashed = false
  hosts : w.Hosts schema kind m t
  pinned : w.resources.pinned? t q.backend = some c
  alone : w.Alone k t
  stands : ∃ held stage a, (k, .acquiring held stage a) ∈ w.tasks ∧ a.Lacks m t q c n stage

/-- What a part of such a task comes to. -/
def Lessens (m : ManagerId) (t : TransactionId) (q : AcquireRequest) (c : Connection) (n : Nat)
    (x : World × Next) : Prop :=
  x.2 = .ends (.connections (List.replicate q.count c)) ∨
    x.1.crashed = false ∧ ∃ held stage a, x.2.state? = some (.acquiring held stage a) ∧
      a.Lacks m t q c n stage

section
variable {q : AcquireRequest} {c : Connection} {schema : String} {kind : TransactionKind} {n : Nat}
  {moves : List Move}

theorem acquired_lessens (hc : w.crashed = false) (held : Option LockId) {y : Resources × Progress}
    (h : y.2.Lacks m t q c n) : Lessens m t q c n (w.acquired held y) := by
  obtain ⟨r, progress⟩ := y
  cases progress with
  | waits stage a | passes stage a => exact .inr ⟨hc, held, stage, a, rfl, h⟩
  | done outcome =>
    obtain rfl : outcome = .ok (List.replicate q.count c) := h
    exact .inl rfl

/-- A batch under the lock of its backend. -/
theorem Hosts.lock_lessens (h : w.Hosts q.schema q.kind m t) (hs : Sound keys w)
    (hc : w.crashed = false) (hp : w.resources.pinned? t q.backend = some c) {l : LockId}
    {a : Acquisition} (hrepeats : a.Repeats m t q c) (hlimit : q.count < batchLimit) :
    Lessens m t q c q.count ((w.without k).advance k (.lock q l a)) := by
  obtain ⟨s, p, hresolve, _⟩ := h.resolve hs hp
  have hresolve : Registry.resolve (w.without k).registry.current q.schema q.backend = .ok (s, p) :=
    hresolve
  simp only [World.advance, afterLock, hresolve]
  exact acquired_lessens (w := w.without k) hc (some l)
    (Acquisition.start_lacks hrepeats h.active (Nat.le_add_left _ _) hlimit)

/-- The part of the task replies, or the task still waits. -/
theorem Hosts.goOn_lessens (h : (World.play {} moves).Hosts schema kind m t)
    (hc : (World.play {} moves).crashed = false)
    (hp : (World.play {} moves).resources.pinned? t q.backend = some c)
    (halone : (World.play {} moves).Alone k t) {x : World × Next}
    (hpart : (World.play {} moves).part? (.goOn k) = some (k, x)) (hx : Lessens m t q c n x) :
    (World.play {} moves).reply? (.goOn k) = some (k, .connections (List.replicate q.count c)) ∨
      (World.play {} (moves ++ [.goOn k])).Awaits schema kind m t q c k n := by
  rcases hx with hends | ⟨hcrashed, held, stage, a, hstate, hlacks⟩
  · left
    simp [reply?, hpart, hends, Next.outcome?]
  · right
    have hmove := move_of_part hpart
    have hput : ((World.play {} moves).move (.goOn k)).crashed = false ∧
        (k, .acquiring held stage a) ∈ ((World.play {} moves).move (.goOn k)).tasks := by
      rw [hmove]
      obtain ⟨w', next⟩ := x
      cases next <;> cases hstate <;> exact ⟨hcrashed, List.mem_append_right _ (by simp)⟩
    have hspared : ¬ (World.play {} moves).Rebuilds (calls {} moves) schema (.goOn k) := by
      refine not_rebuilds_of_part hpart fun _ _ _ _ _ hend => ?_
      rw [outcome?_eq_some hend] at hstate
      cases hstate
    obtain ⟨_, _, hs⟩ := Sound.start.play moves hc
    have hhosts := h.move hs (ordered_play moves) (.of_play kept_carries _ hc) hput.1 hspared (by simp)
    have halone' := hs.alone_goOn hput.1 halone
    rw [← play_snoc_move hc] at hput hhosts halone'
    exact ⟨hput.1, hhosts, pinned_play hp ⟨m, hhosts.active⟩, halone', held, stage, a, hput.2, hlacks⟩

theorem replies_of_goOn (hc : w.crashed = false) {o : Outcome}
    (h : w.reply? (.goOn k) = some (k, o) ∨
      ∃ j, (k, o) ∈ replies (w.move (.goOn k)) (List.replicate j (.goOn k))) :
    ∃ j, (k, o) ∈ replies w (List.replicate j (.goOn k)) := by
  rcases h with hreply | ⟨j, hj⟩
  · exact ⟨1, mem_record_iff.2 ⟨[], .goOn k, [], rfl, hc, hreply⟩⟩
  · refine ⟨j + 1, ?_⟩
    have hsplit : List.replicate (j + 1) (Move.goOn k) = [.goOn k] ++ List.replicate j (.goOn k) := rfl
    have hplay : w.play [.goOn k] = w.move (.goOn k) := by simp [World.play, hc]
    rw [hsplit, replies, record_append, hplay]
    exact List.mem_append_right _ hj

/-- By induction on how often the connection is still to be got. -/
theorem Awaits.completes (h : (World.play {} moves).Awaits schema kind m t q c k n) :
    ∃ j, (k, .connections (List.replicate q.count c)) ∈
      replies (World.play {} moves) (List.replicate j (.goOn k)) := by
  induction n generalizing moves with
  | zero =>
    obtain ⟨_, _, _, _, ⟨_, _, hmore⟩, hn⟩ := h.stands
    omega
  | succ n ih =>
    obtain ⟨held, stage, a, hmem, ⟨rfl, hrepeats, hmore⟩, hn⟩ := h.stands
    have ho := ordered_play moves
    have hgo : (World.play {} moves).mayGoOn k (.acquiring held (.pins t) a) = true :=
      ho.holdsPins (ρ := .gets t) hmem rfl h.alone
    have hpart := part_of_goOn ((lookup_some_iff ho.tended.nodup k _).2 hmem) hgo
    have hlacks := Acquisition.resume_lacks (k := k) (r := (World.play {} moves).resources)
      ⟨rfl, hrepeats, hmore⟩ h.hosts.active h.pinned (World.play {} moves).server hn
    have hx := acquired_lessens (w := (World.play {} moves).without k) h.alive held hlacks
    refine replies_of_goOn h.alive ((h.hosts.goOn_lessens h.alive h.pinned h.alone hpart hx).imp_right ?_)
    intro hawaits
    rw [← play_snoc_move h.alive]
    exact ih hawaits

/-- A request is replied to, from the place where it stands. Under a lock it has to be its turn first. -/
theorem Hosts.completes (h : (World.play {} moves).Hosts q.schema q.kind m t)
    (hc : (World.play {} moves).crashed = false)
    (hp : (World.play {} moves).resources.pinned? t q.backend = some c)
    (halone : (World.play {} moves).Alone k t) {s : TaskState}
    (hmem : (k, s) ∈ (World.play {} moves).tasks) (hs : s.Repeats m t q c)
    (hturn : ∀ q' l a, s = .lock q' l a → (World.play {} moves).holdsLock l k = true)
    (hlimit : q.count < batchLimit) :
    ∃ j, (k, .connections (List.replicate q.count c)) ∈
      replies (World.play {} moves) (List.replicate j (.goOn k)) := by
  cases s with
  | lock q' l a =>
    obtain ⟨rfl, hrepeats⟩ := hs
    obtain ⟨_, _, hsound⟩ := Sound.start.play moves hc
    have hpart := part_of_goOn ((lookup_some_iff hsound.nodup k _).2 hmem) (hturn _ _ _ rfl)
    have hx := h.lock_lessens (k := k) hsound hc hp (l := l) hrepeats hlimit
    refine replies_of_goOn hc ((h.goOn_lessens hc hp halone hpart hx).imp_right fun hawaits => ?_)
    rw [← play_snoc_move hc]
    exact hawaits.completes
  | acquiring held stage a =>
    exact Awaits.completes ⟨hc, h, hp, halone, held, stage, a, hmem, hs, Nat.le_add_left _ _⟩
  | settling _ | turn _ | loading _ _ _ => exact hs.elim

end

end World

end ShardRegistry
