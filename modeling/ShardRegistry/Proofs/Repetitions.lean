import ShardRegistry.Proofs.Batches

/-! Batches for an open transaction. If no other call deals with the transaction, all connections of a batch
are the one that is pinned to it for the backend. If none was pinned, it is taken from the pool with the first
attempt, which is the only one; and if that fails, the pins are as they were. -/
namespace ShardRegistry

/-- What a batch for a transaction has got, and what came of its attempts, where `r` was there before the
batch, and `r'` is there now. -/
inductive Shares (r r' : Resources) (t : TransactionId) (b : String) :
    List Connection → List (Except Error Connection) → Prop where
  | found {c : Connection} (n : Nat) (hc : r.pinned? t b = some c)
      (hpins : ∀ b', r'.pinned? t b' = r.pinned? t b') : Shares r r' t b (List.replicate n c) []
  | lacks (hnone : r.pinned? t b = none) (hpins : ∀ b', r'.pinned? t b' = r.pinned? t b') :
      Shares r r' t b [] []
  | drawn {c : Connection} (n : Nat) (hnone : r.pinned? t b = none) (hc : r'.pinned? t b = some c) :
      Shares r r' t b (List.replicate n c) [.ok c]

/-- What a batch of `n` connections for a transaction comes to: as many copies of what was pinned before, or
of what its one attempt gave, or the failure of that attempt, which leaves the pins as they were. -/
inductive SharedEnds (r r' : Resources) (t : TransactionId) (b : String) (n : Nat) :
    List (Except Error Connection) → Outcome → Prop where
  | empty (hzero : n = 0) : SharedEnds r r' t b n [] (.connections [])
  | found {c : Connection} (hc : r.pinned? t b = some c)
      (hpins : ∀ b', r'.pinned? t b' = r.pinned? t b') :
      SharedEnds r r' t b n [] (.connections (List.replicate n c))
  | drawn {c : Connection} (hnone : r.pinned? t b = none) (hc : r'.pinned? t b = some c) :
      SharedEnds r r' t b n [.ok c] (.connections (List.replicate n c))
  | refused (hnone : r.pinned? t b = none) (hpins : ∀ b', r'.pinned? t b' = r.pinned? t b') (e : Error) :
      SharedEnds r r' t b n [.error e] (.failed (if n = 1 then e else .batch n 0 e))

section
variable {r r' r'' : Resources} {t : TransactionId} {b : String} {n : Nat} {c : Connection}
  {cs : List Connection} {rs : List (Except Error Connection)}

namespace Shares

theorem start (hpins : ∀ b', r'.pinned? t b' = r.pinned? t b') : Shares r r' t b [] [] := by
  cases h : r.pinned? t b with
  | none => exact .lacks h hpins
  | some c => exact .found 0 h hpins

theorem of_pins (h : Shares r r' t b cs rs) (hpins : ∀ b', r''.pinned? t b' = r'.pinned? t b') :
    Shares r r'' t b cs rs := by
  cases h with
  | found n hc hsame => exact .found n hc fun b' => (hpins b').trans (hsame b')
  | lacks hnone hsame => exact .lacks hnone fun b' => (hpins b').trans (hsame b')
  | drawn n hnone hc => exact .drawn n hnone ((hpins b).trans hc)

/-- What is pinned is what the batch got before. -/
theorem concat (h : Shares r r' t b cs rs) (hc : r'.pinned? t b = some c) :
    Shares r r' t b (cs ++ [c]) rs := by
  cases h with
  | found n hfound hsame =>
    cases hfound.symm.trans ((hsame b).symm.trans hc)
    rw [← List.replicate_succ']
    exact .found (n + 1) hfound hsame
  | lacks hnone hsame => cases hnone.symm.trans ((hsame b).symm.trans hc)
  | drawn n hnone hdrawn =>
    cases hdrawn.symm.trans hc
    rw [← List.replicate_succ']
    exact .drawn (n + 1) hnone hdrawn

theorem of_none (h : Shares r r' t b cs rs) (hnone : r'.pinned? t b = none) :
    cs = [] ∧ rs = [] ∧ r.pinned? t b = none ∧ ∀ b', r'.pinned? t b' = r.pinned? t b' := by
  cases h with
  | found n hc hsame => cases hc.symm.trans ((hsame b).symm.trans hnone)
  | lacks hnone' hsame => exact ⟨rfl, rfl, hnone', hsame⟩
  | drawn n _ hc => cases hc.symm.trans hnone

theorem ends (h : Shares r r' t b cs rs) (hall : cs.length = n) :
    SharedEnds r r' t b n rs (.connections cs) := by
  subst hall
  cases h with
  | found n hc hsame =>
    rw [List.length_replicate]
    exact .found hc hsame
  | lacks _ _ => exact .empty rfl
  | drawn n hnone hc =>
    rw [List.length_replicate]
    exact .drawn hnone hc

end Shares

theorem SharedEnds.of_pins {o : Outcome} (h : SharedEnds r r' t b n rs o)
    (hpins : ∀ b', r''.pinned? t b' = r'.pinned? t b') : SharedEnds r r'' t b n rs o := by
  cases h with
  | empty hzero => exact .empty hzero
  | found hc hsame => exact .found hc fun b' => (hpins b').trans (hsame b')
  | drawn hnone hc => exact .drawn hnone ((hpins b).trans hc)
  | refused hnone hsame e => exact .refused hnone (fun b' => (hpins b').trans (hsame b')) e

end

namespace World
variable {moves ms : List Move} {q : AcquireRequest} {s : SchemaContext} {p : PoolId} {m : ManagerId}
  {t : TransactionId} {mv : Move} {b : String} {c : Connection}

/-! ### Transactions that nobody else deals with -/

/-- The request names an open transaction, and no other call deals with it. -/
structure Sole (moves ms : List Move) (q : AcquireRequest) (m : ManagerId) (t : TransactionId) : Prop where
  joins : (play {} moves).Joins q m t
  tasks : ∀ e ∈ (play {} moves).tasks, e.2.transaction? ≠ some t
  calls : ∀ call, .start call ∈ ms → call.transaction? ≠ some t

/-- What a task finds that takes a batch for the transaction. -/
structure Serves (w : World) (q : AcquireRequest) (p : PoolId) (m : ManagerId) (t : TransactionId)
    (k : TaskId) : Prop where
  alive : w.crashed = false
  resolve : ∃ s, Registry.resolve w.registry.current q.schema q.backend = .ok (s, p)
  room : p < w.resources.pools.length
  pool : w.resources.poolOf? m q.backend = some p
  active : w.resources.isActive m t = true
  apart : w.Apart k t

theorem Sole.initial {ms' : List Move} (h : Sole moves ms q m t) (hms : ms' <+: ms) :
    Sole moves ms' q m t :=
  ⟨h.joins, h.tasks, fun call hmem => h.calls call (hms.subset hmem)⟩

theorem Sole.apart (h : Sole moves ms q m t) (hr : Requested moves ms q s p) :
    ((play {} moves).play (.start (.acquire q) :: ms)).Apart (play {} moves).started t := by
  obtain ⟨_, hs⟩ := hr.sound
  induction ms using List.reverseRecOn with
  | nil =>
    have halive := hr.alive
    have hw := Sound.not_crashed_of_play halive
    rw [play_singleton hw] at halive ⊢
    exact hs.apart (fun e he ht => absurd ht (h.tasks e he)) halive fun _ _ => .inl rfl
  | append_singleton ms mv ih =>
    have hms : ms <+: ms ++ [mv] := List.prefix_append _ _
    have ih := ih (h.initial hms) (hr.initial hms)
    obtain ⟨_, _, hs'⟩ := hs.play _ (hr.initial hms).alive
    have halive := hr.alive
    rw [← List.cons_append, play_snoc_move (hr.initial hms).alive] at halive ⊢
    refine hs'.apart ih halive ?_
    rintro call rfl
    exact .inr (h.calls call (List.mem_append_right _ (List.mem_singleton_self _)))

theorem Sole.serves (h : Sole moves ms q m t) (hr : Requested moves ms q s p) :
    ((play {} moves).play (.start (.acquire q) :: ms)).Serves q p m t (play {} moves).started := by
  have halive := hr.alive
  obtain ⟨_, hmanager, hactive⟩ := h.joins
  obtain ⟨hresolve, hroom⟩ := hr.resolve
  refine ⟨hr.alive, ⟨s, hresolve⟩, hroom, ?_, ?_, h.apart hr⟩
  · obtain ⟨_, hs⟩ := hr.sound
    obtain ⟨_, _, hs'⟩ := hs.play _ halive
    rw [← play_append] at halive hresolve hs' ⊢
    have hmanager := hr.begun.transactionManager halive hmanager
    obtain ⟨x, hcurrent, hm⟩ := Registry.transactionManager_ok_iff.1 hmanager
    obtain ⟨m', y, hm', hy, _, _, hpools⟩ := hs'.manager hcurrent (Registry.ne_local_of_managerOf? hm)
    cases hm.symm.trans hm'
    simp only [Registry.resolve, hcurrent] at hresolve
    split at hresolve
    · cases hresolve
    · rename_i d hd
      cases hresolve
      simp [Resources.poolOf?, hy, hpools, DataSourceMap.pools, OrderedMap.find?_map, hd]
  · rw [← play_append] at halive ⊢
    refine hr.begun.active halive hmanager hactive fun hmem => ?_
    rcases List.mem_cons.1 hmem with heq | hmem
    · cases heq
    · exact h.calls _ hmem rfl

/-- The pins change only with a connection that the task gets. -/
theorem Sole.pins_snoc (h : Sole moves (ms ++ [mv]) q m t) (hr : Requested moves (ms ++ [mv]) q s p)
    (hnone : ∀ d, ((play {} moves).play (.start (.acquire q) :: ms)).delivery? mv = some d →
      d.drawn = true → d.transaction ≠ some t) (b : String) :
    ((play {} moves).play (.start (.acquire q) :: (ms ++ [mv]))).resources.pinned? t b =
      ((play {} moves).play (.start (.acquire q) :: ms)).resources.pinned? t b := by
  have hopen := (h.serves hr).active
  have hw := (hr.initial (List.prefix_append ms [mv])).alive
  rw [← List.cons_append, play_snoc_move hw] at hopen ⊢
  rw [← play_append] at hopen hnone ⊢
  exact (ordered_play _).pinned_move ⟨m, hopen⟩ hnone b

/-- Others do not change them. -/
theorem Sole.pins_other (h : Sole moves (ms ++ [mv]) q m t) (hr : Requested moves (ms ++ [mv]) q s p)
    (hnot : ∀ x, ((play {} moves).play (.start (.acquire q) :: ms)).part? mv ≠
      some ((play {} moves).started, x)) (b : String) :
    ((play {} moves).play (.start (.acquire q) :: (ms ++ [mv]))).resources.pinned? t b =
      ((play {} moves).play (.start (.acquire q) :: ms)).resources.pinned? t b := by
  refine h.pins_snoc hr (fun d hd _ ht => ?_) b
  have hms : ms <+: ms ++ [mv] := List.prefix_append _ _
  have happart := (h.initial hms).apart (hr.initial hms)
  rw [← play_append] at hnot hd happart
  obtain ⟨x, hx⟩ := (happart.alone (ordered_play _)).part (ordered_play _).tended.nodup hd ht
  exact hnot x hx

/-- What the task draws is pinned. -/
theorem Sole.pinned_drawn (h : Sole moves (ms ++ [mv]) q m t) (hr : Requested moves (ms ++ [mv]) q s p)
    {d : Delivery} (hd : ((play {} moves).play (.start (.acquire q) :: ms)).delivery? mv = some d)
    (hdrawn : d.drawn = true) (ht : d.transaction = some t) :
    ((play {} moves).play (.start (.acquire q) :: (ms ++ [mv]))).resources.pinned? t d.backend =
      some d.connection := by
  have hopen := (h.serves hr).active
  have hw := (hr.initial (List.prefix_append ms [mv])).alive
  rw [← List.cons_append, play_snoc_move hw] at hopen ⊢
  rw [← play_append] at hopen hd ⊢
  exact ((ordered_play _).pinned_move_iff ⟨m, hopen⟩).2 (.inr ⟨d, hd, hdrawn, ht, rfl, rfl⟩)

theorem Sole.pins_start (h : Sole moves [] q m t) (hr : Requested moves [] q s p) (b : String) :
    ((play {} moves).play [.start (.acquire q)]).resources.pinned? t b =
      (play {} moves).resources.pinned? t b := by
  have hopen := (h.serves hr).active
  have hw := Sound.not_crashed_of_play hr.alive
  rw [play_singleton hw] at hopen ⊢
  exact (ordered_play moves).pinned_move ⟨m, hopen⟩ (fun d hd => by cases hd) b

/-! ### Following a batch for a transaction -/

/-- What the batch has got and done so far; `d` of its attempts are under way. -/
structure Shared (w : World) (q : AcquireRequest) (p : PoolId) (t : TransactionId) (ms : List Move)
    (cs : List Connection) (rs : List (Except Error Connection)) (d : Nat) : Prop where
  shares : Shares w.resources (w.play (.start (.acquire q) :: ms)).resources t q.backend cs rs
  made : Made w w.started p (.start (.acquire q) :: ms) rs (rs.length + d)

/-- Where the task of the request stands. -/
def Sharing (w : World) (q : AcquireRequest) (m : ManagerId) (t : TransactionId) (p : PoolId)
    (ms : List Move) : TaskState → Prop
  | .lock q' _ a => q' = q ∧ a = q.batch (.transaction m t (some p)) [] ∧ w.Shared q p t ms [] [] 0
  | .acquiring _ (.pins t') a => t' = t ∧ ∃ cs rs, a = q.batch (.transaction m t (some p)) cs ∧
      cs.length < q.count ∧ w.Shared q p t ms cs rs 0
  | .acquiring _ (.gate p' _ t') a => p' = p ∧ t' = some t ∧
      a = q.batch (.transaction m t (some p)) [] ∧ 0 < q.count ∧ w.Shared q p t ms [] [] 1 ∧
      (w.play (.start (.acquire q) :: ms)).resources.pinned? t q.backend = none
  | .settling _ | .turn _ | .loading _ _ _ => False

/-- What it replies. -/
def SharedReply (w : World) (q : AcquireRequest) (t : TransactionId) (p : PoolId) (ms : List Move)
    (o : Outcome) : Prop :=
  ∃ rs, SharedEnds w.resources (w.play (.start (.acquire q) :: ms)).resources t q.backend q.count rs o ∧
    Made w w.started p (.start (.acquire q) :: ms) rs rs.length

/-- A batch asks for the pins, or has got enough. -/
theorem ask_of_active {r : Resources} (h : r.isActive m t = true) (cs : List Connection) (k : TaskId) :
    (∀ p', ((q.batch (.transaction m t (some p)) cs).ask r k).1.requestsTo p' = r.requestsTo p') ∧
      ∀ (w : World) (held : Option LockId),
        (w.acquired held ((q.batch (.transaction m t (some p)) cs).ask r k)).2.Heads
          (fun s => cs.length < q.count ∧
            s = .acquiring held (.pins t) (q.batch (.transaction m t (some p)) cs))
          (fun o => q.count ≤ cs.length ∧ o = .connections cs) := by
  have hask : (q.batch (.transaction m t (some p)) cs).ask r k = if cs.length ≥ q.count then
      (r, .done (.ok cs)) else (r.requestPins t k, if (r.requestPins t k).holdsPins t k then
        .passes (.pins t) (q.batch (.transaction m t (some p)) cs)
        else .waits (.pins t) (q.batch (.transaction m t (some p)) cs)) := by
    simp [Acquisition.ask, AcquireRequest.batch, h]
  rw [hask]
  split
  · rename_i hle
    exact ⟨fun _ => rfl, fun _ _ => ⟨hle, rfl⟩⟩
  · rename_i hless
    have hless := Nat.lt_of_not_le hless
    refine ⟨fun p' => Resources.requestsTo_of_pools rfl p', fun w held => ?_⟩
    split <;> exact ⟨hless, rfl⟩

/-- After the batch asked for the pins, or had got enough. -/
theorem heads_of_shared (cs : List Connection) {rs : List (Except Error Connection)}
    {held : Option LockId} {next : Next} (hle : cs.length ≤ q.count) {w : World}
    (h : w.Shared q p t ms cs rs 0)
    (hnext : next.Heads
      (fun s => cs.length < q.count ∧
        s = .acquiring held (.pins t) (q.batch (.transaction m t (some p)) cs))
      (fun o => q.count ≤ cs.length ∧ o = .connections cs)) :
    next.Heads (w.Sharing q m t p ms) (w.SharedReply q t p ms) := by
  refine hnext.imp ?_ ?_
  · rintro _ ⟨hless, rfl⟩
    exact ⟨rfl, cs, rs, rfl, hless, h⟩
  · rintro _ ⟨hall, rfl⟩
    exact ⟨rs, h.shares.ends (Nat.le_antisymm hle hall), h.made⟩

theorem Sole.begin_sharing (h : Sole moves [] q m t) (hr : Requested moves [] q s p)
    (hadmitted : Registry.admit (play {} moves).registry q = .ok (q.batch (.transaction m t (some p)) [])) :
    ({ play {} moves with started := (play {} moves).started + 1 }.begin (play {} moves).started
      (.acquire q)).2.Heads ((play {} moves).Sharing q m t p []) ((play {} moves).SharedReply q t p []) := by
  have hshares := Shares.start (b := q.backend) (h.pins_start hr)
  refine hr.begins hadmitted (fun hzero hmade => ⟨[], hshares.ends hzero.symm, hmade⟩) (fun w' hmade => ?_)
    fun l hmade => ⟨rfl, rfl, hshares, hmade⟩
  obtain ⟨hrequests, hnext⟩ := ask_of_active (q := q) (p := p) h.joins.2.2 [] (play {} moves).started
  have hmade := hmade 0 fun p' => by simpa using hrequests p'
  exact heads_of_shared [] (Nat.zero_le _) ⟨hshares, hmade⟩ (hnext w' none)

/-! ### Parts of a batch for a transaction -/

namespace GoesOn

theorem delivery {state : TaskState} (h : GoesOn moves ms q s p state) :
    ((play {} moves).play (.start (.acquire q) :: ms)).delivery? (.goOn (play {} moves).started) =
      state.delivery? ((play {} moves).play (.start (.acquire q) :: ms)).resources
        ((play {} moves).play (.start (.acquire q) :: ms)).server (play {} moves).started := by
  simp [delivery?, h.lookup, h.may]

/-- A part in which the task draws nothing leaves the pins as they are. -/
theorem pins_of_none {state : TaskState} (h : GoesOn moves ms q s p state)
    (hsole : Sole moves (ms ++ [.goOn (play {} moves).started]) q m t)
    (hnone : ∀ d, state.delivery? ((play {} moves).play (.start (.acquire q) :: ms)).resources
      ((play {} moves).play (.start (.acquire q) :: ms)).server (play {} moves).started = some d →
        d.drawn = false) (b : String) :
    ((play {} moves).play (.start (.acquire q) ::
      (ms ++ [.goOn (play {} moves).started]))).resources.pinned? t b =
      ((play {} moves).play (.start (.acquire q) :: ms)).resources.pinned? t b := by
  refine hsole.pins_snoc h.requested (fun d hd hdrawn => ?_) b
  rw [hnone d (h.delivery ▸ hd)] at hdrawn
  cases hdrawn

/-- The batch has its turn under the lock of its backend. -/
theorem sharing_lock {l : LockId}
    (h : GoesOn moves ms q s p (.lock q l (q.batch (.transaction m t (some p)) [])))
    (hsole : Sole moves (ms ++ [.goOn (play {} moves).started]) q m t)
    (hshared : (play {} moves).Shared q p t ms [] [] 0) :
    ((((play {} moves).play (.start (.acquire q) :: ms)).without (play {} moves).started).advance
      (play {} moves).started (.lock q l (q.batch (.transaction m t (some p)) []))).2.Heads
        ((play {} moves).Sharing q m t p (ms ++ [.goOn (play {} moves).started]))
        ((play {} moves).SharedReply q t p (ms ++ [.goOn (play {} moves).started])) := by
  have hserves := (hsole.initial (List.prefix_append _ _)).serves h.before
  obtain ⟨_, hresolve⟩ := hserves.resolve
  obtain ⟨hrequests, hnext⟩ := ask_of_active (q := q) (p := p) hserves.active [] (play {} moves).started
  have hshares := hshared.shares.of_pins (h.pins_of_none hsole fun d hd => by cases hd)
  have hmade := h.made (d := 0) hshared.made
  rw [advance_lock hresolve h.requested.count] at hmade ⊢
  refine heads_of_shared [] (Nat.zero_le _) ⟨hshares, hmade fun p' => ?_⟩ (hnext _ _)
  rw [requestsTo_acquired]
  simpa using hrequests p'

/-- The batch has the pins: it finds its connection there, or asks the pool for it. -/
theorem sharing_pins {held : Option LockId} {cs : List Connection} {rs : List (Except Error Connection)}
    (h : GoesOn moves ms q s p (.acquiring held (.pins t) (q.batch (.transaction m t (some p)) cs)))
    (hsole : Sole moves (ms ++ [.goOn (play {} moves).started]) q m t) (hless : cs.length < q.count)
    (hshared : (play {} moves).Shared q p t ms cs rs 0) :
    ((((play {} moves).play (.start (.acquire q) :: ms)).without (play {} moves).started).advance
      (play {} moves).started
      (.acquiring held (.pins t) (q.batch (.transaction m t (some p)) cs))).2.Heads
        ((play {} moves).Sharing q m t p (ms ++ [.goOn (play {} moves).started]))
        ((play {} moves).SharedReply q t p (ms ++ [.goOn (play {} moves).started])) := by
  have hserves := (hsole.initial (List.prefix_append _ _)).serves h.before
  have hpart (w : World) (k : TaskId) : (w.without k).advance k
      (.acquiring held (.pins t) (q.batch (.transaction m t (some p)) cs)) = (w.without k).acquired held
        ((q.batch (.transaction m t (some p)) cs).afterPins w.resources k t) := rfl
  have hshares := hshared.shares
  have hmade {d : Nat} := h.made (d := d) hshared.made
  have hkept := h.pins_of_none hsole
  simp only [hpart, TaskState.attempt?, TaskState.delivery?, Acquisition.delivery?, Option.toList_none,
    List.append_nil] at hmade hkept ⊢
  generalize (play {} moves).play (.start (.acquire q) :: ms) = w at *
  cases hc : w.resources.pinned? t q.backend with
  | some c =>
    have hafter (k : TaskId) : (q.batch (.transaction m t (some p)) cs).afterPins w.resources k t =
        (q.batch (.transaction m t (some p)) (cs ++ [c])).ask (w.resources.releasePins t) k := by
      simp [Acquisition.afterPins, AcquireRequest.batch, hc, Acquisition.obtain]
    have hactive : (w.resources.releasePins t).isActive m t = true :=
      (Resources.isActive_of_managers (w.resources.releasePins_eq t).1.managers m t).trans hserves.active
    obtain ⟨hrequests, hnext⟩ := ask_of_active (q := q) (p := p) hactive (cs ++ [c]) (play {} moves).started
    have hshares := (hshares.concat hc).of_pins (hkept fun d hd => by
      simp only [AcquireRequest.batch, hc] at hd
      cases hd
      rfl)
    rw [hafter] at hmade ⊢
    refine heads_of_shared (cs ++ [c]) (by simpa using Nat.succ_le_of_lt hless)
      ⟨hshares, hmade (d := 0) fun p' => ?_⟩ (hnext _ _)
    rw [requestsTo_acquired, hrequests, Resources.requestsTo_releasePins]
    simp
  | none =>
    have hafter (k : TaskId) : (q.batch (.transaction m t (some p)) cs).afterPins w.resources k t =
        (q.batch (.transaction m t (some p)) cs).askPool w.resources k p (some t) := by
      have hpool : ((w.resources.managers[m]?).bind fun x => x.pools.find? q.backend) = some p :=
        hserves.pool
      simp [Acquisition.afterPins, AcquireRequest.batch, hc, hpool]
    obtain ⟨rfl, rfl, _⟩ := hshares.of_none hc
    have hkept := hkept fun d hd => by
      simp only [AcquireRequest.batch, hc] at hd
      cases hd
    have hafterwards := hmade (d := 1) fun p' => by
      rw [requestsTo_acquired, hafter, Resources.requestsTo_askPool hserves.room]
    rw [hafter, Acquisition.askPool]
    split <;> exact ⟨rfl, rfl, rfl, Nat.lt_of_le_of_lt (Nat.zero_le _) hless,
      ⟨hshares.of_pins hkept, hafterwards⟩, (hkept _).trans hc⟩

/-- The batch leaves the pool, with the one connection that is then pinned, or with none. -/
theorem sharing_gate {held : Option LockId} {n : Nat}
    (h : GoesOn moves ms q s p
      (.acquiring held (.gate p n (some t)) (q.batch (.transaction m t (some p)) [])))
    (hsole : Sole moves (ms ++ [.goOn (play {} moves).started]) q m t) (hless : 0 < q.count)
    (hshared : (play {} moves).Shared q p t ms [] [] 1)
    (hnone : ((play {} moves).play (.start (.acquire q) :: ms)).resources.pinned? t q.backend = none) :
    ((((play {} moves).play (.start (.acquire q) :: ms)).without (play {} moves).started).advance
      (play {} moves).started
      (.acquiring held (.gate p n (some t)) (q.batch (.transaction m t (some p)) []))).2.Heads
        ((play {} moves).Sharing q m t p (ms ++ [.goOn (play {} moves).started]))
        ((play {} moves).SharedReply q t p (ms ++ [.goOn (play {} moves).started])) := by
  have hserves := (hsole.initial (List.prefix_append _ _)).serves h.before
  have hpart (w : World) (k : TaskId) : (w.without k).advance k
      (.acquiring held (.gate p n (some t)) (q.batch (.transaction m t (some p)) [])) =
        (w.without k).acquired held ((q.batch (.transaction m t (some p)) []).afterGate w.resources
          w.server k p n (some t)) := rfl
  obtain ⟨_, _, hbefore, hsame⟩ := hshared.shares.of_none hnone
  have hmade := h.made (d := 0) hshared.made
  have hkept := h.pins_of_none hsole
  have hpinned := fun d hd => hsole.pinned_drawn h.requested (d := d) (h.delivery.trans hd)
  simp only [hpart, TaskState.attempt?, TaskState.delivery?, Acquisition.delivery?,
    Acquisition.afterGate] at hmade hkept hpinned ⊢
  generalize (play {} moves).play (.start (.acquire q) :: ms) = w at *
  have hleave := w.resources.requestsTo_leavePool w.server p n
  have hmanagers := congrArg Prod.fst (w.resources.table_leavePool w.server p n)
  generalize w.resources.leavePool w.server p n = x at *
  obtain ⟨r, attempt⟩ := x
  cases attempt with
  | error e =>
    have hkept := hkept fun d hd => by cases hd
    have hafter := hmade fun p' => by
      rw [requestsTo_acquired, Resources.requestsTo_releasePins]
      simpa using hleave p'
    refine ⟨[.error e], .refused hbefore (fun b' => (hkept b').trans (hsame b')) e, ?_⟩
    simpa using hafter
  | ok c =>
    have hactive : ((r.pin t q.backend c).releasePins t).isActive m t = true := by
      rw [Resources.isActive_of_managers ((r.pin t q.backend c).releasePins_eq t).1.managers,
        Resources.isActive_of_managers (r.pin_eq t q.backend c).1.managers,
        Resources.isActive_of_managers hmanagers]
      exact hserves.active
    obtain ⟨hrequests, hnext⟩ := ask_of_active (q := q) (p := p) hactive [c] (play {} moves).started
    have hafter := hmade fun p' => by
      rw [requestsTo_acquired]
      refine (hrequests p').trans ?_
      rw [Resources.requestsTo_releasePins,
        Resources.requestsTo_of_pools (r.pin_eq t q.backend c).1.pools]
      simpa using hleave p'
    refine heads_of_shared [c] hless ⟨.drawn 1 hbefore (hpinned _ rfl rfl rfl), ?_⟩ (hnext _ _)
    simpa using hafter

/-- One more part of the batch. -/
theorem sharing {state : TaskState} (h : GoesOn moves ms q s p state)
    (hsole : Sole moves (ms ++ [.goOn (play {} moves).started]) q m t)
    (hsharing : (play {} moves).Sharing q m t p ms state) :
    ((((play {} moves).play (.start (.acquire q) :: ms)).without (play {} moves).started).advance
      (play {} moves).started state).2.Heads
        ((play {} moves).Sharing q m t p (ms ++ [.goOn (play {} moves).started]))
        ((play {} moves).SharedReply q t p (ms ++ [.goOn (play {} moves).started])) := by
  cases state with
  | lock q' l a =>
    obtain ⟨rfl, rfl, hshared⟩ := hsharing
    exact h.sharing_lock hsole hshared
  | acquiring held stage a =>
    cases stage with
    | pins t' =>
      obtain ⟨rfl, cs, rs, rfl, hless, hshared⟩ := hsharing
      exact h.sharing_pins hsole hless hshared
    | gate p' n t' =>
      obtain ⟨rfl, rfl, rfl, hless, hshared, hnone⟩ := hsharing
      exact h.sharing_gate hsole hless hshared hnone
  | settling _ | turn _ | loading _ _ _ => exact hsharing.elim

end GoesOn

theorem Sole.admits (h : Sole moves ms q m t) (hr : Requested moves ms q s p) :
    Registry.admit (play {} moves).registry q = .ok (q.batch (.transaction m t (some p)) []) := by
  obtain ⟨ht, hmanager, _⟩ := h.joins
  obtain ⟨x, hcurrent, hm⟩ := Registry.transactionManager_ok_iff.1 hmanager
  have hpublished := hr.published
  simp only [Registry.resolve, hcurrent] at hpublished
  split at hpublished
  · cases hpublished
  · cases hpublished
    simp [ Registry.admit, hr.published, ht, hm, bind, Except.bind, pure, Except.pure,
      AcquireRequest.batch]

/-- Moves of others. -/
theorem Sole.other_sharing (h : Sole moves (ms ++ [mv]) q m t) (hr : Requested moves (ms ++ [mv]) q s p)
    (hnot : ∀ x, ((play {} moves).play (.start (.acquire q) :: ms)).part? mv ≠
      some ((play {} moves).started, x)) :
    (∀ state, (play {} moves).Sharing q m t p ms state →
      (play {} moves).Sharing q m t p (ms ++ [mv]) state) ∧
    ∀ o, (play {} moves).SharedReply q t p ms o → (play {} moves).SharedReply q t p (ms ++ [mv]) o := by
  have hkept := h.pins_other hr hnot
  have hother {rs : List (Except Error Connection)} {n : Nat}
      (hmade : Made (play {} moves) (play {} moves).started p (.start (.acquire q) :: ms) rs n) :
      Made (play {} moves) (play {} moves).started p (.start (.acquire q) :: (ms ++ [mv])) rs n :=
    hmade.other (hr.initial (List.prefix_append _ _)).alive hnot
  have hshared {cs : List Connection} {rs : List (Except Error Connection)} {d : Nat}
      (hshared : (play {} moves).Shared q p t ms cs rs d) :
      (play {} moves).Shared q p t (ms ++ [mv]) cs rs d :=
    ⟨hshared.shares.of_pins hkept, hother hshared.made⟩
  refine ⟨fun state hsharing => ?_, fun o ⟨rs, hends, hmade⟩ => ⟨rs, hends.of_pins hkept, hother hmade⟩⟩
  cases state with
  | lock q' l a =>
    obtain ⟨rfl, rfl, hold⟩ := hsharing
    exact ⟨rfl, rfl, hshared hold⟩
  | acquiring held stage a =>
    cases stage with
    | pins t' =>
      obtain ⟨rfl, cs, rs, rfl, hless, hold⟩ := hsharing
      exact ⟨rfl, cs, rs, rfl, hless, hshared hold⟩
    | gate p' n t' =>
      obtain ⟨rfl, rfl, rfl, hless, hold, hnone⟩ := hsharing
      exact ⟨rfl, rfl, rfl, hless, hshared hold, (hkept _).trans hnone⟩
  | settling _ | turn _ | loading _ _ _ => exact hsharing

/-- After all moves: where the task of the request stands, and what it replied. -/
theorem Sole.sharing (h : Sole moves ms q m t) (hr : Requested moves ms q s p) :
    (∀ state, ((play {} moves).started, state) ∈
      ((play {} moves).play (.start (.acquire q) :: ms)).tasks →
        (play {} moves).Sharing q m t p ms state) ∧
    ∀ o, ((play {} moves).started, o) ∈ replies (play {} moves) (.start (.acquire q) :: ms) →
      (play {} moves).SharedReply q t p ms o ∧
      ∀ state, ((play {} moves).started, state) ∉
        ((play {} moves).play (.start (.acquire q) :: ms)).tasks := by
  refine hr.follows ?_ (fun ms₁ state hms hgoes => hgoes.sharing (h.initial hms)) fun ms₁ mv hms =>
    (h.initial hms).other_sharing (hr.initial hms)
  exact (h.initial List.nil_prefix).begin_sharing (hr.initial List.nil_prefix) (h.admits hr)

/-- The task replies when it goes on often enough. -/
theorem Sole.sharing_arrives {state : TaskState} (h : Sole moves ms q m t) (hr : Requested moves ms q s p)
    (hmem : ((play {} moves).started, state) ∈ ((play {} moves).play (.start (.acquire q) :: ms)).tasks)
    (hturn : ((play {} moves).play (.start (.acquire q) :: ms)).Turn (play {} moves).started state) :
    ∃ j o, ((play {} moves).started, o) ∈
      replies ((play {} moves).play (.start (.acquire q) :: ms))
        (List.replicate j (.goOn (play {} moves).started)) := by
  have hsharing := (h.sharing hr).1 state hmem
  have halive := hr.alive
  have hserves := h.serves hr
  rw [← play_append] at hmem hturn halive hserves ⊢
  have halone := hserves.apart.alone (ordered_play _)
  have hclears (cs : List Connection) : (play {} (moves ++ .start (.acquire q) :: ms)).Clears
      (play {} moves).started (q.batch (.transaction m t (some p)) cs) := by
    rintro m' t' o hsource _
    cases hsource
    exact halone
  cases state with
  | lock q' l a =>
    obtain ⟨rfl, rfl, _⟩ := hsharing
    exact arrives_of_lock halive hmem hturn hr.count (hclears [])
  | acquiring held stage a =>
    have harrives {cs : List Connection} (ha : a = q.batch (.transaction m t (some p)) cs)
        (hstage : ∀ t', stage = .pins t' → t' = t) : ∃ j o, ((play {} moves).started, o) ∈
        replies (play {} (moves ++ .start (.acquire q) :: ms))
          (List.replicate j (.goOn (play {} moves).started)) := by
      subst ha
      refine Nearing.arrives ⟨halive, held, stage, _, hmem, Nat.lt_succ_self _, hr.count, ?_, hclears cs⟩
      exact fun t' ht => hstage t' ht ▸ halone
    cases stage with
    | pins t' =>
      obtain ⟨rfl, cs, _, ha, _⟩ := hsharing
      exact harrives ha fun _ heq => by cases heq; rfl
    | gate p' n t' =>
      obtain ⟨_, _, ha, _⟩ := hsharing
      exact harrives ha fun _ heq => by cases heq
  | settling _ | turn _ | loading _ _ _ => exact hsharing.elim

end World

end ShardRegistry
