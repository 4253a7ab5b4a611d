import ShardRegistry.Proofs.Tenure

/-! Following one task. What the parts of a task keep of the places where it stands, and lead to, holds of
it all along a run. So a request for a backend that has a connection pinned to its open transaction gets
that connection, and a task that took a transaction out of the table of its manager ends it. -/
namespace ShardRegistry

namespace Next
variable {P : TaskState → Prop} {Q : Outcome → Prop}

/-- The task stands at a place of one kind, or ends with an outcome of another. -/
def Heads (P : TaskState → Prop) (Q : Outcome → Prop) : Next → Prop
  | .waits s | .passes s => P s
  | .ends o => Q o
  | .crashes => True

theorem Heads.state {next : Next} (h : next.Heads P Q) {s : TaskState} (hs : next.state? = some s) :
    P s := by
  cases next <;> cases hs <;> exact h

theorem Heads.outcome {next : Next} (h : next.Heads P Q) {o : Outcome}
    (ho : next.outcome? = some o) : Q o := by
  rw [World.outcome?_eq_some ho] at h
  exact h

end Next

namespace World
variable {keys : List (String × String)} {w : World} {k : TaskId} {P : TaskState → Prop}
  {Q : Outcome → Prop}

theorem reply_of_part {mv : Move} {o : Outcome} (h : w.reply? mv = some (k, o)) :
    ∃ x, w.part? mv = some (k, x) ∧ x.2.outcome? = some o := by
  obtain ⟨⟨k', x⟩, hpart, hx⟩ := Option.bind_eq_some_iff.1 h
  obtain ⟨o', ho, heq⟩ := Option.map_eq_some_iff.1 hx
  cases heq
  exact ⟨x, hpart, ho⟩

theorem replies_snoc (w : World) (ms : List Move) (mv : Move) : replies w (ms ++ [mv]) =
    replies w ms ++ if (w.play ms).crashed then [] else ((w.play ms).reply? mv).toList := by
  rw [replies, record_append]
  simp [replies, record, trail]

/-- Following a task that was started. -/
theorem Sound.followed (hs : Sound keys w) (hk : k < w.started) (hP : ∀ s, (k, s) ∈ w.tasks → P s)
    {ms : List Move} (hc : (w.play ms).crashed = false)
    (hpart : ∀ ms₁ mv ms₂, ms = ms₁ ++ mv :: ms₂ → ∀ s, P s →
      (((w.play ms₁).without k).advance k s).2.Heads P Q) :
    k < (w.play ms).started ∧ (∀ s, (k, s) ∈ (w.play ms).tasks → P s) ∧
      ∀ o, (k, o) ∈ replies w ms → Q o := by
  induction ms using List.reverseRecOn with
  | nil => exact ⟨hk, hP, fun _ ho => absurd ho List.not_mem_nil⟩
  | append_singleton ms mv ih =>
    rw [play_append] at hc
    have hw := Sound.not_crashed_of_play hc
    obtain ⟨hk', hstands, hreplies⟩ := ih hw fun ms₁ mv' ms₂ heq =>
      hpart ms₁ mv' (ms₂ ++ [mv]) (by simp [heq])
    obtain ⟨_, _, hs'⟩ := hs.play ms hw
    have hplay : w.play (ms ++ [mv]) = (w.play ms).move mv := play_snoc_move hw
    rw [← play_append, hplay] at hc
    -- a part of the task is one that it goes on with
    have hheads {x : World × Next} (hx : (w.play ms).part? mv = some (k, x)) : x.2.Heads P Q := by
      cases mv with
      | start call => exact absurd (Prod.mk.inj (Option.some.inj hx)).1 (Nat.ne_of_gt hk')
      | goOn k' =>
        obtain ⟨s, hlookup, _, rfl, rfl⟩ := goOn_of_part hx
        exact hpart ms _ [] rfl s (hstands s ((lookup_some_iff hs'.nodup k s).1 hlookup))
      | cancel _ | beginTransaction _ | surround _ _ _ | tune _ _ _ | collect _ _ => cases hx
    refine ⟨hplay ▸ Nat.lt_of_lt_of_le hk' (hs'.started_le mv hc), fun s hmem => ?_, fun o ho => ?_⟩
    · rw [hplay] at hmem
      rcases hs'.mem_move hc hmem with ⟨hold, _⟩ | ⟨x, hx, hstate⟩
      · exact hstands s hold
      · exact (hheads hx).state hstate
    · rw [replies_snoc, hw] at ho
      rcases List.mem_append.1 ho with hold | hnew
      · exact hreplies o hold
      · obtain ⟨x, hx, hend⟩ := reply_of_part (Option.mem_toList.1 hnew)
        exact (hheads hx).outcome hend

/-- Following a task from its start. -/
theorem Sound.followed_start (hs : Sound keys w) {call : Call}
    (hbegin : ({ w with started := w.started + 1 }.begin w.started call).2.Heads P Q) {ms : List Move}
    (hc : (w.play (.start call :: ms)).crashed = false)
    (hpart : ∀ ms₁ mv ms₂, ms = ms₁ ++ mv :: ms₂ → ∀ s, P s →
      (((w.play (.start call :: ms₁)).without w.started).advance w.started s).2.Heads P Q) :
    (∀ s, (w.started, s) ∈ (w.play (.start call :: ms)).tasks → P s) ∧
      ∀ o, (w.started, o) ∈ replies w (.start call :: ms) → Q o := by
  have hw := Sound.not_crashed_of_play hc
  have hplay (ms : List Move) : w.play (.start call :: ms) = (w.move (.start call)).play ms := by
    simp [World.play, hw]
  have hreplies : replies w (.start call :: ms) =
      (w.reply? (.start call)).toList ++ replies (w.move (.start call)) ms := by
    simp [replies, record, trail, tick, hw]
  simp only [hplay] at hc hpart ⊢
  have hmove := Sound.not_crashed_of_play hc
  obtain ⟨_, _, hs'⟩ := hs.move (.start call) hmove
  have hstarted : w.started < (w.move (.start call)).started := by
    rw [started_start]
    exact Nat.lt_succ_self _
  have hstands : ∀ s, (w.started, s) ∈ (w.move (.start call)).tasks → P s := by
    intro s hmem
    rcases hs.mem_move hmove hmem with ⟨hold, _⟩ | ⟨x, hx, hstate⟩
    · exact absurd (hs.started _ hold) (Nat.lt_irrefl _)
    · cases hx
      exact hbegin.state hstate
  obtain ⟨_, hP, hQ⟩ := hs'.followed hstarted hstands hc hpart
  refine ⟨hP, fun o ho => ?_⟩
  rw [hreplies] at ho
  rcases List.mem_append.1 ho with hfirst | hrest
  · obtain ⟨x, hx, hend⟩ := reply_of_part (Option.mem_toList.1 hfirst)
    cases hx
    exact hbegin.outcome hend
  · exact hQ o hrest

end World

/-! ### Requests for a connection that is pinned -/

/-- A batch for an open transaction that has got the one connection so far. -/
structure Acquisition.Repeats (m : ManagerId) (t : TransactionId) (q : AcquireRequest) (c : Connection)
    (a : Acquisition) : Prop where
  source : ∃ o, a.source = .transaction m t o
  backend : a.backend = q.backend
  count : a.count = q.count
  acquired : ∃ n, n ≤ q.count ∧ a.acquired = List.replicate n c

/-- It waits for the pins, to get it once more. -/
def Acquisition.Repeating (m : ManagerId) (t : TransactionId) (q : AcquireRequest) (c : Connection)
    (stage : Stage) (a : Acquisition) : Prop :=
  stage = .pins t ∧ a.Repeats m t q c ∧ a.acquired.length < q.count

/-- It is to get it `n` times more at most. -/
def Acquisition.Lacks (m : ManagerId) (t : TransactionId) (q : AcquireRequest) (c : Connection)
    (n : Nat) (stage : Stage) (a : Acquisition) : Prop :=
  a.Repeating m t q c stage ∧ q.count ≤ a.acquired.length + n

def Progress.Repeats (m : ManagerId) (t : TransactionId) (q : AcquireRequest) (c : Connection) :
    Progress → Prop
  | .waits stage a | .passes stage a => a.Repeating m t q c stage
  | .done (.ok cs) => cs = List.replicate q.count c
  | .done (.error stop) => stop = .crashed

def Progress.Lacks (m : ManagerId) (t : TransactionId) (q : AcquireRequest) (c : Connection) (n : Nat) :
    Progress → Prop
  | .waits stage a | .passes stage a => a.Lacks m t q c n stage
  | .done outcome => outcome = .ok (List.replicate q.count c)

/-- Where the task of such a request stands. -/
def TaskState.Repeats (m : ManagerId) (t : TransactionId) (q : AcquireRequest) (c : Connection) :
    TaskState → Prop
  | .lock q' _ a => q' = q ∧ a.Repeats m t q c
  | .acquiring _ stage a => a.Repeating m t q c stage
  | .settling _ | .turn _ | .loading _ _ _ => False

section
variable {m : ManagerId} {t : TransactionId} {q : AcquireRequest} {c : Connection}

theorem Progress.Lacks.repeats {n : Nat} {p : Progress} (h : p.Lacks m t q c n) :
    p.Repeats m t q c := by
  cases p with
  | waits stage a | passes stage a => exact h.1
  | done outcome =>
    obtain rfl : outcome = .ok (List.replicate q.count c) := h
    rfl

namespace Acquisition
variable {a : Acquisition} {r : Resources} {k : TaskId} {n : Nat}

theorem ask_lacks (h : a.Repeats m t q c) (ht : r.isActive m t = true)
    (hn : q.count ≤ a.acquired.length + n) : (a.ask r k).2.Lacks m t q c n := by
  obtain ⟨o, hsource⟩ := h.source
  obtain ⟨n', hle, hacquired⟩ := h.acquired
  have hcount := h.count
  have hlength : a.acquired.length = n' := by simp [hacquired]
  simp only [ask]
  split
  · have hall : n' = q.count := by omega
    rw [hall] at hacquired
    exact congrArg Except.ok hacquired
  · have hrepeating : a.Repeating m t q c (.pins t) := ⟨rfl, h, by omega⟩
    simp only [hsource, ht, if_true]
    split <;> exact ⟨hrepeating, hn⟩

theorem start_lacks (h : a.Repeats m t q c) (ht : r.isActive m t = true)
    (hn : q.count ≤ a.acquired.length + n) (hlimit : q.count < batchLimit) :
    (a.start r k).2.Lacks m t q c n := by
  have hcount := h.count
  simp only [start]
  split
  · rename_i hlarge
    simp only [Bool.and_eq_true, decide_eq_true_eq] at hlarge
    omega
  · exact ask_lacks h ht hn

theorem start_repeats (h : a.Repeats m t q c) (ht : r.isActive m t = true) :
    (a.start r k).2.Repeats m t q c := by
  simp only [start]
  split
  · rfl
  · exact (ask_lacks h ht (Nat.le_add_left _ _)).repeats

theorem resume_lacks {stage : Stage} (h : a.Repeating m t q c stage) (ht : r.isActive m t = true)
    (hp : r.pinned? t q.backend = some c) (server : Option Server)
    (hn : q.count ≤ a.acquired.length + (n + 1)) :
    (a.resume r server k stage).2.Lacks m t q c n := by
  obtain ⟨rfl, h, hmore⟩ := h
  obtain ⟨n', _, hacquired⟩ := h.acquired
  have hlength : a.acquired.length = n' := by simp [hacquired]
  have hp : r.pinned? t a.backend = some c := h.backend ▸ hp
  simp only [resume, afterPins, hp]
  refine ask_lacks ⟨h.source, h.backend, h.count, n' + 1, by omega, ?_⟩ ?_ ?_
  · simp [hacquired, List.replicate_succ']
  · rw [Resources.isActive_of_managers (r.releasePins_eq t).1.managers]
    exact ht
  · rw [List.length_append, List.length_singleton]
    omega

theorem resume_repeats {stage : Stage} (h : a.Repeating m t q c stage)
    (ht : r.isActive m t = true) (hp : r.pinned? t q.backend = some c) (server : Option Server) :
    (a.resume r server k stage).2.Repeats m t q c :=
  (resume_lacks h ht hp server (n := q.count) (by omega)).repeats

end Acquisition

namespace World
variable {keys : List (String × String)} {w : World} {k : TaskId}

/-- What comes of a batch that repeats the connection. -/
def Repeated (q : AcquireRequest) (c : Connection) (o : Outcome) : Prop :=
  o = .connections (List.replicate q.count c)

theorem acquired_repeats {y : Resources × Progress} (held : Option LockId)
    (h : y.2.Repeats m t q c) :
    (w.acquired held y).2.Heads (TaskState.Repeats m t q c) (Repeated q c) := by
  obtain ⟨r, progress⟩ := y
  cases progress with
  | waits stage a | passes stage a => exact h
  | done outcome =>
    cases outcome with
    | ok cs =>
      have hcs : cs = List.replicate q.count c := h
      exact congrArg ShardRegistry.Outcome.connections hcs
    | error stop =>
      obtain rfl : stop = .crashed := h
      trivial

/-- A manager knows the backends of its schema. -/
theorem Hosts.resolve {schema backend : String} {kind : TransactionKind} (h : w.Hosts schema kind m t)
    (hs : Sound keys w) (hp : w.resources.pinned? t backend = some c) :
    ∃ (s : SchemaContext) (p : PoolId),
      Registry.resolve w.registry.current schema backend = .ok (s, p) ∧
        w.registry.managerOf? s kind = some m := by
  obtain ⟨s, hcurrent, hm⟩ := Registry.transactionManager_ok_iff.1 h.manager
  obtain ⟨m', y, hm', hy, _, _, hpools⟩ := hs.manager hcurrent (Registry.ne_local_of_managerOf? hm)
  cases hm.symm.trans hm'
  have hknown := h.pinned backend c hp
  simp only [Resources.poolOf?, hy, Option.bind_some, hpools, DataSourceMap.pools,
    OrderedMap.find?_map, ne_eq, Option.map_eq_none_iff] at hknown
  obtain ⟨d, hd⟩ := Option.ne_none_iff_exists'.1 hknown
  exact ⟨s.value, d.pool, by simp [Registry.resolve, hcurrent, hd], hm⟩

/-- A request for a backend that has a connection pinned to its transaction. -/
theorem Hosts.begin_repeats (h : w.Hosts q.schema q.kind m t) (hs : Sound keys w)
    (hq : q.transaction = some t) (hp : w.resources.pinned? t q.backend = some c) (n : Nat) :
    ({ w with started := n }.begin k (.acquire q)).2.Heads (TaskState.Repeats m t q c)
      (Repeated q c) := by
  obtain ⟨s, p, hresolve, hm⟩ := h.resolve hs hp
  obtain ⟨a, hadmitted, hrepeats⟩ : ∃ a, w.registry.admit q = .ok a ∧ a.Repeats m t q c := by
    refine ⟨{ backend := q.backend, count := q.count, source := .transaction m t (some p) }, ?_,
      ⟨some p, rfl⟩, rfl, rfl, 0, Nat.zero_le _, rfl⟩
    simp [ Registry.admit, hresolve, hq, hm, bind, Except.bind, pure, Except.pure]
  simp only [World.begin, beginAcquire, hadmitted]
  split
  · rename_i hzero
    exact congrArg (fun n => ShardRegistry.Outcome.connections (List.replicate n c)) hzero.symm
  · split
    · exact acquired_repeats none (Acquisition.start_repeats hrepeats h.active)
    · split <;> exact ⟨rfl, hrepeats⟩

theorem Hosts.advance_repeats (h : w.Hosts q.schema q.kind m t) (hs : Sound keys w)
    (hp : w.resources.pinned? t q.backend = some c) {s : TaskState} (hs' : s.Repeats m t q c) :
    ((w.without k).advance k s).2.Heads (TaskState.Repeats m t q c) (Repeated q c) := by
  cases s with
  | lock q' l a =>
    obtain ⟨rfl, hrepeats⟩ := hs'
    obtain ⟨s, p, hresolve, _⟩ := h.resolve hs hp
    have hresolve : Registry.resolve (w.without k).registry.current q'.schema q'.backend =
        .ok (s, p) := hresolve
    simp only [World.advance, afterLock, hresolve]
    exact acquired_repeats (some l) (Acquisition.start_repeats hrepeats h.active)
  | acquiring held stage a =>
    exact acquired_repeats held (Acquisition.resume_repeats hs' h.active hp _)
  | settling _ | turn _ | loading _ _ _ => exact hs'.elim

/-- As long as the transaction is open, and its schema is not rebuilt, requests for the backend get what
is pinned. -/
theorem Hosts.repeated {moves ms : List Move} (h : (World.play {} moves).Hosts q.schema q.kind m t)
    (hq : q.transaction = some t) (hp : (World.play {} moves).resources.pinned? t q.backend = some c)
    (hc : (World.play {} (moves ++ .start (.acquire q) :: ms)).crashed = false)
    (hr : Spared moves (.start (.acquire q) :: ms) q.schema) (hne : .start (.settle m t) ∉ ms) :
    (∀ s, ((World.play {} moves).started, s) ∈
        (World.play {} (moves ++ .start (.acquire q) :: ms)).tasks → s.Repeats m t q c) ∧
      ∀ o, ((World.play {} moves).started, o) ∈
        replies (World.play {} moves) (.start (.acquire q) :: ms) →
        o = .connections (List.replicate q.count c) := by
  rw [play_append] at hc ⊢
  obtain ⟨_, _, hs⟩ := Sound.start.play moves (Sound.not_crashed_of_play hc)
  refine hs.followed_start (h.begin_repeats hs hq hp _) hc ?_
  rintro ms₁ mv ms₂ rfl s hrepeats
  have hc₁ : (World.play {} (moves ++ .start (.acquire q) :: ms₁)).crashed = false := by
    rw [← List.cons_append, play_append] at hc
    rw [play_append]
    exact Sound.not_crashed_of_play hc
  have hsettle : .start (.settle m t) ∉ Move.start (.acquire q) :: ms₁ := by
    simp only [List.mem_append, not_or] at hne
    simpa using hne.1
  have hr₁ : Spared moves (.start (.acquire q) :: ms₁) q.schema := Spared.initial hr
  have hh := h.play hc₁ hr₁ hsettle
  have hp₁ := pinned_play hp ⟨m, hh.active⟩
  obtain ⟨_, _, hs₁⟩ := Sound.start.play _ hc₁
  rw [play_append] at hh hp₁ hs₁
  exact hh.advance_repeats hs₁ hp₁ hrepeats

end World

end

/-! ### The end of a transaction -/

namespace World
variable {keys : List (String × String)} {w : World} {k : TaskId} {m : ManagerId} {t : TransactionId}

/-- The task that ends an open transaction is not refused. -/
theorem begin_settling (ht : w.resources.isActive m t = true) (n : Nat) :
    ({ w with started := n }.begin k (.settle m t)).2 = .waits (.settling t) ∨
      ({ w with started := n }.begin k (.settle m t)).2 = .passes (.settling t) := by
  cases hd : w.resources.dropTransaction m t with
  | error e =>
    rw [Resources.dropTransaction_error hd] at ht
    cases ht
  | ok r =>
    have hd : (World.resources { w with started := n }).dropTransaction m t = .ok r := hd
    simp only [World.begin, beginSettle, hd]
    split
    · exact .inr rfl
    · exact .inl rfl

/-- It comes to its end. -/
theorem Sound.settles (hs : Sound keys w) (ht : w.resources.isActive m t = true) {ms : List Move}
    (hc : (w.play (.start (.settle m t) :: ms)).crashed = false) :
    (∀ s, (w.started, s) ∈ (w.play (.start (.settle m t) :: ms)).tasks → s = .settling t) ∧
      ∀ o, (w.started, o) ∈ replies w (.start (.settle m t) :: ms) → o = .settled := by
  refine hs.followed_start ?_ hc ?_
  · rcases begin_settling ht (w.started + 1) with hnext | hnext <;> exact hnext ▸ rfl
  · rintro _ _ _ _ _ rfl
    rfl

end World

end ShardRegistry
