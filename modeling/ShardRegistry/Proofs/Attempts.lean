import ShardRegistry.Proofs.Survival

/-! Attempts at pools. Beside a run stands what one task does in pools: how many of its requests each pool
counts, and what comes of its stays there. What the parts of the task keep of the places where it stands and
of what it did so far, and what the moves of others keep of it, holds of it up to its reply. -/
namespace ShardRegistry

namespace Resources

/-- How many requests a pool has counted. -/
def requestsTo (r : Resources) (p : PoolId) : Nat := ((r.pools[p]?).map (·.attempts)).getD 0

theorem requestsTo_of_pools {r r' : Resources} (h : r'.pools = r.pools) (p : PoolId) :
    r'.requestsTo p = r.requestsTo p := by
  rw [requestsTo, h, requestsTo]

theorem requestsTo_modifyPool (r : Resources) (p : PoolId) {f : Pool → Pool}
    (hf : ∀ x, (f x).attempts = x.attempts) (p' : PoolId) :
    (r.modifyPool p f).requestsTo p' = r.requestsTo p' := by
  simp only [requestsTo, modifyPool, List.getElem?_modify]
  cases r.pools[p']? with
  | none => rfl
  | some x => by_cases hp : p = p' <;> simp [hp, hf]

/-- Whoever comes into a pool makes one request to it. -/
theorem requestsTo_enterPool {r : Resources} {p : PoolId} (hp : p < r.pools.length) (k : TaskId)
    (p' : PoolId) :
    (r.enterPool k p).1.requestsTo p' = r.requestsTo p' + if p' = p then 1 else 0 := by
  have hcounted {f : Pool → Pool} {x : Pool} (hx : r.pools[p]? = some x)
      (hf : (f x).attempts = x.attempts + 1) :
      (r.modifyPool p f).requestsTo p' = r.requestsTo p' + if p' = p then 1 else 0 := by
    by_cases heq : p' = p
    · subst heq
      simp [requestsTo, modifyPool, hx, hf]
    · simp [requestsTo, modifyPool, Ne.symm heq, heq]
  simp only [enterPool]
  split
  · rename_i hnone
    exact absurd hp (Nat.not_lt_of_le (List.getElem?_eq_none_iff.1 hnone))
  · rename_i x hx
    split <;> exact hcounted hx rfl

theorem requestsTo_askPool {r : Resources} {p : PoolId} (hp : p < r.pools.length) (a : Acquisition)
    (k : TaskId) (pins : Option TransactionId) (p' : PoolId) :
    (a.askPool r k p pins).1.requestsTo p' = r.requestsTo p' + if p' = p then 1 else 0 := by
  rw [← requestsTo_enterPool hp k p', Acquisition.askPool]
  split <;> rename_i heq <;> rw [heq]

theorem requestsTo_leavePool (r : Resources) (server : Option Server) (p : PoolId) (n : Nat)
    (p' : PoolId) : (r.leavePool server p n).1.requestsTo p' = r.requestsTo p' := by
  simp only [leavePool]
  split
  · rfl
  · split
    all_goals
      refine requestsTo_modifyPool r p ?_ p'
      exact fun _ => rfl

theorem requestsTo_releasePins (r : Resources) (t : TransactionId) (p : PoolId) :
    (r.releasePins t).requestsTo p = r.requestsTo p :=
  requestsTo_of_pools (r.releasePins_eq t).1.pools p

end Resources

/-! ### Parts of a batch -/

/-- How far a batch is from its end. -/
def Stage.rank (a : Acquisition) : Stage → Nat
  | .pins _ => 2 * (a.count - a.acquired.length) + 1
  | .gate _ _ _ => 2 * (a.count - a.acquired.length)

/-- A batch comes nearer to its end than `n`, as the batch that it is, or is over. It asks for the pins
of its transaction only if that is open, and crashes only if no memory holds it. -/
def Progress.Nears (r : Resources) (a : Acquisition) (n : Nat) : Progress → Prop
  | .waits stage a' | .passes stage a' => stage.rank a' < n ∧ a'.source = a.source ∧
      a'.count = a.count ∧ ∀ t, stage = .pins t → ∃ m o, a.source = .transaction m t o ∧ r.isActive m t = true
  | .done outcome => outcome = .error .crashed → batchLimit ≤ a.count

namespace Acquisition
variable {a : Acquisition} {r r' : Resources} {k : TaskId} {n : Nat}

theorem askPool_nears {p : PoolId} {pins : Option TransactionId}
    (hn : 2 * (a.count - a.acquired.length) < n) : (a.askPool r' k p pins).2.Nears r a n := by
  simp only [askPool]
  split <;> exact ⟨hn, rfl, rfl, fun _ heq => by cases heq⟩

theorem ask_nears (hr : r'.managers = r.managers)
    (hn : a.acquired.length < a.count → 2 * (a.count - a.acquired.length) + 1 < n) :
    (a.ask r' k).2.Nears r a n := by
  simp only [ask]
  split
  · exact fun heq => by cases heq
  · rename_i hmore
    have hn := hn (Nat.lt_of_not_le hmore)
    have hpool {p : PoolId} : (a.askPool r' k p none).2.Nears r a n := askPool_nears (by omega)
    split
    · exact hpool
    · rename_i m t o hsource
      split
      · rename_i hactive
        rw [Resources.isActive_of_managers hr] at hactive
        have hpins : ∀ t', Stage.pins t = .pins t' →
            ∃ m o, a.source = .transaction m t' o ∧ r.isActive m t' = true := by
          rintro _ ⟨⟩
          exact ⟨m, o, hsource, hactive⟩
        dsimp only
        split <;> exact ⟨hn, rfl, rfl, hpins⟩
      · split
        · exact hpool
        all_goals exact fun heq => by cases heq

theorem start_nears (hn : 2 * a.count + 1 < n) : (a.start r k).2.Nears r a n := by
  simp only [start]
  split
  · rename_i hlarge
    simp only [Bool.and_eq_true, decide_eq_true_eq] at hlarge
    exact fun _ => hlarge.2
  · exact ask_nears rfl fun _ => by omega

theorem resume_nears (server : Option Server) (stage : Stage) :
    (a.resume r server k stage).2.Nears r a (stage.rank a) := by
  have hobtain {r' : Resources} {c : Connection} (hr : r'.managers = r.managers) {n : Nat}
      (hn : 2 * (a.count - a.acquired.length) ≤ n) : (a.obtain r' k c).2.Nears r a n := by
    refine ask_nears (a := { a with acquired := a.acquired ++ [c] }) hr fun hless => ?_
    simp only [List.length_append, List.length_singleton] at hless ⊢
    omega
  cases stage with
  | pins t =>
    simp only [resume, afterPins]
    split
    · exact hobtain (r.releasePins_eq t).1.managers (Nat.le_succ _)
    · split
      · exact fun heq => by cases heq
      · exact askPool_nears (Nat.lt_succ_self _)
  | gate p attempt pins =>
    have hleave := congrArg Prod.fst (r.table_leavePool server p attempt)
    simp only [resume, afterGate]
    split <;> rename_i heq <;> rw [heq] at hleave
    · exact fun heq => by cases heq
    · rename_i r' c
      refine hobtain ?_ (Nat.le_refl _)
      cases pins with
      | none => exact hleave
      | some t =>
        exact ((r'.pin t a.backend c).releasePins_eq t).1.managers.trans
          ((r'.pin_eq t a.backend c).1.managers.trans hleave)

end Acquisition

/-- What comes of the stay in a pool of a task that goes on. -/
def TaskState.attempt? (r : Resources) (server : Option Server) :
    TaskState → Option (Except Error Connection)
  | .acquiring _ (.gate p n _) _ => some (r.leavePool server p n).2
  | _ => none

namespace Next

theorem Heads.imp {P P' : TaskState → Prop} {Q Q' : Outcome → Prop} {next : Next} (h : next.Heads P Q)
    (hP : ∀ s, P s → P' s) (hQ : ∀ o, Q o → Q' o) : next.Heads P' Q' := by
  cases next with
  | waits s | passes s => exact hP s h
  | ends o => exact hQ o h
  | crashes => trivial

end Next

namespace World

theorem requestsTo_acquired (w : World) (held : Option LockId) (y : Resources × Progress) (p : PoolId) :
    (w.acquired held y).1.resources.requestsTo p = y.1.requestsTo p := by
  obtain ⟨r, progress⟩ := y
  have hreleased : ((w.owning r).releaseHeld held).resources.requestsTo p = r.requestsTo p := by
    refine Resources.requestsTo_of_pools ?_ p
    cases held with
    | none => rfl
    | some l =>
      simp only [releaseHeld, releaseLock]
      split <;> rfl
  cases progress with
  | waits stage a | passes stage a => rfl
  | done outcome =>
    cases outcome with
    | ok cs => exact hreleased
    | error stop =>
      cases stop with
      | rejected e => exact hreleased
      | crashed => rfl

/-- What comes of the stay of a task in a pool, if it leaves one in a move. -/
def attempt? (k : TaskId) (w : World) : Move → Option (Except Error Connection)
  | .goOn k' => if k' = k then (w.tasks.lookup k).bind fun s =>
      if w.mayGoOn k s then s.attempt? w.resources w.server else none
    else none
  | _ => none

/-- What came of the stays of a task in pools, in their order. -/
def attempts (k : TaskId) (w : World) (ms : List Move) : List (Except Error Connection) :=
  record (attempt? k) w ms

/-- How many requests a pool counts in a move that runs a part of a task. -/
def entries? (k : TaskId) (p : PoolId) (w : World) (mv : Move) : Option Nat :=
  (w.part? mv).bind fun x => if x.1 = k then
    some ((w.move mv).resources.requestsTo p - w.resources.requestsTo p) else none

/-- How many requests of a task a pool counted. -/
def entries (k : TaskId) (p : PoolId) (w : World) (ms : List Move) : Nat :=
  (record (entries? k p) w ms).foldl (· + ·) 0

/-- What a task did in pools: it made `n` requests to one pool and none to others, and its stays that are
over came to this. -/
structure Made (w : World) (k : TaskId) (p : PoolId) (ms : List Move)
    (rs : List (Except Error Connection)) (n : Nat) : Prop where
  attempts : attempts k w ms = rs
  entries : ∀ p', entries k p' w ms = if p' = p then n else 0

section
variable {w : World} {k : TaskId} {p : PoolId} {ms : List Move} {mv : Move}
  {rs : List (Except Error Connection)} {n d : Nat}

theorem play_singleton (hc : w.crashed = false) : w.play [mv] = w.move mv := by
  simp [World.play, hc]

theorem record_singleton {α : Type} (f : World → Move → Option α) (hc : w.crashed = false) :
    record f w [mv] = (f w mv).toList := by
  simp [record, trail, hc]

theorem record_concat {α : Type} (f : World → Move → Option α) (hc : (w.play ms).crashed = false) :
    record f w (ms ++ [mv]) = record f w ms ++ (f (w.play ms) mv).toList := by
  rw [record_append, record_singleton f hc]

theorem entries_concat (hc : (w.play ms).crashed = false) :
    entries k p w (ms ++ [mv]) = entries k p w ms + ((entries? k p (w.play ms) mv).getD 0) := by
  rw [entries, record_concat _ hc, List.foldl_append, entries]
  cases entries? k p (w.play ms) mv <;> rfl

theorem Made.start {call : Call} (hc : w.crashed = false)
    (hd : ∀ p', (w.move (.start call)).resources.requestsTo p' =
      w.resources.requestsTo p' + if p' = p then d else 0) :
    Made w w.started p [.start call] [] d := by
  refine ⟨record_singleton _ hc, fun p' => ?_⟩
  rw [World.entries, record_singleton _ hc, entries?, part?, Option.bind_some, if_pos rfl, hd]
  simp

/-- A part of the task, in which it makes `d` requests. -/
theorem Made.goOn {s : TaskState} (h : Made w k p ms rs n) (hc : (w.play ms).crashed = false)
    (hs : (w.play ms).tasks.lookup k = some s) (hgo : (w.play ms).mayGoOn k s = true)
    (hd : ∀ p', (((w.play ms).without k).advance k s).1.resources.requestsTo p' =
      (w.play ms).resources.requestsTo p' + if p' = p then d else 0) :
    Made w k p (ms ++ [.goOn k])
      (rs ++ (s.attempt? (w.play ms).resources (w.play ms).server).toList) (n + d) := by
  have hpart := part_of_goOn hs hgo
  refine ⟨?_, fun p' => ?_⟩
  · rw [World.attempts, record_concat _ hc, ← World.attempts, h.attempts]
    simp [attempt?, hs, hgo]
  · have hmove : ((w.play ms).move (.goOn k)).resources.requestsTo p' =
        (w.play ms).resources.requestsTo p' + if p' = p then d else 0 := by
      rw [move_of_part hpart, World.resources, registry_put]
      exact hd p'
    rw [entries_concat hc, h.entries, entries?, hpart, Option.bind_some, if_pos rfl, hmove,
      Option.getD_some]
    split <;> omega

/-- A move that runs no part of the task. -/
theorem Made.other (h : Made w k p ms rs n) (hc : (w.play ms).crashed = false)
    (hnot : ∀ x, (w.play ms).part? mv ≠ some (k, x)) : Made w k p (ms ++ [mv]) rs n := by
  refine ⟨?_, fun p' => ?_⟩
  · have hnone : attempt? k (w.play ms) mv = none := by
      cases mv with
      | goOn k' =>
        by_cases hk : k' = k
        · subst hk
          cases hs : (w.play ms).tasks.lookup k' with
          | none => simp [attempt?, hs]
          | some s =>
            by_cases hgo : (w.play ms).mayGoOn k' s = true
            · exact absurd (part_of_goOn hs hgo) (hnot _)
            · simp [attempt?, hs, hgo]
        · simp [attempt?, hk]
      | start _ | cancel _ | beginTransaction _ | surround _ _ _ | tune _ _ _ | collect _ _ => rfl
    rw [World.attempts, record_concat _ hc, hnone, Option.toList_none, List.append_nil]
    exact h.attempts
  · have hnone : entries? k p' (w.play ms) mv = none := by
      cases hpart : (w.play ms).part? mv with
      | none => simp [entries?, hpart]
      | some x =>
        have hk : x.1 ≠ k := by
          rintro rfl
          exact hnot x.2 hpart
        simp [entries?, hpart, hk]
    rw [entries_concat hc, hnone, h.entries]
    rfl

end

/-! ### Company of a task -/

section
variable {keys : List (String × String)} {w : World} {call : Call} {P : List Move → TaskState → Prop}
  {Q : List Move → Outcome → Prop}

theorem started_of_start {ms : List Move} (hs : Sound keys w)
    (hc : (w.play (.start call :: ms)).crashed = false) :
    w.started < (w.play (.start call :: ms)).started := by
  induction ms using List.reverseRecOn with
  | nil =>
    rw [play_singleton (Sound.not_crashed_of_play hc)]
    exact (started_start w call).symm ▸ Nat.lt_succ_self _
  | append_singleton ms mv ih =>
    rw [← List.cons_append] at hc ⊢
    have hw : (w.play (.start call :: ms)).crashed = false := by
      rw [play_append] at hc
      exact Sound.not_crashed_of_play hc
    obtain ⟨_, _, hs'⟩ := hs.play _ hw
    rw [play_snoc_move hw] at hc ⊢
    exact Nat.lt_of_lt_of_le (ih hw) (hs'.started_le mv hc)

/-- A part of a task that was started is one that it goes on with. -/
theorem goOn_of_started {k : TaskId} {mv : Move} {x : World × Next} (hk : k < w.started)
    (hpart : w.part? mv = some (k, x)) : mv = .goOn k ∧ ∃ s, w.tasks.lookup k = some s ∧
      w.mayGoOn k s = true ∧ x = (w.without k).advance k s := by
  cases mv with
  | start call => exact absurd (Prod.mk.inj (Option.some.inj hpart)).1 (Nat.ne_of_gt hk)
  | goOn k' =>
    obtain ⟨s, hlookup, hgo, rfl, rfl⟩ := goOn_of_part hpart
    exact ⟨rfl, s, hlookup, hgo, rfl⟩
  | cancel _ | beginTransaction _ | surround _ _ _ | tune _ _ _ | collect _ _ => cases hpart

/-- Where a part of a task leaves it, and what it replies, after which it is gone. -/
theorem Sound.headed {k : TaskId} {mv : Move} {x : World × Next} {P : TaskState → Prop}
    {Q : Outcome → Prop} (hs : Sound keys w) (hc : (w.move mv).crashed = false)
    (hpart : w.part? mv = some (k, x)) (hheads : x.2.Heads P Q) :
    (∀ s, (k, s) ∈ (w.move mv).tasks → P s) ∧
      ∀ o, w.reply? mv = some (k, o) → Q o ∧ ∀ s, (k, s) ∉ (w.move mv).tasks := by
  have hstate : ∀ s, (k, s) ∈ (w.move mv).tasks → x.2.state? = some s := by
    intro s hmem
    rcases hs.mem_move hc hmem with ⟨_, hnot⟩ | ⟨x', hpart', hstate⟩
    · exact absurd hpart (hnot x)
    · cases hpart.symm.trans hpart'
      exact hstate
  refine ⟨fun s hmem => hheads.state (hstate s hmem), fun o ho => ?_⟩
  obtain ⟨x', hpart', hend⟩ := reply_of_part ho
  cases hpart.symm.trans hpart'
  refine ⟨hheads.outcome hend, fun s hmem => ?_⟩
  have hnone := hstate s hmem
  rw [outcome?_eq_some hend] at hnone
  cases hnone

/-- Following a task from its start together with the moves so far. A task that replied is gone. -/
theorem Sound.accompanied (hs : Sound keys w)
    (hbegin : ({ w with started := w.started + 1 }.begin w.started call).2.Heads (P []) (Q []))
    {ms : List Move} (hc : (w.play (.start call :: ms)).crashed = false)
    (hpart : ∀ ms₁ ms₂ s, ms = ms₁ ++ .goOn w.started :: ms₂ →
      (w.play (.start call :: ms₁)).tasks.lookup w.started = some s →
      (w.play (.start call :: ms₁)).mayGoOn w.started s = true → P ms₁ s →
      (((w.play (.start call :: ms₁)).without w.started).advance w.started s).2.Heads
        (P (ms₁ ++ [.goOn w.started])) (Q (ms₁ ++ [.goOn w.started])))
    (hstays : ∀ ms₁ mv ms₂, ms = ms₁ ++ mv :: ms₂ →
      (∀ x, (w.play (.start call :: ms₁)).part? mv ≠ some (w.started, x)) →
      (∀ s, P ms₁ s → P (ms₁ ++ [mv]) s) ∧ ∀ o, Q ms₁ o → Q (ms₁ ++ [mv]) o) :
    (∀ s, (w.started, s) ∈ (w.play (.start call :: ms)).tasks → P ms s) ∧
      ∀ o, (w.started, o) ∈ replies w (.start call :: ms) →
        Q ms o ∧ ∀ s, (w.started, s) ∉ (w.play (.start call :: ms)).tasks := by
  induction ms using List.reverseRecOn with
  | nil =>
    have hw := Sound.not_crashed_of_play hc
    rw [play_singleton hw] at hc ⊢
    obtain ⟨hP, hQ⟩ := hs.headed hc rfl hbegin
    refine ⟨hP, fun o ho => hQ o ?_⟩
    rw [replies, record_singleton _ hw] at ho
    exact Option.mem_toList.1 ho
  | append_singleton ms mv ih =>
    rw [← List.cons_append] at hc ⊢
    have hw : (w.play (.start call :: ms)).crashed = false := by
      rw [play_append] at hc
      exact Sound.not_crashed_of_play hc
    obtain ⟨hstands, hreplied⟩ := ih hw
      (fun ms₁ ms₂ s heq => hpart ms₁ (ms₂ ++ [mv]) s (by simp [heq]))
      (fun ms₁ mv' ms₂ heq => hstays ms₁ mv' (ms₂ ++ [mv]) (by simp [heq]))
    obtain ⟨_, _, hs'⟩ := hs.play _ hw
    have hreplies : replies w (.start call :: ms ++ [mv]) = replies w (.start call :: ms) ++
        ((w.play (.start call :: ms)).reply? mv).toList := record_concat reply? hw
    rw [hreplies]
    rw [play_snoc_move hw] at hc ⊢
    by_cases hx : ∃ x, (w.play (.start call :: ms)).part? mv = some (w.started, x)
    · obtain ⟨x, hx⟩ := hx
      obtain ⟨rfl, s, hlookup, hgo, rfl⟩ := goOn_of_started (started_of_start hs hw) hx
      have hmem := (lookup_some_iff hs'.nodup w.started s).1 hlookup
      obtain ⟨hP, hQ⟩ := hs'.headed hc hx (hpart ms [] s rfl hlookup hgo (hstands s hmem))
      refine ⟨hP, fun o ho => ?_⟩
      rcases List.mem_append.1 ho with hold | hend
      · exact absurd hmem ((hreplied o hold).2 s)
      · exact hQ o (Option.mem_toList.1 hend)
    · have hnot : ∀ x, (w.play (.start call :: ms)).part? mv ≠ some (w.started, x) :=
        fun x hpart => hx ⟨x, hpart⟩
      obtain ⟨hP, hQ⟩ := hstays ms mv [] rfl hnot
      have hold : ∀ s, (w.started, s) ∈ ((w.play (.start call :: ms)).move mv).tasks →
          (w.started, s) ∈ (w.play (.start call :: ms)).tasks := by
        intro s hmem
        rcases hs'.mem_move hc hmem with ⟨hold, _⟩ | ⟨x, hx', _⟩
        · exact hold
        · exact absurd hx' (hnot x)
      refine ⟨fun s hmem => hP s (hstands s (hold s hmem)), fun o ho => ?_⟩
      rcases List.mem_append.1 ho with ho | hend
      · obtain ⟨ho, hgone⟩ := hreplied o ho
        exact ⟨hQ o ho, fun s hmem => hgone s (hold s hmem)⟩
      · obtain ⟨x, hx', _⟩ := reply_of_part (Option.mem_toList.1 hend)
        exact absurd hx' (hnot x)

end

end World

end ShardRegistry
