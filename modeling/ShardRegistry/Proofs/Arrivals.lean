import ShardRegistry.Proofs.Undisturbed

/-! Arrivals. A batch comes nearer to its end with every part of its task. So its task replies when it goes
on often enough, if no other task has the pins that it asks for, and it has its turn under the lock of its
backend. -/
namespace ShardRegistry

namespace World
variable {w : World} {k : TaskId} {moves : List Move} {a : Acquisition} {held : Option LockId} {n : Nat}

/-- Nobody else deals with the transaction of a batch while it is open. -/
def Clears (w : World) (k : TaskId) (a : Acquisition) : Prop :=
  ∀ m t o, a.source = .transaction m t o → w.resources.isActive m t = true → w.Alone k t

/-- A task takes a batch that is nearer to its end than `n`, and nobody is in its way. -/
structure Nearing (w : World) (k : TaskId) (n : Nat) : Prop where
  alive : w.crashed = false
  stands : ∃ held stage a, (k, .acquiring held stage a) ∈ w.tasks ∧ stage.rank a < n ∧
    a.count < batchLimit ∧ (∀ t, stage = .pins t → w.Alone k t) ∧ w.Clears k a

/-- A part of the task replies, or brings it nearer to its end. -/
theorem nearing_of_part (hc : (play {} moves).crashed = false) {y : Resources × Progress}
    (hpart : (play {} moves).part? (.goOn k) = some (k, ((play {} moves).without k).acquired held y))
    (hy : y.2.Nears (play {} moves).resources a n)
    (hmanagers : y.1.managers = (play {} moves).resources.managers)
    (hlimit : a.count < batchLimit) (hclears : (play {} moves).Clears k a) :
    (∃ o, (play {} moves).reply? (.goOn k) = some (k, o)) ∨
      (play {} (moves ++ [.goOn k])).Nearing k n := by
  obtain ⟨_, _, hs⟩ := Sound.start.play moves hc
  have hmove := move_of_part hpart
  have hstays {r : Resources} {stage : Stage} {a' : Acquisition}
      (hmove : (play {} moves).move (.goOn k) =
        { ((play {} moves).without k).owning r with
          tasks := ((play {} moves).without k).tasks ++ [(k, .acquiring held stage a')] })
      (hr : r.managers = (play {} moves).resources.managers) (h : stage.rank a' < n ∧
        a'.source = a.source ∧ a'.count = a.count ∧ ∀ t, stage = .pins t →
          ∃ m o, a.source = .transaction m t o ∧ (play {} moves).resources.isActive m t = true) :
      (play {} (moves ++ [.goOn k])).Nearing k n := by
    obtain ⟨hrank, hsource, hcount, hpins⟩ := h
    have hc' : ((play {} moves).move (.goOn k)).crashed = false := by
      rw [hmove]
      exact hc
    have halone {t : TransactionId} (h : (play {} moves).Alone k t) :
        ((play {} moves).move (.goOn k)).Alone k t := hs.alone_goOn hc' h
    have hactive (m : ManagerId) (t : TransactionId) :
        ((play {} moves).move (.goOn k)).resources.isActive m t =
          (play {} moves).resources.isActive m t := by
      rw [hmove]
      exact Resources.isActive_of_managers hr m t
    rw [play_snoc_move hc]
    refine ⟨hc', held, stage, a', ?_, hrank, hcount ▸ hlimit, fun t ht => ?_, fun m t o ht hopen => ?_⟩
    · rw [hmove]
      exact List.mem_append_right _ (List.mem_singleton_self _)
    · obtain ⟨m, o, hat, hopen⟩ := hpins t ht
      exact halone (hclears m t o hat hopen)
    · exact halone (hclears m t o (hsource ▸ ht) (hactive m t ▸ hopen))
  obtain ⟨r, progress⟩ := y
  cases progress with
  | waits stage a' | passes stage a' => exact .inr (hstays hmove hmanagers hy)
  | done outcome =>
    left
    cases outcome with
    | ok cs => exact ⟨.connections cs, by simp [reply?, hpart, acquired, Next.outcome?]⟩
    | error stop =>
      cases stop with
      | rejected e => exact ⟨.failed e, by simp [reply?, hpart, acquired, Next.outcome?]⟩
      | crashed => exact absurd (hy rfl) (Nat.not_le_of_lt hlimit)

theorem replies_of_nearing (hc : (play {} moves).crashed = false)
    (h : (∃ o, (play {} moves).reply? (.goOn k) = some (k, o)) ∨
      ∃ j o, (k, o) ∈ replies (play {} (moves ++ [.goOn k])) (List.replicate j (.goOn k))) :
    ∃ j o, (k, o) ∈ replies (play {} moves) (List.replicate j (.goOn k)) := by
  rw [play_snoc_move hc] at h
  rcases h with ⟨o, ho⟩ | ⟨j, o, ho⟩
  · obtain ⟨j, hj⟩ := replies_of_goOn hc (.inl ho)
    exact ⟨j, o, hj⟩
  · obtain ⟨j, hj⟩ := replies_of_goOn hc (.inr ⟨j, ho⟩)
    exact ⟨j, o, hj⟩

/-- By induction on how far the batch is from its end. -/
theorem Nearing.arrives (h : (World.play {} moves).Nearing k n) :
    ∃ j o, (k, o) ∈ replies (World.play {} moves) (List.replicate j (.goOn k)) := by
  induction n generalizing moves with
  | zero =>
    obtain ⟨_, _, _, _, hrank, _⟩ := h.stands
    exact absurd hrank (Nat.not_lt_zero _)
  | succ n ih =>
    obtain ⟨held, stage, a, hmem, hrank, hlimit, halone, hclears⟩ := h.stands
    have ho := ordered_play moves
    have hgo : (World.play {} moves).mayGoOn k (.acquiring held stage a) = true := by
      cases stage with
      | pins t => exact ho.holdsPins (ρ := .gets t) hmem rfl (halone t rfl)
      | gate p attempt pins => rfl
    have hpart := part_of_goOn ((lookup_some_iff ho.tended.nodup k _).2 hmem) hgo
    have hnears := a.resume_nears (r := (World.play {} moves).resources) (k := k)
      (World.play {} moves).server stage
    have hmanagers := congrArg Prod.fst
      (a.table_resume (World.play {} moves).resources k (World.play {} moves).server stage)
    refine replies_of_nearing h.alive
      ((nearing_of_part h.alive hpart hnears hmanagers hlimit hclears).imp_right fun hnext => ih ?_)
    obtain ⟨held', stage', a', hmem', hrank', hrest⟩ := hnext.stands
    exact ⟨hnext.alive, held', stage', a', hmem', Nat.lt_of_lt_of_le hrank' (Nat.le_of_lt_succ hrank), hrest⟩

/-- A batch under the lock of its backend has to have its turn first. -/
theorem arrives_of_lock (hc : (play {} moves).crashed = false) {q : AcquireRequest} {l : LockId}
    (hmem : (k, .lock q l a) ∈ (play {} moves).tasks) (hturn : (play {} moves).holdsLock l k = true)
    (hlimit : a.count < batchLimit) (hclears : (play {} moves).Clears k a) :
    ∃ j o, (k, o) ∈ replies (play {} moves) (List.replicate j (.goOn k)) := by
  have ho := ordered_play moves
  have hpart := part_of_goOn ((lookup_some_iff ho.tended.nodup k _).2 hmem) hturn
  refine replies_of_nearing hc ?_
  simp only [World.advance, afterLock] at hpart
  split at hpart
  · rename_i e _
    exact .inl ⟨.failed e, by simp [reply?, hpart, Next.outcome?]⟩
  · have hmanagers := congrArg Prod.fst (a.table_start (play {} moves).resources k)
    exact (nearing_of_part hc hpart (a.start_nears (Nat.lt_succ_self _)) hmanagers hlimit
      hclears).imp_right Nearing.arrives

/-! ### Tasks that nobody cancels -/

section
variable {keys : List (String × String)} {mv : Move} {call : Call} {ms : List Move}

theorem mem_put_of_mem {t : TaskId} {x : World × Next} {e : TaskId × TaskState} (h : e ∈ x.1.tasks) :
    e ∈ (put t x).tasks := by
  obtain ⟨w', next⟩ := x
  cases next with
  | waits s | passes s => exact List.mem_append_left _ h
  | ends o | crashes => exact h

/-- A task stays where it stands while it does not go on and nobody cancels it. -/
theorem Sound.stays (h : Sound keys w) (hc : (w.move mv).crashed = false) {e : TaskId × TaskState}
    (he : e ∈ w.tasks) (hcancel : mv ≠ .cancel e.1) (hnot : ∀ x, w.part? mv ≠ some (e.1, x)) :
    e ∈ (w.move mv).tasks := by
  have hwithout {t : TaskId} (ht : t ≠ e.1) : e ∈ (w.without t).tasks :=
    List.mem_filter.2 ⟨he, by simpa using Ne.symm ht⟩
  cases mv with
  | start call =>
    refine mem_put_of_mem ?_
    rw [(begin_tasks { w with started := w.started + 1 } w.started call).1]
    exact he
  | goOn t =>
    cases hs : w.tasks.lookup t with
    | none => simpa [World.move, hs] using he
    | some s =>
      by_cases hgo : w.mayGoOn t s = true
      · have hpart := part_of_goOn hs hgo
        have ht : t ≠ e.1 := fun heq => hnot ((w.without t).advance t s) (by rw [hpart, heq])
        rw [move_of_part hpart] at hc ⊢
        refine mem_put_of_mem ?_
        rw [(h.advances hs hgo (not_crashes hc)).tasks]
        exact hwithout ht
      · simpa [World.move, hs, hgo] using he
  | cancel t =>
    cases hs : w.tasks.lookup t with
    | none => simpa [World.move, hs] using he
    | some s =>
      have htasks : (w.move (.cancel t)).tasks = (w.without t).tasks := by
        rw [World.move, hs]
        exact (Alike.withdraw (w.without t) t s).tasks
      rw [htasks]
      exact hwithout fun ht => hcancel (congrArg Move.cancel ht)
  | beginTransaction _ | surround _ _ _ | tune _ _ _ | collect _ _ => exact he

/-- A task that nobody cancels was replied to, or stands somewhere. -/
theorem Sound.replied_or_stands (h : Sound keys w) (hc : (w.play (.start call :: ms)).crashed = false)
    (hcancel : .cancel w.started ∉ ms) : (∃ o, (w.started, o) ∈ replies w (.start call :: ms)) ∨
      ∃ s, (w.started, s) ∈ (w.play (.start call :: ms)).tasks := by
  induction ms using List.reverseRecOn with
  | nil =>
    have hw := Sound.not_crashed_of_play hc
    rw [play_singleton hw] at hc ⊢
    refine (replies_or_stands hc).imp_left fun ⟨o, ho⟩ => ⟨o, ?_⟩
    rw [replies, record_singleton _ hw, ho]
    exact List.mem_singleton_self _
  | append_singleton ms mv ih =>
    rw [← List.cons_append] at hc ⊢
    have hw : (w.play (.start call :: ms)).crashed = false := by
      rw [play_append] at hc
      exact Sound.not_crashed_of_play hc
    obtain ⟨_, _, hs'⟩ := h.play _ hw
    have hreplies : replies w (.start call :: ms ++ [mv]) = replies w (.start call :: ms) ++
        ((w.play (.start call :: ms)).reply? mv).toList := record_concat reply? hw
    rw [hreplies]
    rw [play_snoc_move hw] at hc ⊢
    rcases ih hw fun hmem => hcancel (List.mem_append_left _ hmem) with ⟨o, ho⟩ | ⟨s, hmem⟩
    · exact .inl ⟨o, List.mem_append_left _ ho⟩
    · by_cases hx : ∃ x, (w.play (.start call :: ms)).part? mv = some (w.started, x)
      · obtain ⟨⟨w', next⟩, hx⟩ := hx
        rw [move_of_part hx] at hc ⊢
        cases next with
        | waits s | passes s => exact .inr ⟨s, List.mem_append_right _ (List.mem_singleton_self _)⟩
        | ends o => exact .inl ⟨o, List.mem_append_right _ (by simp [reply?, hx, Next.outcome?])⟩
        | crashes => exact absurd rfl (not_crashes hc)
      · refine .inr ⟨s, hs'.stays hc hmem ?_ fun x hpart => hx ⟨x, hpart⟩⟩
        rintro rfl
        exact hcancel (List.mem_append_right _ (List.mem_singleton_self _))

end

end World

end ShardRegistry
