import ShardRegistry.Proofs.Supersession

/-! Histories. What happened in a run is read off its steps one after the other: which task was started
for which call, and what came of it. A property of tasks that every step keeps holds of all tasks, each
with the call that it was started for. -/
namespace ShardRegistry

/-! ### Trails of steps -/

section Trail
variable {σ μ α : Type} (step : σ → μ → σ) (f : σ → μ → List α)

/-- What the steps of a run leave behind, in their order. -/
def trail : σ → List μ → List α
  | _, [] => []
  | s, m :: ms => f s m ++ trail (step s m) ms

variable {step f}

theorem trail_append (s : σ) (ms ms' : List μ) :
    trail step f s (ms ++ ms') = trail step f s ms ++ trail step f (ms.foldl step s) ms' := by
  induction ms generalizing s with
  | nil => rfl
  | cons m ms ih => simp [trail, ih]

theorem mem_trail_iff {s : σ} {ms : List μ} {x : α} :
    x ∈ trail step f s ms ↔ ∃ ms₁ m ms₂, ms = ms₁ ++ m :: ms₂ ∧ x ∈ f (ms₁.foldl step s) m := by
  induction ms generalizing s with
  | nil => simp [trail]
  | cons m ms ih =>
    rw [trail, List.mem_append, ih]
    constructor
    · rintro (h | ⟨ms₁, m', ms₂, rfl, h⟩)
      · exact ⟨[], m, ms, rfl, h⟩
      · exact ⟨m :: ms₁, m', ms₂, rfl, h⟩
    · rintro ⟨ms₁, m', ms₂, heq, h⟩
      cases ms₁ with
      | nil =>
        cases heq
        exact .inl h
      | cons m₁ ms₁ =>
        cases heq
        exact .inr ⟨ms₁, m', ms₂, rfl, h⟩

end Trail

def Next.outcome? : Next → Option Outcome
  | .ends o => some o
  | _ => none

namespace World

/-- A move, unless the world has crashed. -/
def tick (w : World) (m : Move) : World := if w.crashed then w else w.move m

theorem play_eq_foldl (w : World) (moves : List Move) : w.play moves = moves.foldl tick w := rfl

theorem play_append (w : World) (moves moves' : List Move) :
    w.play (moves ++ moves') = (w.play moves).play moves' := List.foldl_append

/-- The part of a task that a move runs: the task, and where the part leaves it. -/
def part? (w : World) : Move → Option (TaskId × World × Next)
  | .start call => some (w.started, { w with started := w.started + 1 }.begin w.started call)
  | .goOn t => match w.tasks.lookup t with
    | none => none
    | some s => if w.mayGoOn t s then some (t, (w.without t).advance t s) else none
  | _ => none

/-- The task and the call that a move starts. -/
def call? (w : World) : Move → Option (TaskId × Call)
  | .start call => some (w.started, call)
  | _ => none

/-- The task that a move ends, and what comes of it. -/
def reply? (w : World) (m : Move) : Option (TaskId × Outcome) :=
  (w.part? m).bind fun x => x.2.2.outcome?.map fun o => (x.1, o)

/-- What the moves of a run that are made leave behind. -/
def record {α : Type} (f : World → Move → Option α) (w : World) (moves : List Move) : List α :=
  trail tick (fun w m => if w.crashed then [] else (f w m).toList) w moves

/-- The calls that tasks were started for, in the order of the tasks. -/
def calls (w : World) (moves : List Move) : List (TaskId × Call) := record call? w moves

/-- The results of tasks, in the order in which they came. -/
def replies (w : World) (moves : List Move) : List (TaskId × Outcome) := record reply? w moves

theorem mem_record_iff {α : Type} {f : World → Move → Option α} {w : World} {moves : List Move}
    {x : α} : x ∈ record f w moves ↔ ∃ ms m ms', moves = ms ++ m :: ms' ∧
      (w.play ms).crashed = false ∧ f (w.play ms) m = some x := by
  rw [record, mem_trail_iff]
  simp only [← play_eq_foldl]
  constructor
  · rintro ⟨ms, m, ms', rfl, h⟩
    cases hc : (w.play ms).crashed with
    | true => simp [hc] at h
    | false => exact ⟨ms, m, ms', rfl, hc, by simpa [hc] using h⟩
  · rintro ⟨ms, m, ms', rfl, hc, h⟩
    exact ⟨ms, m, ms', rfl, by simp [hc, h]⟩

theorem record_append {α : Type} (f : World → Move → Option α) (w : World)
    (moves moves' : List Move) :
    record f w (moves ++ moves') = record f w moves ++ record f (w.play moves) moves' :=
  trail_append w moves moves'

/-- A run that goes on by one move. -/
theorem play_snoc (moves : List Move) (m : Move) :
    play {} (moves ++ [m]) = (play {} moves).tick m := play_append {} moves [m]

theorem record_snoc {α : Type} (f : World → Move → Option α) (moves : List Move) (m : Move) :
    record f {} (moves ++ [m]) = record f {} moves ++
      if (play {} moves).crashed then [] else (f (play {} moves) m).toList := by
  rw [record_append]
  simp [record, trail]

section Alive
variable {w : World} {moves : List Move} {m : Move}

theorem play_snoc_move (hc : (w.play moves).crashed = false) :
    w.play (moves ++ [m]) = (w.play moves).move m := by
  rw [play_append, World.play, List.foldl_cons, hc]
  rfl

theorem record_snoc_move {α : Type} (f : World → Move → Option α)
    (hc : (play {} moves).crashed = false) :
    record f {} (moves ++ [m]) = record f {} moves ++ (f (play {} moves) m).toList := by
  rw [record_snoc, hc]
  rfl

end Alive

theorem goOn_of_part {w : World} {t t' : TaskId} {x : World × Next}
    (h : w.part? (.goOn t) = some (t', x)) : ∃ s, w.tasks.lookup t = some s ∧
      w.mayGoOn t s = true ∧ t' = t ∧ x = (w.without t).advance t s := by
  simp only [part?] at h
  split at h
  · cases h
  · rename_i s hs
    split at h
    · rename_i hgo
      obtain ⟨rfl, rfl⟩ := Prod.mk.inj (Option.some.inj h)
      exact ⟨s, hs, hgo, rfl, rfl⟩
    · cases h

theorem part_of_goOn {w : World} {t : TaskId} {s : TaskState} (hs : w.tasks.lookup t = some s)
    (hgo : w.mayGoOn t s = true) : w.part? (.goOn t) = some (t, (w.without t).advance t s) := by
  simp [part?, hs, hgo]

theorem move_of_part {w : World} {m : Move} {t : TaskId} {x : World × Next}
    (h : w.part? m = some (t, x)) : w.move m = put t x := by
  cases m with
  | start call =>
    cases h
    rfl
  | goOn t' =>
    obtain ⟨s, hs, hgo, rfl, rfl⟩ := goOn_of_part h
    simp [World.move, hs, hgo]
  | cancel _ | beginTransaction _ | surround _ _ _ | tune _ _ _ | collect _ _ => cases h

/-! ### Tasks and their calls -/

theorem mem_put {t : TaskId} {x : World × Next} {e : TaskId × TaskState}
    (h : e ∈ (put t x).tasks) : e ∈ x.1.tasks ∨ (e.1 = t ∧ x.2.state? = some e.2) := by
  obtain ⟨w', next⟩ := x
  have hstands : ∀ s, next.state? = some s → e ∈ w'.tasks ++ [(t, s)] →
      e ∈ w'.tasks ∨ (e.1 = t ∧ next.state? = some e.2) := by
    intro s hs hmem
    rcases List.mem_append.1 hmem with hmem | hmem
    · exact .inl hmem
    · rw [List.mem_singleton.1 hmem]
      exact .inr ⟨rfl, hs⟩
  cases next with
  | waits s | passes s => exact hstands s rfl h
  | ends o => exact .inl h
  | crashes => exact .inl h

theorem started_put (t : TaskId) (x : World × Next) : (World.put t x).started = x.1.started := by
  obtain ⟨w', next⟩ := x
  cases next <;> rfl

theorem started_start (w : World) (call : Call) :
    (w.move (.start call)).started = w.started + 1 := by
  rw [World.move, started_put]
  exact (begin_tasks { w with started := w.started + 1 } w.started call).2

@[simp] theorem registry_put (t : TaskId) (x : World × Next) :
    (put t x).registry = x.1.registry := by
  obtain ⟨w', next⟩ := x
  cases next <;> rfl

theorem registry_acquired (w : World) (y : Resources × Progress) :
    (w.acquired none y).1.registry = w.registry.owning y.1 := by
  obtain ⟨r, progress⟩ := y
  cases progress with
  | waits stage a | passes stage a => rfl
  | done outcome =>
    cases outcome with
    | ok cs => rfl
    | error stop => cases stop <;> rfl

/-- A lock that is made is put at the end of the table. -/
theorem lockFor_cases (g : Registry) (schema backend : String) :
    (g.lockFor schema backend).1.snapshot = g.snapshot ∧
    (∃ locks, (g.lockFor schema backend).1.resources = { g.resources with locks }) ∧
    ∀ k l, g.lockTable.lookup k = some l → (g.lockFor schema backend).1.lockTable.lookup k = some l := by
  simp only [Registry.lockFor]
  split
  · exact ⟨rfl, ⟨_, rfl⟩, fun _ _ hl => hl⟩
  · refine ⟨rfl, ⟨_, rfl⟩, fun k l hl => ?_⟩
    rw [List.lookup_append, hl]
    rfl

theorem follows_begin (w : World) (t : TaskId) (call : Call) :
    w.registry.Follows (w.begin t call).1.registry := by
  have hsame : w.registry.Follows w.registry := .steady (.refl _)
  cases call with
  | acquire q =>
    simp only [World.begin, beginAcquire]
    split
    · exact hsame
    · rename_i a _
      split
      · exact hsame
      · split
        · rw [registry_acquired]
          exact .steady (a.start_steady w.resources t).1
        · obtain ⟨hsnapshot, ⟨locks, hlocks⟩, hkept⟩ := lockFor_cases w.registry q.schema q.backend
          generalize w.registry.lockFor q.schema q.backend = x at hsnapshot hlocks hkept
          refine .locks hsnapshot ⟨x.1.resources.locks.modify x.2 (·.request t), ?_⟩
            fun k _ l _ hl => hkept k l hl
          exact congrArg (fun r : Resources =>
            { r with locks := x.1.resources.locks.modify x.2 (·.request t) }) hlocks
  | event event =>
    simp only [World.begin, beginEvent]
    split <;> exact hsame
  | close => exact hsame
  | pinned m transaction backend =>
    simp only [World.begin, beginPinned]
    rw [registry_acquired]
    exact .steady (Acquisition.start_steady _ w.resources t).1
  | settle m transaction =>
    simp only [World.begin, beginSettle]
    split
    · exact hsame
    · rename_i r hr
      exact .steady ((Resources.Steady.dropTransaction hr).trans (.modifyPins _ transaction _))

namespace Sound
variable {keys : List (String × String)} {w : World} {t : TaskId} {s : TaskState}

/-- After a move a task stands where it stood before, or the move ran a part of it. -/
theorem mem_move (h : Sound keys w) {m : Move} (hc : (w.move m).crashed = false)
    {e : TaskId × TaskState} (he : e ∈ (w.move m).tasks) :
    (e ∈ w.tasks ∧ ∀ x, w.part? m ≠ some (e.1, x)) ∨
      ∃ x, w.part? m = some (e.1, x) ∧ x.2.state? = some e.2 := by
  cases m with
  | start call =>
    obtain ⟨htasks, _⟩ := begin_tasks { w with started := w.started + 1 } w.started call
    rcases mem_put he with hmem | ⟨ht, hs⟩
    · rw [htasks] at hmem
      refine .inl ⟨hmem, fun x hx => ?_⟩
      obtain ⟨ht, _⟩ := Prod.mk.inj (Option.some.inj hx)
      exact absurd ht.symm (Nat.ne_of_lt (h.started e hmem))
    · exact .inr ⟨_, by rw [ht]; rfl, hs⟩
  | goOn t =>
    simp only [World.move] at hc he
    split at he
    · rename_i hs
      exact .inl ⟨he, by simp [part?, hs]⟩
    · rename_i s hs
      simp only [hs] at hc
      split at he
      · rename_i hgo
        simp only [hgo, if_true] at hc
        have hpart : w.part? (.goOn t) = some (t, (w.without t).advance t s) := by
          simp [part?, hs, hgo]
        have ha := h.advances hs hgo (not_crashes hc)
        rcases mem_put he with hmem | ⟨ht, hs'⟩
        · rw [ha.tasks] at hmem
          refine .inl ⟨List.filter_sublist.subset hmem, fun x hx => ?_⟩
          rw [hpart] at hx
          exact ne_of_mem_without e hmem (Prod.mk.inj (Option.some.inj hx)).1.symm
        · exact .inr ⟨_, by rw [ht]; exact hpart, hs'⟩
      · rename_i hgo
        exact .inl ⟨he, by simp [part?, hs, hgo]⟩
  | cancel t =>
    refine .inl ⟨?_, by simp [part?]⟩
    simp only [World.move] at he
    split at he
    · exact he
    · rename_i s hs
      obtain ⟨_, hf, _⟩ := h.without hs
      rw [(Calm.withdraw hf).tasks] at he
      exact List.filter_sublist.subset he
  | beginTransaction _ | surround _ _ _ | tune _ _ _ | collect _ _ =>
    exact .inl ⟨he, by simp [part?]⟩

theorem started_le (h : Sound keys w) (m : Move) (hc : (w.move m).crashed = false) :
    w.started ≤ (w.move m).started := by
  cases m with
  | start call => exact started_start w call ▸ Nat.le_succ _
  | goOn t =>
    simp only [World.move] at hc ⊢
    split
    · exact Nat.le_refl _
    · rename_i s hs
      simp only [hs] at hc
      split
      · rename_i hgo
        simp only [hgo, if_true] at hc
        rw [started_put, (h.advances hs hgo (not_crashes hc)).started]
        exact Nat.le_refl _
      · exact Nat.le_refl _
  | cancel t =>
    simp only [World.move]
    split
    · exact Nat.le_refl _
    · rename_i s hs
      obtain ⟨_, hf, _⟩ := h.without hs
      rw [(Calm.withdraw hf).started]
      exact Nat.le_refl _
  | beginTransaction _ | surround _ _ _ | tune _ _ _ | collect _ _ => exact Nat.le_refl _

/-- Every move lets the others keep what they rely on. -/
theorem follows_move (h : Sound keys w) (m : Move) (hc : (w.move m).crashed = false) :
    w.registry.Follows (w.move m).registry := by
  cases m with
  | start call =>
    rw [World.move, registry_put]
    exact follows_begin { w with started := w.started + 1 } w.started call
  | goOn t =>
    simp only [World.move] at hc ⊢
    split
    · exact .steady (.refl _)
    · rename_i s hs
      simp only [hs] at hc
      split
      · rename_i hgo
        simp only [hgo, if_true] at hc
        rw [registry_put]
        exact (h.advances hs hgo (not_crashes hc)).spares.follows
      · exact .steady (.refl _)
  | cancel t =>
    simp only [World.move]
    split
    · exact .steady (.refl _)
    · rename_i s hs
      obtain ⟨_, hf, _⟩ := h.without hs
      exact (Calm.withdraw hf).spares.follows
  | beginTransaction m => exact .steady (.beginTransaction _ m)
  | tune p gate refused => exact .steady (.modifyPool _ p fun _ => rfl)
  | surround _ _ _ | collect _ _ => exact .steady (.refl _)

end Sound

/-- A property of tasks, of each with its call and the place where it stands, that steps keep. -/
structure Kept (P : World → Call → TaskState → Prop) : Prop where
  begins : ∀ {keys : List (String × String)} {w : World} {call : Call} {s : TaskState},
    Sound keys w → (w.move (.start call)).crashed = false →
    ({ w with started := w.started + 1 }.begin w.started call).2.state? = some s →
    P (w.move (.start call)) call s
  goesOn : ∀ {keys : List (String × String)} {w : World} {t : TaskId} {call : Call}
    {s s' : TaskState}, Sound keys w → (w.move (.goOn t)).crashed = false →
    w.tasks.lookup t = some s → w.mayGoOn t s = true → P w call s →
    ((w.without t).advance t s).2.state? = some s' → P (w.move (.goOn t)) call s'
  stays : ∀ {keys : List (String × String)} {w : World} {m : Move} {call : Call} {s : TaskState},
    Sound keys w → (w.move m).crashed = false → P w call s → P (w.move m) call s

/-- Every task of a world has one of the calls, and no two calls are of the same task. -/
structure Assigned (P : World → Call → TaskState → Prop) (cs : List (TaskId × Call)) (w : World) :
    Prop where
  nodup : (cs.map (·.1)).Nodup
  started : ∀ c ∈ cs, c.1 < w.started
  tasks : ∀ e ∈ w.tasks, ∃ call, (e.1, call) ∈ cs ∧ P w call e.2

namespace Assigned
variable {P : World → Call → TaskState → Prop} {cs : List (TaskId × Call)} {w : World}
  {keys : List (String × String)}

theorem start (P : World → Call → TaskState → Prop) : Assigned P [] {} :=
  ⟨List.nodup_nil, fun _ hc => absurd hc List.not_mem_nil, fun _ he => absurd he List.not_mem_nil⟩

/-- A task has one call. -/
theorem unique (h : Assigned P cs w) {t : TaskId} {call call' : Call} (hc : (t, call) ∈ cs)
    (hc' : (t, call') ∈ cs) : call = call' := by
  have hsome := (lookup_some_iff h.nodup t call).2 hc
  rw [(lookup_some_iff h.nodup t call').2 hc'] at hsome
  exact (Option.some.inj hsome).symm

theorem move (hP : Kept P) (h : Assigned P cs w) (hs : Sound keys w) (m : Move)
    (hc : (w.move m).crashed = false) : Assigned P (cs ++ (w.call? m).toList) (w.move m) := by
  have hstands : ∀ e ∈ w.tasks, ∃ call, (e.1, call) ∈ cs ++ (w.call? m).toList ∧
      P (w.move m) call e.2 := by
    intro e he
    obtain ⟨call, hmem, hp⟩ := h.tasks e he
    exact ⟨call, List.mem_append_left _ hmem, hP.stays hs hc hp⟩
  have hold : ∀ c ∈ cs, c.1 < (w.move m).started := fun c hmem =>
    Nat.lt_of_lt_of_le (h.started c hmem) (hs.started_le m hc)
  cases m with
  | start call =>
    have hnew : ∀ c ∈ [(w.started, call)], c.1 < (w.move (.start call)).started := by
      simp [started_start]
    refine ⟨?_, ?_, ?_⟩
    · rw [List.map_append]
      refine List.nodup_append'.2 ⟨h.nodup, List.nodup_singleton _, ?_⟩
      refine List.disjoint_singleton.2 fun hmem => ?_
      obtain ⟨c, hmem, hstarted⟩ := List.mem_map.1 hmem
      exact absurd hstarted (Nat.ne_of_lt (h.started c hmem))
    · exact fun c hmem => (List.mem_append.1 hmem).elim (hold c) (hnew c)
    · intro e he
      rcases hs.mem_move hc he with ⟨hmem, _⟩ | ⟨x, hx, hstate⟩
      · exact hstands e hmem
      · obtain ⟨ht, rfl⟩ := Prod.mk.inj (Option.some.inj hx)
        rw [← ht]
        exact ⟨call, List.mem_append_right _ (List.mem_singleton_self _), hP.begins hs hc hstate⟩
  | goOn t =>
    simp only [call?, Option.toList_none, List.append_nil] at hstands ⊢
    refine ⟨h.nodup, hold, fun e he => ?_⟩
    rcases hs.mem_move hc he with ⟨hmem, _⟩ | ⟨x, hx, hstate⟩
    · exact hstands e hmem
    · obtain ⟨s, hlookup, hgo, ht, rfl⟩ := goOn_of_part hx
      obtain ⟨call, hmem, hp⟩ := h.tasks _ ((lookup_some_iff hs.nodup t s).1 hlookup)
      rw [ht]
      exact ⟨call, hmem, hP.goesOn hs hc hlookup hgo hp hstate⟩
  | cancel _ | beginTransaction _ | surround _ _ _ | tune _ _ _ | collect _ _ =>
    simp only [call?, Option.toList_none, List.append_nil] at hstands ⊢
    refine ⟨h.nodup, hold, fun e he => ?_⟩
    rcases hs.mem_move hc he with ⟨hmem, _⟩ | ⟨x, hx, _⟩
    · exact hstands e hmem
    · cases hx

theorem play (hP : Kept P) (h : Assigned P cs w) (hs : Sound keys w) (moves : List Move)
    (hc : (w.play moves).crashed = false) :
    Assigned P (cs ++ w.calls moves) (w.play moves) := by
  induction moves generalizing w keys cs with
  | nil => simpa [calls, record, trail, World.play] using h
  | cons m moves ih =>
    have hw := Sound.not_crashed_of_play hc
    have hplay : w.play (m :: moves) = (w.move m).play moves := by
      simp [World.play, hw]
    have hcalls : w.calls (m :: moves) = (w.call? m).toList ++ (w.move m).calls moves := by
      simp [calls, record, trail, tick, hw]
    rw [hplay] at hc ⊢
    rw [hcalls, ← List.append_assoc]
    have hmove := Sound.not_crashed_of_play hc
    obtain ⟨keys', _, hs'⟩ := hs.move m hmove
    exact ih (h.move hP hs m hmove) hs' hc

/-- In every run all tasks have the property. -/
theorem of_play (hP : Kept P) (moves : List Move) (hc : (World.play {} moves).crashed = false) :
    Assigned P (World.calls {} moves) (World.play {} moves) := by
  simpa using (start P).play hP Sound.start moves hc

end Assigned

theorem outcome?_eq_some {next : Next} {o : Outcome} (h : next.outcome? = some o) :
    next = .ends o := by
  cases next with
  | ends o' =>
    cases h
    rfl
  | waits _ | passes _ | crashes => cases h

/-- The call of a task that replied ended it at once, or in a part from where it stood. -/
theorem Kept.reply {P : World → Call → TaskState → Prop} (hP : Kept P) {moves : List Move}
    (hc : (play {} moves).crashed = false) {t : TaskId} {call : Call} {o : Outcome}
    (hcall : (t, call) ∈ calls {} moves) (ho : (t, o) ∈ replies {} moves) :
    ∃ ms keys, Sound keys (play {} ms) ∧
      ((t = (play {} ms).started ∧ ({ play {} ms with started := (play {} ms).started + 1 }.begin
          (play {} ms).started call).2 = .ends o) ∨
        ∃ s, (play {} ms).tasks.lookup t = some s ∧ (play {} ms).mayGoOn t s = true ∧
          P (play {} ms) call s ∧ (((play {} ms).without t).advance t s).2 = .ends o) := by
  obtain ⟨ms, m, ms', rfl, halive, hreply⟩ := mem_record_iff.1 ho
  obtain ⟨⟨t', x⟩, hpart, hend⟩ := Option.bind_eq_some_iff.1 hreply
  obtain ⟨o', ho', heq⟩ := Option.map_eq_some_iff.1 hend
  cases heq
  have hends := outcome?_eq_some ho'
  have hunique := Assigned.of_play hP _ hc
  obtain ⟨keys, _, hs⟩ := Sound.start.play ms halive
  refine ⟨ms, keys, hs, ?_⟩
  cases m with
  | start call' =>
    obtain ⟨rfl, rfl⟩ := Prod.mk.inj (Option.some.inj hpart)
    have hmem : ((play {} ms).started, call') ∈ calls {} (ms ++ Move.start call' :: ms') :=
      mem_record_iff.2 ⟨ms, _, ms', rfl, halive, rfl⟩
    cases hunique.unique hcall hmem
    exact .inl ⟨rfl, hends⟩
  | goOn t' =>
    obtain ⟨s, hlookup, hgo, rfl, rfl⟩ := goOn_of_part hpart
    obtain ⟨call', hmem, hp⟩ := (Assigned.of_play hP ms halive).tasks _
      ((lookup_some_iff hs.nodup _ s).1 hlookup)
    have hmem' : (t', call') ∈ calls {} (ms ++ Move.goOn t' :: ms') := by
      rw [calls, record_append]
      exact List.mem_append_left _ hmem
    cases hunique.unique hcall hmem'
    exact .inr ⟨s, hlookup, hgo, hp, hends⟩
  | cancel _ | beginTransaction _ | surround _ _ _ | tune _ _ _ | collect _ _ => cases hpart

end World

end ShardRegistry
