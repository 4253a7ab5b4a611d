import ShardRegistry.Proofs.Joining

/-! Rounds. The order in which the jobs of an executor are run here is one of all those that are possible: it
lets every job that is ready have its turn, and ends when all jobs are over. -/
namespace ShardRegistry.Executor
variable {α : Type}

/-- The jobs at hand, those in the queue and those that paused are the ones that are ready, each of them once. -/
structure Scheduled (x : Executor α) (hand : List Nat) : Prop where
  once : (hand ++ (x.queue ++ x.paused)).Nodup
  ready_iff : ∀ i, i ∈ hand ++ (x.queue ++ x.paused) ↔
    ∃ phase, x.phase? i = some phase ∧ phase.ready = true

namespace Scheduled
variable {x : Executor α} {hand : List Nat} {i : Nat} {s : JobState α}

/-- The same jobs may stand in other places. -/
theorem congr (h : Scheduled x hand) {y : Executor α} {hand' : List Nat}
    (hp : (hand' ++ (y.queue ++ y.paused)).Perm (hand ++ (x.queue ++ x.paused)))
    (hphase : ∀ j, y.phase? j = x.phase? j) : Scheduled y hand' :=
  ⟨hp.nodup_iff.2 h.once, fun j => by rw [hp.mem_iff, h.ready_iff, hphase]⟩

theorem relabel (h : Scheduled x hand) (hi : x.jobs[i]? = some s) (phase : Phase)
    (hready : phase.ready = s.phase.ready) : Scheduled (x.setPhase i phase) hand := by
  refine ⟨h.once, fun j => (h.ready_iff j).trans ?_⟩
  rw [phase?_setPhase hi]
  split
  · rename_i hj
    subst hj
    simp [phase?_of_getElem? hi, hready]
  · rfl

/-- A job at hand that is not ready any more. -/
theorem drop (h : Scheduled x (i :: hand)) (hi : x.jobs[i]? = some s) (phase : Phase)
    (hready : phase.ready = false) : Scheduled (x.setPhase i phase) hand := by
  obtain ⟨hnot, honce⟩ : i ∉ hand ++ (x.queue ++ x.paused) ∧ _ := List.nodup_cons.1 h.once
  refine ⟨honce, fun j => ?_⟩
  have hj := h.ready_iff j
  rw [List.cons_append, List.mem_cons] at hj
  rw [phase?_setPhase hi]
  change j ∈ hand ++ (x.queue ++ x.paused) ↔ _
  split
  · rename_i heq
    subst heq
    exact iff_of_false hnot (by simp [hready])
  · rename_i hne
    rwa [or_iff_right hne] at hj

/-- The first job that waits becomes ready. -/
theorem release (h : Scheduled x hand) (hw : ∀ w ∈ x.waiting, x.phase? w = some .queued) :
    Scheduled x.release hand := by
  rw [Executor.release]
  split
  · exact h
  · split
    · exact ⟨h.once, h.ready_iff⟩
    · rename_i w waiting hwaiting
      have hqueued := hw w (hwaiting ▸ List.mem_cons_self)
      obtain ⟨t, ht, htphase⟩ := phase?_eq_some_iff.1 hqueued
      have hnot : w ∉ hand ++ (x.queue ++ x.paused) := by
        rw [h.ready_iff, hqueued]
        rintro ⟨_, ⟨⟩, hready⟩
        cases hready
      have hperm : (hand ++ ((x.queue ++ [w]) ++ x.paused)).Perm
          (w :: (hand ++ (x.queue ++ x.paused))) := by
        rw [List.append_assoc, ← List.append_assoc, List.singleton_append, ← List.append_assoc]
        exact List.perm_middle
      refine ⟨hperm.nodup_iff.2 (List.nodup_cons.2 ⟨hnot, h.once⟩), fun j => ?_⟩
      change j ∈ hand ++ ((x.queue ++ [w]) ++ x.paused) ↔
        ∃ phase, (x.setPhase w .granted).phase? j = some phase ∧ _
      rw [hperm.mem_iff, List.mem_cons, h.ready_iff, phase?_setPhase ht]
      by_cases hj : j = w
      · simp [hj, Phase.ready]
      · simp [hj]

theorem goOn (h : Scheduled x (i :: hand)) (hp : Permitted x) (hi : x.jobs[i]? = some s) {k : Nat}
    (hs : s.phase = .running k) (left : Nat) : Scheduled (x.goOn i left) hand := by
  cases left with
  | zero =>
    have hdrop := h.drop hi .over rfl
    have hended : Scheduled ({ x with ended := x.ended ++ [i] }.setPhase i .over) hand :=
      ⟨hdrop.once, hdrop.ready_iff⟩
    refine hended.release fun w hw => ?_
    have hqueued := (hp.waits_iff w).1 hw
    have hne : w ≠ i := by
      rintro rfl
      rw [phase?_of_getElem? hi, hs] at hqueued
      cases hqueued
    exact (phase?_setPhase hi .over w).trans ((if_neg hne).trans hqueued)
  | succ left =>
    have hrun := h.relabel hi (.running left) (by rw [hs]; rfl)
    refine hrun.congr ?_ fun _ => rfl
    change (hand ++ (x.queue ++ i :: x.paused)).Perm (i :: (hand ++ (x.queue ++ x.paused)))
    rw [← List.append_assoc, ← List.append_assoc]
    exact List.perm_middle

/-- A job that has its turn comes to the place where it belongs. -/
theorem poll (h : Scheduled x (i :: hand)) (hp : Permitted x) : Scheduled (x.poll i) hand := by
  obtain ⟨phase, hphase, hready⟩ := (h.ready_iff i).1 List.mem_cons_self
  obtain ⟨s, hi, rfl⟩ := phase?_eq_some_iff.1 hphase
  rcases hp.poll_cases hi with ⟨hnot, _⟩ | ⟨hs, _, _, heq⟩ | ⟨hs, free, hbegun, heq⟩ | ⟨left, hs, heq⟩
  · rw [hnot] at hready
    cases hready
  · have hdrop := h.drop hi .queued rfl
    rw [heq]
    exact ⟨hdrop.once, hdrop.ready_iff⟩
  · have hrun := h.relabel hi (.running s.job.pauses) (by rw [hready]; rfl)
    have hscheduled : Scheduled ({ x with free }.begun i s.job) (i :: hand) :=
      ⟨hrun.once, hrun.ready_iff⟩
    rw [heq]
    exact hscheduled.goOn hbegun (getElem?_begun { x with free } hi) rfl s.job.pauses
  · rw [heq]
    exact h.goOn hp hi hs left

end Scheduled

/-! ### Rounds -/

/-- What rounds keep of an executor, all of whose jobs that are ready stand in line. -/
structure Runs (x y : Executor α) : Prop where
  frame : y.frame = x.frame
  permitted : Permitted y
  scheduled : Scheduled y []

/-- A round lets a job go on, if one is ready. -/
theorem runs_round (n : Nat) {x : Executor α} (hp : Permitted x) (hs : Scheduled x []) :
    Runs x (round n x) ∧ (round n x).left ≤ x.left ∧
      (n ≠ 0 → x.queue ≠ [] → (round n x).left < x.left) := by
  induction n generalizing x with
  | zero => exact ⟨⟨rfl, hp, hs⟩, Nat.le_refl _, fun h => absurd rfl h⟩
  | succ n ih =>
    rw [round]
    split
    · rename_i hnil
      exact ⟨⟨rfl, hp, hs⟩, Nat.le_refl _, fun _ h => absurd hnil h⟩
    · rename_i i queue hqueue
      have hp' : Permitted { x with queue } := hp.move (.arrange queue x.paused)
      have hs' : Scheduled { x with queue } [i] :=
        hs.congr (by rw [hqueue]; exact List.Perm.refl _) fun _ => rfl
      obtain ⟨phase, hphase, hready⟩ := (hs'.ready_iff i).1 List.mem_cons_self
      obtain ⟨s, hi, rfl⟩ := phase?_eq_some_iff.1 hphase
      have hlt : (poll { x with queue } i).left < x.left := hp'.left_poll hi hready
      obtain ⟨⟨hframe, hpermitted, hscheduled⟩, hle, _⟩ := ih (hp'.poll i) (hs'.poll hp')
      have hframe' : (poll { x with queue } i).frame = x.frame := (frame_poll _ i).trans rfl
      exact ⟨⟨hframe.trans hframe', hpermitted, hscheduled⟩, by omega, fun _ _ => by omega⟩

theorem Scheduled.resumePaused {x : Executor α} (h : Scheduled x []) : Scheduled x.resumePaused [] :=
  h.congr (by simp [Executor.resumePaused]) fun _ => rfl

/-- Enough rounds leave no job that is ready. -/
theorem runs_rounds (n : Nat) {x : Executor α} (hp : Permitted x) (hs : Scheduled x [])
    (hpaused : x.paused = []) (hn : x.left ≤ n) :
    Runs x (rounds n x) ∧ (rounds n x).queue = [] ∧ (rounds n x).paused = [] := by
  induction n generalizing x with
  | zero =>
    refine ⟨⟨rfl, hp, hs⟩, ?_, hpaused⟩
    refine List.eq_nil_iff_forall_not_mem.2 fun i hi => ?_
    have hmem : i ∈ [] ++ (x.queue ++ x.paused) := List.mem_append_right _ (List.mem_append_left _ hi)
    obtain ⟨phase, hphase, hready⟩ := (hs.ready_iff i).1 hmem
    obtain ⟨s, hi, rfl⟩ := phase?_eq_some_iff.1 hphase
    have hlt := hp.left_poll hi hready
    omega
  | succ n ih =>
    rw [rounds]
    split
    · rename_i hnil
      exact ⟨⟨rfl, hp, hs⟩, List.isEmpty_iff.1 hnil, hpaused⟩
    · rename_i hne
      obtain ⟨⟨hframe, hp', hs'⟩, _, hlt⟩ := runs_round roundLimit hp hs
      have hlt := hlt (by decide) (mt List.isEmpty_iff.2 hne)
      have hp'' : Permitted (round roundLimit x).resumePaused := hp'.move (.arrange _ [])
      have hleft : (round roundLimit x).resumePaused.left = (round roundLimit x).left := rfl
      obtain ⟨⟨hframe', hpermitted, hscheduled⟩, hend⟩ := ih hp'' hs'.resumePaused rfl (by omega)
      exact ⟨⟨hframe'.trans hframe, hpermitted, hscheduled⟩, hend⟩

theorem left_submit (size : Nat) (jobs : List (Job α)) :
    (({ size } : Executor α).submit jobs).left = (({ size } : Executor α).submit jobs).steps := by
  have hsteps : ∀ (l : List (Job α)) (n : Nat),
      (l.map fun job => ({ job } : JobState α)).foldl (fun n s => n + s.job.pauses + 2) n =
        n + amount work (l.map fun job => ({ job } : JobState α)) := by
    intro l
    induction l with
    | nil => exact fun _ => rfl
    | cons job l ih =>
      intro n
      rw [List.map_cons, List.foldl_cons, ih, amount]
      simp only [work]
      omega
  have hfold := hsteps jobs 0
  rw [Nat.zero_add] at hfold
  exact hfold.symm

theorem scheduled_submit (size : Nat) (jobs : List (Job α)) :
    Scheduled (({ size } : Executor α).submit jobs) [] := by
  have hline : ([] ++ ((({ size } : Executor α).submit jobs).queue ++
      (({ size } : Executor α).submit jobs).paused) : List Nat) = List.range' 0 jobs.length := by
    simp [submit]
  refine ⟨hline ▸ List.nodup_range', fun i => ?_⟩
  rw [hline, List.mem_range'_1, phase?, submit]
  by_cases hi : i < jobs.length
  · simp [hi, Phase.ready]
  · simp [hi]

theorem runs_execute (size : Nat) (jobs : List (Job α)) :
    Runs (({ size } : Executor α).submit jobs) (execute size jobs) ∧
      (execute size jobs).queue = [] ∧ (execute size jobs).paused = [] :=
  runs_rounds _ ((Permitted.start size).submit jobs) (scheduled_submit size jobs) rfl
    (Nat.le_of_eq (left_submit size jobs))

/-- A batch on an executor of its own is run to its end: all its jobs are over, and it has its result. -/
theorem execute_complete (size : Nat) (jobs : List (Job α)) :
    (∀ s ∈ (execute size jobs).jobs, s.phase = .over) ∧ ∃ r,
      (execute size jobs).result? 0 jobs.length = some r ∧
      Answers jobs 0 ((execute size jobs).endedOf 0 jobs.length) r := by
  obtain ⟨⟨hframe, hp, hs⟩, hqueue, hpaused⟩ := runs_execute size jobs
  have hover : ∀ s ∈ (execute size jobs).jobs, s.phase = .over := by
    intro s hmem
    obtain ⟨i, hi⟩ := List.getElem?_of_mem hmem
    by_contra hne
    obtain ⟨j, t, hj, ht⟩ := hp.exists_ready hi hne
    have hready := (hs.ready_iff j).2 ⟨_, phase?_of_getElem? hj, ht⟩
    rw [hqueue, hpaused] at hready
    cases hready
  have hjobs : (execute size jobs).jobs.map (·.job) = jobs := by
    refine (Prod.mk.inj hframe).2.trans ?_
    simp [submit, Function.comp_def]
  have hlength : (execute size jobs).jobs.length = jobs.length := by
    rw [← List.length_map (fun s : JobState α => s.job), hjobs]
  have hresult : (execute size jobs).result? 0 jobs.length ≠ none := by
    rw [Ne, hp.result?_eq_none_iff]
    rintro ⟨i, hi, hne⟩
    have hlt : i < (execute size jobs).jobs.length := by
      have hbounds := List.mem_range'_1.1 hi
      omega
    refine hne (phase?_eq_some_iff.2 ⟨_, List.getElem?_eq_getElem hlt, ?_⟩)
    exact hover _ (List.getElem_mem hlt)
  obtain ⟨r, hr⟩ := Option.ne_none_iff_exists'.1 hresult
  obtain ⟨hperm, hjoined⟩ := hp.result?_eq_joined 0 jobs.length hr
  refine ⟨hover, r, hr, hjoined ▸ joined_answers ?_ hperm⟩
  rw [List.drop_zero, ← hlength, List.take_length, hjobs]

end ShardRegistry.Executor
