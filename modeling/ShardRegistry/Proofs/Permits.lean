import Mathlib.Data.List.Nodup
import ShardRegistry.Executor.Schedule

/-! Permits of executors. Whatever batches are submitted and in whatever order their jobs go on, every permit
is free or held by a job that is not over, so that no more jobs run at once than there are permits; and as long
as a job is not over, there is one that can go on. -/
namespace ShardRegistry

/-- What the members of a list amount to. -/
def amount {β : Type} (f : β → Nat) : List β → Nat
  | [] => 0
  | b :: l => f b + amount f l

theorem amount_modify {β : Type} {l : List β} {i : Nat} {b : β} (h : l[i]? = some b) (g : β → β)
    (f : β → Nat) : amount f (l.modify i g) + f b = amount f l + f (g b) := by
  induction l generalizing i with
  | nil => simp at h
  | cons c l ih =>
    cases i with
    | zero =>
      obtain rfl : c = b := by simpa using h
      simp only [List.modify_zero_cons, amount]
      omega
    | succ i =>
      have hrest := ih (by simpa using h)
      simp only [List.modify_succ_cons, amount]
      omega

theorem amount_append {β : Type} (f : β → Nat) (l l' : List β) :
    amount f (l ++ l') = amount f l + amount f l' := by
  induction l with
  | nil => simp [amount]
  | cons b l ih => simp [amount, ih, Nat.add_assoc]

theorem exists_of_amount {β : Type} {f : β → Nat} {l : List β} (h : 0 < amount f l) :
    ∃ b ∈ l, 0 < f b := by
  induction l with
  | nil => exact absurd h (Nat.lt_irrefl 0)
  | cons b l ih =>
    rw [amount] at h
    by_cases hb : 0 < f b
    · exact ⟨b, List.mem_cons_self, hb⟩
    · obtain ⟨c, hc, hpos⟩ := ih (by omega)
      exact ⟨c, List.mem_cons_of_mem b hc, hpos⟩

/-- The permits that a job in this phase has. -/
def Phase.permits : Phase → Nat
  | .granted | .running _ => 1
  | .submitted | .queued | .over => 0

/-- Neither does a job in this phase wait for a permit nor is it over. -/
def Phase.ready : Phase → Bool
  | .submitted | .granted | .running _ => true
  | .queued | .over => false

namespace Executor
variable {α : Type}

/-! ### Interleavings -/

/-- What may happen to an executor at any time. -/
inductive Move (α : Type) where
  /-- A batch is submitted. -/
  | submit (jobs : List (Job α))
  /-- A job is let go on, if it can. -/
  | poll (i : Nat)
  /-- The jobs that can go on are put in another order. -/
  | arrange (queue paused : List Nat)

def move (x : Executor α) : Move α → Executor α
  | .submit jobs => x.submit jobs
  | .poll i => x.poll i
  | .arrange queue paused => { x with queue, paused }

def play (x : Executor α) (moves : List (Move α)) : Executor α := moves.foldl move x

@[simp] theorem play_append (x : Executor α) (moves moves' : List (Move α)) :
    x.play (moves ++ moves') = (x.play moves).play moves' := List.foldl_append

/-! ### The phases of jobs -/

def phase? (x : Executor α) (i : Nat) : Option Phase := (x.jobs[i]?).map (·.phase)

/-- What the jobs amount to. -/
def total (x : Executor α) (f : JobState α → Nat) : Nat := amount f x.jobs

section
variable (x : Executor α) (i : Nat) (phase : Phase)

@[simp] theorem setPhase_size : (x.setPhase i phase).size = x.size := rfl

@[simp] theorem setPhase_free : (x.setPhase i phase).free = x.free := rfl

@[simp] theorem setPhase_waiting : (x.setPhase i phase).waiting = x.waiting := rfl

@[simp] theorem setPhase_ended : (x.setPhase i phase).ended = x.ended := rfl

@[simp] theorem setPhase_peak : (x.setPhase i phase).peak = x.peak := rfl

end

theorem phase?_eq_some_iff {x : Executor α} {i : Nat} {phase : Phase} :
    x.phase? i = some phase ↔ ∃ s, x.jobs[i]? = some s ∧ s.phase = phase := by
  simp [phase?]

section
variable {x : Executor α} {i : Nat} {s : JobState α} (h : x.jobs[i]? = some s) (phase : Phase)
include h

theorem phase?_of_getElem? : x.phase? i = some s.phase := by rw [phase?, h]; rfl

theorem phase?_setPhase (j : Nat) :
    (x.setPhase i phase).phase? j = if j = i then some phase else x.phase? j := by
  simp only [phase?, setPhase, List.getElem?_modify]
  by_cases hj : j = i
  · subst hj
    simp [h]
  · simp [hj, Ne.symm hj]

theorem total_setPhase (f : JobState α → Nat) :
    (x.setPhase i phase).total f + f s = x.total f + f { s with phase } :=
  amount_modify h _ f

end

/-- The permits that jobs have. -/
def held (x : Executor α) : Nat := x.total fun s => s.phase.permits

/-- A job that runs has a permit. -/
theorem running_le_held (x : Executor α) : x.running ≤ x.held := by
  rw [running, held, total]
  induction x.jobs with
  | nil => exact Nat.le_refl _
  | cons s jobs ih =>
    have hhead : (if isRunning s then 1 else 0) ≤ s.phase.permits := by
      rw [isRunning]
      cases s.phase <;> simp [Phase.permits]
    rw [List.countP_cons, amount]
    omega

/-- The executor with a job that has just begun. -/
def begun (x : Executor α) (i : Nat) (job : Job α) : Executor α :=
  { x.setPhase i (.running job.pauses) with
    peak := max x.peak (x.setPhase i (.running job.pauses)).running }

theorem getElem?_begun (x : Executor α) {i : Nat} {s : JobState α} (h : x.jobs[i]? = some s) :
    (x.begun i s.job).jobs[i]? = some { s with phase := .running s.job.pauses } := by
  simp [begun, setPhase, h]

/-- Every permit is free or held, and none is free while a job waits; who waits and who is over is known by the
phases. -/
structure Permitted (x : Executor α) : Prop where
  permits : x.size ≠ 0 → x.free + x.held = x.size
  patient : x.waiting ≠ [] → x.size ≠ 0 ∧ x.free = 0
  waits_iff : ∀ i, i ∈ x.waiting ↔ x.phase? i = some .queued
  waits_once : x.waiting.Nodup
  ended_iff : ∀ i, i ∈ x.ended ↔ x.phase? i = some .over
  ended_once : x.ended.Nodup
  peak : x.size ≠ 0 → x.peak ≤ x.size

namespace Permitted
variable {x : Executor α}

theorem start (size : Nat) : Permitted ({ size } : Executor α) where
  permits _ := rfl
  patient h := absurd rfl h
  waits_iff i := by simp [phase?]
  waits_once := List.nodup_nil
  ended_iff i := by simp [phase?]
  ended_once := List.nodup_nil
  peak _ := Nat.zero_le _

theorem running_le (h : Permitted x) (hsize : x.size ≠ 0) : x.running ≤ x.size := by
  have hheld := x.running_le_held
  have hpermits := h.permits hsize
  omega

theorem submit (h : Permitted x) (jobs : List (Job α)) : Permitted (x.submit jobs) := by
  have hheld : (x.submit jobs).held = x.held := by
    have hzero : amount (fun s => s.phase.permits) (jobs.map fun job => ({ job } : JobState α)) = 0 := by
      induction jobs with
      | nil => rfl
      | cons job jobs ih => rw [List.map_cons, amount, ih, Phase.permits]
    simp only [held, total, Executor.submit, amount_append, hzero, Nat.add_zero]
  have hphase : ∀ i phase, phase ≠ .submitted →
      ((x.submit jobs).phase? i = some phase ↔ x.phase? i = some phase) := by
    intro i phase hne
    simp only [phase?, Executor.submit, List.getElem?_append]
    split
    · rfl
    · rename_i hlt
      have hnone : x.jobs[i]? = none := List.getElem?_eq_none (by omega)
      simp [hnone, Ne.symm hne]
  exact {
    permits := fun hsize => hheld.symm ▸ h.permits hsize
    patient := h.patient
    waits_iff := fun i => (h.waits_iff i).trans (hphase i .queued nofun).symm
    waits_once := h.waits_once
    ended_iff := fun i => (h.ended_iff i).trans (hphase i .over nofun).symm
    ended_once := h.ended_once
    peak := h.peak }

section
variable (h : Permitted x) {i : Nat} {s : JobState α} (hi : x.jobs[i]? = some s)
include h hi

/-- A job that waits neither before nor afterwards, and is not over, has as many permits as before or takes a
free one. -/
theorem relabel (phase : Phase) {free : Nat} (hold : s.phase ≠ .queued ∧ s.phase ≠ .over)
    (hnew : phase ≠ .queued ∧ phase ≠ .over)
    (hpermits : x.size ≠ 0 → free + phase.permits = x.free + s.phase.permits) (hle : free ≤ x.free) :
    Permitted ({ x with free }.setPhase i phase) := by
  have hphase := phase?_setPhase hi phase
  have hsame : ∀ j phase', phase' ≠ phase → phase' ≠ s.phase →
      ((x.setPhase i phase).phase? j = some phase' ↔ x.phase? j = some phase') := by
    intro j phase' hne hne'
    rw [hphase]
    split
    · rename_i hj
      simp [hj, phase?_of_getElem? hi, Ne.symm hne, Ne.symm hne']
    · rfl
  have hheld : (x.setPhase i phase).held + s.phase.permits = x.held + phase.permits :=
    total_setPhase hi phase fun s => s.phase.permits
  refine ⟨fun hsize => ?_, fun hwaiting => ?_, fun j => ?_, h.waits_once, fun j => ?_, h.ended_once,
    h.peak⟩
  · have hsum := h.permits hsize
    have hshift := hpermits hsize
    change free + (x.setPhase i phase).held = x.size
    omega
  · obtain ⟨hsize, hfree⟩ := h.patient hwaiting
    exact ⟨hsize, Nat.le_zero.1 (hfree ▸ hle)⟩
  · exact (h.waits_iff j).trans (hsame j _ hnew.1.symm hold.1.symm).symm
  · exact (h.ended_iff j).trans (hsame j _ hnew.2.symm hold.2.symm).symm

/-- A job that finds no permit waits behind the others. -/
theorem enqueue (hs : s.phase = .submitted) (hsize : x.size ≠ 0) (hfree : x.free = 0) :
    Permitted ({ x with waiting := x.waiting ++ [i] }.setPhase i .queued) := by
  have hphase := phase?_setPhase hi .queued
  have hold := phase?_of_getElem? hi
  rw [hs] at hold
  have hheld : (x.setPhase i .queued).held + s.phase.permits = x.held + Phase.queued.permits :=
    total_setPhase hi .queued fun s => s.phase.permits
  have hpermits := h.permits hsize
  rw [hs] at hheld
  simp only [Phase.permits, Nat.add_zero] at hheld
  refine ⟨fun _ => ?_, fun _ => ⟨hsize, hfree⟩, fun j => ?_, ?_, fun j => ?_, h.ended_once, h.peak⟩
  · change x.free + (x.setPhase i .queued).held = x.size
    omega
  · change j ∈ x.waiting ++ [i] ↔ (x.setPhase i .queued).phase? j = _
    rw [List.mem_append, List.mem_singleton, h.waits_iff, hphase]
    by_cases hj : j = i <;> simp [hj]
  · refine List.nodup_append'.2 ⟨h.waits_once, List.nodup_singleton i, ?_⟩
    refine List.disjoint_singleton.2 fun hmem => ?_
    rw [h.waits_iff, hold] at hmem
    cases hmem
  · refine (h.ended_iff j).trans ?_
    change _ ↔ (x.setPhase i .queued).phase? j = _
    rw [hphase]
    by_cases hj : j = i <;> simp [hj, hold]

/-- A job that ends gives its permit to the first one that waits, if there is one. -/
theorem finish {k : Nat} (hs : s.phase = .running k) : Permitted (x.finish i) := by
  have hphase := phase?_setPhase hi .over
  have hold := phase?_of_getElem? hi
  rw [hs] at hold
  have hheld : (x.setPhase i .over).held + s.phase.permits = x.held + Phase.over.permits :=
    total_setPhase hi .over fun s => s.phase.permits
  rw [hs] at hheld
  simp only [Phase.permits, Nat.add_zero] at hheld
  have hwaits : ∀ j, j ∈ x.waiting ↔ (x.setPhase i .over).phase? j = some .queued := by
    intro j
    rw [h.waits_iff, hphase]
    by_cases hj : j = i <;> simp [hj, hold]
  have hended : ∀ j, j ∈ x.ended ++ [i] ↔ (x.setPhase i .over).phase? j = some .over := by
    intro j
    rw [List.mem_append, List.mem_singleton, h.ended_iff, hphase]
    by_cases hj : j = i <;> simp [hj]
  have honce : (x.ended ++ [i]).Nodup := by
    refine List.nodup_append'.2 ⟨h.ended_once, List.nodup_singleton i, ?_⟩
    refine List.disjoint_singleton.2 fun hmem => ?_
    rw [h.ended_iff, hold] at hmem
    cases hmem
  rw [Executor.finish, release]
  split
  · rename_i hsize
    exact ⟨fun hne => absurd hsize hne, h.patient, hwaits, h.waits_once, hended, honce, h.peak⟩
  · rename_i hsize
    have hpermits := h.permits hsize
    split
    · rename_i hnone
      refine ⟨fun _ => ?_, fun hne => absurd hnone hne, hwaits, h.waits_once, hended, honce, h.peak⟩
      change x.free + 1 + (x.setPhase i .over).held = x.size
      omega
    · rename_i w waiting hwaiting
      change x.waiting = w :: waiting at hwaiting
      have hfree := (h.patient (by rw [hwaiting]; exact List.cons_ne_nil _ _)).2
      have hqueued := (hwaits w).1 (hwaiting ▸ List.mem_cons_self)
      obtain ⟨t, ht, htphase⟩ := phase?_eq_some_iff.1 hqueued
      have hnext := phase?_setPhase ht .granted
      have hgrant : ((x.setPhase i .over).setPhase w .granted).held + t.phase.permits =
          (x.setPhase i .over).held + Phase.granted.permits :=
        total_setPhase ht .granted fun s => s.phase.permits
      rw [htphase] at hgrant
      simp only [Phase.permits, Nat.add_zero] at hgrant
      have hnodup := h.waits_once
      rw [hwaiting, List.nodup_cons] at hnodup
      refine ⟨fun _ => ?_, fun _ => ⟨hsize, hfree⟩, fun j => ?_, hnodup.2, fun j => ?_, honce, h.peak⟩
      · change x.free + ((x.setPhase i .over).setPhase w .granted).held = x.size
        omega
      · change j ∈ waiting ↔ ((x.setPhase i .over).setPhase w .granted).phase? j = _
        rw [hnext]
        by_cases hj : j = w
        · simp [hj, hnodup.1]
        · rw [if_neg hj, ← hwaits, hwaiting, List.mem_cons, or_iff_right hj]
      · refine (hended j).trans ?_
        change _ ↔ ((x.setPhase i .over).setPhase w .granted).phase? j = _
        rw [hnext]
        by_cases hj : j = w <;> simp [hj, hqueued]

/-- A job that has a permit goes on to its next pause or to its end. -/
theorem goOn {k : Nat} (hs : s.phase = .running k) (left : Nat) : Permitted (x.goOn i left) := by
  cases left with
  | zero => exact h.finish hi hs
  | succ left =>
    have hrun := h.relabel hi (.running left) (by simp [hs]) (by simp)
      (fun _ => by simp [hs, Phase.permits]) (Nat.le_refl _)
    exact ⟨hrun.permits, hrun.patient, hrun.waits_iff, hrun.waits_once, hrun.ended_iff,
      hrun.ended_once, hrun.peak⟩

/-- A job begins that has a permit or takes a free one. -/
theorem begun {free : Nat} (hold : s.phase ≠ .queued ∧ s.phase ≠ .over)
    (hpermits : x.size ≠ 0 → free + 1 = x.free + s.phase.permits) (hle : free ≤ x.free) :
    Permitted ({ x with free }.begun i s.job) := by
  have hrun := h.relabel hi (.running s.job.pauses) hold (by simp) hpermits hle
  exact ⟨hrun.permits, hrun.patient, hrun.waits_iff, hrun.waits_once, hrun.ended_iff, hrun.ended_once,
    fun hsize => Nat.max_le.2 ⟨h.peak hsize, hrun.running_le hsize⟩⟩

end

/-- A job that asks for a permit waits for one or begins. -/
theorem ask_cases (h : Permitted x) {i : Nat} {s : JobState α} (hi : x.jobs[i]? = some s)
    (hs : s.phase = .submitted) :
    (x.size ≠ 0 ∧ x.free = 0 ∧
      x.ask i s.job = { x with waiting := x.waiting ++ [i] }.setPhase i .queued) ∨
    ∃ free, Permitted ({ x with free }.begun i s.job) ∧
      x.ask i s.job = ({ x with free }.begun i s.job).goOn i s.job.pauses := by
  rw [ask]
  split
  · rename_i hsize
    refine .inr ⟨x.free, ?_, rfl⟩
    exact h.begun hi (by simp [hs]) (fun hne => absurd hsize hne) (Nat.le_refl _)
  · rename_i hsize
    split
    · rename_i free hfree
      refine .inr ⟨free, ?_, rfl⟩
      exact h.begun hi (by simp [hs]) (fun _ => by simp [hs, hfree, Phase.permits])
        (hfree ▸ Nat.le_succ _)
    · exact .inl ⟨hsize, ‹_›, rfl⟩

/-- A job that is ready waits for a permit, begins or goes on. -/
theorem poll_cases (h : Permitted x) {i : Nat} {s : JobState α} (hi : x.jobs[i]? = some s) :
    (s.phase.ready = false ∧ x.poll i = x) ∨
    (s.phase = .submitted ∧ x.size ≠ 0 ∧ x.free = 0 ∧
      x.poll i = { x with waiting := x.waiting ++ [i] }.setPhase i .queued) ∨
    ((s.phase = .submitted ∨ s.phase = .granted) ∧ ∃ free,
      Permitted ({ x with free }.begun i s.job) ∧
      x.poll i = ({ x with free }.begun i s.job).goOn i s.job.pauses) ∨
    ∃ left, s.phase = .running left ∧ x.poll i = x.goOn i left := by
  cases hs : s.phase with
  | queued => exact .inl ⟨rfl, by simp only [Executor.poll, hi, hs]⟩
  | «over» => exact .inl ⟨rfl, by simp only [Executor.poll, hi, hs]⟩
  | running left => exact .inr (.inr (.inr ⟨left, rfl, by simp only [Executor.poll, hi, hs]⟩))
  | granted =>
    have hpoll : x.poll i = x.enter i s.job := by simp only [Executor.poll, hi, hs]
    refine .inr (.inr (.inl ⟨.inr rfl, x.free, ?_, hpoll⟩))
    exact h.begun hi (by simp [hs]) (fun _ => by simp [hs, Phase.permits]) (Nat.le_refl _)
  | submitted =>
    have hpoll : x.poll i = x.ask i s.job := by simp only [Executor.poll, hi, hs]
    rw [hpoll]
    rcases h.ask_cases hi hs with ⟨hsize, hfree, heq⟩ | hbegun
    · exact .inr (.inl ⟨rfl, hsize, hfree, heq⟩)
    · exact .inr (.inr (.inl ⟨.inl rfl, hbegun⟩))

/-- Letting a job go on. -/
theorem poll (h : Permitted x) (i : Nat) : Permitted (x.poll i) := by
  cases hi : x.jobs[i]? with
  | none =>
    rw [Executor.poll, hi]
    exact h
  | some s =>
    rcases h.poll_cases hi with ⟨_, heq⟩ | ⟨hs, hsize, hfree, heq⟩ | ⟨_, free, hbegun, heq⟩ |
      ⟨left, hs, heq⟩ <;> rw [heq]
    · exact h
    · exact h.enqueue hi hs hsize hfree
    · exact hbegun.goOn (getElem?_begun { x with free } hi) rfl s.job.pauses
    · exact h.goOn hi hs left

theorem move (h : Permitted x) (m : Move α) : Permitted (x.move m) := by
  cases m with
  | submit jobs => exact h.submit jobs
  | poll i => exact h.poll i
  | arrange queue paused =>
    exact ⟨h.permits, h.patient, h.waits_iff, h.waits_once, h.ended_iff, h.ended_once, h.peak⟩

theorem play (h : Permitted x) (moves : List (Move α)) : Permitted (x.play moves) := by
  induction moves generalizing x with
  | nil => exact h
  | cons m moves ih => exact ih (h.move m)

end Permitted

/-! ### What is left to do -/

/-- How often a job is let go on before it is over, at most. -/
def work (s : JobState α) : Nat :=
  match s.phase with
  | .submitted => s.job.pauses + 2
  | .queued | .granted => s.job.pauses + 1
  | .running left => left + 1
  | .over => 0

def left (x : Executor α) : Nat := x.total work

namespace Permitted
variable {x : Executor α} {i : Nat} {s : JobState α}

theorem left_finish (h : Permitted x) (hi : x.jobs[i]? = some s) (hs : s.phase ≠ .queued) :
    (x.finish i).left + work s = x.left := by
  have hover : (x.setPhase i .over).left + work s = x.left := total_setPhase hi .over work
  rw [Executor.finish, release]
  split
  · exact hover
  · split
    · exact hover
    · rename_i w waiting hwaiting
      change x.waiting = w :: waiting at hwaiting
      have hqueued := (h.waits_iff w).1 (hwaiting ▸ List.mem_cons_self)
      have hne : w ≠ i := by
        rintro rfl
        rw [phase?_of_getElem? hi] at hqueued
        exact hs (Option.some.inj hqueued)
      have hw := phase?_setPhase hi .over w
      rw [if_neg hne, hqueued] at hw
      obtain ⟨t, ht, htphase⟩ := phase?_eq_some_iff.1 hw
      have hgrant : ((x.setPhase i .over).setPhase w .granted).left + work t =
          (x.setPhase i .over).left + work { t with phase := .granted } :=
        total_setPhase ht .granted work
      change ((x.setPhase i .over).setPhase w .granted).left + work s = x.left
      simp only [work, htphase] at hgrant
      omega

theorem left_goOn (h : Permitted x) (hi : x.jobs[i]? = some s) {k : Nat} (hs : s.phase = .running k)
    (left : Nat) : (x.goOn i left).left + work s = x.left + left := by
  cases left with
  | zero => exact h.left_finish hi (by simp [hs])
  | succ left => exact total_setPhase hi (.running left) work

/-- A job that is ready has less to do when it has gone on. -/
theorem left_poll (h : Permitted x) (hi : x.jobs[i]? = some s) (hs : s.phase.ready = true) :
    (x.poll i).left < x.left := by
  rcases h.poll_cases hi with ⟨hnot, _⟩ | ⟨hsub, _, _, heq⟩ | ⟨hready, free, hbegun, heq⟩ |
    ⟨left, hrun, heq⟩
  · exact absurd hs (by simp [hnot])
  · have hqueued : (x.setPhase i .queued).left + work s = x.left + work { s with phase := .queued } :=
      total_setPhase hi .queued work
    rw [heq]
    change (x.setPhase i .queued).left < x.left
    simp only [work, hsub] at hqueued
    omega
  · have hbegin : ({ x with free }.begun i s.job).left + work s = x.left + (s.job.pauses + 1) :=
      total_setPhase hi (.running s.job.pauses) work
    have hgoOn := hbegun.left_goOn (getElem?_begun { x with free } hi) rfl s.job.pauses
    have hwork : s.job.pauses + 1 ≤ work s := by
      rcases hready with hready | hready <;> simp [work, hready]
    rw [heq]
    simp only [work] at hgoOn hbegin hwork
    omega
  · have hgoOn := h.left_goOn hi hrun left
    rw [heq]
    simp only [work, hrun] at hgoOn
    omega

theorem exists_of_held (x : Executor α) (h : 0 < x.held) :
    ∃ (i : Nat) (s : JobState α), x.jobs[i]? = some s ∧ 0 < s.phase.permits := by
  obtain ⟨s, hs, hpos⟩ := exists_of_amount h
  obtain ⟨i, hi⟩ := List.getElem?_of_mem hs
  exact ⟨i, s, hi, hpos⟩

/-- As long as a job is not over there is one that is ready. -/
theorem exists_ready (h : Permitted x) (hi : x.jobs[i]? = some s) (hs : s.phase ≠ .over) :
    ∃ (j : Nat) (t : JobState α), x.jobs[j]? = some t ∧ t.phase.ready = true := by
  cases hphase : s.phase with
  | «over» => exact absurd hphase hs
  | submitted => exact ⟨i, s, hi, by rw [hphase]; rfl⟩
  | granted => exact ⟨i, s, hi, by rw [hphase]; rfl⟩
  | running left => exact ⟨i, s, hi, by rw [hphase]; rfl⟩
  | queued =>
    -- the permits are held by jobs that are ready, as one waits
    have hwaits : i ∈ x.waiting := (h.waits_iff i).2 (phase?_eq_some_iff.2 ⟨s, hi, hphase⟩)
    obtain ⟨hsize, hfree⟩ := h.patient (List.ne_nil_of_mem hwaits)
    have hpermits := h.permits hsize
    obtain ⟨j, t, hj, ht⟩ := exists_of_held x (by omega)
    refine ⟨j, t, hj, ?_⟩
    cases htphase : t.phase <;> simp_all [Phase.permits, Phase.ready]

/-- All jobs can be run to their ends. -/
theorem exists_polls (h : Permitted x) : ∃ is : List Nat,
    ∀ s ∈ (x.play (is.map .poll)).jobs, s.phase = .over := by
  induction hn : x.left using Nat.strongRecOn generalizing x with
  | ind n ih =>
    by_cases hover : ∀ s ∈ x.jobs, s.phase = .over
    · exact ⟨[], hover⟩
    · obtain ⟨s, hmem, hs⟩ : ∃ s ∈ x.jobs, s.phase ≠ .over := by simpa using hover
      obtain ⟨i, hi⟩ := List.getElem?_of_mem hmem
      obtain ⟨j, t, hj, ht⟩ := h.exists_ready hi hs
      obtain ⟨is, his⟩ := ih _ (hn ▸ h.left_poll hj ht) (h.poll j) rfl
      exact ⟨j :: is, his⟩

end Permitted

/-! ### What stays -/

/-- The size of an executor and its jobs, without their phases. -/
def frame (x : Executor α) : Nat × List (Job α) := (x.size, x.jobs.map (·.job))

section
variable (x : Executor α) (i : Nat)

theorem frame_setPhase (phase : Phase) : (x.setPhase i phase).frame = x.frame := by
  refine congrArg (x.size, ·) (List.ext_getElem? fun j => ?_)
  simp only [setPhase, List.getElem?_map, List.getElem?_modify]
  cases x.jobs[j]? <;> simp
  split <;> rfl

theorem frame_release : x.release.frame = x.frame := by
  rw [release]
  split
  · rfl
  · split
    · rfl
    · exact (frame_setPhase _ _ _).trans rfl

theorem frame_goOn (left : Nat) : (x.goOn i left).frame = x.frame := by
  cases left with
  | zero => exact (frame_release _).trans ((frame_setPhase _ _ _).trans rfl)
  | succ left => exact (frame_setPhase _ _ _).trans rfl

theorem frame_enter (job : Job α) : (x.enter i job).frame = x.frame :=
  (frame_goOn _ _ _).trans ((frame_setPhase x i (.running job.pauses)).trans rfl)

theorem frame_ask (job : Job α) : (x.ask i job).frame = x.frame := by
  rw [ask]
  split
  · exact frame_enter x i job
  · split
    · exact (frame_enter _ i job).trans rfl
    · exact (frame_setPhase _ _ _).trans rfl

theorem frame_poll : (x.poll i).frame = x.frame := by
  rw [poll]
  split
  · rfl
  · split
    · exact frame_ask x i _
    · exact frame_enter x i _
    · exact frame_goOn x i _
    · rfl
    · rfl

end

/-- The size stays, and jobs are only added. -/
theorem frame_play (x : Executor α) (moves : List (Move α)) :
    (x.play moves).size = x.size ∧ x.jobs.map (·.job) <+: (x.play moves).jobs.map (·.job) := by
  induction moves generalizing x with
  | nil => exact ⟨rfl, List.prefix_rfl⟩
  | cons m moves ih =>
    obtain ⟨hsize, hjobs⟩ := ih (x.move m)
    cases m with
    | submit jobs =>
      refine ⟨hsize, .trans ?_ hjobs⟩
      rw [move, submit, List.map_append]
      exact List.prefix_append _ _
    | poll i =>
      obtain ⟨hsize', hjobs'⟩ := Prod.mk.inj (frame_poll x i)
      exact ⟨hsize.trans hsize', hjobs' ▸ hjobs⟩
    | arrange queue paused => exact ⟨hsize, hjobs⟩

end Executor

end ShardRegistry
