import Mathlib.Data.List.Perm.Subperm
import ShardRegistry.Proofs.Permits

/-! Joining of batches. A call collects what its jobs end with in the order in which it observes their ends, and
then has a result: the values in the order of the jobs, or the first fault that it observed. -/
namespace ShardRegistry

/-- The fault of a job that ends without a value. -/
def Job.fault? {α : Type} (job : Job α) : Option BatchFault := Executor.fault? { job }

def Job.value? {α : Type} (job : Job α) : Option α := Executor.value? { job }

namespace Executor
variable {α : Type}

/-! ### What a call collects -/

/-- What a call has collected: values by the numbers of their jobs, and the first fault. -/
structure Collected (α : Type) where
  values : List (Nat × α) := []
  fault : Option BatchFault := none

/-- Adds what the job of a number ended with. -/
def collect (x : Executor α) (c : Collected α) (i : Nat) : Collected α :=
  match x.jobs[i]? with
  | none => c
  | some s => match s.job.ending with
    | .value v => { c with values := c.values ++ [(i, v)] }
    | .fails e => { c with fault := c.fault <|> some (.failed e) }
    | .panics => { c with fault := c.fault <|> some .panicked }

def Collected.result (c : Collected α) : Except BatchFault (List α) :=
  match c.fault with
  | some f => .error f
  | none => .ok ((c.values.mergeSort fun a b => a.1 ≤ b.1).map (·.2))

/-- The result of a call that observes the ends of jobs in the given order. -/
def joined (x : Executor α) (observed : List Nat) : Except BatchFault (List α) :=
  (observed.foldl x.collect {}).result

def faultAt? (x : Executor α) (i : Nat) : Option BatchFault := (x.jobs[i]?).bind fault?

def valueAt? (x : Executor α) (i : Nat) : Option (Nat × α) :=
  ((x.jobs[i]?).bind value?).map fun v => (i, v)

theorem collect_eq (x : Executor α) (c : Collected α) (i : Nat) : x.collect c i =
    ⟨c.values ++ (x.valueAt? i).toList, c.fault <|> x.faultAt? i⟩ := by
  rw [collect, valueAt?, faultAt?]
  cases x.jobs[i]? with
  | none => simp
  | some s => cases hs : s.job.ending <;> simp [fault?, value?, hs]

/-- A call has the values of all the jobs that it observed and the first of their faults. -/
theorem foldl_collect (x : Executor α) (observed : List Nat) (c : Collected α) :
    observed.foldl x.collect c =
      ⟨c.values ++ observed.filterMap x.valueAt?, c.fault <|> observed.findSome? x.faultAt?⟩ := by
  induction observed generalizing c with
  | nil => simp
  | cons i observed ih =>
    rw [List.foldl_cons, ih, collect_eq, List.filterMap_cons, List.findSome?_cons]
    cases hv : x.valueAt? i <;> cases hf : x.faultAt? i <;> cases c.fault <;> simp

theorem fst_of_valueAt? {x : Executor α} {i : Nat} {e : Nat × α} (h : x.valueAt? i = some e) :
    e.1 = i := by
  simp only [valueAt?, Option.map_eq_some_iff] at h
  obtain ⟨v, _, rfl⟩ := h
  rfl

theorem valueAt?_of_mem {x : Executor α} {is : List Nat} {e : Nat × α}
    (h : e ∈ is.filterMap x.valueAt?) : x.valueAt? e.1 = some e := by
  obtain ⟨i, _, hi⟩ := List.mem_filterMap.1 h
  rwa [fst_of_valueAt? hi]

/-- The values of jobs whose numbers ascend stand in their order. -/
theorem mergeSort_values {x : Executor α} {observed numbers : List Nat} (h : observed.Perm numbers)
    (hsorted : numbers.Pairwise (· < ·)) :
    ((observed.filterMap x.valueAt?).mergeSort fun a b => a.1 ≤ b.1) = numbers.filterMap x.valueAt? := by
  have hnumbers : (numbers.filterMap x.valueAt?).Pairwise fun a b => a.1 < b.1 := by
    refine hsorted.filterMap _ fun i j hij a ha b hb => ?_
    rwa [fst_of_valueAt? ha, fst_of_valueAt? hb]
  have hsame : ((observed.filterMap x.valueAt?).mergeSort fun a b => a.1 ≤ b.1).Perm
      (numbers.filterMap x.valueAt?) := (List.mergeSort_perm _ _).trans (h.filterMap _)
  have hle : ((observed.filterMap x.valueAt?).mergeSort fun a b => a.1 ≤ b.1).Pairwise
      fun a b => a.1 ≤ b.1 := by
    refine (List.pairwise_mergeSort (fun a b c hab hbc => ?_) (fun a b => ?_) _).imp of_decide_eq_true
    · simp only [decide_eq_true_eq] at hab hbc ⊢
      omega
    · simp only [Bool.or_eq_true, decide_eq_true_eq]
      omega
  refine hsame.eq_of_pairwise (fun a b ha hb hab hba => ?_) hle (hnumbers.imp Nat.le_of_lt)
  have ha := valueAt?_of_mem (List.mem_mergeSort.1 ha)
  rw [Nat.le_antisymm hab hba, valueAt?_of_mem hb] at ha
  exact (Option.some.inj ha).symm

theorem filterMap_range' {β γ : Type} (l : List β) (f : β → Option γ) (first count : Nat) :
    (List.range' first count).filterMap (fun i => (l[i]?).bind f) =
      ((l.drop first).take count).filterMap f := by
  induction count generalizing first with
  | zero => simp
  | succ count ih =>
    rw [List.range'_succ, List.filterMap_cons, ih]
    cases hfirst : l[first]? with
    | none =>
      have hlength := List.getElem?_eq_none_iff.1 hfirst
      simp [List.drop_eq_nil_of_le hlength, List.drop_eq_nil_of_le (Nat.le_succ_of_le hlength)]
    | some b =>
      obtain ⟨hlt, rfl⟩ := List.getElem?_eq_some_iff.1 hfirst
      rw [List.drop_eq_getElem_cons hlt, List.take_succ_cons, List.filterMap_cons]
      rfl

/-- The result of a batch, in whatever order the ends of its jobs are observed. -/
theorem joined_eq {x : Executor α} {observed : List Nat} {first count : Nat}
    (h : observed.Perm (List.range' first count)) :
    x.joined observed = match observed.findSome? x.faultAt? with
      | some f => .error f
      | none => .ok (((x.jobs.drop first).take count).filterMap value?) := by
  have hvalues : (List.range' first count).filterMap (fun i => (x.valueAt? i).map (·.2)) =
      ((x.jobs.drop first).take count).filterMap value? := by
    rw [← filterMap_range']
    refine List.filterMap_congr fun i _ => ?_
    rw [valueAt?]
    cases (x.jobs[i]?).bind value? <;> rfl
  have hsorted : (List.range' first count).Pairwise (· < ·) := List.pairwise_lt_range'
  have hfold : observed.foldl x.collect {} =
      ⟨observed.filterMap x.valueAt?, observed.findSome? x.faultAt?⟩ := foldl_collect x observed {}
  rw [joined, hfold, Collected.result, mergeSort_values h hsorted, List.map_filterMap, hvalues]

/-! ### The result of a batch -/

/-- The jobs of a batch that are over, in the order in which they ended. -/
def endedOf (x : Executor α) (first count : Nat) : List Nat :=
  x.ended.filter fun i => first ≤ i && i < first + count

theorem result?_eq (x : Executor α) (first count : Nat) : x.result? first count =
    if (x.endedOf first count).length < count then none
    else match (x.endedOf first count).findSome? x.faultAt? with
      | some f => some (.error f)
      | none => some (.ok (((x.jobs.drop first).take count).filterMap value?)) := rfl

namespace Permitted
variable {x : Executor α} (h : Permitted x) (first count : Nat)
include h

theorem endedOf_subperm : (x.endedOf first count).Subperm (List.range' first count) := by
  refine List.subperm_of_subset (h.ended_once.filter _) fun i hi => ?_
  have hbounds := (List.mem_filter.1 hi).2
  rw [Bool.and_eq_true, decide_eq_true_eq, decide_eq_true_eq] at hbounds
  exact List.mem_range'_1.2 hbounds

theorem over_of_mem_endedOf {i : Nat} (hi : i ∈ x.endedOf first count) : x.phase? i = some .over :=
  (h.ended_iff i).1 (List.mem_of_mem_filter hi)

/-- A batch has a result when all its jobs are over, which are then all that it observed. -/
theorem endedOf_perm_iff : (x.endedOf first count).Perm (List.range' first count) ↔
    ∀ i ∈ List.range' first count, x.phase? i = some .over := by
  constructor
  · intro hperm i hi
    exact h.over_of_mem_endedOf first count (hperm.mem_iff.2 hi)
  · intro hover
    refine (h.endedOf_subperm first count).antisymm (List.subperm_of_subset List.nodup_range' ?_)
    intro i hi
    refine List.mem_filter.2 ⟨(h.ended_iff i).2 (hover i hi), ?_⟩
    have hbounds := List.mem_range'_1.1 hi
    simpa using hbounds

theorem result?_eq_none_iff : x.result? first count = none ↔
    ∃ i ∈ List.range' first count, x.phase? i ≠ some .over := by
  have hlength : (x.endedOf first count).length < count ↔
      ¬ (x.endedOf first count).Perm (List.range' first count) := by
    constructor
    · intro hlt hperm
      have hsame := hperm.length_eq
      rw [List.length_range'] at hsame
      omega
    · intro hnot
      by_contra hge
      refine hnot ((h.endedOf_subperm first count).perm_of_length_le ?_)
      rw [List.length_range']
      omega
  rw [h.endedOf_perm_iff] at hlength
  rw [result?_eq]
  split
  · rename_i hlt
    have hnot := hlength.1 hlt
    simp only [not_forall] at hnot
    obtain ⟨i, hi, hne⟩ := hnot
    exact iff_of_true rfl ⟨i, hi, hne⟩
  · rename_i hge
    have hall := not_not.1 (mt hlength.2 hge)
    exact iff_of_false (by split <;> simp) fun ⟨i, hi, hne⟩ => hne (hall i hi)

theorem result?_eq_joined {r : Except BatchFault (List α)} (hr : x.result? first count = some r) :
    (x.endedOf first count).Perm (List.range' first count) ∧
      r = x.joined (x.endedOf first count) := by
  have hperm : (x.endedOf first count).Perm (List.range' first count) := by
    rw [h.endedOf_perm_iff]
    intro i hi
    by_contra hne
    rw [(h.result?_eq_none_iff first count).2 ⟨i, hi, hne⟩] at hr
    cases hr
  refine ⟨hperm, ?_⟩
  have hlength := hperm.length_eq
  rw [List.length_range'] at hlength
  rw [result?_eq, if_neg (by omega)] at hr
  rw [joined_eq hperm]
  split at hr <;> exact (Option.some.inj hr).symm

end Permitted

/-- A call that observed the ends of the jobs of a batch in the given order returns its result. -/
structure Returns (x : Executor α) (first count : Nat) (observed : List Nat)
    (r : Except BatchFault (List α)) : Prop where
  all : observed.Perm (List.range' first count)
  ended : ∀ i ∈ observed, x.phase? i = some .over
  result : r = x.joined observed

/-- What a call that observed the ends of its jobs in the given order has to return: all values in the order of
the jobs, or the first fault observed. -/
structure Answers (jobs : List (Job α)) (first : Nat) (observed : List Nat)
    (r : Except BatchFault (List α)) : Prop where
  values : ∀ vs, jobs.map (·.ending) = vs.map .value → r = .ok vs
  fault : ∀ job ∈ jobs, job.fault? ≠ none → ∃ earlier k later failed f,
    observed = earlier ++ (first + k) :: later ∧ jobs[k]? = some failed ∧ failed.fault? = some f ∧
    r = .error f ∧ ∀ k' job', first + k' ∈ earlier → jobs[k']? = some job' → job'.fault? = none

/-- The jobs of a batch stand where it was submitted, whatever happens behind. -/
theorem jobs_of_submitted (y : Executor α) (jobs : List (Job α)) (after : List (Move α)) :
    (((((y.submit jobs).play after).jobs.drop y.jobs.length).take jobs.length).map (·.job)) = jobs := by
  obtain ⟨_, more, hmore⟩ := frame_play (y.submit jobs) after
  have hsubmit : (y.submit jobs).jobs.map (·.job) = y.jobs.map (·.job) ++ jobs := by
    simp [submit, Function.comp_def]
  rw [List.map_take, List.map_drop, ← hmore, hsubmit, List.append_assoc,
    List.drop_left' (List.length_map _), List.take_left' rfl]

section
variable {x : Executor α} {first : Nat} {jobs : List (Job α)}
  (hjobs : ((x.jobs.drop first).take jobs.length).map (·.job) = jobs)
include hjobs

theorem faultAt?_of_batch {k : Nat} (hk : k < jobs.length) :
    x.faultAt? (first + k) = (jobs[k]?).bind Job.fault? := by
  have hjob : (x.jobs[first + k]?).map (·.job) = jobs[k]? := by
    have hget := congrArg (·[k]?) hjobs
    simpa only [List.getElem?_map, List.getElem?_take_of_lt hk, List.getElem?_drop] using hget
  rw [faultAt?, ← hjob]
  cases x.jobs[first + k]? <;> rfl

theorem values_of_batch : ((x.jobs.drop first).take jobs.length).filterMap value? =
    jobs.filterMap Job.value? := by
  conv_rhs => rw [← hjobs]
  rw [List.filterMap_map]
  rfl

theorem joined_answers {observed : List Nat}
    (hall : observed.Perm (List.range' first jobs.length)) :
    Answers jobs first observed (x.joined observed) := by
  have hplace : ∀ i ∈ observed, ∃ k, k < jobs.length ∧ i = first + k := by
    intro i hi
    have hbounds := List.mem_range'_1.1 (hall.mem_iff.1 hi)
    exact ⟨i - first, by omega, by omega⟩
  rw [joined_eq hall, values_of_batch hjobs]
  constructor
  · intro vs hvs
    have hvalue : ∀ job ∈ jobs, ∃ v, job.ending = .value v := by
      intro job hjob
      have hmem : job.ending ∈ jobs.map (·.ending) := List.mem_map.2 ⟨job, hjob, rfl⟩
      rw [hvs] at hmem
      obtain ⟨v, _, hv⟩ := List.mem_map.1 hmem
      exact ⟨v, hv.symm⟩
    have hnone : observed.findSome? x.faultAt? = none := by
      refine List.findSome?_eq_none_iff.2 fun i hi => ?_
      obtain ⟨k, hk, rfl⟩ := hplace i hi
      obtain ⟨v, hv⟩ := hvalue _ (List.getElem_mem hk)
      rw [faultAt?_of_batch hjobs hk, List.getElem?_eq_getElem hk, Option.bind_some]
      simp [Job.fault?, fault?, hv]
    have hvalues : jobs.filterMap Job.value? = vs := by
      have hending : jobs.filterMap Job.value? =
          (jobs.map (·.ending)).filterMap fun e => Job.value? ⟨0, e⟩ := by
        rw [List.filterMap_map]
        rfl
      rw [hending, hvs, List.filterMap_map]
      exact List.filterMap_some
    rw [hnone, hvalues]
  · intro job hjob hfault
    obtain ⟨k, hk, rfl⟩ := List.getElem_of_mem hjob
    obtain ⟨f, hf⟩ : ∃ f, observed.findSome? x.faultAt? = some f := by
      refine Option.ne_none_iff_exists'.1 fun hnone => hfault ?_
      have hmem : first + k ∈ observed :=
        hall.mem_iff.2 (List.mem_range'_1.2 ⟨Nat.le_add_right _ _, Nat.add_lt_add_left hk _⟩)
      have hat := List.findSome?_eq_none_iff.1 hnone _ hmem
      rwa [faultAt?_of_batch hjobs hk, List.getElem?_eq_getElem hk] at hat
    obtain ⟨earlier, i, later, rfl, hi, hearlier⟩ := List.findSome?_eq_some_iff.1 hf
    obtain ⟨k', hk', rfl⟩ := hplace i (by simp)
    rw [faultAt?_of_batch hjobs hk', List.getElem?_eq_getElem hk'] at hi
    refine ⟨earlier, k', later, jobs[k'], f, rfl, List.getElem?_eq_getElem hk', hi, ?_, ?_⟩
    · rw [hf]
    · intro j job' hj hjob'
      obtain ⟨hlt, rfl⟩ := List.getElem?_eq_some_iff.1 hjob'
      have hat := hearlier _ hj
      rwa [faultAt?_of_batch hjobs hlt, List.getElem?_eq_getElem hlt] at hat

end

/-! ### Executors without a limit -/

theorem modify_concat {β : Type} (l : List β) (b : β) (f : β → β) :
    (l ++ [b]).modify l.length f = l ++ [f b] := by
  induction l with
  | nil => rfl
  | cons c l ih => simpa using ih

/-- Without a limit a job begins at once, whatever else runs. -/
theorem jobs_of_begun (y : Executor α) (hsize : y.size = 0) (ending : Ending α) :
    (y.play [.submit [⟨1, ending⟩], .poll y.jobs.length]).jobs =
      y.jobs ++ [⟨⟨1, ending⟩, .running 0⟩] := by
  have hget : (y.submit [⟨1, ending⟩]).jobs[y.jobs.length]? = some ⟨⟨1, ending⟩, .submitted⟩ := by
    simp [submit]
  have hask : ((y.submit [⟨1, ending⟩]).poll y.jobs.length) =
      (y.submit [⟨1, ending⟩]).enter y.jobs.length ⟨1, ending⟩ := by
    rw [poll]
    simp only [hget]
    exact if_pos hsize
  change ((y.submit [⟨1, ending⟩]).poll y.jobs.length).jobs = _
  rw [hask]
  change ((y.jobs ++ [(⟨⟨1, ending⟩, .submitted⟩ : JobState α)]).modify y.jobs.length _).modify
    y.jobs.length _ = _
  rw [modify_concat, modify_concat]

/-- An executor of size 0 runs any number of jobs at once. -/
theorem exists_running (n : Nat) :
    ∃ moves : List (Move α), (play { size := 0 } moves).running = n := by
  have hreach : ∃ moves : List (Move α),
      (play { size := 0 } moves).jobs = List.replicate n ⟨⟨1, .panics⟩, .running 0⟩ := by
    induction n with
    | zero => exact ⟨[], rfl⟩
    | succ n ih =>
      obtain ⟨moves, hjobs⟩ := ih
      have hsize := (frame_play ({ size := 0 } : Executor α) moves).1
      have hlength : (play { size := 0 } moves).jobs.length = n := by
        rw [hjobs, List.length_replicate]
      have hbegun := jobs_of_begun _ hsize .panics
      rw [hlength, ← play_append, hjobs, ← List.replicate_succ'] at hbegun
      exact ⟨_, hbegun⟩
  obtain ⟨moves, hjobs⟩ := hreach
  refine ⟨moves, ?_⟩
  rw [running, hjobs, List.countP_replicate]
  rfl

/-- Of whatever batches are submitted, and in whatever order their jobs go on, no more jobs run at once than the
size of the executor allows. A call returns after all its jobs are over, with their values in the order of the
jobs or with the fault that it observed first; every permit is free or held by a job that is not over, and all
jobs can be run to their ends. -/
theorem bounded_ordered_complete (size : Nat) (before : List (Move α)) (jobs : List (Job α))
    (after : List (Move α)) :
    let first := (play { size } before).jobs.length
    let x := play { size } (before ++ .submit jobs :: after)
    (size = 0 ∨ x.running ≤ size ∧ x.peak ≤ size ∧ x.free + x.held = size) ∧
    (size = 0 → ∀ n, ∃ moves : List (Move α), (play { size } moves).running = n) ∧
    (x.result? first jobs.length = none ↔
      ∃ i ∈ List.range' first jobs.length, x.phase? i ≠ some .over) ∧
    (∀ r, x.result? first jobs.length = some r →
      Returns x first jobs.length (x.endedOf first jobs.length) r) ∧
    (∀ observed r, Returns x first jobs.length observed r → Answers jobs first observed r) ∧
    (∀ i s, x.jobs[i]? = some s → s.phase.ready = true → (x.poll i).left < x.left) ∧
    ∃ is : List Nat, ∀ s ∈ (x.play (is.map .poll)).jobs, s.phase = .over := by
  intro first x
  have hpermitted : Permitted x := (Permitted.start size).play _
  have hsize : x.size = size := (frame_play _ _).1
  have hx : x = ((play { size } before).submit jobs).play after := play_append _ _ _
  have hjobs : ((x.jobs.drop first).take jobs.length).map (·.job) = jobs :=
    hx ▸ jobs_of_submitted _ jobs after
  refine ⟨?_, ?_, hpermitted.result?_eq_none_iff _ _, fun r hr => ?_, ?_, ?_, hpermitted.exists_polls⟩
  · by_cases hzero : size = 0
    · exact .inl hzero
    · have hne : x.size ≠ 0 := hsize.symm ▸ hzero
      exact .inr ⟨hsize ▸ hpermitted.running_le hne, hsize ▸ hpermitted.peak hne,
        hsize ▸ hpermitted.permits hne⟩
  · rintro rfl n
    exact exists_running n
  · obtain ⟨hperm, hjoined⟩ := hpermitted.result?_eq_joined _ _ hr
    exact ⟨hperm, fun i hi => hpermitted.over_of_mem_endedOf _ _ hi, hjoined⟩
  · rintro observed _ ⟨hall, _, rfl⟩
    exact joined_answers hjobs hall
  · exact fun i s hi hs => hpermitted.left_poll hi hs

/-- A batch whose second job panics. -/
def panicking : List (Job Nat) := [⟨1, .value 1⟩, ⟨0, .panics⟩, ⟨0, .value 3⟩]

/-- A run of that batch with one permit: the permit goes to the first job and then to the third. -/
def panicked : Executor Nat := play { size := 1 } (.submit panicking :: [1, 0, 2, 0, 2].map .poll)

/-- The job that panics ends first, and the call returns the panic when the others are over. -/
theorem bounded_ordered_complete_panicked :
    Returns panicked 0 3 [1, 0, 2] (.error .panicked) ∧
      Answers panicking 0 [1, 0, 2] (.error .panicked) := by
  have h := bounded_ordered_complete 1 [] panicking ([1, 0, 2, 0, 2].map .poll)
  have hresult : panicked.result? 0 3 = some (.error .panicked) := rfl
  have hended : panicked.endedOf 0 3 = [1, 0, 2] := rfl
  have hreturns : Returns panicked 0 3 (panicked.endedOf 0 3) (.error .panicked) :=
    h.2.2.2.1 _ hresult
  rw [hended] at hreturns
  exact ⟨hreturns, h.2.2.2.2.1 _ _ hreturns⟩

end Executor

end ShardRegistry
