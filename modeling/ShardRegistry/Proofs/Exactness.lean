import Mathlib.Logic.Function.Iterate
import ShardRegistry.Proofs.Setups

/-! Reconciliation to the letter. The old map and the new parameters decide which backends stay and
which take a new pool. The latter are built one after the other up to the first failure, and nothing is
closed before that or before the outcome is finished. -/
namespace ShardRegistry

/-! ### Closing -/

theorem count_range' (start size k : Nat) :
    (List.range' start size).count k = if start ≤ k ∧ k < start + size then 1 else 0 := by
  have hn : (List.range' start size).Nodup := List.nodup_range'
  rw [hn.count]
  simp only [List.mem_range'_1]

namespace Resources

/-- Every mention of a pool in the list closes it once, and no other pool changes. -/
theorem getElem?_closePools (r : Resources) (ps : List PoolId) (k : PoolId) :
    (r.closePools ps).pools[k]? = (r.pools[k]?).map Pool.close^[ps.count k] := by
  induction ps generalizing r with
  | nil => simp [closePools]
  | cons p ps ih =>
    have hstep : (r.closePools (p :: ps)).pools = ((r.closePool p).closePools ps).pools := rfl
    rw [hstep, ih]
    by_cases hp : p = k
    · subst hp
      simp [closePool, modifyPool, List.getElem?_modify_eq, Function.iterate_succ]
    · simp [closePool, modifyPool, List.getElem?_modify_ne _ _ hp, hp]

theorem length_closePools (r : Resources) (ps : List PoolId) :
    (r.closePools ps).pools.length = r.pools.length := by
  induction ps generalizing r with
  | nil => rfl
  | cons p ps ih =>
    exact (ih (r.closePool p)).trans (by simp [closePool, modifyPool])

theorem closePools_others (r : Resources) (ps : List PoolId) :
    { r.closePools ps with pools := r.pools } = r := by
  induction ps generalizing r with
  | nil => rfl
  | cons p ps ih =>
    have h := ih (r.closePool p)
    exact congrArg (fun s : Resources => { s with pools := r.pools }) h

theorem closePools_requests (r : Resources) (ps : List PoolId) :
    (r.closePools ps).requests = r.requests := by
  have h := congrArg requests (closePools_others r ps)
  exact h

end Resources

/-! ### Building -/

/-- What an attempt to build a backend comes to if it makes the given call of the factory. -/
def Factory.attempt (f : Factory) (call : Nat) (e : String × ConnectionParameters) :
    Except Error PoolDesign :=
  e.2.check.bind fun _ => f.build call e.1 e.2

/-- The calls that an attempt to build a backend makes: none if its parameters are invalid. -/
def asked (e : String × ConnectionParameters) : List String :=
  if e.2.check.isOk then [e.1] else []

/-- The data sources of backends that are built in order, the first of them with the pool `start`. -/
def sited (start : PoolId) (es : List (String × ConnectionParameters)) : List (String × DataSource) :=
  es.mapIdx fun i e => (e.1, ⟨e.2, start + i⟩)

theorem map_fst_sited (start : PoolId) (es : List (String × ConnectionParameters)) :
    (sited start es).map (·.1) = es.map (·.1) :=
  List.ext_getElem (by simp [sited]) fun i _ _ => by simp [sited]

theorem map_pool_sited (start : PoolId) (es : List (String × ConnectionParameters)) :
    (sited start es).map (·.2.pool) = List.range' start es.length :=
  List.ext_getElem (by simp [sited]) fun i _ _ => by simp [sited]

theorem held_of_sited {m : DataSourceMap} {start : PoolId} {es : List (String × ConnectionParameters)}
    (h : m.entries = sited start es) : m.values.map (·.pool) = List.range' start es.length := by
  rw [OrderedMap.values, h, ← map_pool_sited, List.map_map]
  rfl

theorem mem_sited {start : PoolId} {es : List (String × ConnectionParameters)} {b : String}
    {d : DataSource} : (b, d) ∈ sited start es ↔
      ∃ i, es[i]? = some (b, d.parameters) ∧ d.pool = start + i := by
  simp only [List.mem_iff_getElem?, sited, List.getElem?_mapIdx, Option.map_eq_some_iff,
    Prod.mk.injEq]
  refine exists_congr fun i => ⟨?_, ?_⟩
  · rintro ⟨e, he, rfl, rfl⟩
    exact ⟨he, rfl⟩
  · rintro ⟨he, hpool⟩
    exact ⟨_, he, rfl, by rw [← hpool]⟩

namespace Resources
variable {r₀ r r' : Resources} {f : Factory} {done todo : List (String × ConnectionParameters)}

/-- A data source is refused, or has a pool of its own behind all others. -/
theorem buildDataSource_cases (r : Resources) (f : Factory) (b : String) (p : ConnectionParameters) :
    (∃ x, f.attempt r.requests.length (b, p) = .error x ∧ r.buildDataSource f b p =
      ({ r with requests := r.requests ++ asked (b, p) }, .error (.build b x))) ∨
    (∃ design ordinal, f.attempt r.requests.length (b, p) = .ok design ∧ r.buildDataSource f b p =
      ({ r with requests := r.requests ++ [b],
                pools := r.pools ++ [{ name := b, ordinal, parameters := p, design }] },
        .ok ⟨p, r.pools.length⟩)) := by
  cases hcheck : p.check with
  | error x =>
    refine .inl ⟨x, by simp [Factory.attempt, hcheck, Except.bind], ?_⟩
    simp [buildDataSource, asked, hcheck, Except.isOk, Except.toBool]
  | ok _ =>
    cases hbuild : f.build r.requests.length b p with
    | error x =>
      refine .inl ⟨x, by simp [Factory.attempt, hcheck, hbuild, Except.bind], ?_⟩
      simp [buildDataSource, addPool, asked, hcheck, hbuild, Except.isOk, Except.toBool]
    | ok design =>
      refine .inr ⟨design, r.poolsNamed b, ?_, ?_⟩
      · simp [Factory.attempt, hcheck, hbuild, Except.bind]
      · simp [buildDataSource, addPool, hcheck, hbuild]

/-- What stands after the backends of a list were built in order: each was asked for once, and has a
pool of its own behind the old ones, open and unused. -/
structure Raised (r₀ : Resources) (f : Factory) (done : List (String × ConnectionParameters))
    (r : Resources) : Prop where
  requests : r.requests = r₀.requests ++ done.map (·.1)
  length : r.pools.length = r₀.pools.length + done.length
  kept : r₀.pools <+: r.pools
  made : ∀ i b p, done[i]? = some (b, p) → ∃ design ordinal,
    f.attempt (r₀.requests.length + i) (b, p) = .ok design ∧
    r.pools[r₀.pools.length + i]? = some { name := b, ordinal, parameters := p, design }
  others : { r with requests := r₀.requests, pools := r₀.pools } = r₀

theorem Raised.start (r : Resources) (f : Factory) : Raised r f [] r where
  requests := by simp
  length := by simp
  kept := List.prefix_refl _
  made := by simp
  others := rfl

/-- The number of the next call. -/
theorem Raised.next (h : Raised r₀ f done r) :
    r.requests.length = r₀.requests.length + done.length := by
  simp [h.requests]

theorem Raised.snoc (h : Raised r₀ f done r) {b : String} {p : ConnectionParameters}
    {design : PoolDesign} {ordinal : Nat}
    (ha : f.attempt r.requests.length (b, p) = .ok design) :
    Raised r₀ f (done ++ [(b, p)])
      { r with requests := r.requests ++ [b],
               pools := r.pools ++ [{ name := b, ordinal, parameters := p, design }] } where
  requests := by simp [h.requests]
  length := by simp [h.length, Nat.add_assoc]
  kept := h.kept.trans (List.prefix_append _ _)
  made i c q hi := by
    rcases Nat.lt_trichotomy i done.length with hlt | rfl | hgt
    · rw [List.getElem?_append_left hlt] at hi
      obtain ⟨design', ordinal', hattempt, hpool⟩ := h.made i c q hi
      refine ⟨design', ordinal', hattempt, ?_⟩
      rwa [List.getElem?_append_left (by rw [h.length]; omega)]
    · simp only [List.getElem?_concat_length, Option.some.injEq, Prod.mk.injEq] at hi
      obtain ⟨rfl, rfl⟩ := hi
      refine ⟨design, ordinal, h.next ▸ ha, ?_⟩
      rw [← h.length]
      simp
    · have hlen := (List.getElem?_eq_some_iff.1 hi).1
      simp at hlen
      omega
  others := h.others

/-- Building goes on to the end or to the first attempt that fails, upon which all pools made since
the start are closed. -/
theorem buildAll_raises {built : DataSourceMap} {result : Except Error DataSourceMap}
    (h : Raised r₀ f done r) (hbuilt : built.entries = sited r₀.pools.length done)
    (hn : ((done ++ todo).map (·.1)).Nodup) (hb : r.buildAll f built todo = (r', result)) :
    (∃ m : DataSourceMap, result = .ok m ∧ m.entries = sited r₀.pools.length (done ++ todo) ∧
      Raised r₀ f (done ++ todo) r') ∨
    (∃ made b p rest x r₁, done ++ todo = made ++ (b, p) :: rest ∧ result = .error (.build b x) ∧
      f.attempt (r₀.requests.length + made.length) (b, p) = .error x ∧ Raised r₀ f made r₁ ∧
      r' = { r₁ with requests := r₁.requests ++ asked (b, p) }.closePools
        (List.range' r₀.pools.length made.length)) := by
  induction todo generalizing r built done with
  | nil =>
    cases hb
    exact .inl ⟨built, rfl, by simpa using hbuilt, by simpa using h⟩
  | cons e todo ih =>
    obtain ⟨b, p⟩ := e
    rcases buildDataSource_cases r f b p with ⟨x, hx, hd⟩ | ⟨design, ordinal, ha, hd⟩
    · simp only [buildAll, hd, Prod.mk.injEq] at hb
      obtain ⟨rfl, rfl⟩ := hb
      refine .inr ⟨done, b, p, todo, x, r, rfl, rfl, h.next ▸ hx, h, ?_⟩
      rw [held_of_sited hbuilt]
    · simp only [buildAll, hd] at hb
      have hsplit : done ++ (b, p) :: todo = done ++ [(b, p)] ++ todo := by simp
      rw [hsplit] at hn ⊢
      refine ih (h.snoc ha) ?_ hn hb
      have hnot : b ∉ built.keys := by
        rw [OrderedMap.keys, hbuilt, map_fst_sited]
        intro hm
        rw [List.map_append, List.map_append] at hn
        exact List.disjoint_of_nodup_append (List.nodup_append'.1 hn).1 hm (by simp)
      rw [OrderedMap.entries_insert built _ hnot, hbuilt, h.length]
      simp [sited, List.mapIdx_concat]

end Resources

/-! ### Reconciling -/

namespace Reconciliation

/-- What a reconciliation that succeeded has done, and what it will do when it is finished. -/
structure Exact (x : Reconciliation) (r r' : Resources) (f : Factory) (current : DataSourceMap)
    (new : ParameterMap) : Prop where
  keys : ∀ b, b ∈ x.dataSources.keys ↔ b ∈ new.keys
  parameters : ∀ b, x.dataSources.parameters.find? b = new.find? b
  order : x.dataSources.keys = (current.retained new).map (·.1) ++ (current.modified new).map (·.1) ++
    (current.added new).map (·.1)
  /-- A backend has its old pool exactly when it is in both maps with equal parameters. -/
  keeps : ∀ b, (∃ d₀ d, current.find? b = some d₀ ∧ x.dataSources.find? b = some d ∧
      d.pool = d₀.pool) ↔
    ∃ p, current.parameters.find? b = some p ∧ new.find? b = some p
  renews : ∀ b p, new.find? b = some p → current.parameters.find? b ≠ some p →
    ∃ k design ordinal, x.dataSources.find? b = some ⟨p, k⟩ ∧ r.pools.length ≤ k ∧
      r'.pools[k]? = some { name := b, ordinal, parameters := p, design }
  /-- One call is made for each backend that is modified or added, and nothing is closed. -/
  raised : r.Raised f (current.outdated new) r'
  distinct : ((current.outdated new).map (·.1)).Nodup
  /-- Committing closes the old pool of each backend that is deleted or modified, once. -/
  committed : ∀ (s : Resources) (k : PoolId), (x.commit s).pools[k]? =
    (s.pools[k]?).map Pool.close^[((current.dropped new).map (·.2.pool)).count k]
  /-- Aborting closes each pool that was built, once. -/
  aborted : ∀ (s : Resources) (k : PoolId), (x.abort s).pools[k]? =
    if r.pools.length ≤ k ∧ k < r'.pools.length then (s.pools[k]?).map Pool.close else s.pools[k]?
  finished : ∀ s : Resources, { x.commit s with pools := s.pools } = s ∧
    { x.abort s with pools := s.pools } = s
  /-- The same parameters once more, whatever the factory would do. -/
  again : ∀ (s : Resources) (g : Factory), compute s g x.dataSources new =
    (s, .ok ⟨{}, x.dataSources, .empty, []⟩)

/-- What a reconciliation has done that gave up at a backend, after `made` had been built. -/
structure Refused (r r' : Resources) (f : Factory) (made : List (String × ConnectionParameters))
    (b : String) (p : ConnectionParameters) (x : Error) : Prop where
  /-- The attempt fails, and it is the first that does. -/
  fails : f.attempt (r.requests.length + made.length) (b, p) = .error x
  requests : r'.requests = r.requests ++ made.map (·.1) ++ asked (b, p)
  length : r'.pools.length = r.pools.length + made.length
  kept : r.pools <+: r'.pools
  /-- What was built before is closed, each pool once. -/
  closed : ∀ i b p, made[i]? = some (b, p) → ∃ design ordinal,
    f.attempt (r.requests.length + i) (b, p) = .ok design ∧ r'.pools[r.pools.length + i]? =
      some (Pool.close { name := b, ordinal, parameters := p, design })
  others : { r' with requests := r.requests, pools := r.pools } = r

variable {r r' : Resources} {f : Factory} {current : DataSourceMap} {new : ParameterMap}

/-- A reconciliation with parameters that the data sources have already. -/
theorem compute_of_agree {m : DataSourceMap} (h : ∀ b, m.parameters.find? b = new.find? b)
    (s : Resources) (g : Factory) : compute s g m new = (s, .ok ⟨{}, m, .empty, []⟩) := by
  have hstays : (m.filter fun _ _ => true) = m :=
    OrderedMap.ext_entries (List.filter_eq_self.2 fun _ _ => rfl)
  have hleaves : (m.filter fun _ _ => false) = .empty :=
    OrderedMap.ext_entries (List.filter_eq_nil_iff.2 fun _ _ => by simp)
  simp [compute, DataSourceChanges.compute_of_agree h, select, Resources.buildAll,
    DataSourceChanges.supersedes, hstays, hleaves, OrderedMap.empty, OrderedMap.values]

theorem Refused.of_raised {r₁ : Resources} {made : List (String × ConnectionParameters)} {b : String}
    {p : ConnectionParameters} {x : Error} (h : r.Raised f made r₁)
    (hx : f.attempt (r.requests.length + made.length) (b, p) = .error x) :
    Refused r ({ r₁ with requests := r₁.requests ++ asked (b, p) }.closePools
      (List.range' r.pools.length made.length)) f made b p x := by
  generalize hs : { r₁ with requests := r₁.requests ++ asked (b, p) } = s
  have hpools : s.pools = r₁.pools := by rw [← hs]
  have hclosed := s.getElem?_closePools (List.range' r.pools.length made.length)
  simp only [count_range', hpools] at hclosed
  have hothers := s.closePools_others (List.range' r.pools.length made.length)
  refine
    { fails := hx
      requests := by rw [Resources.closePools_requests, ← hs, h.requests]
      length := by rw [Resources.length_closePools, hpools, h.length]
      kept := ?_, closed := ?_, others := ?_ }
  · rw [List.prefix_iff_getElem?]
    intro k hk
    have hold : ¬ (r.pools.length ≤ k ∧ k < r.pools.length + made.length) := by omega
    rw [hclosed, if_neg hold, List.prefix_iff_getElem?.1 h.kept k hk]
    rfl
  · intro i b p hi
    have hlt := (List.getElem?_eq_some_iff.1 hi).1
    obtain ⟨design, ordinal, ha, hpool⟩ := h.made i b p hi
    refine ⟨design, ordinal, ha, ?_⟩
    rw [hclosed, if_pos (by omega), hpool]
    rfl
  · subst hs
    have hrest := congrArg
      (fun t : Resources => { t with requests := r.requests, pools := r.pools }) hothers
    exact hrest.trans h.others

/-- A backend of the outcome is an old one that stays or one that was built. -/
theorem find?_of_compute {x : Reconciliation} {start : PoolId}
    (hentries : x.dataSources.entries = current.retained new ++ sited start (current.outdated new))
    (b : String) (d : DataSource) : x.dataSources.find? b = some d ↔
      (current.find? b = some d ∧ new.find? b = some d.parameters) ∨
      ∃ i, (current.outdated new)[i]? = some (b, d.parameters) ∧ d.pool = start + i := by
  rw [← OrderedMap.mem_entries_iff, hentries, List.mem_append, DataSourceMap.mem_retained, mem_sited]

theorem Exact.of_raised {x : Reconciliation} (hold : ∀ k ∈ current.held, k < r.pools.length)
    (hx : compute r f current new = (r', .ok x)) (h : r.Raised f (current.outdated new) r')
    (hbuilt : x.built.entries = sited r.pools.length (current.outdated new)) :
    x.Exact r r' f current new := by
  have hjoins := (compute_ok hx).2
  have hentries : x.dataSources.entries =
      current.retained new ++ sited r.pools.length (current.outdated new) :=
    hbuilt ▸ hjoins.dataSources
  have hfind := find?_of_compute hentries
  have hparameters := hjoins.parameters
  refine
    { keys := ?_, parameters := hparameters, order := ?_, keeps := ?_, renews := ?_, raised := h
      distinct := DataSourceMap.nodup_outdated, committed := ?_, aborted := ?_
      finished := fun s => ⟨s.closePools_others _, s.closePools_others _⟩
      again := compute_of_agree hparameters }
  · intro b
    rw [OrderedMap.mem_keys_iff, OrderedMap.mem_keys_iff, ← hparameters,
      DataSourceMap.find?_parameters]
    simp
  · rw [OrderedMap.keys, hentries, List.map_append, map_fst_sited, DataSourceMap.outdated,
      List.map_append, List.append_assoc]
  · intro b
    rw [DataSourceMap.find?_parameters]
    constructor
    · rintro ⟨d₀, d, hd₀, hd, hpool⟩
      rcases (hfind b d).1 hd with ⟨hd', hnew⟩ | ⟨i, _, hi⟩
      · exact ⟨d.parameters, by rw [hd']; rfl, hnew⟩
      · -- the pool of a backend that was built is none of the old ones
        have hmem := (OrderedMap.mem_entries_iff current b d₀).2 hd₀
        have hlt : d₀.pool < r.pools.length := hold _ (List.mem_map_of_mem (List.mem_map_of_mem hmem))
        exact absurd (hpool ▸ hi) (Nat.ne_of_lt (Nat.lt_add_right i hlt))
    · rintro ⟨p, hp, hnew⟩
      obtain ⟨d, hd, rfl⟩ := Option.map_eq_some_iff.1 hp
      exact ⟨d, d, hd, (hfind b d).2 (.inl ⟨hd, hnew⟩), rfl⟩
  · intro b p hnew hne
    have hmem : (b, p) ∈ current.outdated new := DataSourceMap.mem_outdated.2 ⟨hnew, hne⟩
    obtain ⟨i, hi⟩ := List.mem_iff_getElem?.1 hmem
    obtain ⟨design, ordinal, _, hpool⟩ := h.made i b p hi
    exact ⟨r.pools.length + i, design, ordinal, (hfind b _).2 (.inr ⟨i, hi, rfl⟩), by omega, hpool⟩
  · intro s k
    rw [commit, s.getElem?_closePools, hjoins.superseded, List.map_map]
    rfl
  · intro s k
    rw [abort, Resources.closeDataSources, held_of_sited hbuilt, s.getElem?_closePools, count_range', h.length]
    split <;> simp

/-- Reconciling does exactly what the difference of the maps asks for, or stops at the first backend
that cannot be built and takes back what it has built. -/
theorem compute_exact (r : Resources) (f : Factory) (current : DataSourceMap) (new : ParameterMap)
    (hold : ∀ k ∈ current.held, k < r.pools.length) :
    (∃ r' x, compute r f current new = (r', .ok x) ∧ x.Exact r r' f current new) ∨
    (∃ r' made b p rest x, compute r f current new = (r', .error (.build b x)) ∧
      current.outdated new = made ++ (b, p) :: rest ∧ Refused r r' f made b p x) := by
  have hn : (([] ++ current.outdated new).map Prod.fst).Nodup := DataSourceMap.nodup_outdated
  obtain ⟨r', result, hb⟩ : ∃ r' result, r.buildAll f .empty (current.outdated new) = (r', result) :=
    ⟨_, _, rfl⟩
  have hstart : (OrderedMap.empty : DataSourceMap).entries = sited r.pools.length [] := rfl
  rcases Resources.buildAll_raises (.start r f) hstart hn hb with
    ⟨m, rfl, hm, hr⟩ | ⟨made, b, p, rest, x, r₁, hsplit, rfl, hx, hr, rfl⟩
  · obtain ⟨x, hx, rfl⟩ : ∃ x, compute r f current new = (r', .ok x) ∧ x.built = m :=
      ⟨_, by simp only [compute, DataSourceChanges.select_changed, hb]; rfl, rfl⟩
    exact .inl ⟨r', x, hx, .of_raised hold hx hr hm⟩
  · refine .inr ⟨_, made, b, p, rest, x, ?_, hsplit, .of_raised hr hx⟩
    simp only [compute, DataSourceChanges.select_changed, hb]

/-- Three backends with a pool each. -/
def threeBackends : DataSourceMap :=
  .ofList [("a", ⟨{ url := "u/a" }, 0⟩), ("b", ⟨{ url := "u/b" }, 1⟩), ("c", ⟨{ url := "u/c" }, 2⟩)]

/-- The pools of the three backends. -/
def threePools : Resources where
  pools := threeBackends.entries.map fun e =>
    { name := e.1, ordinal := 0, parameters := e.2.parameters, design := {} }

/-- The first backend is gone, the second one is resized, and there is a fourth one. -/
def resized : ParameterMap :=
  .ofList [("d", { url := "u/d" }), ("b", { url := "u/b", maxPoolSize := 20 }), ("c", { url := "u/c" })]

theorem compute_exact_resized :
    (∀ k ∈ threeBackends.held, k < threePools.pools.length) ∧
    (∃ r' x, compute threePools (.immediate [] []) threeBackends resized = (r', .ok x) ∧
      x.dataSources.keys = ["c", "b", "d"] ∧ r'.requests = ["b", "d"] ∧
      x.superseded.map (·.pool) = [0, 1]) ∧
    (∃ r' x, compute threePools (.immediate ["d"] []) threeBackends resized =
        (r', .error (.build "d" x)) ∧ r'.requests = ["b", "d"] ∧
      r'.pools.map (·.closing) = [(false, 0), (false, 0), (false, 0), (true, 1)]) := by
  have hold : ∀ k ∈ threeBackends.held, k < threePools.pools.length := by decide
  refine ⟨hold, ?_, ⟨_, _, rfl, rfl, rfl⟩⟩
  have hok : (compute threePools (.immediate [] []) threeBackends resized).2.isOk = true := rfl
  rcases compute_exact threePools (.immediate [] []) threeBackends resized hold with
    ⟨r', x, hx, h⟩ | ⟨_, _, _, _, _, _, hx, _⟩
  · exact ⟨r', x, hx, h.order, h.raised.requests, by rw [(compute_ok hx).2.superseded]; rfl⟩
  · rw [hx] at hok
    cases hok

end Reconciliation

end ShardRegistry
