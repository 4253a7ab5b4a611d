import ShardRegistry.Proofs.Attendance

/-! Heartbeats. A heartbeat reports every published backend once and nothing else, in the order of schemas and
then of backends, and its results stay until the next one. A backend is reported as closed only if somebody
else than the registry closed its pool. -/
namespace ShardRegistry

/-! ### Occupancy -/

/-- What a status says of a pool of which so many connections are in use. -/
structure PoolStatus.Accords (s : PoolStatus) (x : Pool) (live : Nat) : Prop where
  live_le_size : live ≤ s.size
  maxSize : x.isClosed = false → s.maxSize = x.parameters.maxPoolSize
  size_le_maxSize : x.isClosed = false → live ≤ s.maxSize → s.size ≤ s.maxSize
  available : x.isClosed = false → live ≤ s.maxSize → live + s.available ≤ s.maxSize

/-- Of every pool, if the driver of the remote ones counts as is documented of it. -/
theorem Pool.accords_status {driver : PoolDriver} (h : driver.Counts) (x : Pool) (live : Nat) :
    (x.status live driver).Accords x live := by
  rw [Pool.status]
  cases x.design.kind with
  | immediate =>
    exact ⟨Nat.le_refl _, fun _ => rfl, fun _ => id, fun _ hlive => Nat.le_of_eq (Nat.add_sub_of_le hlive)⟩
  | remote =>
    have hin := h.live_add_available_le x live
    have hmax (hopen : x.isClosed = false) : (driver.status x live).maxSize = x.parameters.maxPoolSize := by
      rw [h.maxSize, hopen]
      rfl
    have hsize (hopen : x.isClosed = false) (hlive : live ≤ (driver.status x live).maxSize) :
        (driver.status x live).size ≤ (driver.status x live).maxSize :=
      h.size_le_maxSize x live hopen (hmax hopen ▸ hlive)
    refine ⟨Nat.le_trans (Nat.le_add_right _ _) hin, hmax, hsize, fun hopen hlive => ?_⟩
    exact Nat.le_trans hin (hsize hopen hlive)

/-! ### The results of a heartbeat -/

namespace HeartbeatResult
variable {r : Resources} {live : PoolId → Nat} {driver : PoolDriver} {s : Snapshot} {h h' : HeartbeatResult}

/-- The schema, then the backend. -/
def Precedes (h h' : HeartbeatResult) : Prop :=
  h.schema < h'.schema ∨ (h.schema = h'.schema ∧ h.dataSource < h'.dataSource)

theorem notAfter_iff : notAfter h h' = true ↔
    h.schema < h'.schema ∨ (h.schema = h'.schema ∧ h.dataSource ≤ h'.dataSource) := by
  simp only [notAfter, Bool.or_eq_true, Bool.and_eq_true, Bool.not_eq_true', decide_eq_true_eq,
    decide_eq_false_iff_not, String.not_lt]

theorem notAfter_trans (a b c : HeartbeatResult) (hab : notAfter a b = true) (hbc : notAfter b c = true) :
    notAfter a c = true := by
  rw [notAfter_iff] at hab hbc ⊢
  rcases hab with hab | ⟨hab, hab'⟩ <;> rcases hbc with hbc | ⟨hbc, hbc'⟩
  · exact .inl (String.lt_trans hab hbc)
  · exact .inl (hbc ▸ hab)
  · exact .inl (hab ▸ hbc)
  · exact .inr ⟨hab.trans hbc, String.le_trans hab' hbc'⟩

theorem notAfter_total (a b : HeartbeatResult) : (notAfter a b || notAfter b a) = true := by
  rw [Bool.or_eq_true, notAfter_iff, notAfter_iff]
  rcases Std.lt_trichotomy a.schema b.schema with hlt | heq | hgt
  · exact .inl (.inl hlt)
  · rcases String.le_total a.dataSource b.dataSource with hle | hle
    · exact .inl (.inr ⟨heq, hle⟩)
    · exact .inr (.inr ⟨heq.symm, hle⟩)
  · exact .inr (.inl hgt)

theorem precedes_of_notAfter (hle : notAfter h h' = true)
    (hne : ¬ (h.schema = h'.schema ∧ h.dataSource = h'.dataSource)) : h.Precedes h' := by
  rcases notAfter_iff.1 hle with hlt | ⟨heq, hle⟩
  · exact .inl hlt
  · exact .inr ⟨heq, Std.lt_of_le_of_ne hle fun hsame => hne ⟨heq, hsame⟩⟩

/-- A result tells of a backend that is published, and of its pool. -/
structure Tells (r : Resources) (live : PoolId → Nat) (driver : PoolDriver) (s : Snapshot)
    (h : HeartbeatResult) (p : PoolId) (x : Pool) : Prop where
  published : s.pool? h.schema h.dataSource = some p
  pool : r.pools[p]? = some x
  status : h.status = x.status (live p) driver
  closed : h.isClosed = x.isClosed

theorem Tells.of_published {p p' : PoolId} {x x' : Pool} (ht : h.Tells r live driver s p x)
    (hp : s.pool? h.schema h.dataSource = some p') (hx : r.pools[p']? = some x') :
    h.Tells r live driver s p' x' := by
  obtain rfl : p = p' := Option.some.inj (ht.published.symm.trans hp)
  obtain rfl : x = x' := Option.some.inj (ht.pool.symm.trans hx)
  exact ht

theorem mem_contexts_iff {c : SchemaContext} (hnamed : ∀ k c, s.schema? k = some c → c.value.name = k) :
    c ∈ s.contexts ↔ ∃ c', s.schema? c.name = some c' ∧ c'.value = c := by
  simp only [Snapshot.contexts, SortedMap.values, List.map_map, List.mem_map]
  constructor
  · rintro ⟨⟨k, c'⟩, hmem, rfl⟩
    have hfind := (SortedMap.mem_entries_iff _ _ _).1 hmem
    refine ⟨c', ?_, rfl⟩
    rw [Function.comp_apply, hnamed k c' hfind]
    exact hfind
  · rintro ⟨c', hfind, rfl⟩
    exact ⟨(_, c'), (SortedMap.mem_entries_iff _ _ _).2 hfind, rfl⟩

theorem mem_ofSnapshot_iff (hnamed : ∀ k c, s.schema? k = some c → c.value.name = k) :
    h ∈ ofSnapshot r live driver s ↔ ∃ p x, h.Tells r live driver s p x := by
  simp only [ofSnapshot, List.mem_mergeSort, List.mem_flatMap, List.mem_filterMap, ofDataSource,
    Option.map_eq_some_iff]
  constructor
  · rintro ⟨c, hc, ⟨backend, d⟩, hmem, x, hx, rfl⟩
    obtain ⟨c', hfind, rfl⟩ := (mem_contexts_iff hnamed).1 hc
    have hd := (OrderedMap.mem_entries_iff _ _ _).1 hmem
    exact ⟨d.pool, x, by simp [Snapshot.pool?, hfind, hd], hx, rfl, rfl⟩
  · rintro ⟨p, x, hp, hx, hstatus, hclosed⟩
    obtain ⟨c, hc, hd⟩ := Option.bind_eq_some_iff.1 hp
    obtain ⟨d, hfind, rfl⟩ := Option.map_eq_some_iff.1 hd
    have hname := hnamed _ _ hc
    refine ⟨c.value, (mem_contexts_iff hnamed).2 ⟨c, hname ▸ hc, rfl⟩, (h.dataSource, d),
      (OrderedMap.mem_entries_iff _ _ _).2 hfind, x, hx, ?_⟩
    obtain ⟨schema, backend, status, isClosed⟩ := h
    simp only at hname hstatus hclosed ⊢
    rw [hname, hstatus, hclosed]

theorem names_contexts (hnamed : ∀ k c, s.schema? k = some c → c.value.name = k) :
    s.contexts.map (·.name) = s.schemas.keys := by
  simp only [Snapshot.contexts, SortedMap.values, SortedMap.keys, List.map_map]
  refine List.map_congr_left fun e he => ?_
  exact hnamed _ _ ((SortedMap.mem_entries_iff _ _ _).1 he)

theorem names_of_ofDataSource {schema backend : String} {d : DataSource}
    (hd : ofDataSource r live driver schema backend d = some h) :
    h.schema = schema ∧ h.dataSource = backend := by
  obtain ⟨x, _, rfl⟩ := Option.map_eq_some_iff.1 hd
  exact ⟨rfl, rfl⟩

/-- No two results are of one backend. -/
theorem distinct_ofSnapshot (hnamed : ∀ k c, s.schema? k = some c → c.value.name = k) :
    (ofSnapshot r live driver s).Pairwise fun h h' =>
      ¬ (h.schema = h'.schema ∧ h.dataSource = h'.dataSource) := by
  have hcontexts : s.contexts.Pairwise fun c c' => c.name ≠ c'.name := by
    have hnodup : s.schemas.keys.Nodup := SortedMap.nodup_keys s.schemas
    rw [← names_contexts hnamed] at hnodup
    exact List.pairwise_map.1 hnodup
  refine (List.mergeSort_perm _ _).symm.pairwise
    (List.pairwise_flatMap.2 ⟨fun c _ => ?_, hcontexts.imp ?_⟩) ?_
  · refine List.pairwise_filterMap.2 ((List.pairwise_map.1 c.dataSources.nodup).imp ?_)
    rintro e e' hne h he h' he' ⟨_, heq⟩
    exact hne ((names_of_ofDataSource he).2.symm.trans (heq.trans (names_of_ofDataSource he').2))
  · rintro c c' hne h hh h' hh' ⟨heq, _⟩
    obtain ⟨e, _, he⟩ := List.mem_filterMap.1 hh
    obtain ⟨e', _, he'⟩ := List.mem_filterMap.1 hh'
    exact hne ((names_of_ofDataSource he).1.symm.trans (heq.trans (names_of_ofDataSource he').1))
  · exact fun hne ⟨hschema, hsource⟩ => hne ⟨hschema.symm, hsource.symm⟩

/-- Results stand in order. -/
theorem pairwise_ofSnapshot (hnamed : ∀ k c, s.schema? k = some c → c.value.name = k) :
    (ofSnapshot r live driver s).Pairwise Precedes := by
  have hsorted : (ofSnapshot r live driver s).Pairwise (notAfter · ·) :=
    List.pairwise_mergeSort notAfter_trans notAfter_total _
  exact (hsorted.and (distinct_ofSnapshot hnamed)).imp fun ⟨hle, hne⟩ => precedes_of_notAfter hle hne

end HeartbeatResult

/-! ### Between heartbeats -/

namespace Registry
variable (env : Environment) (g : Registry)

theorem heartbeats_nextSchema (a : Authentication) (p : Properties) (d : Dialect)
    (built : List (Stamped SchemaContext)) (rest : List (String × SchemaConfiguration)) :
    (g.nextSchema env a p d built rest).1.heartbeats = g.heartbeats := by
  cases rest with
  | nil => rfl
  | cons e rest =>
    simp only [nextSchema]
    split
    · rfl
    · split <;> rfl

/-- No other change touches the results of the last heartbeat. -/
theorem heartbeats_begin {change : Change} (h : change ≠ .heartbeat) :
    (g.begin env change).1.heartbeats = g.heartbeats := by
  cases change with
  | reset schemas a p d => exact heartbeats_nextSchema env g a p d [] schemas.entries
  | addSchema name sources rules =>
    simp only [begin, addSchema]
    split
    · rfl
    · split
      · rfl
      · split <;> rfl
  | deleteSchema name =>
    simp only [begin]
    split <;> rfl
  | setProperties p =>
    simp only [begin, setProperties]
    split
    · rfl
    · obtain ⟨⟨_, hresized⟩, _⟩ := Publishes.resizeAll_eq p.executorSize g.current.schemas.values
        (g.owning (g.resources.stamped p).1)
      simp only [finish, publish, hresized]
      rfl
  | setTables names tables =>
    obtain ⟨⟨_, hretabled⟩, _⟩ := Publishes.retable_eq tables names g
    generalize heq : g.retable tables names = x at hretabled
    obtain ⟨g', replaced⟩ := x
    obtain rfl : g' = _ := hretabled
    cases replaced <;> simp only [begin, setTables, heq] <;> rfl
  | setRules name rules =>
    simp only [begin, setRules]
    split
    · rfl
    · split <;> rfl
  | setDisabled name backend off =>
    simp only [begin]
    split <;> rfl
  | setDataSources name new =>
    simp only [begin, setDataSources]
    split
    · rfl
    · split
      · rfl
      · split <;> rfl
  | setAuthentication _ | setCircuit _ | close => rfl
  | heartbeat => exact absurd rfl h

theorem heartbeats_resume (purpose : Purpose) (pending : PendingSchema)
    (answer : Except Error (SortedMap Tables)) :
    (g.resume env purpose pending answer).1.heartbeats = g.heartbeats := by
  have habandon (g : Registry) : (g.abandon purpose pending).heartbeats = g.heartbeats := by
    cases purpose <;> rfl
  cases answer with
  | error e => exact habandon g
  | ok tables =>
    simp only [resume]
    split
    · rfl
    · exact habandon _
    · cases purpose with
      | reset a p d rest built => exact heartbeats_nextSchema env _ a p d _ rest
      | add =>
        simp only
        split <;> rfl
      | reconcile x previous => rfl

end Registry

theorem flatMap_filter_of_nil {α β : Type} {l : List α} {q : α → Bool} {f : α → List β}
    (h : ∀ x ∈ l, q x = false → f x = []) : (l.filter q).flatMap f = l.flatMap f := by
  induction l with
  | nil => rfl
  | cons x l ih =>
    have ih := ih fun y hy => h y (List.mem_cons_of_mem _ hy)
    cases hq : q x with
    | true => simp [hq, ih]
    | false => simp [hq, ih, h x List.mem_cons_self hq]

namespace World
variable {w : World} {t : TaskId}

/-- A task has the turn for a heartbeat; it comes when the task goes on. -/
structure Beats (w : World) (t : TaskId) : Prop where
  running : w.crashed = false
  task : w.tasks.lookup t = some (.turn .heartbeat)
  turn : w.writer.isHeldBy t = true

/-- A deed with which no heartbeat comes. -/
theorem heartbeats_undergo (h : w.Regular) (hc : w.crashed = false) {d : Deed}
    (hd : ∀ t, d = .move (.goOn t) → ¬ w.Beats t) :
    (w.undergo d).registry.heartbeats = w.registry.heartbeats := by
  have heffect := h.effect d
  generalize w.undergo d = w' at heffect
  cases heffect with
  | still hs _ => exact hs.heartbeats
  | begins hs hturn hpart =>
    rename_i t change
    have hne : change ≠ .heartbeat := by
      rintro rfl
      exact hd t rfl ⟨hc, hs, by simp [Mutex.isHeldBy, hturn]⟩
    exact hpart.registry.heartbeats.trans (Registry.heartbeats_begin _ _ hne)
  | resumes g env answer _ hg hpart =>
    exact hpart.registry.heartbeats.trans ((Registry.heartbeats_resume env g _ _ answer).trans hg.heartbeats)
  | closesPool hw _ | closesEngine hw _ =>
    rw [hw]
    rfl
  | recounts hw _ => rw [hw]

/-- A task that waits for its turn has no connections and no pins. -/
theorem live_without (hn : (w.tasks.map (·.1)).Nodup) {change : Change}
    (hs : w.tasks.lookup t = some (.turn change)) : (w.without t).live = w.live := by
  have hidle {α : Type} (f : TaskState → List α) (hf : f (.turn change) = []) :
      (w.without t).tasks.flatMap (fun e => f e.2) = w.tasks.flatMap fun e => f e.2 := by
    refine flatMap_filter_of_nil fun e he ht => ?_
    obtain ⟨k, s⟩ := e
    obtain rfl : k = t := by simpa using ht
    have hsame := ((lookup_some_iff hn k s).2 he).symm.trans hs
    exact (congrArg f (Option.some.inj hsame)).trans hf
  have hacquired := hidle acquiredBy rfl
  have hpins := hidle (fun s => (pinsOf s).toList) rfl
  have hreachable : (w.without t).reachable = w.reachable := by
    rw [reachable, reachable, List.filterMap_eq_flatMap_toList, List.filterMap_eq_flatMap_toList, hpins]
    rfl
  funext p
  rw [live, live, connections, connections, hacquired, hreachable]
  rfl

/-- With a heartbeat its results take the place of the earlier ones. -/
theorem Beats.heartbeats (hb : w.Beats t) (h : w.Regular) :
    (w.undergo (.move (.goOn t))).registry.heartbeats =
      HeartbeatResult.ofSnapshot w.resources w.live w.driver w.registry.current := by
  have hmay : w.mayGoOn t (.turn .heartbeat) = true := hb.turn
  simp only [undergo, World.move, hb.task, hmay, if_true, registry_put, advance]
  rw [← live_without h.nodup hb.task]
  rfl

/-! ### Heartbeats of runs -/

/-- What the results of a heartbeat say in the world `w`, where others have closed the pools of `X`. -/
structure Reported (X : PoolId → Prop) (w : World) (hs : List HeartbeatResult) : Prop where
  /-- They stand in the order of schemas and then of backends, and none stands there twice. -/
  ordered : hs.Pairwise HeartbeatResult.Precedes
  /-- Each is of a published backend, and has the status of the pool that is published for it. -/
  published : ∀ h ∈ hs, ∃ p x, h.Tells w.resources w.live w.driver w.registry.current p x
  /-- Each published backend has one. -/
  complete : ∀ schema backend p, w.registry.current.pool? schema backend = some p →
    ∃! h, h ∈ hs ∧ h.schema = schema ∧ h.dataSource = backend
  /-- The pools that are told of as closed are those that others closed. -/
  closed : ∀ h ∈ hs, ∀ p, w.registry.current.pool? h.schema h.dataSource = some p →
    (h.isClosed = true ↔ X p)
  /-- The statuses accord with the connections that are in use, as far as the driver of remote pools counts them
  as is documented. -/
  accords : w.driver.Counts → ∀ h ∈ hs, ∀ p x, w.registry.current.pool? h.schema h.dataSource = some p →
    w.resources.pools[p]? = some x → h.status.Accords x (w.live p)

namespace Attended
variable {X : PoolId → Prop}

/-- The registry itself has closed no pool that is published. -/
theorem closed_iff_of_published (h : Attended X w) {schema backend : String} {p : PoolId}
    (hp : w.registry.current.pool? schema backend = some p) :
    ∃ x, w.resources.pools[p]? = some x ∧ (x.isClosed = true ↔ X p) := by
  obtain ⟨g, ps, es, hx, hk, _⟩ := h.alone
  rw [Registry.Alike.current hx.face, ← Snapshot.pool?_holdings] at hp
  obtain ⟨y, hy, hclosing⟩ := hk.closing_of_pool? hp
  have hopen : ¬ g.resources.PoolClosed p := by
    rw [Resources.poolClosed_iff hy]
    exact ne_true_of_eq_false (congrArg (·.1) hclosing)
  have hlength : w.registry.resources.pools.length = g.resources.pools.length :=
    congrArg (·.pools) (Registry.Alike.inventory hx.face)
  have hlt : p < w.registry.resources.pools.length := hlength ▸ (List.getElem?_eq_some_iff.1 hy).1
  have hget := List.getElem?_eq_getElem hlt
  exact ⟨_, hget, by rw [← Resources.poolClosed_iff hget, hx.closed, or_iff_left hopen]⟩

theorem named (h : Attended X w) (k : String) (c : Stamped SchemaContext)
    (hc : w.registry.current.schema? k = some c) : c.value.name = k := by
  obtain ⟨g, ps, es, hx, hk, _⟩ := h.alone
  exact hk.named k _ (Snapshot.find?_of_schema? (Registry.Alike.current hx.face ▸ hc))

/-- What a heartbeat reports in such a world. -/
theorem reported (h : Attended X w) :
    Reported X w (HeartbeatResult.ofSnapshot w.resources w.live w.driver w.registry.current) := by
  have hmem (x : HeartbeatResult) :
      x ∈ HeartbeatResult.ofSnapshot w.resources w.live w.driver w.registry.current ↔
        ∃ p y, x.Tells w.resources w.live w.driver w.registry.current p y :=
    HeartbeatResult.mem_ofSnapshot_iff h.named
  refine ⟨HeartbeatResult.pairwise_ofSnapshot h.named, fun x => (hmem x).1, ?_, ?_, ?_⟩
  · intro schema backend p hp
    obtain ⟨y, hy, _⟩ := h.closed_iff_of_published hp
    refine ⟨⟨schema, backend, y.status (w.live p) w.driver, y.isClosed⟩, ⟨?_, rfl, rfl⟩, ?_⟩
    · exact (hmem _).2 ⟨p, y, hp, hy, rfl, rfl⟩
    · rintro x ⟨hx, rfl, rfl⟩
      obtain ⟨_, _, ht⟩ := (hmem x).1 hx
      have htells := ht.of_published hp hy
      rw [← htells.status, ← htells.closed]
  · intro x hx p hp
    obtain ⟨_, _, ht⟩ := (hmem x).1 hx
    obtain ⟨y, hy, hiff⟩ := h.closed_iff_of_published hp
    rw [(ht.of_published hp hy).closed, hiff]
  · intro hcounts x hx p y hp hy
    obtain ⟨_, _, ht⟩ := (hmem x).1 hx
    rw [(ht.of_published hp hy).status]
    exact y.accords_status hcounts _

end Attended

/-- No heartbeat comes with the deeds `ds'` after a run of `ds`. -/
def NoBeat (ds ds' : List Deed) : Prop :=
  ∀ ms t ms', ds' = ms ++ .move (.goOn t) :: ms' → ¬ (enact {} (ds ++ ms)).Beats t

theorem heartbeats_of_noBeat {ds ds' : List Deed} (h : NoBeat ds ds') :
    (enact {} (ds ++ ds')).registry.heartbeats = (enact {} ds).registry.heartbeats := by
  induction ds' using List.reverseRecOn with
  | nil => rw [List.append_nil]
  | append_singleton ds' d ih =>
    have hbefore : NoBeat ds ds' := by
      rintro ms t ms' rfl
      exact h ms t (ms' ++ [d]) (by simp)
    rw [← List.append_assoc, enact_snoc, ← ih hbefore]
    split
    · rfl
    · rename_i hc
      refine heartbeats_undergo (regular_enact _) (by simpa using hc) ?_
      rintro t rfl
      exact h ds' t [] rfl

/-- A heartbeat that comes in whatever run reports every published backend once, in order, with the status of
its pool, and as closed only if others closed it. Until the next heartbeat the results are these. -/
theorem heartbeat_reports (ds : List Deed) (t : TaskId) (ds' : List Deed) (hbeat : (enact {} ds).Beats t)
    (hlast : NoBeat (ds ++ [.move (.goOn t)]) ds') :
    Reported (ClosedByOthers ds) (enact {} ds)
      (enact {} (ds ++ .move (.goOn t) :: ds')).registry.heartbeats := by
  have hresults : (enact {} (ds ++ [.move (.goOn t)])).registry.heartbeats =
      HeartbeatResult.ofSnapshot (enact {} ds).resources (enact {} ds).live
        (enact {} ds).driver (enact {} ds).registry.current := by
    rw [enact_snoc, hbeat.running, if_neg Bool.false_ne_true]
    exact hbeat.heartbeats (regular_enact ds)
  have hkept := heartbeats_of_noBeat hlast
  rw [List.append_assoc, List.singleton_append] at hkept
  rw [hkept, hresults]
  exact (attended hbeat.running).reported

/-- Two remote backends are published, a connection to the first one is in use, and the driver keeps two more;
somebody closes the pool of the second one, and a heartbeat is asked for. -/
def heartbeatDue : List Deed :=
  [.move (.surround ⟨fun _ _ _ => .ok { kind := .remote }⟩ (.answering fun _ _ => .ok .empty)
      (some ⟨[("b0", .rows []), ("b1", .rows [])]⟩)),
    .move (.start (.event (.schemaAdded "s" Registry.twoBackends []))), .move (.goOn 0), .move (.goOn 0),
    .move (.start (.acquire { schema := "s", backend := "b0" })), .move (.goOn 1), .recount (.keeping 2),
    .closePool 1, .move (.start (.event .heartbeat))]

/-- After the heartbeat somebody closes the other pool as well, and the circuit is opened. -/
def afterHeartbeat : List Deed :=
  [.closePool 0, .move (.start (.event (.circuitStateChanged true))), .move (.goOn 3)]

/-- The pool that was closed before the heartbeat is told of as closed and empty. The other one is told of as
open, with the connection that is in use and those that the driver keeps. -/
theorem heartbeat_reports_closed :
    (enact {} heartbeatDue).Beats 2 ∧ NoBeat (heartbeatDue ++ [.move (.goOn 2)]) afterHeartbeat ∧
    (enact {} (heartbeatDue ++ .move (.goOn 2) :: afterHeartbeat)).registry.circuitOpen = true ∧
    Reported (ClosedByOthers heartbeatDue) (enact {} heartbeatDue)
      (enact {} (heartbeatDue ++ .move (.goOn 2) :: afterHeartbeat)).registry.heartbeats ∧
    (enact {} heartbeatDue).driver.Counts ∧
    (∀ h ∈ (enact {} (heartbeatDue ++ .move (.goOn 2) :: afterHeartbeat)).registry.heartbeats, ∀ p x,
      (enact {} heartbeatDue).registry.current.pool? h.schema h.dataSource = some p →
        (enact {} heartbeatDue).resources.pools[p]? = some x →
          h.status.Accords x ((enact {} heartbeatDue).live p)) ∧
    (∃ h ∈ (enact {} (heartbeatDue ++ .move (.goOn 2) :: afterHeartbeat)).registry.heartbeats,
      h.dataSource = "b0" ∧ h.isClosed = false ∧ h.status = ⟨50, 3, 2⟩) ∧
    ∃ h ∈ (enact {} (heartbeatDue ++ .move (.goOn 2) :: afterHeartbeat)).registry.heartbeats,
      h.dataSource = "b1" ∧ h.isClosed = true ∧ h.status = ⟨0, 0, 0⟩ := by
  have hbeat : (enact {} heartbeatDue).Beats 2 := ⟨rfl, rfl, rfl⟩
  have hlast : NoBeat (heartbeatDue ++ [.move (.goOn 2)]) afterHeartbeat := by
    intro ms t ms' heq hb
    obtain ⟨rfl, rfl⟩ :
        ms = [.closePool 0, .move (.start (.event (.circuitStateChanged true)))] ∧ t = 3 := by
      rcases ms with _ | ⟨_, _ | ⟨_, _ | ⟨_, _⟩⟩⟩ <;> simp_all [afterHeartbeat]
    cases hb.task
  have hreported := heartbeat_reports heartbeatDue 2 afterHeartbeat hbeat hlast
  have hcounts : (enact {} heartbeatDue).driver.Counts := PoolDriver.counts_keeping 2
  refine ⟨hbeat, hlast, rfl, hreported, hcounts, hreported.accords hcounts, ?_, ?_⟩
  · obtain ⟨h, ⟨hmem, hschema, hsource⟩, _⟩ := hreported.complete "s" "b0" 0 rfl
    have hpool : (enact {} heartbeatDue).registry.current.pool? h.schema h.dataSource = some 0 := by
      rw [hschema, hsource]
      rfl
    obtain ⟨_, _, ht⟩ := hreported.published h hmem
    refine ⟨h, hmem, hsource, eq_false_of_ne_true fun hclosed => ?_, (ht.of_published hpool rfl).status⟩
    obtain ⟨ds₁, ds₂, heq, _⟩ := (hreported.closed h hmem 0 hpool).1 hclosed
    have hdeed : Deed.closePool 0 ∈ heartbeatDue := heq ▸ List.mem_append_right _ List.mem_cons_self
    simp [heartbeatDue] at hdeed
  · obtain ⟨h, ⟨hmem, hschema, hsource⟩, _⟩ := hreported.complete "s" "b1" 1 rfl
    have hpool : (enact {} heartbeatDue).registry.current.pool? h.schema h.dataSource = some 1 := by
      rw [hschema, hsource]
      rfl
    obtain ⟨_, _, ht⟩ := hreported.published h hmem
    refine ⟨h, hmem, hsource, (hreported.closed h hmem 1 hpool).2 ?_, (ht.of_published hpool rfl).status⟩
    exact ⟨heartbeatDue.take 7, heartbeatDue.drop 8, rfl, by decide⟩

end World

end ShardRegistry
