import ShardRegistry.Proofs.Withholding

/-! Publications. What a change takes out of the schemas is closed, what stays keeps its slot and its
lock, and what the change had in hand is published. -/
namespace ShardRegistry

open Resources (Custody)

theorem Resources.wired_finishSchema {r r' : Resources} {p : PendingSchema}
    {loaded : SortedMap Tables} {c : Stamped SchemaContext}
    (h : r.finishSchema p loaded = (r', .ok c)) : c.value.holding.Wired r' := by
  rcases finishSchema_cases h with ⟨_, herr, _⟩ | ⟨herr, _⟩ |
    ⟨_, hok, _, hsources, hengine, sets, stamps, rfl⟩
  · cases herr
  · cases herr
  · cases hok
    rw [addEngine_eq]
    refine ⟨⟨r.managers.length, r.managers.length + 1, false⟩, ?_, ?_⟩
    · simp [SchemaContext.holding, hengine]
    · intro kind m hkind
      cases kind with
      | «local» => simp [Engine.manager?] at hkind
      | xa =>
        simp only [Engine.manager?, Option.some.injEq] at hkind
        subst hkind
        exact ⟨⟨.xa, p.dataSources.pools, [], false⟩, by simp, rfl,
          by simp [SchemaContext.holding, hsources]⟩
      | base =>
        simp only [Engine.manager?, Option.some.injEq] at hkind
        subst hkind
        refine ⟨⟨.base, p.dataSources.pools, [], false⟩, ?_, rfl,
          by simp [SchemaContext.holding, hsources]⟩
        rw [List.getElem?_append_right (Nat.le_add_right _ 1)]
        simp

/-- What a change takes over is what it gives up and what is published afterwards. -/
theorem perm_turnover {made old retired new qs : List Nat}
    (h : (made ++ old).Perm (retired ++ new)) :
    (made ++ qs ++ old).Perm (retired ++ (qs ++ new)) := by
  have hleft : (made ++ qs ++ old).Perm (qs ++ (made ++ old)) := by
    rw [List.append_assoc]
    exact List.perm_append_comm_assoc _ _ _
  exact (hleft.trans (h.append_left qs)).trans (List.perm_append_comm_assoc _ _ _)

namespace Registry

/-- What a registry owes to one before it: a published pool or engine is closed or still published in
its place, and there the lock is the same. -/
structure Succeeds (g g' : Registry) : Prop where
  grows : g.resources.Grows g'.resources
  slots : ∀ schema backend p, g.current.holdings.pool? schema backend = some p →
    g'.resources.PoolClosed p ∨ (g'.current.holdings.pool? schema backend = some p ∧
      g'.lockTable.lookup (schema, backend) = g.lockTable.lookup (schema, backend))
  engines : ∀ schema h, g.current.holdings.find? schema = some h →
    g'.resources.EngineClosed h.engine ∨
      ∃ h', g'.current.holdings.find? schema = some h' ∧ h'.engine = h.engine
  locks : g'.lockTable.Sublist g.lockTable

/-- With `ps` and `es` in hand, a change that goes from `g` to `g'` leaves nothing in hand. -/
def Publishes (g : Registry) (ps es : List Nat) (g' : Registry) : Prop :=
  ∀ qs fs, g.Keeps (ps ++ qs) (es ++ fs) → g'.Keeps qs fs ∧ g.Succeeds g'

namespace Keeps
variable {g : Registry} {ps es : List Nat} {schema : String} {h : Holding} {p : PoolId}

theorem lt_of_mem (hk : g.Keeps ps es) (hf : g.current.holdings.find? schema = some h)
    (hp : p ∈ h.pools) : p < g.resources.pools.length := by
  refine (hk.custody.pools.since p (List.mem_append_right _ ?_)).2
  exact List.mem_flatMap.2 ⟨h, List.mem_map.2 ⟨(schema, h),
    (SortedMap.mem_entries_iff _ _ _).2 hf, rfl⟩, hp⟩

theorem engine_lt (hk : g.Keeps ps es) (hf : g.current.holdings.find? schema = some h) :
    h.engine < g.resources.engines.length := by
  refine (hk.custody.engines.since _ (List.mem_append_right _ ?_)).2
  exact (Holdings.mem_engines_iff _ _).2 ⟨schema, h, hf, rfl⟩

/-- Old and new schemas between them account for what is in hand and for what is retired. -/
theorem turnover {g' : Registry} {made retired madeEngines retiredEngines qs fs : List Nat}
    (hk : g.Keeps (made ++ qs) (madeEngines ++ fs))
    (hp : (made ++ g.current.holdings.pools).Perm (retired ++ g'.current.holdings.pools))
    (he : (madeEngines ++ g.current.holdings.engines).Perm
      (retiredEngines ++ g'.current.holdings.engines))
    (hr : ∀ us ts, Custody {} g.resources (retired ++ us) (retiredEngines ++ ts) →
      Custody {} g'.resources us ts)
    (hnamed : ∀ k x, g'.current.holdings.find? k = some x → x.name = k)
    (hwired : ∀ k x, g'.current.holdings.find? k = some x → x.Wired g'.resources) :
    g'.Keeps qs fs :=
  ⟨hr _ _ (hk.custody.perm (perm_turnover hp) (perm_turnover he)), hnamed, hwired⟩

end Keeps

theorem mem_pools_of_find? {h : Holding} {backend : String} {d : DataSource}
    (hd : h.dataSources.find? backend = some d) : d.pool ∈ h.pools :=
  List.mem_map.2 ⟨d, List.mem_map.2 ⟨(backend, d), (OrderedMap.mem_entries_iff _ _ _).2 hd, rfl⟩, rfl⟩

/-- A change of one schema: what it holds changes, and its locks may go. -/
structure Touches (g g' : Registry) (name : String) : Prop where
  grows : g.resources.Grows g'.resources
  others : ∀ k, k ≠ name → g'.current.holdings.find? k = g.current.holdings.find? k
  lookups : ∀ k b, k ≠ name → g'.lockTable.lookup (k, b) = g.lockTable.lookup (k, b)
  locks : g'.lockTable.Sublist g.lockTable

namespace Touches
variable {g g' : Registry} {name : String} {ps es : List Nat}

theorem named (ht : g.Touches g' name) (hk : g.Keeps ps es)
    (hnew : ∀ h, g'.current.holdings.find? name = some h → h.name = name) :
    ∀ k h, g'.current.holdings.find? k = some h → h.name = k := by
  intro k h hf
  by_cases hname : k = name
  · subst hname
    exact hnew h hf
  · rw [ht.others k hname] at hf
    exact hk.named k h hf

theorem wired (ht : g.Touches g' name) (hk : g.Keeps ps es)
    (hnew : ∀ h, g'.current.holdings.find? name = some h → h.Wired g'.resources) :
    ∀ k h, g'.current.holdings.find? k = some h → h.Wired g'.resources := by
  intro k h hf
  by_cases hname : k = name
  · subst hname
    exact hnew h hf
  · rw [ht.others k hname] at hf
    exact (hk.wired k h hf).grows ht.grows

/-- Only what the schema held before is in question. -/
theorem succeeds (ht : g.Touches g' name)
    (hslots : ∀ h b d, g.current.holdings.find? name = some h → h.dataSources.find? b = some d →
      g'.resources.PoolClosed d.pool ∨ (g'.current.holdings.pool? name b = some d.pool ∧
        g'.lockTable.lookup (name, b) = g.lockTable.lookup (name, b)))
    (hengine : ∀ h, g.current.holdings.find? name = some h →
      g'.resources.EngineClosed h.engine) : g.Succeeds g' where
  grows := ht.grows
  slots schema backend p hp := by
    by_cases hname : schema = name
    · subst hname
      obtain ⟨h, hf, hslot⟩ := Option.bind_eq_some_iff.1 hp
      obtain ⟨d, hd, rfl⟩ := Option.map_eq_some_iff.1 hslot
      exact hslots h backend d hf hd
    · refine .inr ⟨?_, ht.lookups schema backend hname⟩
      rw [Holdings.pool?, ht.others schema hname]
      exact hp
  engines schema h hf := by
    by_cases hname : schema = name
    · subst hname
      exact .inl (hengine h hf)
    · exact .inr ⟨h, (ht.others schema hname).trans hf, rfl⟩
  locks := ht.locks

end Touches

theorem lookup_pruneSchema (g : Registry) (name : String) {k b : String} (h : k ≠ name) :
    (g.pruneSchema name).lockTable.lookup (k, b) = g.lockTable.lookup (k, b) :=
  lookup_filter fun _ => by simpa using h

theorem find?_insert_ne (m : Holdings) {name k : String} (h : Holding) (hk : k ≠ name) :
    (m.insert name h).find? k = m.find? k := SortedMap.find?_insert_of_ne m h (Ne.symm hk)

/-- Custody of the resources is all that work on them can change. -/
theorem Keeps.owning {g : Registry} {r : Resources} {ps es qs fs : List Nat}
    (h : g.Keeps ps es) (hg : g.resources.Grows r)
    (hc : Custody {} r (qs ++ g.current.holdings.pools) (fs ++ g.current.holdings.engines)) :
    (g.owning r).Keeps qs fs :=
  ⟨hc, h.named, fun k x hf => (h.wired k x hf).grows hg⟩

/-- What is held stays as it is, and so does the table of locks. -/
structure Quiet (g g' : Registry) : Prop where
  holdings : (∀ k h, g.current.holdings.find? k = some h → h.name = k) →
    g'.current.holdings = g.current.holdings
  locks : g'.lockTable = g.lockTable
  resources : ∃ disabled stamps, g'.resources = { g.resources with disabled, stamps }

theorem Quiet.refl (g : Registry) : g.Quiet g := ⟨fun _ => rfl, rfl, _, _, rfl⟩

namespace Publishes
variable {g : Registry}

theorem of_owning {g' : Registry} {r : Resources} {ps es qs fs : List Nat}
    (hg : g.resources.Grows r)
    (hc : ∀ r₀ us ts, Custody r₀ g.resources (ps ++ us) (es ++ ts) →
      Custody r₀ r (qs ++ us) (fs ++ ts))
    (h : (g.owning r).Publishes qs fs g') : g.Publishes ps es g' := by
  intro us ts hk
  have hcustody := hk.custody
  rw [List.append_assoc, List.append_assoc] at hcustody
  have hafter := hc _ _ _ hcustody
  rw [← List.append_assoc, ← List.append_assoc] at hafter
  obtain ⟨hk', hs⟩ := h us ts (hk.owning hg hafter)
  exact ⟨hk', hg.trans hs.grows, hs.slots, hs.engines, hs.locks⟩

/-- Nothing that is held changes. -/
theorem quietly {g' : Registry} (h : g.Quiet g') : g.Publishes [] [] g' := by
  obtain ⟨hh, hl, disabled, stamps, hr⟩ := h
  intro qs fs hk
  have hh := hh hk.named
  refine ⟨hk.of_holdings hh (by rw [hr]) (by rw [hr]) (by rw [hr]) (by rw [hr]), ?_⟩
  refine ⟨?_, ?_, ?_, hl ▸ List.Sublist.refl _⟩
  · exact .of_eq (by rw [hr]) (by rw [hr]) (by rw [hr]) (by rw [hr])
  · exact fun schema backend p hp => .inr ⟨hh ▸ hp, by rw [hl]⟩
  · exact fun schema h hf => .inr ⟨h, hh ▸ hf, rfl⟩

theorem refl (g : Registry) : g.Publishes [] [] g := quietly (.refl g)

/-- Replacing published schemas by ones that hold the same. -/
theorem holdings_withSchemas {cs : List (Stamped SchemaContext)}
    (hn : ∀ k h, g.current.holdings.find? k = some h → h.name = k)
    (hc : ∀ c ∈ cs, ∃ k x, g.current.schema? k = some x ∧ c.value.holding = x.value.holding) :
    (g.current.withSchemas cs).holdings = g.current.holdings := by
  refine Snapshot.holdings_withSchemas _ fun c hmem => ?_
  obtain ⟨k, x, hx, heq⟩ := hc c hmem
  have hf : g.current.holdings.find? k = some c.value.holding := by
    simp [Snapshot.find?_holdings, hx, heq]
  have hname : c.value.name = k := hn k _ hf
  rw [hname]
  exact hf

theorem resizeAll_eq (size : Nat) (cs : List (Stamped SchemaContext)) (g : Registry) :
    (∃ stamps, (g.resizeAll size cs).1 = g.owning { g.resources with stamps }) ∧
      ∀ c ∈ (g.resizeAll size cs).2, ∃ x ∈ cs, c.value.holding = x.value.holding := by
  induction cs generalizing g with
  | nil => exact ⟨⟨g.resources.stamps, rfl⟩, by simp [resizeAll]⟩
  | cons c cs ih =>
    simp only [resizeAll]
    obtain ⟨⟨stamps, hg⟩, hcs⟩ := ih (g.owning ((g.resources.stamped
      { c.value.runtime.value with executorSize := size }).1.stamped { c.value with
        runtime := (g.resources.stamped
          { c.value.runtime.value with executorSize := size }).2 }).1)
    refine ⟨⟨stamps, hg⟩, ?_⟩
    intro d hd
    rcases List.mem_cons.1 hd with rfl | hd
    · exact ⟨c, by simp, rfl⟩
    · obtain ⟨x, hx, heq⟩ := hcs d hd
      exact ⟨x, List.mem_cons_of_mem c hx, heq⟩

theorem retable_eq (tables : SchemaTables) (names : List String) (g : Registry) :
    (∃ stamps, (g.retable tables names).1 = g.owning { g.resources with stamps }) ∧
      ∀ c ∈ (g.retable tables names).2, ∃ k x, g.current.schema? k = some x ∧
        c.value.holding = x.value.holding := by
  induction names generalizing g with
  | nil => exact ⟨⟨g.resources.stamps, rfl⟩, by simp [retable]⟩
  | cons name names ih =>
    simp only [retable]
    split
    · exact ih g
    · rename_i c hc
      obtain ⟨⟨stamps, hg⟩, hcs⟩ := ih (g.owning
        { g.resources with stamps := g.resources.stamps + 3 })
      refine ⟨⟨stamps, hg⟩, ?_⟩
      intro d hd
      rcases List.mem_cons.1 hd with rfl | hd
      · exact ⟨name, c, hc, rfl⟩
      · exact hcs d hd

/-- A schema that is taken out is closed as a whole. -/
theorem deleteSchema {name : String} {c : Stamped SchemaContext}
    (hc : g.current.schema? name = some c) :
    g.Publishes [] [] (((g.publish (g.current.withoutSchema name)).closeContexts
      [c.value]).pruneSchema name) := by
  generalize hg' : ((g.publish (g.current.withoutSchema name)).closeContexts
    [c.value]).pruneSchema name = g'
  have hf : g.current.holdings.find? name = some c.value.holding :=
    Snapshot.find?_of_schema? hc
  have hm : g'.current.holdings = g.current.holdings.erase name := by
    rw [← hg']
    exact Snapshot.holdings_withoutSchema _ _
  have hr : g'.resources = c.value.close (g.resources.stamped (g.current.withoutSchema name)).1 := by
    rw [← hg']
    rfl
  have ht : g.Touches g' name := by
    refine ⟨?_, ?_, ?_, ?_⟩
    · rw [hr]
      exact (Resources.Grows.stamped _ _).trans (.closeContext _ _)
    · intro k hk
      rw [hm]
      exact SortedMap.find?_erase_of_ne _ hk
    · intro k b hk
      rw [← hg']
      exact lookup_pruneSchema _ name hk
    · rw [← hg']
      exact List.filter_sublist
  have hgone : g'.current.holdings.find? name = none := by
    rw [hm]
    exact SortedMap.find?_erase_self _ _
  intro qs fs hk
  have hperm := SortedMap.entries_perm_of_find? hf
  rw [← hm] at hperm
  have hpools := Holdings.pools_of_perm hperm
  have hengines : g.current.holdings.engines.Perm ([c.value.engine] ++ g'.current.holdings.engines) :=
    Holdings.engines_of_perm hperm
  have hclosed : ∀ us ts, Custody {} g.resources (c.value.holding.pools ++ us)
      ([c.value.engine] ++ ts) → Custody {} g'.resources us ts := by
    intro us ts h
    rw [hr]
    exact (h.stamped _).closeContext
  refine ⟨hk.turnover hpools hengines hclosed (ht.named hk ?_) (ht.wired hk ?_),
    ht.succeeds ?_ ?_⟩
  · simp [hgone]
  · simp [hgone]
  · intro h b d hh hd
    rw [hf] at hh
    cases hh
    rw [hr]
    exact .inl (Resources.closed_closeContext (mem_pools_of_find? hd)
      (hk.lt_of_mem hf (mem_pools_of_find? hd)))
  · intro h hh
    rw [hf] at hh
    cases hh
    rw [hr]
    exact Resources.engineClosed_closeContext (hk.engine_lt hf)

/-- A schema in the place of another one. -/
theorem replaced {g' : Registry} {c old : Stamped SchemaContext} {made retired : List Nat}
    (hold : g.current.schema? c.value.name = some old)
    (hm : g'.current.holdings = g.current.holdings.insert c.value.name c.value.holding)
    (ht : g.Touches g' c.value.name) (hw : c.value.holding.Wired g.resources)
    (hx : (made ++ old.value.pools).Perm (retired ++ c.value.pools))
    (hr : ∀ us ts, Custody {} g.resources (retired ++ us) ([old.value.engine] ++ ts) →
      Custody {} g'.resources us ts)
    (hslots : ∀ b d, old.value.dataSources.find? b = some d →
      d.pool < g.resources.pools.length → g'.resources.PoolClosed d.pool ∨
        (g'.current.holdings.pool? c.value.name b = some d.pool ∧
          g'.lockTable.lookup (c.value.name, b) = g.lockTable.lookup (c.value.name, b)))
    (hengine : old.value.engine < g.resources.engines.length →
      g'.resources.EngineClosed old.value.engine) :
    g.Publishes made [c.value.engine] g' := by
  intro qs fs hk
  have hf : g.current.holdings.find? c.value.name = some old.value.holding :=
    Snapshot.find?_of_schema? hold
  have hnew : g'.current.holdings.find? c.value.name = some c.value.holding := by
    rw [hm]
    exact SortedMap.find?_insert_self _ _ _
  have hbefore := SortedMap.entries_perm_of_find? hf
  have hafter := SortedMap.entries_insert_perm g.current.holdings c.value.name c.value.holding
  rw [← hm] at hafter
  -- the other schemas hold the same before and after
  have hpools : (made ++ g.current.holdings.pools).Perm (retired ++ g'.current.holdings.pools) := by
    refine ((Holdings.pools_of_perm hbefore).append_left made).trans ?_
    refine List.Perm.trans ?_ ((Holdings.pools_of_perm hafter).symm.append_left retired)
    rw [← List.append_assoc, ← List.append_assoc]
    exact hx.append_right _
  have hengines : ([c.value.engine] ++ g.current.holdings.engines).Perm
      ([old.value.engine] ++ g'.current.holdings.engines) := by
    refine ((Holdings.engines_of_perm hbefore).append_left _).trans ?_
    refine List.Perm.trans ?_ ((Holdings.engines_of_perm hafter).symm.append_left _)
    exact List.Perm.swap _ _ _
  refine ⟨hk.turnover hpools hengines hr (ht.named hk ?_) (ht.wired hk ?_), ht.succeeds ?_ ?_⟩
  · intro h hh
    rw [hnew] at hh
    cases hh
    rfl
  · intro h hh
    rw [hnew] at hh
    cases hh
    exact hw.grows ht.grows
  · intro h b d hh hd
    rw [hf] at hh
    cases hh
    exact hslots b d hd (hk.lt_of_mem hf (mem_pools_of_find? hd))
  · intro h hh
    rw [hf] at hh
    cases hh
    exact hengine (hk.engine_lt hf)

/-- A schema of a new name. -/
theorem addSchema {c : Stamped SchemaContext} (hnone : g.current.schema? c.value.name = none)
    (hw : c.value.holding.Wired g.resources) :
    g.Publishes c.value.pools [c.value.engine] (g.publish (g.current.withSchema c)) := by
  intro qs fs hk
  have hm := Snapshot.holdings_withSchema g.current c
  have hf : g.current.holdings.find? c.value.name = none := by
    simp [Snapshot.find?_holdings, hnone]
  have hgrows : g.resources.Grows (g.publish (g.current.withSchema c)).resources :=
    Resources.Grows.stamped g.resources (g.current.withSchema c)
  have hperm := SortedMap.entries_insert_of_find?_none c.value.holding hf
  rw [← hm] at hperm
  have ht : g.Touches (g.publish (g.current.withSchema c)) c.value.name := by
    refine ⟨hgrows, ?_, fun _ _ _ => rfl, List.Sublist.refl _⟩
    intro k hk
    exact (congrArg (·.find? k) hm).trans (find?_insert_ne _ _ hk)
  have hnew : ∀ h, (g.current.withSchema c).holdings.find? c.value.name = some h →
      h = c.value.holding := by
    intro h hh
    rw [hm, SortedMap.find?_insert_self] at hh
    exact (Option.some.inj hh).symm
  have hpools : (c.value.pools ++ g.current.holdings.pools).Perm
      ([] ++ (g.current.withSchema c).holdings.pools) := (Holdings.pools_of_perm hperm).symm
  have hengines : ([c.value.engine] ++ g.current.holdings.engines).Perm
      ([] ++ (g.current.withSchema c).holdings.engines) := (Holdings.engines_of_perm hperm).symm
  refine ⟨hk.turnover hpools hengines ?_ (ht.named hk ?_)
    (ht.wired hk ?_), ht.succeeds ?_ ?_⟩
  · exact fun us ts h => h.stamped (g.current.withSchema c)
  · intro h hh
    rw [hnew h hh]
    rfl
  · intro h hh
    rw [hnew h hh]
    exact hw.grows hgrows
  · simp [hf]
  · simp [hf]

theorem replaceSchema {c old : Stamped SchemaContext}
    (hold : g.current.schema? c.value.name = some old)
    (hw : c.value.holding.Wired g.resources) :
    g.Publishes c.value.pools [c.value.engine]
      (((g.publish (g.current.withSchema c)).closeContexts [old.value]).pruneSchema
        c.value.name) := by
  have hm := Snapshot.holdings_withSchema g.current c
  have hgrows : g.resources.Grows (old.value.close (g.resources.stamped (g.current.withSchema c)).1) :=
    (Resources.Grows.stamped _ _).trans (.closeContext _ _)
  refine replaced hold hm ⟨hgrows, ?_, ?_, List.filter_sublist⟩ hw
    List.perm_append_comm ?_ ?_ ?_
  · exact fun k hk => (congrArg (·.find? k) hm).trans (find?_insert_ne _ _ hk)
  · exact fun k b hk => lookup_pruneSchema (g.publish (g.current.withSchema c)) _ hk
  · exact fun us ts h => (h.stamped (g.current.withSchema c)).closeContext
  · intro b d hd hlt
    have hmem : d.pool ∈ old.value.holding.pools := mem_pools_of_find? hd
    exact .inl (Resources.closed_closeContext hmem hlt)
  · exact fun hlt => Resources.engineClosed_closeContext hlt

/-- Backends that did not change keep their pools and their locks; modified ones lose their pools
only, and deleted ones both. -/
theorem reconcile {x : Reconciliation} {c old : Stamped SchemaContext}
    (hold : g.current.schema? c.value.name = some old)
    (hb : x.Balances old.value.dataSources) (hc : c.value.dataSources = x.dataSources)
    (hw : c.value.holding.Wired g.resources) :
    g.Publishes x.built.held [c.value.engine]
      (((g.publish (g.current.withSchema c)).withResources fun r =>
        (x.commit r).closeEngineQuietly old.value.engine).pruneBackends c.value.name
          x.changes.deleted) := by
  generalize hg' : ((g.publish (g.current.withSchema c)).withResources fun r =>
    (x.commit r).closeEngineQuietly old.value.engine).pruneBackends c.value.name
      x.changes.deleted = g'
  have hm : g'.current.holdings = g.current.holdings.insert c.value.name c.value.holding := by
    rw [← hg']
    exact Snapshot.holdings_withSchema g.current c
  have hr : g'.resources = (x.commit (g.resources.stamped
      (g.current.withSchema c)).1).closeEngineQuietly old.value.engine := by
    rw [← hg']
    rfl
  have hl : g'.lockTable = g.lockTable.filter fun e =>
      e.1.1 ≠ c.value.name || !x.changes.deleted.contains e.1.2 := by
    rw [← hg']
    rfl
  have hcommit := Resources.Grows.closePools (g.resources.stamped (g.current.withSchema c)).1
    (x.superseded.map (·.pool))
  have ht : g.Touches g' c.value.name := by
    refine ⟨?_, ?_, ?_, ?_⟩
    · rw [hr]
      exact ((Resources.Grows.stamped _ _).trans hcommit).trans (.closeEngineQuietly _ _)
    · intro k hk
      rw [hm]
      exact find?_insert_ne _ _ hk
    · intro k b hk
      rw [hl]
      exact lookup_filter fun _ => by simp [hk]
    · rw [hl]
      exact List.filter_sublist
  have hx : (x.built.held ++ old.value.pools).Perm
      (x.superseded.map (·.pool) ++ c.value.pools) := by
    have hheld := hb.held.symm
    rw [← hc] at hheld
    exact (List.perm_append_comm.trans hheld).trans List.perm_append_comm
  refine replaced hold hm ht hw hx ?_ ?_ ?_
  · intro us ts h
    rw [hr]
    exact ((h.stamped (g.current.withSchema c)).closePools).closeEngine
  · intro b d hd hlt
    rcases hb.stays b d hd with hsup | ⟨hstays, hkept⟩
    · have hmem : d.pool ∈ x.superseded.map (·.pool) := List.mem_map_of_mem hsup
      have hclosed : (x.commit (g.resources.stamped (g.current.withSchema c)).1).PoolClosed d.pool :=
        Resources.poolClosed_closePools hmem hlt
      rw [hr]
      exact .inl (hclosed.grows (.closeEngineQuietly _ _))
    · refine .inr ⟨?_, ?_⟩
      · rw [hm]
        simp [Holdings.pool?, SortedMap.find?_insert_self, SchemaContext.holding, hc, hstays]
      · rw [hl]
        exact lookup_filter fun _ => by simp [hkept]
  · intro hlt
    rw [hr]
    exact Resources.engineClosed_closeEngineQuietly
      (Nat.lt_of_lt_of_le hlt hcommit.engines.length_le)

/-- All schemas are closed, and others are published in their place. -/
theorem renewed {g' : Registry} {r : Resources} {made madeEngines : List Nat}
    (hr : g'.resources = g.current.contexts.foldl (fun r c => c.close r) r)
    (hs : ∃ stamps, r = { g.resources with stamps })
    (hl : g'.lockTable = []) (hp : made.Perm g'.current.holdings.pools)
    (he : madeEngines.Perm g'.current.holdings.engines)
    (hnamed : ∀ k x, g'.current.holdings.find? k = some x → x.name = k)
    (hwired : ∀ k x, g'.current.holdings.find? k = some x → x.Wired g.resources) :
    g.Publishes made madeEngines g' := by
  obtain ⟨stamps, hs⟩ := hs
  have hstamps : g.resources.Grows r := hs ▸ .of_eq rfl rfl rfl rfl
  have hgrows : g.resources.Grows g'.resources := by
    rw [hr]
    exact hstamps.trans (.foldl Resources.Grows.closeContext _ _)
  intro qs fs hk
  have hclosed : ∀ schema h, g.current.holdings.find? schema = some h →
      (∀ p ∈ h.pools, g'.resources.PoolClosed p) ∧ g'.resources.EngineClosed h.engine := by
    intro schema h hf
    have hlt := fun p => hk.lt_of_mem (p := p) hf
    have hle := hk.engine_lt hf
    rw [Snapshot.find?_holdings] at hf
    obtain ⟨c, hc, rfl⟩ := Option.map_eq_some_iff.1 hf
    have hmem : c.value ∈ g.current.contexts := List.mem_map.2 ⟨c, List.mem_map.2 ⟨(schema, c),
      (SortedMap.mem_entries_iff _ _ _).2 hc, rfl⟩, rfl⟩
    rw [hr]
    refine Resources.closed_closeContexts hmem (fun p hp => ?_) ?_
    · exact Nat.lt_of_lt_of_le (hlt p hp) hstamps.pools.length_le
    · exact Nat.lt_of_lt_of_le hle hstamps.engines.length_le
  refine ⟨?_, hgrows, ?_, ?_, hl ▸ List.nil_sublist _⟩
  · refine hk.turnover ((hp.append_right _).trans List.perm_append_comm)
      ((he.append_right _).trans List.perm_append_comm) ?_ hnamed
      fun k x hx => (hwired k x hx).grows hgrows
    intro us ts h
    rw [← Snapshot.contexts_pools, ← Snapshot.contexts_engines] at h
    rw [hr]
    refine Custody.closeContexts (h.of_eq ?_ ?_ ?_ ?_ ?_) <;> simp [hs]
  · intro schema backend p hslot
    obtain ⟨h, hf, hb⟩ := Option.bind_eq_some_iff.1 hslot
    obtain ⟨d, hd, rfl⟩ := Option.map_eq_some_iff.1 hb
    exact .inl ((hclosed schema h hf).1 _ (mem_pools_of_find? hd))
  · exact fun schema h hf => .inl (hclosed schema h hf).2

theorem finishReset (a : Authentication) (p : Properties) (d : Dialect)
    {built : List (Stamped SchemaContext)} (hn : (built.map (·.value.name)).Nodup)
    (hw : ∀ c ∈ built, c.value.holding.Wired g.resources) :
    g.Publishes (built.flatMap (·.value.pools)) (built.map (·.value.engine))
      (g.finishReset a p d built).1 := by
  generalize hg' : (g.finishReset a p d built).1 = g'
  have hm : g'.current.holdings.entries.Perm
      (built.map fun c => (c.value.name, c.value.holding)) := by
    have hmap : g'.current.holdings =
        SortedMap.ofList (built.map fun c => (c.value.name, c.value.holding)) := by
      rw [← hg']
      refine (SortedMap.map_foldl_insert _ _ _).trans ?_
      simp [SortedMap.ofList, SortedMap.empty, SortedMap.map, Function.comp_def]
    rw [hmap]
    refine SortedMap.entries_ofList_perm ?_
    simpa [List.map_map, Function.comp_def] using hn
  have hfind : ∀ k x, g'.current.holdings.find? k = some x →
      ∃ c ∈ built, c.value.name = k ∧ c.value.holding = x := by
    intro k x hx
    have hmem := hm.mem_iff.1 ((SortedMap.mem_entries_iff _ k x).2 hx)
    obtain ⟨c, hc, he⟩ := List.mem_map.1 hmem
    cases he
    exact ⟨c, hc, rfl, rfl⟩
  have hr : g'.resources = g.current.contexts.foldl (fun r c => c.close r)
      { g.resources with stamps := g.resources.stamps + 3 } := hg' ▸ rfl
  refine renewed hr ⟨_, rfl⟩ (hg' ▸ rfl) ?_ ?_ ?_ ?_
  · have hpools := ((hm.map (·.2)).flatMap_right (·.pools)).symm
    simpa [List.flatMap_map, Holdings.pools, SortedMap.values, Holding.pools,
      SchemaContext.holding, SchemaContext.pools] using hpools
  · have hmap := (hm.map (·.2.engine)).symm
    simpa [Holdings.engines, SortedMap.values, Function.comp_def, SchemaContext.holding] using hmap
  · intro k x hx
    obtain ⟨c, _, rfl, rfl⟩ := hfind k x hx
    rfl
  · intro k x hx
    obtain ⟨c, hc, rfl, rfl⟩ := hfind k x hx
    exact hw c hc

theorem close (g : Registry) : g.Publishes [] [] g.close.1 :=
  renewed rfl ⟨g.resources.stamps + 1, rfl⟩ rfl .nil .nil
    (fun _ _ h => by cases h) (fun _ _ h => by cases h)

end Publishes

theorem tellRules_eq (backend : String) (off : Bool) (rules : List BuiltRule) (r : Resources) :
    ∃ disabled, tellRules r backend off rules = { r with disabled } := by
  induction rules generalizing r with
  | nil => exact ⟨r.disabled, rfl⟩
  | cons b rules ih =>
    obtain ⟨disabled, h⟩ := ih (r.setDisabled b.status
      (b.rule.told (r.disabledOf b.status) backend off))
    exact ⟨disabled, h⟩

namespace Quiet

theorem setProperties (g : Registry) (p : Properties) : g.Quiet (g.setProperties p).1 := by
  simp only [Registry.setProperties]
  split
  · exact .refl g
  · obtain ⟨⟨stamps, hg⟩, hcs⟩ := Publishes.resizeAll_eq p.executorSize g.current.schemas.values
      (g.owning (g.resources.stamped p).1)
    refine ⟨?_, ?_, ?_⟩
    · intro hn
      rw [hg]
      refine Publishes.holdings_withSchemas hn fun c hc => ?_
      obtain ⟨x, hx, heq⟩ := hcs c hc
      obtain ⟨⟨k, _⟩, hmem, rfl⟩ := List.mem_map.1 hx
      exact ⟨k, _, (SortedMap.mem_entries_iff _ _ _).1 hmem, heq⟩
    · rw [hg]
      rfl
    · rw [hg]
      exact ⟨g.resources.disabled, stamps + 1, rfl⟩

theorem setTables (g : Registry) (names : List String) (tables : SchemaTables) :
    g.Quiet (g.setTables names tables).1 := by
  obtain ⟨⟨stamps, hg⟩, hcs⟩ := Publishes.retable_eq tables names g
  simp only [Registry.setTables]
  split
  · exact .refl g
  · rename_i g' replaced _ heq
    rw [heq] at hg hcs
    simp only at hg hcs
    subst hg
    exact ⟨fun hn => Publishes.holdings_withSchemas hn hcs, rfl,
      g.resources.disabled, stamps + 1, rfl⟩

theorem setRules (g : Registry) (name : String) (rules : List RuleConfiguration) :
    g.Quiet (g.setRules name rules).1 := by
  simp only [Registry.setRules]
  split
  · exact .refl g
  · rename_i c hc
    split
    · exact .refl g
    · rename_i built _
      obtain ⟨sets, hsets⟩ := Resources.instantiate_fst built g.resources
      have hfound : g.current.schema? name = some c := by
        simp only [getSchema] at hc
        split at hc <;> cases hc
        assumption
      refine ⟨?_, rfl, ?_⟩
      · intro hn
        have hf : g.current.holdings.find? name = some c.value.holding :=
          Snapshot.find?_of_schema? hfound
        have hname : c.value.name = name := hn name _ hf
        subst hname
        exact (Snapshot.holdings_withSchema _ _).trans (SortedMap.insert_of_find? hf)
      · refine ⟨g.resources.disabled ++ sets, g.resources.stamps + 3, ?_⟩
        simp [finish, publish, owning, Resources.stamped, hsets]

theorem setDisabled (g : Registry) (backend : String) (off : Bool) (rules : List BuiltRule) :
    g.Quiet (g.withResources fun r => tellRules r backend off rules) := by
  obtain ⟨disabled, h⟩ := tellRules_eq backend off rules g.resources
  exact ⟨fun _ => rfl, rfl, disabled, g.resources.stamps, h⟩

theorem setAuthentication (env : Environment) (g : Registry) (a : Authentication) :
    g.Quiet (g.begin env (.setAuthentication a)).1 :=
  ⟨fun _ => rfl, rfl, g.resources.disabled, g.resources.stamps + 2, rfl⟩

end Quiet

/-! ### Parts of changes -/

/-- How a part of a change can end that had `ps` and `es` in hand. -/
def Proceeds (g : Registry) (ps es : List Nat) (x : Registry × Step) : Prop :=
  g.Withholds ps es x ∨ x.2 = .done (.error .crashed) ∨
    ((∃ n, x.2 = .done (.ok n)) ∧ g.Publishes ps es x.1)

namespace Proceeds
variable {g : Registry} {ps es : List Nat}

theorem finish {g' : Registry} (h : g.Publishes ps es g') : g.Proceeds ps es g'.finish :=
  .inr (.inr ⟨⟨_, rfl⟩, h⟩)

/-- Work on the resources comes before what follows. -/
theorem of_owning {r : Resources} {x : Registry × Step} {qs fs : List Nat}
    (hg : g.resources.Grows r)
    (hc : ∀ r₀ us ts, Custody r₀ g.resources (ps ++ us) (es ++ ts) →
      Custody r₀ r (qs ++ us) (fs ++ ts))
    (h : (g.owning r).Proceeds qs fs x) : g.Proceeds ps es x := by
  rcases h with h | h | ⟨hok, h⟩
  · exact .inl (h.of_owning hg hc)
  · exact .inr (.inl h)
  · exact .inr (.inr ⟨hok, h.of_owning hg hc⟩)

theorem of_quiet {x : Registry × Step} (h : g.Quiet x.1)
    (hx : x.2 = .done (.error .crashed) ∨ ∃ n, x.2 = .done (.ok n)) : g.Proceeds [] [] x :=
  hx.elim (fun hcrash => .inr (.inl hcrash)) fun hok => .inr (.inr ⟨hok, .quietly h⟩)

theorem setProperties (g : Registry) (p : Properties) : g.Proceeds [] [] (g.setProperties p) := by
  refine .of_quiet (.setProperties g p) ?_
  simp only [Registry.setProperties]
  split
  · exact .inl rfl
  · exact .inr ⟨_, rfl⟩

theorem setTables (g : Registry) (names : List String) (tables : SchemaTables) :
    g.Proceeds [] [] (g.setTables names tables) := by
  refine .of_quiet (.setTables g names tables) (.inr ?_)
  simp only [Registry.setTables]
  split <;> exact ⟨_, rfl⟩

theorem setRules (g : Registry) (name : String) (rules : List RuleConfiguration) :
    g.Proceeds [] [] (g.setRules name rules) := by
  have hquiet := Quiet.setRules g name rules
  simp only [Registry.setRules] at hquiet ⊢
  split at hquiet
  · exact .inl (.reject g _)
  · split at hquiet
    · exact .inl (.reject g _)
    · exact .of_quiet hquiet (.inr ⟨_, rfl⟩)

theorem nextSchema (env : Environment) (g : Registry) (a : Authentication) (p : Properties)
    (d : Dialect) (built : List (Stamped SchemaContext))
    (rest : List (String × SchemaConfiguration))
    (hn : (built.map (·.value.name) ++ rest.map (·.1)).Nodup)
    (hw : ∀ c ∈ built, c.value.holding.Wired g.resources) :
    g.Proceeds (built.flatMap (·.value.pools)) (built.map (·.value.engine))
      (g.nextSchema env a p d built rest) := by
  cases rest with
  | nil => exact finish (.finishReset a p d (by simpa using hn) hw)
  | cons e rest => exact .inl (.nextSchema env g a p d e.1 e.2 hn hw)

/-- The first part of a change, which has nothing in hand yet. -/
theorem begin (env : Environment) (g : Registry) (change : Change) :
    g.Proceeds [] [] (g.begin env change) := by
  cases change with
  | reset schemas a p d =>
    exact nextSchema env g a p d [] schemas.entries schemas.nodup
      fun _ hc => absurd hc List.not_mem_nil
  | addSchema name ds rules => exact .inl (.addSchema env g name ds rules)
  | deleteSchema name =>
    simp only [Registry.begin]
    split
    · exact finish (.refl g)
    · rename_i c hc
      exact finish (.deleteSchema hc)
  | setProperties p => exact setProperties g p
  | setAuthentication a => exact finish (.quietly (.setAuthentication env g a))
  | setCircuit isOpen => exact finish (.quietly ⟨fun _ => rfl, rfl, _, _, rfl⟩)
  | setTables names tables => exact setTables g names tables
  | setRules name rules => exact setRules g name rules
  | setDisabled name backend off =>
    simp only [Registry.begin]
    split
    · exact .inl (.reject g _)
    · rename_i c _
      exact finish (.quietly (.setDisabled g backend off c.value.rules))
  | setDataSources name new => exact .inl (.setDataSources env g name new)
  | heartbeat => exact finish (.quietly ⟨fun _ => rfl, rfl, _, _, rfl⟩)
  | close => exact finish (.close g)

/-- Every further part, which has in hand what its purpose says. -/
theorem resume (env : Environment) {g : Registry} {purpose : Purpose} {pending : PendingSchema}
    (hf : purpose.Fits g pending) (answer : Except Error (SortedMap Tables)) :
    g.Proceeds (purpose.pools pending) purpose.engines (g.resume env purpose pending answer) := by
  simp only [Registry.resume]
  split
  · exact .inl (.abandon g purpose pending _)
  · rename_i tables
    split
    · exact .inr (.inl rfl)
    · rename_i r e hb
      have hr : r = g.resources := by
        rcases Resources.finishSchema_cases hb with ⟨_, _, rfl⟩ | ⟨herr, _⟩ | ⟨_, hok, _⟩
        · rfl
        · cases herr
        · cases hok
      subst hr
      exact .inl (.abandon g purpose pending e)
    · rename_i r context hb
      have hgrows := Resources.Grows.finishSchema hb
      have hwired := Resources.wired_finishSchema hb
      obtain ⟨hname, hsources⟩ := Resources.finishSchema_names hb
      have hbuilt : ∀ {r₀ us ts}, Custody r₀ g.resources us ts →
          Custody r₀ r us (context.value.engine :: ts) := by
        intro r₀ us ts h
        rcases h.finishSchema hb with ⟨_, herr, _⟩ | ⟨herr, _⟩ | ⟨_, hok, _, _, h'⟩
        · cases herr
        · cases herr
        · cases hok
          exact h'
      cases purpose with
      | reset a p d rest built =>
        obtain ⟨hn, hw⟩ := hf
        have hc : ∀ r₀ us ts, Custody r₀ g.resources
              (pending.dataSources.held ++ built.flatMap (·.value.pools) ++ us)
              (built.map (·.value.engine) ++ ts) →
            Custody r₀ r ((built ++ [context]).flatMap (·.value.pools) ++ us)
              ((built ++ [context]).map (·.value.engine) ++ ts) := by
          intro r₀ us ts h
          refine (hbuilt h).perm (List.Perm.append_right us ?_) ?_
          · simpa [SchemaContext.pools, hsources] using List.perm_append_comm
          · simpa using List.perm_middle.symm
        refine of_owning hgrows hc (nextSchema env _ a p d _ rest ?_ ?_)
        · simpa [hname, List.append_assoc] using hn
        · intro c hmem
          rcases List.mem_append.1 hmem with hmem | hmem
          · exact (hw c hmem).grows hgrows
          · rw [List.mem_singleton.1 hmem]
            exact hwired
      | add =>
        have hc : ∀ r₀ us ts, Custody r₀ g.resources (pending.dataSources.held ++ us) ([] ++ ts) →
            Custody r₀ r (context.value.pools ++ us) ([context.value.engine] ++ ts) := by
          intro r₀ us ts h
          rw [SchemaContext.pools, hsources]
          exact hbuilt h
        refine of_owning hgrows hc ?_
        rw [← hname]
        simp only
        split
        · rename_i hnone
          exact finish (.addSchema hnone hwired)
        · rename_i old hold
          exact finish (.replaceSchema hold hwired)
      | reconcile x previous =>
        obtain ⟨⟨old, hold, rfl⟩, hx, hbalances⟩ := hf
        rw [← hname] at hold ⊢
        exact of_owning hgrows (fun _ _ _ h => hbuilt h)
          (finish (.reconcile hold hbalances (hsources.trans hx) hwired))

/-- A part of a change passes custody on. -/
theorem keeps {x : Registry × Step} {qs fs : List Nat} (h : g.Proceeds ps es x)
    (hk : g.Keeps (ps ++ qs) (es ++ fs)) (hx : x.2 ≠ .done (.error .crashed)) :
    x.1.Keeps (x.2.pools ++ qs) (x.2.engines ++ fs) ∧ g.Succeeds x.1 ∧
      ∀ purpose pending, x.2 = .load purpose pending → purpose.Fits x.1 pending := by
  rcases h with hw | hcrash | ⟨⟨n, hok⟩, hp⟩
  · have hcurrent : x.1.current = g.current := by
      rw [hw.face]
      rfl
    have htable : x.1.lockTable = g.lockTable := by
      rw [hw.face]
      rfl
    refine ⟨⟨?_, ?_, ?_⟩, ⟨hw.grows, ?_, ?_, htable ▸ List.Sublist.refl _⟩, ?_⟩
    · have hcustody := hk.custody
      rw [List.append_assoc, List.append_assoc] at hcustody
      rw [hcurrent, List.append_assoc, List.append_assoc]
      exact hw.custody _ _ _ hcustody
    · rw [hcurrent]
      exact hk.named
    · rw [hcurrent]
      exact fun k h hf => (hk.wired k h hf).grows hw.grows
    · exact fun schema backend p hp => .inr ⟨hcurrent ▸ hp, by rw [htable]⟩
    · exact fun schema h hf => .inr ⟨h, hcurrent ▸ hf, rfl⟩
    · intro purpose pending hstep
      have hfits := hw.fits
      rw [hstep] at hfits
      exact hfits
  · exact absurd hcrash hx
  · obtain ⟨hkeeps, hsucceeds⟩ := hp qs fs hk
    refine ⟨?_, hsucceeds, ?_⟩
    · rw [hok]
      exact hkeeps
    · intro purpose pending hload
      rw [hok] at hload
      cases hload

end Proceeds

end Registry

end ShardRegistry
