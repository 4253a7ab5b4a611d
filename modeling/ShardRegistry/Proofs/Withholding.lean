import ShardRegistry.Proofs.Holdings

/-! Parts of a change that publish nothing. Such a part touches the resources only: it ends with a
rejection, and then nothing is left of what the change built, or it asks for tables and holds all of
that. -/
namespace ShardRegistry

open Resources (Custody)

namespace Registry

/-- From `g`, with `ps` and `es` in the hands of the change, nothing was published on the way to `x`,
whose step holds what is left of them and what was built since. -/
structure Withholds (g : Registry) (ps es : List Nat) (x : Registry × Step) : Prop where
  face : x.1 = g.owning x.1.resources
  grows : g.resources.Grows x.1.resources
  fits : x.2.Fits x.1
  custody : ∀ r₀ qs fs, Custody r₀ g.resources (ps ++ qs) (es ++ fs) →
    Custody r₀ x.1.resources (x.2.pools ++ qs) (x.2.engines ++ fs)

theorem contexts_closed {r₀ r : Resources} {cs : List (Stamped SchemaContext)} {qs fs : List Nat}
    (h : Custody r₀ r (cs.flatMap (·.value.pools) ++ qs) (cs.map (·.value.engine) ++ fs)) :
    Custody r₀ ((cs.map (·.value)).foldl (fun r c => c.close r) r) qs fs := by
  refine Custody.closeContexts ?_
  simpa [List.flatMap_map, List.map_map, Function.comp_def] using h

namespace Withholds
variable {g : Registry} {ps es qs fs : List Nat}

theorem reject (g : Registry) (e : Error) : g.Withholds [] [] (g.reject e) :=
  ⟨rfl, .refl _, trivial, fun _ _ _ h => h⟩

/-- A rejection after some work on the resources that closed all that was in hand. -/
theorem reject_owning {r : Resources} (e : Error) (hg : g.resources.Grows r)
    (hc : ∀ r₀ qs fs, Custody r₀ g.resources (ps ++ qs) (es ++ fs) → Custody r₀ r qs fs) :
    g.Withholds ps es ((g.owning r).reject e) :=
  ⟨rfl, hg, trivial, hc⟩

/-- Work on the resources comes before what follows. -/
theorem of_owning {r : Resources} {x : Registry × Step} (hg : g.resources.Grows r)
    (hc : ∀ r₀ us ts, Custody r₀ g.resources (ps ++ us) (es ++ ts) →
      Custody r₀ r (qs ++ us) (fs ++ ts))
    (h : (g.owning r).Withholds qs fs x) : g.Withholds ps es x :=
  ⟨h.face, hg.trans h.grows, h.fits, fun r₀ us ts hu => h.custody r₀ us ts (hc r₀ us ts hu)⟩

/-! ### Parts of changes -/

theorem pending_start {name : String} {m : DataSourceMap} {dialect : Dialect}
    {configurations : List RuleConfiguration} {properties : Properties} {pending : PendingSchema}
    (h : PendingSchema.start name m dialect configurations properties = .ok pending) :
    pending.name = name ∧ pending.dataSources = m ∧ pending.properties = properties := by
  simp only [PendingSchema.start] at h
  split at h
  · cases h
    exact ⟨rfl, rfl, rfl⟩
  · cases h

/-- A reset builds its next schema, or closes all of them. -/
theorem nextSchema (env : Environment) (g : Registry) (a : Authentication) (p : Properties)
    (d : Dialect) {built : List (Stamped SchemaContext)} (name : String)
    (c : SchemaConfiguration) {rest : List (String × SchemaConfiguration)}
    (hn : (built.map (·.value.name) ++ name :: rest.map (·.1)).Nodup)
    (hw : ∀ x ∈ built, x.value.holding.Wired g.resources) :
    g.Withholds (built.flatMap (·.value.pools)) (built.map (·.value.engine))
      (g.nextSchema env a p d built ((name, c) :: rest)) := by
  simp only [Registry.nextSchema]
  have hgrows := Resources.Grows.buildAll env.factory c.dataSources.entries g.resources .empty
  split
  · rename_i r e hb
    simp only [Resources.createDataSources] at hb
    rw [hb] at hgrows
    refine reject_owning e (hgrows.trans (.foldl Resources.Grows.closeContext _ _)) ?_
    intro r₀ us ts h
    rcases h.createDataSources hb with ⟨_, _, h'⟩ | ⟨_, hok, _⟩
    · exact contexts_closed h'
    · cases hok
  · rename_i r m hb
    simp only [Resources.createDataSources] at hb
    rw [hb] at hgrows
    have hbuilt : ∀ r₀ us ts,
        Custody r₀ g.resources (built.flatMap (·.value.pools) ++ us)
          (built.map (·.value.engine) ++ ts) →
        Custody r₀ r (m.held ++ (built.flatMap (·.value.pools) ++ us))
          (built.map (·.value.engine) ++ ts) := by
      intro r₀ us ts h
      rcases h.createDataSources hb with ⟨_, herr, _⟩ | ⟨_, hok, _, h'⟩
      · cases herr
      · cases hok
        exact h'
    split
    · rename_i e _
      refine reject_owning e ((hgrows.trans (.closeDataSources _ _)).trans
        (.foldl Resources.Grows.closeContext _ _)) ?_
      intro r₀ us ts h
      exact contexts_closed (hbuilt r₀ us ts h).closeDataSources
    · rename_i pending hs
      obtain ⟨hname, hsources, _⟩ := pending_start hs
      refine ⟨rfl, hgrows, ⟨by rw [hname]; exact hn, fun x hx => (hw x hx).grows hgrows⟩, ?_⟩
      intro r₀ us ts h
      simpa [Step.pools, Step.engines, Purpose.pools, Purpose.engines, hsources,
        List.append_assoc] using hbuilt r₀ us ts h

theorem addSchema (env : Environment) (g : Registry) (name : String) (ds : ParameterMap)
    (rules : List RuleConfiguration) : g.Withholds [] [] (g.addSchema env name ds rules) := by
  simp only [Registry.addSchema]
  have hgrows := Resources.Grows.buildAll env.factory ds.entries g.resources .empty
  split
  · exact reject g _
  · split
    · rename_i r e hb
      simp only [Resources.createDataSources] at hb
      rw [hb] at hgrows
      refine reject_owning e hgrows ?_
      intro r₀ us ts h
      rcases h.createDataSources hb with ⟨_, _, h'⟩ | ⟨_, hok, _⟩
      · exact h'
      · cases hok
    · rename_i r m hb
      simp only [Resources.createDataSources] at hb
      rw [hb] at hgrows
      have hbuilt : ∀ r₀ us ts, Custody r₀ g.resources us ts → Custody r₀ r (m.held ++ us) ts := by
        intro r₀ us ts h
        rcases h.createDataSources hb with ⟨_, herr, _⟩ | ⟨_, hok, _, h'⟩
        · cases herr
        · cases hok
          exact h'
      split
      · rename_i e _
        refine reject_owning e (hgrows.trans (.closeDataSources _ _)) ?_
        exact fun r₀ us ts h => (hbuilt r₀ us ts h).closeDataSources
      · rename_i pending hs
        obtain ⟨_, hsources, _⟩ := pending_start hs
        refine ⟨rfl, hgrows, trivial, ?_⟩
        intro r₀ us ts h
        simpa [Step.pools, Step.engines, Purpose.pools, Purpose.engines, hsources]
          using hbuilt r₀ us ts h

theorem setDataSources (env : Environment) (g : Registry) (name : String) (new : ParameterMap) :
    g.Withholds [] [] (g.setDataSources env name new) := by
  simp only [Registry.setDataSources]
  split
  · exact reject g _
  · rename_i c hc
    have hgrows := Resources.Grows.reconcile env.factory g.resources c.value.dataSources new
    split
    · rename_i r e hb
      rw [hb] at hgrows
      refine reject_owning e hgrows ?_
      intro r₀ us ts h
      rcases h.reconcile hb with ⟨_, _, h'⟩ | ⟨_, hok, _⟩
      · exact h'
      · cases hok
    · rename_i r x hb
      rw [hb] at hgrows
      have hbuilt : ∀ r₀ us ts, Custody r₀ g.resources us ts →
          x.Balances c.value.dataSources ∧ Custody r₀ r (x.built.held ++ us) ts := by
        intro r₀ us ts h
        rcases h.reconcile hb with ⟨_, herr, _⟩ | ⟨_, hok, hx, h'⟩
        · cases herr
        · cases hok
          exact ⟨hx, h'⟩
      split
      · rename_i e _
        refine reject_owning e (hgrows.trans (.closeDataSources _ _)) ?_
        exact fun r₀ us ts h => (hbuilt r₀ us ts h).2.closeDataSources
      · rename_i pending hs
        obtain ⟨hname, hsources, _⟩ := pending_start hs
        have hbalances := (hbuilt _ _ _ (Custody.start g.resources)).1
        refine ⟨rfl, hgrows, ⟨⟨c, ?_, rfl⟩, hsources, hbalances⟩, ?_⟩
        · have hfound : g.current.schema? name = some c := by
            simp only [getSchema] at hc
            split at hc <;> cases hc
            assumption
          rw [hname]
          exact hfound
        · exact fun r₀ us ts h => (hbuilt r₀ us ts h).2

/-- Giving up closes what is in hand, whatever the purpose. -/
theorem abandon (g : Registry) (purpose : Purpose) (pending : PendingSchema) (e : Error) :
    g.Withholds (purpose.pools pending) purpose.engines ((g.abandon purpose pending).reject e) := by
  cases purpose with
  | reset a p d rest built =>
    refine reject_owning e
      ((Resources.Grows.closeDataSources _ _).trans (.foldl Resources.Grows.closeContext _ _)) ?_
    intro r₀ us ts h
    simp only [Purpose.pools, List.append_assoc] at h
    exact contexts_closed h.closeDataSources
  | add =>
    refine reject_owning e (.closeDataSources _ _) ?_
    exact fun r₀ us ts h => h.closeDataSources
  | reconcile x previous =>
    refine reject_owning e (.closeDataSources _ _) ?_
    exact fun r₀ us ts h => h.closeDataSources

end Withholds

end Registry

end ShardRegistry
