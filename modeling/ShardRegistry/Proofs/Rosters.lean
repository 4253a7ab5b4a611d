import Mathlib.Data.List.Pairwise
import ShardRegistry.Proofs.Provisions

/-! Rosters. Every rule of a published schema has a set of its own for what it holds disabled. A change
clears the sets of the schemas whose rules it builds, or tells those of one schema of a backend; it
leaves all others as they are, whether the schemas are published anew or not. -/
namespace ShardRegistry

/-! ### Rules -/

/-- A rule whose primary is none of its replicas. -/
def Rule.Parted : Rule → Prop
  | .sharding _ => True
  | .readWrite r => r.primary ∉ r.replicas

theorem Rule.parted_of_configuration {names : List String} {c : RuleConfiguration} {r : Rule}
    (h : ofConfiguration names c = .ok r) : r.Parted := by
  cases c with
  | sharding c =>
    obtain ⟨s, _, h⟩ := bind_eq_ok (f := fun x => .ok (Rule.sharding x)) h
    cases h
    trivial
  | readWrite c =>
    obtain ⟨s, hs, h⟩ := bind_eq_ok (f := fun x => .ok (Rule.readWrite x)) h
    cases h
    simp only [ReadWriteRule.ofConfiguration] at hs
    split at hs
    · cases hs
    · split at hs
      · cases hs
      · split at hs
        · cases hs
        · rename_i hprimary
          cases hs
          simpa [Parted] using hprimary

theorem Rule.parted_of_build {names : List String} {cs : List RuleConfiguration} {rs : List Rule}
    (h : build names cs = .ok rs) : ∀ r ∈ rs, r.Parted := by
  intro r hr
  obtain ⟨c, _, hc⟩ := exists_configuration h hr
  exact parted_of_configuration hc

/-- A rule that is told of a backend goes by that if it is one of its replicas. -/
theorem ReadWriteRule.mem_told_iff (r : ReadWriteRule) (disabled : List String) (name b : String)
    (off : Bool) : b ∈ r.told disabled name off ↔
      if name = b ∧ b ∈ r.replicas then off = true else b ∈ disabled := by
  by_cases hname : name = b
  · subst hname
    by_cases hreplica : name ∈ r.replicas
    · cases off <;> by_cases hold : name ∈ disabled <;> simp [told, hreplica, hold]
    · simp [told, hreplica]
  · have hne : b ≠ name := Ne.symm hname
    simp only [told, hname, false_and, if_false]
    split
    · rfl
    · split
      · split
        · rfl
        · simp [hne]
      · simp [hne]

/-! ### Sets -/

/-- Rules whose sets are made one after the other, and are among those from the `lo`th on to the one
before the `hi`th. -/
structure Fresh (lo hi : Nat) (rules : List BuiltRule) : Prop where
  nodup : (rules.map (·.status)).Nodup
  within : ∀ x ∈ rules, lo ≤ x.status ∧ x.status < hi

namespace Fresh
variable {lo mid hi : Nat} {xs ys : List BuiltRule}

theorem nil : Fresh lo hi [] := ⟨List.nodup_nil, fun _ hx => absurd hx List.not_mem_nil⟩

theorem mono {lo' hi' : Nat} (h : Fresh lo hi xs) (hlo : lo' ≤ lo) (hhi : hi ≤ hi') :
    Fresh lo' hi' xs :=
  ⟨h.nodup, fun x hx => ⟨Nat.le_trans hlo (h.within x hx).1,
    Nat.lt_of_lt_of_le (h.within x hx).2 hhi⟩⟩

theorem append (hx : Fresh lo mid xs) (hy : Fresh mid hi ys) (hlo : lo ≤ mid) (hhi : mid ≤ hi) :
    Fresh lo hi (xs ++ ys) where
  nodup := by
    rw [List.map_append]
    refine List.nodup_append'.2 ⟨hx.nodup, hy.nodup, fun n hn hn' => ?_⟩
    obtain ⟨x, hmem, rfl⟩ := List.mem_map.1 hn
    obtain ⟨y, hmem', heq⟩ := List.mem_map.1 hn'
    exact absurd (heq ▸ (hx.within x hmem).2) (Nat.not_lt_of_le (hy.within y hmem').1)
  within x hmem := by
    rcases List.mem_append.1 hmem with hmem | hmem
    · exact ⟨(hx.within x hmem).1, Nat.lt_of_lt_of_le (hx.within x hmem).2 hhi⟩
    · exact ⟨Nat.le_trans hlo (hy.within x hmem).1, (hy.within x hmem).2⟩

end Fresh

namespace Resources

/-- No set is lost, and what there is in any is the same. -/
structure Retains (r r' : Resources) : Prop where
  length : r.disabled.length ≤ r'.disabled.length
  same : r'.disabledOf = r.disabledOf

namespace Retains
variable {r r' r'' : Resources}

theorem of_disabled (h : r'.disabled = r.disabled) : r.Retains r' :=
  ⟨Nat.le_of_eq (by rw [h]), disabledOf_congr h⟩

theorem refl (r : Resources) : r.Retains r := of_disabled rfl

theorem trans (h : r.Retains r') (h' : r'.Retains r'') : r.Retains r'' :=
  ⟨Nat.le_trans h.length h'.length, h'.same.trans h.same⟩

theorem of_inventory (h : r'.inventory = r.inventory) : r.Retains r' :=
  of_disabled (congrArg (·.disabled) h)

end Retains

theorem disabledOf_of_le {r : Resources} {i : Nat} (h : r.disabled.length ≤ i) :
    r.disabledOf i = [] := by
  rw [disabledOf, List.getElem?_eq_none h]
  rfl

theorem disabledOf_setDisabled (r : Resources) {i : Nat} (h : i < r.disabled.length)
    (names : List String) (j : Nat) :
    (r.setDisabled i names).disabledOf j = if i = j then names else r.disabledOf j := by
  simp only [disabledOf, setDisabled, List.getElem?_set, h, if_true]
  split <;> rfl

/-- New rules get the next sets. -/
theorem instantiate_fresh (rules : List Rule) (r : Resources) :
    r.disabled.length ≤ (r.instantiate rules).1.disabled.length ∧
    Fresh r.disabled.length (r.instantiate rules).1.disabled.length (r.instantiate rules).2 := by
  induction rules generalizing r with
  | nil => exact ⟨Nat.le_refl _, .nil⟩
  | cons rule rules ih =>
    obtain ⟨hle, hrest⟩ := ih r.addDisabled.1
    have hlength : r.addDisabled.1.disabled.length = r.disabled.length + 1 := by simp [addDisabled]
    rw [hlength] at hle hrest
    have hfirst : Fresh r.disabled.length (r.disabled.length + 1)
        [⟨rule, r.addDisabled.2⟩] :=
      ⟨List.nodup_singleton _, fun x hx => by simp [List.mem_singleton.1 hx, addDisabled]⟩
    exact ⟨Nat.le_of_succ_le hle, hfirst.append hrest (Nat.le_succ _) hle⟩

theorem retains_instantiate (rules : List Rule) (r : Resources) :
    r.Retains (r.instantiate rules).1 :=
  ⟨(instantiate_fresh rules r).1, (instantiate_status rules r).1⟩

/-- A schema that is completed has the rules that were built, with sets that are made for them. -/
theorem finishSchema_fresh {r r' : Resources} {p : PendingSchema} {loaded : SortedMap Tables}
    {c : Stamped SchemaContext} (h : r.finishSchema p loaded = (r', .ok c)) :
    r.Retains r' ∧ Fresh r.disabled.length r'.disabled.length c.value.rules ∧
      c.value.rules.map (·.rule) = p.rules := by
  simp only [finishSchema] at h
  split at h
  · cases h
  · have hretains := retains_instantiate p.rules r
    obtain ⟨_, hfresh⟩ := instantiate_fresh p.rules r
    have hrules := instantiate_snd p.rules r
    rcases startRuntime_cases _ p.dialect p.dataSources p.properties.executorSize with
      ⟨_, hrun⟩ | ⟨_, stamps, runtime, _, hrun⟩
    · rw [hrun] at h
      cases h
    · rw [hrun] at h
      cases h
      exact ⟨hretains.trans (.of_disabled rfl), hfresh, hrules⟩

/-- However a schema is completed or not, what there is in the sets is the same. -/
theorem retains_finishSchema (r : Resources) (p : PendingSchema) (loaded : SortedMap Tables) :
    r.Retains (r.finishSchema p loaded).1 := by
  simp only [finishSchema]
  split
  · exact .refl r
  · refine (retains_instantiate p.rules r).trans ?_
    rcases startRuntime_cases _ p.dialect p.dataSources p.properties.executorSize with
      ⟨_, hrun⟩ | ⟨_, _, _, _, hrun⟩ <;> rw [hrun] <;> exact .of_disabled rfl

end Resources

/-- Telling rules touches their own sets only, and each of them once. -/
theorem Registry.disabledOf_tellRules (backend : String) (off : Bool) (rules : List BuiltRule)
    (r : Resources) (h : Fresh 0 r.disabled.length rules) :
    (∀ x ∈ rules, (tellRules r backend off rules).disabledOf x.status =
      x.rule.told (r.disabledOf x.status) backend off) ∧
    (∀ i ∉ rules.map (·.status),
      (tellRules r backend off rules).disabledOf i = r.disabledOf i) ∧
    (tellRules r backend off rules).disabled.length = r.disabled.length := by
  induction rules generalizing r with
  | nil => exact ⟨fun _ hx => absurd hx List.not_mem_nil, fun _ _ => rfl, rfl⟩
  | cons y rules ih =>
    obtain ⟨hy, hrules⟩ := List.forall_mem_cons.1 h.within
    obtain ⟨hfirst, hnodup⟩ := List.nodup_cons.1 h.nodup
    generalize hr' : r.setDisabled y.status (y.rule.told (r.disabledOf y.status) backend off) = r'
    have hset (i : Nat) := r.disabledOf_setDisabled hy.2
      (y.rule.told (r.disabledOf y.status) backend off) i
    rw [hr'] at hset
    have hlength : r'.disabled.length = r.disabled.length := by
      rw [← hr']
      exact List.length_set
    obtain ⟨htold, hothers, hkept⟩ := ih r' ⟨hnodup, hlength ▸ hrules⟩
    have hfold : tellRules r backend off (y :: rules) = tellRules r' backend off rules := by
      rw [← hr']
      rfl
    rw [hfold]
    refine ⟨List.forall_mem_cons.2 ⟨?_, fun x hx => ?_⟩, fun i hi => ?_, hkept.trans hlength⟩
    · rw [hothers _ hfirst, hset, if_pos rfl]
    · have hne : y.status ≠ x.status := fun heq => hfirst (List.mem_map.2 ⟨x, hx, heq.symm⟩)
      rw [htold x hx, hset, if_neg hne]
    · rw [List.map_cons, List.mem_cons, not_or] at hi
      rw [hothers i hi.2, hset, if_neg (Ne.symm hi.1)]

/-! ### Snapshots -/

namespace Snapshot

/-- The rules of a schema, if it is published. -/
def rules? (s : Snapshot) (name : String) : Option (List BuiltRule) :=
  (s.schema? name).map (·.value.rules)

theorem rules?_eq_some {s : Snapshot} {name : String} {bs : List BuiltRule} :
    s.rules? name = some bs ↔ ∃ c, s.schema? name = some c ∧ c.value.rules = bs :=
  Option.map_eq_some_iff

/-- All rules that are published are parted, and no two of them have the same of `n` sets. -/
structure Apart (s : Snapshot) (n : Nat) : Prop where
  fresh : ∀ k bs, s.rules? k = some bs → Fresh 0 n bs
  apart : ∀ k k' bs bs', s.rules? k = some bs → s.rules? k' = some bs' →
    ∀ x ∈ bs, ∀ x' ∈ bs', x.status = x'.status → k = k'
  parted : ∀ k bs, s.rules? k = some bs → ∀ x ∈ bs, x.rule.Parted

namespace Apart
variable {s s' : Snapshot} {n n' : Nat}

theorem empty : Registry.empty.current.Apart 0 where
  fresh _ _ h := by cases h
  apart _ _ _ _ h := by cases h
  parted _ _ h := by cases h

/-- Fewer schemas with the same rules. -/
theorem of_rules (h : s.Apart n) (hn : n ≤ n')
    (hs : ∀ k bs, s'.rules? k = some bs → s.rules? k = some bs) : s'.Apart n' where
  fresh k bs hb := (h.fresh k bs (hs k bs hb)).mono (Nat.le_refl _) hn
  apart k k' bs bs' hb hb' := h.apart k k' bs bs' (hs k bs hb) (hs k' bs' hb')
  parted k bs hb := h.parted k bs (hs k bs hb)

theorem withSchema (h : s.Apart n) (hn : n ≤ n') {c : Stamped SchemaContext}
    (hc : Fresh n n' c.value.rules) (hp : ∀ x ∈ c.value.rules, x.rule.Parted) :
    (s.withSchema c).Apart n' := by
  have hcases (k : String) (bs : List BuiltRule) (hb : (s.withSchema c).rules? k = some bs) :
      (k = c.value.name ∧ bs = c.value.rules) ∨ (k ≠ c.value.name ∧ s.rules? k = some bs) := by
    obtain ⟨x, hx, rfl⟩ := rules?_eq_some.1 hb
    by_cases hk : c.value.name = k
    · subst hk
      have hfind : (s.withSchema c).schema? c.value.name = some c :=
        SortedMap.find?_insert_self _ _ _
      cases hfind.symm.trans hx
      exact .inl ⟨rfl, rfl⟩
    · have hfind : (s.withSchema c).schema? k = s.schema? k := SortedMap.find?_insert_of_ne _ _ hk
      exact .inr ⟨Ne.symm hk, rules?_eq_some.2 ⟨x, hfind.symm.trans hx, rfl⟩⟩
  -- an old rule has an old set, and a new one a new set
  have hne {k : String} {bs : List BuiltRule} (hb : s.rules? k = some bs) {x x' : BuiltRule}
      (hx : x ∈ bs) (hx' : x' ∈ c.value.rules) : x.status ≠ x'.status := fun heq =>
    absurd (heq ▸ ((h.fresh k bs hb).within x hx).2) (Nat.not_lt_of_le (hc.within x' hx').1)
  refine ⟨fun k bs hb => ?_, fun k k' bs bs' hb hb' x hx x' hx' heq => ?_, fun k bs hb => ?_⟩
  · rcases hcases k bs hb with ⟨_, rfl⟩ | ⟨_, hold⟩
    · exact hc.mono (Nat.zero_le _) (Nat.le_refl _)
    · exact (h.fresh k bs hold).mono (Nat.le_refl _) hn
  · rcases hcases k bs hb with ⟨rfl, rfl⟩ | ⟨_, hold⟩ <;>
      rcases hcases k' bs' hb' with ⟨rfl, rfl⟩ | ⟨_, hold'⟩
    · rfl
    · exact absurd heq.symm (hne hold' hx' hx)
    · exact absurd heq (hne hold hx hx')
    · exact h.apart k k' bs bs' hold hold' x hx x' hx' heq
  · rcases hcases k bs hb with ⟨_, rfl⟩ | ⟨_, hold⟩
    · exact hp
    · exact h.parted k bs hold

/-- Schemas that were built one after the other. -/
theorem ofList {built : List (Stamped SchemaContext)}
    (hs : s.schemas = .ofList (built.map fun c => (c.value.name, c)))
    (hb : Fresh 0 n (built.flatMap (·.value.rules)))
    (hp : ∀ c ∈ built, ∀ x ∈ c.value.rules, x.rule.Parted) : s.Apart n := by
  have hcases (k : String) (bs : List BuiltRule) (h : s.rules? k = some bs) :
      ∃ c ∈ built, c.value.name = k ∧ c.value.rules = bs := by
    obtain ⟨x, hx, rfl⟩ := rules?_eq_some.1 h
    rw [schema?, hs] at hx
    rcases SortedMap.find?_foldl_insert hx with hmem | ⟨hempty, _⟩
    · obtain ⟨c, hc, heq⟩ := List.mem_map.1 hmem
      cases heq
      exact ⟨x, hc, rfl, rfl⟩
    · cases hempty
  have hnodup := hb.nodup
  rw [List.map_flatMap, List.nodup_flatMap] at hnodup
  refine ⟨fun k bs h => ?_, fun k k' bs bs' h h' x hx x' hx' heq => ?_, fun k bs h => ?_⟩
  · obtain ⟨c, hc, _, rfl⟩ := hcases k bs h
    exact ⟨hnodup.1 c hc, fun x hx => hb.within x (List.mem_flatMap.2 ⟨c, hc, hx⟩)⟩
  · obtain ⟨c, hc, rfl, rfl⟩ := hcases k bs h
    obtain ⟨c', hc', rfl, rfl⟩ := hcases k' bs' h'
    by_contra hne
    have hsymm : Std.Symm (Function.onFun List.Disjoint fun c : Stamped SchemaContext =>
        c.value.rules.map (·.status)) := ⟨fun _ _ h _ hx hy => h hy hx⟩
    have hdisjoint := hnodup.2.forall hc hc' fun hcc => hne (hcc ▸ rfl)
    exact hdisjoint (List.mem_map_of_mem hx) (heq ▸ List.mem_map_of_mem hx')
  · obtain ⟨c, hc, _, rfl⟩ := hcases k bs h
    exact hp c hc

end Apart

end Snapshot

/-! ### Changes -/

/-- Whether a change builds the rules of a schema when it is accepted. -/
def Change.Renews (name : String) : Change → Prop
  | .reset schemas _ _ _ => name ∈ schemas.keys
  | .addSchema n _ _ | .setDataSources n _ | .setRules n _ => n = name
  | .deleteSchema _ | .setProperties _ | .setAuthentication _ | .setCircuit _ | .setTables _ _
  | .setDisabled _ _ _ | .heartbeat | .close => False

/-- A schema whose rules are not built has the rules that it had, if it is published. -/
theorem Change.Yields.rules?_of_not_renews {change : Change} {s s' : Stamped Snapshot}
    (h : change.Yields s s') (hn : ∀ k c, s.value.schema? k = some c → c.value.name = k)
    {name : String} (hr : ¬ change.Renews name) {bs : List BuiltRule}
    (hb : s'.value.rules? name = some bs) : s.value.rules? name = some bs := by
  obtain ⟨c', hc', rfl⟩ := Snapshot.rules?_eq_some.1 hb
  have hsame {c : Stamped SchemaContext} (hc : s.value.schema? name = some c)
      (heq : c'.value.rules = c.value.rules) : s.value.rules? name = some c'.value.rules :=
    Snapshot.rules?_eq_some.2 ⟨c, hc, heq.symm⟩
  have hothers {c : Stamped SchemaContext} (hne : c.value.name ≠ name)
      (hs : s'.value = s.value.withSchema c) : s.value.rules? name = some c'.value.rules := by
    rw [hs] at hc'
    exact hsame ((SortedMap.find?_insert_of_ne _ _ hne).symm.trans hc') rfl
  cases h with
  | @reset schemas a p d built _ hbuilt hs =>
    rw [hs] at hc'
    rcases SortedMap.find?_foldl_insert hc' with hmem | ⟨hempty, _⟩
    · obtain ⟨x, hx, heq⟩ := List.mem_map.1 hmem
      obtain ⟨e, he, hname, _⟩ := forall₂_mem_right hbuilt hx
      cases heq
      exact absurd (List.mem_map.2 ⟨e, he, hname.symm⟩) hr
    · cases hempty
  | addSchema hname _ hs | setRules _ hname _ hs | setDataSources _ hname _ hs =>
    exact hothers (fun heq => hr (hname.symm.trans heq)) hs
  | deleteSchema _ hs =>
    rw [hs] at hc'
    refine hsame (c := c') ?_ rfl
    by_cases hk : name = ‹String›
    · subst hk
      cases (SortedMap.find?_erase_self s.value.schemas name).symm.trans hc'
    · exact (SortedMap.find?_erase_of_ne s.value.schemas hk).symm.trans hc'
  | setProperties hc hs =>
    rw [hs] at hc'
    rcases Snapshot.schema?_withSchemas hc' with ⟨hmem, rfl⟩ | ⟨hold, _⟩
    · obtain ⟨c, hold, hresized⟩ := Snapshot.replaced_of_forall₂ hn
        (fun _ _ hr => SchemaContext.Resized.name hr)
        (fun c hc => (s.value.mem_values_iff c).1 hc) hc c' hmem
      exact hsame hold (by rw [SchemaContext.rules, hresized.schema, SchemaContext.rules])
    · exact hsame hold rfl
  | setTables _ hc hs =>
    rw [hs] at hc'
    rcases Snapshot.schema?_withSchemas hc' with ⟨hmem, rfl⟩ | ⟨hold, _⟩
    · obtain ⟨c, hold, hretabled⟩ := Snapshot.replaced_of_forall₂ hn
        (fun _ _ hr => SchemaContext.Retabled.name hr)
        (fun c hc => Snapshot.mem_known hc) hc c' hmem
      exact hsame hold (by rw [SchemaContext.rules, hretabled.schema, SchemaContext.rules])
    · exact hsame hold rfl
  | setAuthentication hs =>
    rw [hs] at hc'
    exact hsame hc' rfl
  | close hs =>
    rw [hs] at hc'
    cases hc'
  | deleteUnknown _ | setCircuit _ | setNoTables _ _ | setDisabled _ _ _ | heartbeat => exact hb

/-- Whether a change tells rules of a backend. -/
def Change.tells : Change → Bool
  | .setDisabled .. => true
  | _ => false

/-- What a change makes of the set of a rule that was published. -/
def Change.told (change : Change) (name : String) (rule : Rule) (disabled : List String) :
    List String :=
  match change with
  | .setDisabled n backend off => if n = name then rule.told disabled backend off else disabled
  | _ => disabled

/-- Schemas that were built and are not published yet: their rules have sets of their own, with nothing
in them. -/
structure Resources.Issues (r : Resources) (built : List (Stamped SchemaContext)) : Prop where
  fresh : Fresh 0 r.disabled.length (built.flatMap (·.value.rules))
  clear : ∀ c ∈ built, ∀ x ∈ c.value.rules, r.disabledOf x.status = []
  parted : ∀ c ∈ built, ∀ x ∈ c.value.rules, x.rule.Parted

/-- What a change has in hand while it waits for the tables of a schema. -/
structure Purpose.Ready (purpose : Purpose) (r : Resources) (pending : PendingSchema) : Prop where
  parted : ∀ rule ∈ pending.rules, rule.Parted
  issues : r.Issues purpose.built

namespace Resources.Issues
variable {r r' : Resources} {built : List (Stamped SchemaContext)}

theorem nil : r.Issues [] :=
  ⟨.nil, fun _ hc => absurd hc List.not_mem_nil, fun _ hc => absurd hc List.not_mem_nil⟩

theorem retains (h : r.Issues built) (hr : r.Retains r') : r'.Issues built :=
  ⟨h.fresh.mono (Nat.le_refl _) hr.length, fun c hc x hx => hr.same ▸ h.clear c hc x hx, h.parted⟩

/-- The next schema is completed. -/
theorem snoc (h : r.Issues built) {p : PendingSchema} {loaded : SortedMap Tables}
    {c : Stamped SchemaContext} (hf : r.finishSchema p loaded = (r', .ok c))
    (hp : ∀ rule ∈ p.rules, rule.Parted) : r'.Issues (built ++ [c]) := by
  obtain ⟨hr, hfresh, hrules⟩ := finishSchema_fresh hf
  obtain ⟨_, hclear, hparted⟩ := h.retains hr
  refine ⟨?_, ?_, ?_⟩
  · rw [List.flatMap_append, List.flatMap_singleton]
    exact h.fresh.append hfresh (Nat.zero_le _) hr.length
  · rw [List.forall_mem_append, List.forall_mem_singleton]
    refine ⟨hclear, fun x hx => ?_⟩
    rw [hr.same]
    exact disabledOf_of_le (hfresh.within x hx).1
  · rw [List.forall_mem_append, List.forall_mem_singleton]
    exact ⟨hparted, fun x hx => hp _ (hrules ▸ List.mem_map_of_mem hx)⟩

end Resources.Issues

/-- The same snapshot, and no set that it is about is lost or has another content. -/
structure Registry.Rests (g g' : Registry) : Prop where
  current : g'.current = g.current
  retains : g.resources.Retains g'.resources

theorem Registry.Rests.refl (g : Registry) : g.Rests g := ⟨rfl, .refl _⟩

theorem Registry.Rests.owning {g : Registry} {r : Resources} (h : g.resources.Retains r) :
    g.Rests (g.owning r) := ⟨rfl, h⟩

/-- What a part of a change does to the sets of the rules. -/
structure Change.Marks (change : Change) (g : Registry) (x : Registry × Step) : Prop where
  apart : x.1.current.Apart x.1.resources.disabled.length
  keeps : (∀ n, x.2 ≠ .done (.ok n)) → x.1.resources.disabledOf = g.resources.disabledOf
  told : ∀ name bs, g.current.rules? name = some bs → ∀ b ∈ bs,
    x.1.resources.disabledOf b.status = change.told name b.rule (g.resources.disabledOf b.status)
  renewed : ∀ n name bs, x.2 = .done (.ok n) → change.Renews name →
    x.1.current.rules? name = some bs → ∀ b ∈ bs, x.1.resources.disabledOf b.status = []
  ready : ∀ purpose pending, x.2 = .load purpose pending → purpose.Ready x.1.resources pending

namespace Change.Marks
variable {change : Change} {g g' : Registry}

/-- Work on the resources comes before what follows. -/
theorem of_owning {r : Resources} {x : Registry × Step} (hr : g.resources.Retains r)
    (h : change.Marks (g.owning r) x) : change.Marks g x where
  apart := h.apart
  keeps hx := (h.keeps hx).trans hr.same
  told name bs hb b hmem := by
    rw [h.told name bs hb b hmem]
    exact congrArg (change.told name b.rule) (congrFun hr.same _)
  renewed := h.renewed
  ready := h.ready

section
variable (hd : change.tells = false)
include hd

theorem of_retains {step : Step} (hr : g.resources.Retains g'.resources)
    (ha : g'.current.Apart g'.resources.disabled.length)
    (hrenewed : ∀ n name bs, step = .done (.ok n) → change.Renews name →
      g'.current.rules? name = some bs → ∀ b ∈ bs, g'.resources.disabledOf b.status = [])
    (hready : ∀ purpose pending, step = .load purpose pending →
      purpose.Ready g'.resources pending) : change.Marks g (g', step) where
  apart := ha
  keeps _ := hr.same
  told name bs _ b _ := by
    rw [hr.same]
    cases change with
    | setDisabled n backend off => cases hd
    | _ => rfl
  renewed := hrenewed
  ready := hready

theorem accepted {n : Nat} (hr : g.resources.Retains g'.resources)
    (ha : g'.current.Apart g'.resources.disabled.length)
    (hrenewed : ∀ name bs, change.Renews name → g'.current.rules? name = some bs →
      ∀ b ∈ bs, g'.resources.disabledOf b.status = []) : change.Marks g (g', .done (.ok n)) :=
  of_retains hd hr ha (fun _ name bs _ => hrenewed name bs) (fun _ _ h => by cases h)

/-- Changes that build no rules and tell none anything publish the old ones, if any. -/
theorem plain {n : Nat} (hn : ∀ name, ¬ change.Renews name) (hg : g.current.Coherent)
    (ha : g.current.Apart g.resources.disabled.length) (hy : change.Yields g.snapshot g'.snapshot)
    (hr : g'.resources.disabled = g.resources.disabled) : change.Marks g (g', .done (.ok n)) := by
  refine accepted hd (.of_disabled hr) ?_ fun name _ h => absurd h (hn name)
  exact ha.of_rules (Nat.le_of_eq (by rw [hr])) fun k bs hb =>
    hy.rules?_of_not_renews (fun k c hc => (hg k c hc).1) (hn k) hb

variable (ha : g.current.Apart g.resources.disabled.length) (h : g.Rests g')
include ha h

theorem fails (stop : Stop) : change.Marks g (g', .done (.error stop)) := by
  refine of_retains hd h.retains ?_ (fun _ _ _ h => by cases h) (fun _ _ h => by cases h)
  rw [h.current]
  exact ha.of_rules h.retains.length fun _ _ hb => hb

theorem loads {purpose : Purpose} {pending : PendingSchema}
    (hp : purpose.Ready g'.resources pending) : change.Marks g (g', .load purpose pending) := by
  refine of_retains hd h.retains ?_ (fun _ _ _ h => by cases h) ?_
  · rw [h.current]
    exact ha.of_rules h.retains.length fun _ _ hb => hb
  · rintro _ _ ⟨⟩
    exact hp

end

end Change.Marks

namespace Registry
variable {env : Environment} {g : Registry}

theorem retains_createDataSources {r r' : Resources} {f : Factory} {ps : ParameterMap}
    {result : Except Error DataSourceMap} (h : r.createDataSources f ps = (r', result)) :
    r.Retains r' := by
  have hd := r.disabled_buildAll f .empty ps.entries
  rw [show r.buildAll f .empty ps.entries = (r', result) from h] at hd
  exact .of_disabled hd

theorem retains_compute {r r' : Resources} {f : Factory} {current : DataSourceMap}
    {new : ParameterMap} {result : Except Error Reconciliation}
    (h : Reconciliation.compute r f current new = (r', result)) : r.Retains r' := by
  have hd := r.disabled_buildAll f .empty (Reconciliation.select new
    ((DataSourceChanges.compute current.parameters new).modified ++
      (DataSourceChanges.compute current.parameters new).added))
  simp only [Reconciliation.compute] at h
  split at h <;> cases h <;> rename_i heq <;> rw [heq] at hd <;> exact .of_disabled hd

theorem ready_start {name : String} {m : DataSourceMap} {d : Dialect}
    {cs : List RuleConfiguration} {properties : Properties} {pending : PendingSchema}
    (hs : PendingSchema.start name m d cs properties = .ok pending) {purpose : Purpose}
    {r : Resources} (hb : r.Issues purpose.built) : purpose.Ready r pending := by
  refine ⟨?_, hb⟩
  simp only [PendingSchema.start] at hs
  split at hs
  · rename_i rules hrules
    cases hs
    exact Rule.parted_of_build hrules
  · cases hs

theorem marks_nextSchema (ha : g.current.Apart g.resources.disabled.length)
    (schemas : OrderedMap SchemaConfiguration) (a : Authentication) (p : Properties) (d : Dialect)
    {built : List (Stamped SchemaContext)} (hb : g.resources.Issues built)
    (rest : List (String × SchemaConfiguration)) :
    (Change.reset schemas a p d).Marks g (g.nextSchema env a p d built rest) := by
  cases rest with
  | nil =>
    have hstamps : g.resources.Retains { g.resources with stamps := g.resources.stamps + 3 } :=
      .of_disabled rfl
    have hr : g.resources.Retains (g.finishReset a p d built).1.resources :=
      hstamps.trans (.of_inventory (Resources.inventory_closeContexts _ g.current.contexts))
    have hb' := hb.retains hr
    refine .accepted rfl hr (.ofList rfl hb'.fresh hb'.parted) ?_
    intro name bs _ hbs
    obtain ⟨c, hc, rfl⟩ := Snapshot.rules?_eq_some.1 hbs
    rcases SortedMap.find?_foldl_insert hc with hmem | ⟨hempty, _⟩
    · obtain ⟨x, hx, heq⟩ := List.mem_map.1 hmem
      cases heq
      exact hb'.clear c hx
    · cases hempty
  | cons e rest =>
    simp only [nextSchema]
    split
    · rename_i r err hm
      have hr := (retains_createDataSources hm).trans
        (.of_inventory (r.inventory_closeContexts (built.map (·.value))))
      exact .fails rfl ha (.owning hr) _
    · rename_i r m hm
      have hr := retains_createDataSources hm
      split
      · have hr' := (hr.trans (.of_inventory (r.inventory_closeDataSources m))).trans
          (.of_inventory (Resources.inventory_closeContexts _ (built.map (·.value))))
        exact .fails rfl ha (.owning hr') _
      · rename_i hs
        have hready : (Purpose.reset a p d rest built).Ready r _ := ready_start hs (hb.retains hr)
        exact .loads rfl ha (.owning hr) hready

theorem marks_setRules (ha : g.current.Apart g.resources.disabled.length) (name : String)
    (cs : List RuleConfiguration) :
    (Change.setRules name cs).Marks g (g.setRules name cs) := by
  simp only [Registry.setRules]
  split
  · exact .fails rfl ha (.refl g) _
  · rename_i c hc
    split
    · exact .fails rfl ha (.refl g) _
    · rename_i rules hrules
      obtain ⟨hle, hfresh⟩ := g.resources.instantiate_fresh rules
      obtain ⟨hsame, hclear⟩ := Resources.instantiate_status rules g.resources
      have hmade := Resources.instantiate_snd rules g.resources
      refine .accepted rfl ⟨hle, hsame⟩ ?_ ?_
      · refine ha.withSchema hle hfresh fun x hx => Rule.parted_of_build hrules _ ?_
        exact hmade ▸ List.mem_map_of_mem hx
      · rintro _ bs rfl hb
        obtain ⟨c', hc', rfl⟩ := Snapshot.rules?_eq_some.1 hb
        cases (SortedMap.find?_insert_self _ _ _).symm.trans hc'
        intro x hx
        exact (congrFun hsame x.status).trans (hclear x hx)

theorem marks_setDisabled (ha : g.current.Apart g.resources.disabled.length) (name backend : String)
    (off : Bool) :
    (Change.setDisabled name backend off).Marks g (g.begin env (.setDisabled name backend off)) := by
  simp only [begin]
  split
  · rename_i e he
    refine ⟨ha, fun _ => rfl, fun n bs hb b _ => ?_, fun _ _ _ h => ?_, fun _ _ h => ?_⟩
    · have hne : name ≠ n := by
        rintro rfl
        obtain ⟨c, hc, _⟩ := Snapshot.rules?_eq_some.1 hb
        simp [getSchema, hc] at he
      simp only [Change.told, hne, if_false]
      rfl
    · cases h
    · cases h
  · rename_i c hc
    have hrules : g.current.rules? name = some c.value.rules :=
      Snapshot.rules?_eq_some.2 ⟨c, schema?_of_getSchema hc, rfl⟩
    obtain ⟨htold, hothers, hlength⟩ :=
      disabledOf_tellRules backend off c.value.rules g.resources (ha.fresh name _ hrules)
    refine ⟨?_, fun h => absurd rfl (h _), fun n bs hb b hmem => ?_, fun _ _ _ _ h => h.elim,
      fun _ _ h => by cases h⟩
    · exact ha.of_rules (Nat.le_of_eq hlength.symm) fun _ _ hb => hb
    · by_cases hn : name = n
      · subst hn
        cases hrules.symm.trans hb
        simp only [Change.told, if_true]
        exact htold b hmem
      · simp only [Change.told, hn, if_false]
        refine hothers _ fun hi => ?_
        obtain ⟨x, hx, heq⟩ := List.mem_map.1 hi
        exact hn (ha.apart name n _ _ hrules hb x hx b hmem heq)

/-- What the first part of a change does to the sets of the rules. -/
theorem marks_begin (env : Environment) (hg : g.current.Coherent)
    (ha : g.current.Apart g.resources.disabled.length) (change : Change) :
    change.Marks g (g.begin env change) := by
  have hl := leads_begin env g change
  cases change with
  | reset schemas a p d => exact marks_nextSchema ha schemas a p d .nil schemas.entries
  | addSchema name ds rules =>
    simp only [begin, addSchema]
    split
    · exact .fails rfl ha (.refl g) _
    · split
      · rename_i hm
        exact .fails rfl ha (.owning (retains_createDataSources hm)) _
      · rename_i r m hm
        have hr := retains_createDataSources hm
        split
        · have hr' := hr.trans (.of_inventory (r.inventory_closeDataSources m))
          exact .fails rfl ha (.owning hr') _
        · rename_i hs
          exact .loads rfl ha (.owning hr) (ready_start hs .nil)
  | setDataSources name new =>
    simp only [begin, setDataSources]
    split
    · exact .fails rfl ha (.refl g) _
    · split
      · rename_i hx
        exact .fails rfl ha (.owning (retains_compute hx)) _
      · rename_i r x hx
        have hr := retains_compute hx
        split
        · have hr' := hr.trans (.of_inventory (r.inventory_closeDataSources x.built))
          exact .fails rfl ha (.owning hr') _
        · rename_i hs
          exact .loads rfl ha (.owning hr) (ready_start hs .nil)
  | setRules name rules => exact marks_setRules ha name rules
  | setDisabled name backend off => exact marks_setDisabled ha name backend off
  | deleteSchema name =>
    simp only [begin] at hl ⊢
    split at hl
    · exact .plain rfl (fun _ h => h) hg ha hl.1 rfl
    · refine .plain rfl (fun _ h => h) hg ha hl.1 ?_
      exact congrArg (·.inventory.disabled) (face_closeContexts _ _)
  | setProperties p =>
    obtain ⟨⟨stamps, hresized⟩, _⟩ := Publishes.resizeAll_eq p.executorSize g.current.schemas.values
      (g.owning (g.resources.stamped p).1)
    by_cases hsize : (p.executorSize > Executor.limit && !g.current.schemas.isEmpty) = true
    · simp only [begin, Registry.setProperties, Executor.isNone_ofSize?, if_pos hsize]
      exact .fails rfl ha (.refl g) _
    · simp only [begin, Registry.setProperties, Executor.isNone_ofSize?, if_neg hsize] at hl ⊢
      refine .plain rfl (fun _ h => h) hg ha hl.1 ?_
      rw [hresized]
      rfl
  | setTables names tables =>
    obtain ⟨⟨stamps, hretabled⟩, _⟩ := Publishes.retable_eq tables names g
    simp only [begin, Registry.setTables] at hl ⊢
    split at hl
    · exact .plain rfl (fun _ h => h) hg ha hl.1 rfl
    · rename_i g' cs _ heq
      rw [heq] at hretabled
      simp only at hretabled
      subst hretabled
      exact .plain rfl (fun _ h => h) hg ha hl.1 rfl
  | setAuthentication _ | setCircuit _ | heartbeat =>
    exact .plain rfl (fun _ h => h) hg ha hl.1 rfl
  | close =>
    refine .plain rfl (fun _ h => h) hg ha hl.1 ?_
    exact congrArg (·.inventory.disabled) (face_closeContexts _ _)

/-- What a further part of a change does to the sets of the rules. -/
theorem marks_resume (env : Environment) {purpose : Purpose} {pending : PendingSchema}
    {change : Change} (ha : g.current.Apart g.resources.disabled.length)
    (hp : purpose.Pursues g.current pending change) (hready : purpose.Ready g.resources pending)
    (answer : Except Error (SortedMap Tables)) :
    change.Marks g (g.resume env purpose pending answer) := by
  have hd : change.tells = false := by cases hp <;> rfl
  have habandon {r : Resources} (hr : g.resources.Retains r) :
      g.Rests ((g.owning r).abandon purpose pending) := by
    have hface := (g.owning r).face_abandon purpose pending
    exact ⟨(current_of_face hface).trans rfl,
      hr.trans (.of_inventory (congrArg Face.inventory hface))⟩
  simp only [resume]
  split
  · exact .fails hd ha (habandon (.refl _)) _
  · rename_i tables
    have hretains := g.resources.retains_finishSchema pending tables
    split <;> rename_i hfinish <;> rw [hfinish] at hretains
    · exact .fails hd ha (.owning hretains) _
    · exact .fails hd ha (habandon hretains) _
    · rename_i r c
      obtain ⟨_, hfresh, hrules⟩ := Resources.finishSchema_fresh hfinish
      obtain ⟨hname, _⟩ := Resources.finishSchema_names hfinish
      have hclear : ∀ x ∈ c.value.rules, r.disabledOf x.status = [] := fun x hx =>
        (congrFun hretains.same _).trans (Resources.disabledOf_of_le (hfresh.within x hx).1)
      have hparted : ∀ x ∈ c.value.rules, x.rule.Parted := fun x hx =>
        hready.parted _ (hrules ▸ List.mem_map_of_mem hx)
      -- the schema is published as the only one of the change
      have hpublish {g' : Registry} {n : Nat} (hc : g'.current = g.current.withSchema c)
          (hr : r.Retains g'.resources) (hn : ∀ name, change.Renews name → pending.name = name) :
          change.Marks g (g', .done (.ok n)) := by
        refine .accepted hd (hretains.trans hr) ?_ ?_
        · rw [hc]
          exact ha.withSchema (Nat.le_trans hretains.length hr.length)
            (hfresh.mono (Nat.le_refl _) hr.length) hparted
        · intro name bs hrenews hb x hx
          obtain rfl := hn name hrenews
          rw [hc, ← hname] at hb
          obtain ⟨c', hc', rfl⟩ := Snapshot.rules?_eq_some.1 hb
          cases (SortedMap.find?_insert_self _ _ _).symm.trans hc'
          exact (congrFun hr.same _).trans (hclear x hx)
      cases hp with
      | reset he hb hp =>
        have hissues := hready.issues.snoc hfinish hready.parted
        have ha' : (g.owning r).current.Apart (g.owning r).resources.disabled.length :=
          ha.of_rules hretains.length fun _ _ hb => hb
        exact .of_owning hretains (marks_nextSchema ha' _ _ _ _ hissues _)
      | add hp =>
        simp only
        split
        · exact hpublish rfl (.of_disabled rfl) fun _ h => h
        · refine hpublish rfl ?_ fun _ h => h
          refine .of_disabled ?_
          exact congrArg (·.inventory.disabled) (face_closeContexts ((g.owning r).publish _) _)
      | reconcile hold hp =>
        refine hpublish rfl ?_ fun _ h => h
        refine .of_disabled ?_
        exact congrArg (·.disabled) ((Resources.inventory_closeEngineQuietly _ _).trans
          (Resources.inventory_closePools ((g.owning r).publish _).resources _))

end Registry

end ShardRegistry
