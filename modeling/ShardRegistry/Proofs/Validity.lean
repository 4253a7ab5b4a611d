import Mathlib.Data.List.TakeWhile
import ShardRegistry.Proofs.Coherence

/-! Valid configurations. Rules are built of a list of configurations exactly if each one is valid for the
backends, whatever the others are. A sharding rule then has one table rule for each name, which is found by
that name in any letter case, and names no other backends than its nodes and its default do. -/
namespace ShardRegistry

/-! ### Texts -/

namespace Text

theorem strip_eq_nil_iff {p : Char → Bool} {cs : List Char} :
    strip p cs = [] ↔ ∀ c ∈ cs, p c = true := by
  rw [strip, dropEnd, List.reverse_eq_nil_iff, List.dropWhile_eq_nil_iff]
  constructor
  · intro h
    refine List.dropWhile_eq_nil_iff.1 (List.eq_nil_iff_forall_not_mem.2 fun c hc => ?_)
    obtain ⟨d, ds, hdrop⟩ := List.exists_cons_of_ne_nil (List.ne_nil_of_mem hc)
    have hfalse := head?_dropWhile p cs d (by rw [hdrop]; rfl)
    rw [h d (by simp [hdrop])] at hfalse
    cases hfalse
  · intro h c hc
    exact h c ((List.dropWhile_suffix p).subset (List.mem_reverse.1 hc))

theorem trim_eq_empty_iff {s : String} : trim s = "" ↔ blank s = true := by
  rw [trim, String.ofList_eq_empty_iff, strip_eq_nil_iff, blank, List.all_eq_true]

theorem lowerCase_eq_empty_iff {s : String} : lowerCase s = "" ↔ s = "" := by
  rw [lowerCase, String.ofList_eq_empty_iff, ← String.toList_eq_nil_iff]
  cases s.toList with
  | nil => exact iff_of_true rfl rfl
  | cons c cs =>
    have hform : LowerCase.form [] c cs ≠ [] := by
      rw [LowerCase.form]
      split
      · split <;> exact List.cons_ne_nil _ _
      · split <;> exact List.cons_ne_nil _ _
    exact iff_of_false (List.append_ne_nil_of_left_ne_nil hform _) (List.cons_ne_nil c cs)

end Text

theorem normalTable_eq_empty_iff {name : String} : normalTable name = "" ↔ Text.trim name = "" :=
  Text.lowerCase_eq_empty_iff

/-! ### Checks in sequence -/

section
variable {ε α β : Type}

theorem exists_ok_ite {p : Prop} [Decidable p] {e : ε} {x : Except ε α} :
    (∃ a, (if p then .error e else x) = .ok a) ↔ ¬ p ∧ ∃ a, x = .ok a := by
  split <;> simp [*]

theorem exists_ok_bind {x : Except ε α} {f : α → Except ε β} :
    (∃ b, x >>= f = .ok b) ↔ ∃ a, x = .ok a ∧ ∃ b, f a = .ok b := by
  constructor
  · rintro ⟨b, h⟩
    obtain ⟨a, ha, hb⟩ := bind_eq_ok h
    exact ⟨a, ha, b, hb⟩
  · rintro ⟨a, rfl, b, hb⟩
    exact ⟨b, hb⟩

theorem exists_ok_map {x : Except ε α} {f : α → β} :
    (∃ b, x.map f = .ok b) ↔ ∃ a, x = .ok a := by
  cases x <;> simp [Except.map]

/-- A pass over a list succeeds, with results that have a property, exactly if it does so for each member. -/
theorem exists_ok_mapM_and {f : α → Except ε β} {P : β → Prop} {xs : List α} :
    (∃ ys, xs.mapM f = .ok ys ∧ ∀ y ∈ ys, P y) ↔ ∀ x ∈ xs, ∃ y, f x = .ok y ∧ P y := by
  induction xs with
  | nil => exact iff_of_true ⟨[], rfl, List.forall_mem_nil _⟩ (List.forall_mem_nil _)
  | cons x xs ih =>
    rw [List.mapM_cons, List.forall_mem_cons, ← ih]
    constructor
    · rintro ⟨zs, h, hP⟩
      obtain ⟨y, hy, h⟩ := bind_eq_ok h
      obtain ⟨ys, hys, h⟩ := bind_eq_ok h
      cases h
      rw [List.forall_mem_cons] at hP
      exact ⟨⟨y, hy, hP.1⟩, ys, hys, hP.2⟩
    · rintro ⟨⟨y, hy, hPy⟩, ys, hys, hP⟩
      refine ⟨y :: ys, ?_, List.forall_mem_cons.2 ⟨hPy, hP⟩⟩
      rw [hy, hys]
      rfl

theorem exists_ok_mapM {f : α → Except ε β} {xs : List α} :
    (∃ ys, xs.mapM f = .ok ys) ↔ ∀ x ∈ xs, ∃ y, f x = .ok y := by
  have hand : (∃ ys, xs.mapM f = .ok ys ∧ ∀ y ∈ ys, True) ↔ ∀ x ∈ xs, ∃ y, f x = .ok y ∧ True :=
    exists_ok_mapM_and
  simpa using hand

theorem error_bind {e : ε} {f : α → Except ε β} : (Except.error e >>= f) = .error e := rfl

end

theorem find?_unknown_eq_none_iff {names : List String} {α : Type} {f : α → String} {xs : List α} :
    (xs.find? fun x => !names.contains (f x)) = none ↔ ∀ x ∈ xs, f x ∈ names := by
  simp [List.find?_eq_none]

/-! ### Configurations -/

/-- A table configuration that makes a table rule: it has a name, and nodes that are all read and stand on
backends of the names. -/
structure TableConfiguration.Valid (names : List String) (c : TableConfiguration) : Prop where
  named : Text.trim c.logicTable ≠ ""
  nonempty : c.actualDataNodes ≠ []
  nodes : ∀ text ∈ c.actualDataNodes, ∃ n, DataNode.read text = some n ∧ n.dataSource ∈ names

structure ShardingConfiguration.Valid (names : List String) (c : ShardingConfiguration) : Prop where
  tables : ∀ t ∈ c.tables, t.Valid names
  /-- No two logic tables have the same name without blanks around it and in lower case. -/
  distinct : (c.tables.map fun t => Text.lowerCase (Text.trim t.logicTable)).Nodup
  default : ∀ name, c.defaultDataSource = some name → name ∈ names

structure ReadWriteConfiguration.Valid (names : List String) (c : ReadWriteConfiguration) : Prop where
  named : Text.trim c.name ≠ ""
  primary : c.primary ∈ names
  replicas : ∀ r ∈ c.replicas, r ∈ names
  apart : c.primary ∉ c.replicas

def RuleConfiguration.Valid (names : List String) : RuleConfiguration → Prop
  | .sharding c => c.Valid names
  | .readWrite c => c.Valid names

theorem readNode_eq_ok_iff {text : String} {n : DataNode} :
    readNode text = .ok n ↔ DataNode.read text = some n := by
  rw [readNode]
  cases DataNode.read text <;> simp

/-- A table rule is made exactly of a valid configuration whose name is new. -/
theorem TableRule.exists_ofConfiguration {names seen : List String} {c : TableConfiguration} :
    (∃ t, ofConfiguration names seen c = .ok t) ↔
      c.Valid names ∧ normalTable c.logicTable ∉ seen := by
  have hnodes : (∃ ns, c.actualDataNodes.mapM readNode = .ok ns ∧ ∀ n ∈ ns, n.dataSource ∈ names) ↔
      ∀ text ∈ c.actualDataNodes, ∃ n, readNode text = .ok n ∧ n.dataSource ∈ names := exists_ok_mapM_and
  simp only [readNode_eq_ok_iff] at hnodes
  simp only [ofConfiguration, throw, throwThe, MonadExceptOf.throw, error_bind, exists_ok_ite, exists_ok_bind]
  constructor
  · rintro ⟨hnamed, hnew, hne, ns, hns, t, hok⟩
    split at hok
    · cases hok
    · rename_i hnone
      have hknown := find?_unknown_eq_none_iff.1 (Option.eq_none_iff_forall_ne_some.2 hnone)
      exact ⟨⟨normalTable_eq_empty_iff.not.1 hnamed, by simpa using hne, hnodes.1 ⟨ns, hns, hknown⟩⟩,
        by simpa using hnew⟩
  · rintro ⟨hvalid, hnew⟩
    obtain ⟨ns, hns, hknown⟩ := hnodes.2 hvalid.nodes
    refine ⟨normalTable_eq_empty_iff.not.2 hvalid.named, by simpa using hnew, by simpa using hvalid.nonempty,
      ns, hns, ?_⟩
    rw [find?_unknown_eq_none_iff.2 hknown]
    exact ⟨_, rfl⟩

/-- Table rules are made exactly of valid configurations whose names are new and differ. -/
theorem ShardingRule.exists_tablesOf {names seen : List String} {cs : List TableConfiguration} :
    (∃ ts, tablesOf names seen cs = .ok ts) ↔ (∀ c ∈ cs, c.Valid names) ∧
      (cs.map fun c => normalTable c.logicTable).Nodup ∧ ∀ c ∈ cs, normalTable c.logicTable ∉ seen := by
  induction cs generalizing seen with
  | nil => exact iff_of_true ⟨[], rfl⟩ ⟨List.forall_mem_nil _, List.nodup_nil, List.forall_mem_nil _⟩
  | cons c cs ih =>
    have hstep : (∃ ts, tablesOf names seen (c :: cs) = .ok ts) ↔
        (∃ t, TableRule.ofConfiguration names seen c = .ok t) ∧
          ∃ ts, tablesOf names (normalTable c.logicTable :: seen) cs = .ok ts := by
      rw [tablesOf, exists_ok_bind, ← exists_and_right]
      refine exists_congr fun t => and_congr_right fun ht => ?_
      rw [(TableRule.ofConfiguration_ok ht).1.1, exists_ok_bind]
      exact exists_congr fun ts => and_iff_left ⟨_, rfl⟩
    rw [hstep, TableRule.exists_ofConfiguration, ih]
    simp only [List.mem_cons, forall_eq_or_imp, List.map_cons, List.nodup_cons, List.mem_map, not_or,
      not_exists, not_and]
    grind

theorem ShardingRule.exists_ofConfiguration {names : List String} {c : ShardingConfiguration} :
    (∃ r, ofConfiguration names c = .ok r) ↔ c.Valid names := by
  simp only [ofConfiguration, throw, throwThe, MonadExceptOf.throw, error_bind, exists_ok_bind]
  constructor
  · rintro ⟨ts, hts, r, hok⟩
    obtain ⟨htables, hdistinct, _⟩ := exists_tablesOf.1 ⟨ts, hts⟩
    refine ⟨htables, hdistinct, fun name hname => ?_⟩
    rw [hname] at hok
    dsimp only at hok
    split at hok
    · cases hok
    · rename_i hknown
      simpa using hknown
  · intro h
    obtain ⟨ts, hts⟩ := exists_tablesOf.2 ⟨h.tables, h.distinct, fun _ _ => List.not_mem_nil⟩
    refine ⟨ts, hts, ?_⟩
    cases hdefault : c.defaultDataSource with
    | none => exact ⟨_, rfl⟩
    | some name =>
      have hknown : (!names.contains name) = false := by simpa using h.default name hdefault
      exact ⟨_, if_neg (Bool.eq_false_iff.1 hknown)⟩

theorem ReadWriteRule.exists_ofConfiguration {names : List String} {c : ReadWriteConfiguration} :
    (∃ r, ofConfiguration names c = .ok r) ↔ c.Valid names := by
  have hblank : ¬ Text.blank c.name = true ↔ Text.trim c.name ≠ "" := Text.trim_eq_empty_iff.not.symm
  have hknown : ((c.primary :: c.replicas).find? fun n => !names.contains n) = none ↔
      ∀ n ∈ c.primary :: c.replicas, n ∈ names := find?_unknown_eq_none_iff
  rw [List.forall_mem_cons] at hknown
  simp only [ofConfiguration, throw, throwThe, MonadExceptOf.throw, error_bind, exists_ok_ite, hblank]
  constructor
  · rintro ⟨hnamed, r, hr⟩
    split at hr
    · cases hr
    · rename_i hnone
      obtain ⟨hprimary, hreplicas⟩ := hknown.1 (Option.eq_none_iff_forall_ne_some.2 hnone)
      refine ⟨hnamed, hprimary, hreplicas, fun hmem => ?_⟩
      rw [if_pos (by simpa using hmem)] at hr
      cases hr
  · intro h
    rw [hknown.2 ⟨h.primary, h.replicas⟩]
    refine ⟨h.named, _, if_neg ?_⟩
    simpa using h.apart

theorem Rule.exists_ofConfiguration {names : List String} {c : RuleConfiguration} :
    (∃ r, ofConfiguration names c = .ok r) ↔ c.Valid names := by
  cases c with
  | sharding c => exact exists_ok_map.trans ShardingRule.exists_ofConfiguration
  | readWrite c => exact exists_ok_map.trans ReadWriteRule.exists_ofConfiguration

theorem Rule.exists_build {names : List String} {cs : List RuleConfiguration} :
    (∃ rs, build names cs = .ok rs) ↔ ∀ c ∈ cs, c.Valid names := by
  simp only [build, exists_ok_mapM, exists_ofConfiguration]

/-! ### Rules of valid configurations -/

/-- A sharding rule has one table rule for each name, finds it by that name in any letter case, and names the
backends of its nodes and its default. -/
structure ShardingRule.Indexed (r : ShardingRule) : Prop where
  distinct : (r.tables.map (·.logicTable)).Nodup
  find : ∀ x t, r.findTable? x = some t ↔ t ∈ r.tables ∧ t.logicTable = Text.lowerCase x
  missing : ∀ x, r.findTable? x = none ↔ ∀ t ∈ r.tables, t.logicTable ≠ Text.lowerCase x
  names : ∀ b, b ∈ r.dataSourceNames.toList ↔
    (∃ t ∈ r.tables, ∃ n ∈ t.dataNodes, n.dataSource = b) ∨ r.defaultDataSource = some b

namespace ShardingRule
variable {r : ShardingRule}

theorem indexed (h : (r.tables.map (·.logicTable)).Nodup) : r.Indexed := by
  refine ⟨h, fun x t => find?_eq_some_iff_of_nodup h, fun x => ?_, fun b => ?_⟩
  · rw [findTable?, List.find?_eq_none]
    simp
  · rw [dataSourceNames, SortedSet.toList, SortedSet.ofList, SortedMap.mem_keys_ofList]
    simp

theorem logicTables_of_realizes {c : ShardingConfiguration}
    (h : (Rule.sharding r).Realizes (.sharding c)) :
    r.tables.map (·.logicTable) = c.tables.map fun t => normalTable t.logicTable := by
  have htables : List.Forall₂ (fun t c => t.logicTable = normalTable c.logicTable) r.tables c.tables :=
    h.1.imp fun _ _ ht => ht.1
  rwa [← List.forall₂_eq_eq_eq, List.forall₂_map_left_iff, List.forall₂_map_right_iff]

theorem distinct_of_ofConfiguration {names : List String} {c : ShardingConfiguration}
    (h : ofConfiguration names c = .ok r) : (r.tables.map (·.logicTable)).Nodup := by
  rw [logicTables_of_realizes (ofConfiguration_ok h).1]
  exact (exists_ofConfiguration.1 ⟨r, h⟩).distinct

end ShardingRule

namespace Rule

/-- The logic tables of a rule that was made have different names. -/
theorem distinct_of_ofConfiguration {names : List String} {c : RuleConfiguration} {r : ShardingRule}
    (h : ofConfiguration names c = .ok (.sharding r)) : (r.tables.map (·.logicTable)).Nodup := by
  cases c with
  | sharding c =>
    obtain ⟨s, hs, h⟩ := bind_eq_ok (f := fun x => .ok (Rule.sharding x)) h
    cases h
    exact ShardingRule.distinct_of_ofConfiguration hs
  | readWrite c =>
    obtain ⟨s, _, h⟩ := bind_eq_ok (f := fun x => .ok (Rule.readWrite x)) h
    cases h

/-- Rules are built exactly of valid configurations: one of each, in their order and of the same kind and
contents. Each sharding rule among them is found by its names. -/
theorem build_exact (names : List String) (cs : List RuleConfiguration) :
    ((∃ rs, build names cs = .ok rs) ↔ ∀ c ∈ cs, c.Valid names) ∧
      ∀ rs, build names cs = .ok rs → List.Forall₂ Realizes rs cs ∧
        (∀ r ∈ rs, ∀ b ∈ r.backends, b ∈ names) ∧ ∀ r, .sharding r ∈ rs → r.Indexed := by
  refine ⟨exists_build, fun rs h => ?_⟩
  obtain ⟨hrealize, hnames⟩ := build_ok h
  refine ⟨hrealize, hnames, fun r hr => ?_⟩
  obtain ⟨c, _, hc⟩ := exists_configuration h hr
  exact ShardingRule.indexed (distinct_of_ofConfiguration hc)

/-- Rules for two backends, with blanks around a name and a node. -/
def spaced : List RuleConfiguration :=
  [.sharding ⟨[⟨" T", ["b0.t0 ", "b1.t1"]⟩], some "b0"⟩, .readWrite ⟨"r", "b0", ["b1"]⟩]

/-- Names and nodes are taken without the blanks around them. A name that differs from another in its letter
case alone makes a configuration invalid. -/
theorem build_exact_spaced :
    (∀ c ∈ spaced, c.Valid ["b0", "b1"]) ∧
      (ShardingRule.mk [⟨"t", [⟨"b0", "t0"⟩, ⟨"b1", "t1"⟩]⟩] (some "b0")).Indexed ∧
      ¬ (RuleConfiguration.sharding ⟨[⟨"T", ["b0.t0"]⟩, ⟨"t", ["b0.t1"]⟩], none⟩).Valid ["b0"] := by
  have hbuilt : build ["b0", "b1"] spaced =
      .ok [.sharding ⟨[⟨"t", [⟨"b0", "t0"⟩, ⟨"b1", "t1"⟩]⟩], some "b0"⟩,
        .readWrite ⟨"r", "b0", ["b1"]⟩] := by decide +kernel
  have hrefused : build ["b0"] [.sharding ⟨[⟨"T", ["b0.t0"]⟩, ⟨"t", ["b0.t1"]⟩], none⟩] =
      .error (.duplicateTable "t") := by decide +kernel
  obtain ⟨hvalid, hrules⟩ := build_exact ["b0", "b1"] spaced
  refine ⟨hvalid.1 ⟨_, hbuilt⟩, (hrules _ hbuilt).2.2 _ List.mem_cons_self, fun h => ?_⟩
  obtain ⟨rs, hrs⟩ := (build_exact ["b0"] _).1.2 (List.forall_mem_singleton.2 h)
  cases hrefused.symm.trans hrs

end Rule

end ShardRegistry
