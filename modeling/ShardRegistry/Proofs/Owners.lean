import ShardRegistry.Proofs.Decorating
import ShardRegistry.Proofs.Validity

/-! Owners of logic tables. A configuration claims each name once, but two configurations of a schema may
claim the same one. Decoration keeps one table of all that are found for a name, so it keeps them all exactly
if the table rules that find one have different names. -/
namespace ShardRegistry

namespace Decoration

/-- The table that a list of nodes finds: that of its first node which is loaded and not named before. -/
def firstTable? (loaded : SortedMap Tables) (before nodes : List DataNode) : Option Table :=
  nodes.findSome? fun n => if n ∈ before then none else tableAt loaded n

/-- The table rules that find a table, each with the one it finds, when nodes are named before them. -/
def finders (loaded : SortedMap Tables) (before : List DataNode) :
    List TableRule → List (TableRule × Table)
  | [] => []
  | r :: rs => ((firstTable? loaded before r.dataNodes).map (r, ·)).toList ++
      finders loaded (before ++ r.dataNodes) rs

/-- What table rules find, by the names of their logic tables. -/
def finds (loaded : SortedMap Tables) (rs : List TableRule) : List (String × Table) :=
  (finders loaded [] rs).map fun x => (x.1.logicTable, x.2)

theorem finders_sublist (loaded : SortedMap Tables) (before : List DataNode) (rs : List TableRule) :
    ((finders loaded before rs).map (·.1)).Sublist rs := by
  induction rs generalizing before with
  | nil => exact List.Sublist.slnil
  | cons r rs ih =>
    rw [finders]
    cases firstTable? loaded before r.dataNodes with
    | none => exact (ih _).cons r
    | some table => exact (ih _).cons_cons r

theorem finds_names_sublist (loaded : SortedMap Tables) (rs : List TableRule) :
    ((finds loaded rs).map (·.1)).Sublist (rs.map (·.logicTable)) := by
  simpa [finds, Function.comp_def] using (finders_sublist loaded [] rs).map (·.logicTable)

/-- A list of nodes takes its tables away. With no table before it, it keeps that of the first node whose
table is there. -/
theorem nodes_found {check : Bool} {logicTable : String} {first x : Option (DataNode × Table)}
    {loaded rest rest' : SortedMap Tables} {before vs : List DataNode} (h : Leaves loaded before rest)
    (hok : nodes check logicTable first rest vs = .ok (x, rest')) :
    Leaves loaded (before ++ vs) rest' ∧
      x.map (·.2) = (first.map (·.2)).or (vs.findSome? (tableAt rest)) := by
  induction vs generalizing first rest before with
  | nil =>
    cases hok
    refine ⟨by rwa [List.append_nil], ?_⟩
    rw [List.findSome?_nil, Option.or_none]
  | cons node vs ih =>
    rw [nodes] at hok
    rw [List.append_cons before node vs, List.findSome?_cons]
    cases htake : take rest node with
    | none =>
      rw [htake] at hok
      obtain ⟨hleaves, hx⟩ := ih (h.take_none htake).1 hok
      exact ⟨hleaves, by rw [hx, take_eq_none_iff.1 htake]⟩
    | some taken =>
      obtain ⟨table, rest''⟩ := taken
      rw [htake] at hok
      have hleaves := (h.take_some htake).1
      rw [(take_some htake).1]
      cases first with
      | none =>
        obtain ⟨hrest, hx⟩ := ih hleaves hok
        exact ⟨hrest, hx⟩
      | some y =>
        dsimp only at hok
        split at hok
        · cases hok
        · obtain ⟨hrest, hx⟩ := ih hleaves hok
          exact ⟨hrest, hx⟩

/-- Table rules write what they find, in their order. -/
theorem rules_found {check : Bool} {configured configured' : Tables}
    {loaded rest rest' : SortedMap Tables} {before : List DataNode} {rs : List TableRule}
    (h : Leaves loaded before rest)
    (hok : rules check configured rest rs = .ok (configured', rest')) :
    configured' = (finders loaded before rs).foldl (fun m x => m.insert x.1.logicTable x.2) configured := by
  induction rs generalizing configured rest before with
  | nil =>
    cases hok
    rfl
  | cons r rs ih =>
    rw [rules] at hok
    obtain ⟨⟨first, rest''⟩, hnodes, hok⟩ := bind_eq_ok hok
    obtain ⟨hleaves, hfirst⟩ := nodes_found h hnodes
    have hfound : firstTable? loaded before r.dataNodes = first.map (·.2) := by
      rw [hfirst, firstTable?, Option.map_none, Option.none_or]
      exact congrArg (r.dataNodes.findSome? ·) (funext fun n => (h n).symm)
    rw [finders, hfound]
    cases first with
    | none => exact ih hleaves hok
    | some x => exact ih hleaves hok

end Decoration

open Decoration

/-- The logic tables are what the table rules find, of which the last one for a name stays. -/
theorem decorate_configured {loaded : SortedMap Tables} {rs : List Rule} {check : Bool}
    {tables : SchemaTables} (h : decorate loaded rs check = .ok tables) :
    tables.configured = .ofList (finds loaded (Rule.allTableRules rs)) := by
  rw [decorate] at h
  obtain ⟨⟨configured, rest⟩, hrules, h⟩ := bind_eq_ok h
  cases h
  have hstart : Leaves loaded [] loaded := fun n => (if_neg List.not_mem_nil).symm
  rw [SortedMap.ofList, finds, List.foldl_map]
  exact rules_found hstart hrules

/-- A list makes a map of its own entries exactly if their keys differ. -/
theorem SortedMap.entries_ofList_perm_iff {α : Type} {es : List (String × α)} :
    (ofList es).entries.Perm es ↔ (es.map (·.1)).Nodup :=
  ⟨fun h => (h.map (·.1)).nodup_iff.1 (nodup_keys (ofList es)), entries_ofList_perm⟩

/-! ### Claims -/

/-- The names of the logic tables that a configuration claims. -/
def RuleConfiguration.logicTables : RuleConfiguration → List String
  | .sharding c => c.tables.map fun t => normalTable t.logicTable
  | .readWrite _ => []

namespace Rule

theorem logicTables_of_realizes {r : Rule} {c : RuleConfiguration} (h : r.Realizes c) :
    (r.tableRules?.getD []).map (·.logicTable) = c.logicTables := by
  cases r with
  | sharding r =>
    cases c with
    | sharding c => exact ShardingRule.logicTables_of_realizes h
    | readWrite c => exact h.elim
  | readWrite r =>
    cases c with
    | sharding c => exact h.elim
    | readWrite c => rfl

theorem logicTables_of_build {names : List String} {cs : List RuleConfiguration} {rs : List Rule}
    (h : build names cs = .ok rs) :
    (allTableRules rs).map (·.logicTable) = cs.flatMap (·.logicTables) := by
  have hrealize := (build_ok h).1
  clear h
  rw [allTableRules, List.map_flatMap]
  induction hrealize with
  | nil => rfl
  | cons hr _ ih => rw [List.flatMap_cons, List.flatMap_cons, logicTables_of_realizes hr, ih]

/-- A configuration of which a rule is built claims each name once. -/
theorem distinct_of_build {names : List String} {cs : List RuleConfiguration} {rs : List Rule}
    (h : build names cs = .ok rs) : ∀ c ∈ cs, c.logicTables.Nodup := by
  intro c hc
  have hvalid := exists_build.1 ⟨rs, h⟩ c hc
  cases c with
  | sharding c => exact hvalid.distinct
  | readWrite c => exact List.nodup_nil

/-- The table rules of a schema have different names exactly if no two configurations claim the same one. -/
theorem nodup_logicTables_iff {names : List String} {cs : List RuleConfiguration} {rs : List Rule}
    (h : build names cs = .ok rs) : ((allTableRules rs).map (·.logicTable)).Nodup ↔
      cs.Pairwise fun c c' => c.logicTables.Disjoint c'.logicTables := by
  rw [logicTables_of_build h, List.nodup_flatMap]
  exact and_iff_right (distinct_of_build h)

/-- Each configuration of built rules claims a name once, and a name is claimed twice exactly if two of them
do so. Decoration keeps of what the table rules find the last table of each name. That is one entry for each
table rule which finds a table exactly if these have different names, as they do if no name is claimed
twice. -/
theorem owners_exact {names : List String} {cs : List RuleConfiguration} {rs : List Rule}
    (h : build names cs = .ok rs) :
    (∀ c ∈ cs, c.logicTables.Nodup) ∧
      (((allTableRules rs).map (·.logicTable)).Nodup ↔
        cs.Pairwise fun c c' => c.logicTables.Disjoint c'.logicTables) ∧
      ∀ loaded check tables, decorate loaded rs check = .ok tables →
        tables.configured = .ofList (finds loaded (allTableRules rs)) ∧
        (tables.configured.entries.Perm (finds loaded (allTableRules rs)) ↔
          ((finds loaded (allTableRules rs)).map (·.1)).Nodup) ∧
        ((cs.Pairwise fun c c' => c.logicTables.Disjoint c'.logicTables) →
          tables.configured.entries.Perm (finds loaded (allTableRules rs))) := by
  refine ⟨distinct_of_build h, nodup_logicTables_iff h, fun loaded check tables hok => ?_⟩
  have hconfigured := decorate_configured hok
  refine ⟨hconfigured, by rw [hconfigured, SortedMap.entries_ofList_perm_iff], fun hapart => ?_⟩
  rw [hconfigured]
  exact SortedMap.entries_ofList_perm
    (((nodup_logicTables_iff h).2 hapart).sublist (finds_names_sublist loaded _))

/-- Two configurations that claim one logic table, with nodes on two backends, and the rules built of them. -/
def rivals : List RuleConfiguration :=
  [.sharding ⟨[⟨"t", ["b0.x"]⟩], none⟩, .sharding ⟨[⟨"T", ["b1.y"]⟩], none⟩]

def rivalRules : List Rule :=
  [.sharding ⟨[⟨"t", [⟨"b0", "x"⟩]⟩], none⟩, .sharding ⟨[⟨"t", [⟨"b1", "y"⟩]⟩], none⟩]

/-- The rules of rivals each find a table, and that of the first is lost without an error. -/
theorem owners_exact_rivals :
    build ["b0", "b1"] rivals = .ok rivalRules ∧
      ¬ (rivals.Pairwise fun c c' => c.logicTables.Disjoint c'.logicTables) ∧
      ∃ loaded tables, decorate loaded rivalRules true = .ok tables ∧
        finds loaded (allTableRules rivalRules) =
          [("t", ⟨[⟨"a", "int", false⟩]⟩), ("t", ⟨[⟨"b", "int", false⟩]⟩)] ∧
        tables.configured.entries = [("t", ⟨[⟨"b", "int", false⟩]⟩)] ∧ tables.unconfigured = .empty := by
  have hbuilt : build ["b0", "b1"] rivals = .ok rivalRules := by decide +kernel
  obtain ⟨_, hapart, hdecorate⟩ := owners_exact hbuilt
  refine ⟨hbuilt, hapart.not.1 (by decide), .ofList [("b0", .ofList [("x", ⟨[⟨"a", "int", false⟩]⟩)]),
    ("b1", .ofList [("y", ⟨[⟨"b", "int", false⟩]⟩)])],
    ⟨.ofList [("t", ⟨[⟨"b", "int", false⟩]⟩)], .empty⟩, ?_⟩
  have hok : decorate (.ofList [("b0", .ofList [("x", ⟨[⟨"a", "int", false⟩]⟩)]),
      ("b1", .ofList [("y", ⟨[⟨"b", "int", false⟩]⟩)])]) rivalRules true =
      .ok ⟨.ofList [("t", ⟨[⟨"b", "int", false⟩]⟩)], .empty⟩ := by decide +kernel
  refine ⟨hok, by decide +kernel, ?_, rfl⟩
  rw [(hdecorate _ _ _ hok).1]
  decide +kernel

end Rule

end ShardRegistry
