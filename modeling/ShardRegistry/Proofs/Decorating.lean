import ShardRegistry.MetaData.Decoration
import ShardRegistry.Proofs.Coherence
import ShardRegistry.Proofs.Maps

/-! Decoration as a fold. Of the nodes that table rules name, those are found whose table is loaded and that
nothing names before; what they are decides the logic tables, the tables left to the backends, and whether a
check of the columns fails. -/
namespace ShardRegistry

namespace SortedMap
variable {α : Type}

theorem isEmpty_eq_false_iff {m : SortedMap α} : m.isEmpty = false ↔ ∃ k v, m.find? k = some v := by
  simp only [← mem_entries_iff, isEmpty]
  cases m.entries with
  | nil => simp
  | cons e es => exact iff_of_true rfl ⟨e.1, e.2, List.mem_cons_self⟩

end SortedMap

namespace Decoration

/-- The table of a node, among the tables by backend. -/
def tableAt (loaded : SortedMap Tables) (node : DataNode) : Option Table :=
  (loaded.find? node.dataSource).bind (·.find? node.table)

/-! ### One node -/

theorem take_eq_none_iff {loaded : SortedMap Tables} {node : DataNode} :
    take loaded node = none ↔ tableAt loaded node = none := by
  cases hsource : loaded.find? node.dataSource with
  | none => simp [take, tableAt, hsource]
  | some tables => cases htable : tables.find? node.table <;> simp [take, tableAt, hsource, htable]

theorem take_some {loaded loaded' : SortedMap Tables} {node : DataNode} {table : Table}
    (h : take loaded node = some (table, loaded')) : tableAt loaded node = some table ∧
      ∀ n, tableAt loaded' n = if n = node then none else tableAt loaded n := by
  simp only [take, Option.bind_eq_bind, Option.bind_eq_some_iff, Option.pure_def, Option.some.injEq,
    Prod.mk.injEq] at h
  obtain ⟨tables, htables, t, ht, rfl, rfl⟩ := h
  refine ⟨by rw [tableAt, htables, Option.bind_some, ht], fun n => ?_⟩
  by_cases hsource : node.dataSource = n.dataSource
  · rw [tableAt, tableAt, ← hsource, SortedMap.find?_insert_self, htables, Option.bind_some,
      Option.bind_some]
    by_cases htable : n.table = node.table
    · have hn : n = node := by
        cases n
        cases node
        simp_all
      rw [htable, SortedMap.find?_erase_self, if_pos hn]
    · rw [SortedMap.find?_erase_of_ne _ htable, if_neg (mt (congrArg DataNode.table) htable)]
  · rw [tableAt, tableAt, SortedMap.find?_insert_of_ne _ _ hsource,
      if_neg fun heq => hsource (congrArg DataNode.dataSource heq).symm]

/-- The tables that are left of the loaded ones when the nodes are taken away. -/
def Leaves (loaded : SortedMap Tables) (named : List DataNode) (rest : SortedMap Tables) : Prop :=
  ∀ n, tableAt rest n = if n ∈ named then none else tableAt loaded n

section
variable {loaded rest : SortedMap Tables} {named : List DataNode} (h : Leaves loaded named rest)
include h

theorem Leaves.take_none {node : DataNode} (hnone : take rest node = none) :
    Leaves loaded (named ++ [node]) rest ∧ (node ∉ named → tableAt loaded node = none) := by
  have hat := take_eq_none_iff.1 hnone
  have hnode := h node
  rw [hat] at hnode
  refine ⟨fun n => ?_, fun hnot => by rw [hnode, if_neg hnot]⟩
  by_cases hn : n = node
  · rw [hn, hat, if_pos (List.mem_append_right _ List.mem_cons_self)]
  · simp [h n, hn]

theorem Leaves.take_some {node : DataNode} {table : Table} {rest' : SortedMap Tables}
    (hsome : take rest node = some (table, rest')) : Leaves loaded (named ++ [node]) rest' ∧
      node ∉ named ∧ tableAt loaded node = some table := by
  obtain ⟨hat, hrest'⟩ := Decoration.take_some hsome
  have hnode := h node
  rw [hat] at hnode
  have hnot : node ∉ named := fun hmem => by simp [hmem] at hnode
  refine ⟨fun n => ?_, hnot, by rw [hnode, if_neg hnot]⟩
  rw [hrest', h n]
  by_cases hn : n = node <;> simp [hn]

end

/-! ### The nodes of a table rule -/

/-- The node `n`, which stands behind the nodes `ns` in a list of nodes, is found: its table is loaded and it
is named neither by one of these nor before the list. -/
structure Found (loaded : SortedMap Tables) (named nodes ns : List DataNode) (n : DataNode)
    (table : Table) : Prop where
  stands : ns ++ [n] <+: nodes
  isLoaded : tableAt loaded n = some table
  newInList : n ∉ ns
  new : n ∉ named

/-- The first node of a list that is found. -/
def FirstFound (loaded : SortedMap Tables) (named nodes : List DataNode) (n : DataNode)
    (table : Table) : Prop :=
  ∃ ns, Found loaded named nodes ns n table ∧
    ∀ ns' n' table', Found loaded named nodes ns' n' table' → ns <+: ns'

/-- No node of a list is found. -/
def NoneFound (loaded : SortedMap Tables) (named nodes : List DataNode) : Prop :=
  ∀ ns n table, ¬ Found loaded named nodes ns n table

/-- Two nodes of a list are found whose tables have other columns. -/
def Differ (loaded : SortedMap Tables) (named nodes : List DataNode) : Prop :=
  ∃ ns n table ns' n' table', Found loaded named nodes ns n table ∧
    Found loaded named nodes ns' n' table' ∧ table.columnNames ≠ table'.columnNames

section
variable {loaded : SortedMap Tables} {named nodes ns : List DataNode} {node n : DataNode}
  {table : Table}

theorem Found.mono {nodes' : List DataNode} (h : Found loaded named nodes ns n table)
    (hp : nodes <+: nodes') : Found loaded named nodes' ns n table :=
  ⟨h.stands.trans hp, h.isLoaded, h.newInList, h.new⟩

/-- Behind the other nodes of a list, a node is found if nothing names it before. -/
theorem found_concat (hnew : node ∉ named ++ nodes) (hloaded : tableAt loaded node = some table) :
    Found loaded named (nodes ++ [node]) nodes node table :=
  ⟨List.prefix_rfl, hloaded, fun h => hnew (List.mem_append_right _ h),
    fun h => hnew (List.mem_append_left _ h)⟩

theorem Found.of_concat (h : Found loaded named (nodes ++ [node]) ns n table) :
    Found loaded named nodes ns n table ∨ ns = nodes ∧ n = node := by
  rcases List.prefix_concat_iff.1 h.stands with heq | hp
  · obtain ⟨hns, hn⟩ := List.append_inj' heq rfl
    exact .inr ⟨hns, by simpa using hn⟩
  · exact .inl ⟨hp, h.isLoaded, h.newInList, h.new⟩

/-- A node that is not found leaves what is found as it is. -/
theorem found_concat_iff (h : node ∉ named ++ nodes → tableAt loaded node = none) :
    Found loaded named (nodes ++ [node]) ns n table ↔ Found loaded named nodes ns n table := by
  refine ⟨fun hfound => hfound.of_concat.resolve_right ?_, fun hfound => hfound.mono ⟨_, rfl⟩⟩
  rintro ⟨rfl, rfl⟩
  have hnone := h fun hmem => (List.mem_append.1 hmem).elim hfound.new hfound.newInList
  exact absurd (hnone.symm.trans hfound.isLoaded) nofun

/-- More nodes behind a list do not change which is found first. -/
theorem FirstFound.mono {nodes' : List DataNode} (h : FirstFound loaded named nodes n table)
    (hp : nodes <+: nodes') : FirstFound loaded named nodes' n table := by
  obtain ⟨ns, hfound, hfirst⟩ := h
  refine ⟨ns, hfound.mono hp, fun ns' n' table' hfound' => ?_⟩
  have hns : ns <+: nodes' := (List.prefix_append ns [n]).trans (hfound.stands.trans hp)
  by_cases hlength : (ns' ++ [n']).length ≤ nodes.length
  · have hstands := List.prefix_of_prefix_length_le hfound'.stands hp hlength
    exact hfirst _ _ _ ⟨hstands, hfound'.isLoaded, hfound'.newInList, hfound'.new⟩
  · have hns' : ns' <+: nodes' := (List.prefix_append ns' [n']).trans hfound'.stands
    have hle := ((List.prefix_append ns [n]).trans hfound.stands).length_le
    rw [List.length_append, List.length_singleton] at hlength
    exact List.prefix_of_prefix_length_le hns hns' (by omega)

theorem NoneFound.concat (h : NoneFound loaded named nodes) (hnew : node ∉ named ++ nodes)
    (hloaded : tableAt loaded node = some table) :
    FirstFound loaded named (nodes ++ [node]) node table := by
  refine ⟨nodes, found_concat hnew hloaded, fun ns' n' table' hfound' => ?_⟩
  rcases hfound'.of_concat with hfound' | ⟨rfl, _⟩
  · exact absurd hfound' (h _ _ _)
  · exact List.prefix_rfl

theorem FirstFound.unique {n' : DataNode} {table' : Table} (h : FirstFound loaded named nodes n table)
    (h' : FirstFound loaded named nodes n' table') : table = table' := by
  obtain ⟨ns, hfound, hfirst⟩ := h
  obtain ⟨ns', hfound', hfirst'⟩ := h'
  obtain rfl : ns = ns' := by
    refine (hfirst _ _ _ hfound').eq_of_length (Nat.le_antisymm ?_ ?_)
    · exact (hfirst _ _ _ hfound').length_le
    · exact (hfirst' _ _ _ hfound).length_le
  have hstands := List.prefix_of_prefix_length_le hfound.stands hfound'.stands (by simp)
  obtain rfl : n = n' := by simpa using hstands.eq_of_length (by simp)
  exact Option.some.inj (hfound.isLoaded.symm.trans hfound'.isLoaded)

theorem Found.table_of_concat {t : Table} (h : Found loaded named (nodes ++ [node]) ns n t)
    (hloaded : tableAt loaded node = some table) :
    Found loaded named nodes ns n t ∨ t = table := by
  refine h.of_concat.imp_right ?_
  rintro ⟨_, rfl⟩
  exact Option.some.inj (h.isLoaded.symm.trans hloaded)

/-- Tables with the columns of the first one do not differ. -/
theorem FirstFound.not_differ_concat {x : DataNode × Table}
    (h : FirstFound loaded named nodes x.1 x.2) (hsame : ¬ Differ loaded named nodes)
    (hloaded : tableAt loaded node = some table) (hcolumns : x.2.columnNames = table.columnNames) :
    ¬ Differ loaded named (nodes ++ [node]) := by
  obtain ⟨ns₀, hfound₀, _⟩ := h
  have hall : ∀ ns n t, Found loaded named (nodes ++ [node]) ns n t →
      t.columnNames = x.2.columnNames := by
    intro ns n t hfound
    rcases hfound.table_of_concat hloaded with hfound | rfl
    · by_contra hne
      exact hsame ⟨_, _, _, _, _, _, hfound, hfound₀, hne⟩
    · exact hcolumns.symm
  rintro ⟨_, _, _, _, _, _, hfound, hfound', hne⟩
  exact hne ((hall _ _ _ hfound).trans (hall _ _ _ hfound').symm)

theorem NoneFound.not_differ_concat (h : NoneFound loaded named nodes)
    (hloaded : tableAt loaded node = some table) : ¬ Differ loaded named (nodes ++ [node]) := by
  have hall : ∀ ns n t, Found loaded named (nodes ++ [node]) ns n t → t = table :=
    fun ns n t hfound => (hfound.table_of_concat hloaded).resolve_left (h _ _ _)
  rintro ⟨_, _, _, _, _, _, hfound, hfound', hne⟩
  exact hne (by rw [hall _ _ _ hfound, hall _ _ _ hfound'])

end

/-- What the search of a list of nodes has to say of the nodes before it: the first one found, and, with
`check`, that no tables differ. -/
structure Searched (check : Bool) (loaded : SortedMap Tables) (named nodes : List DataNode)
    (first : Option (DataNode × Table)) (rest : SortedMap Tables) : Prop where
  leaves : Leaves loaded (named ++ nodes) rest
  none : first = none → NoneFound loaded named nodes
  some : ∀ x, first = some x → FirstFound loaded named nodes x.1 x.2
  same : check = true → ¬ Differ loaded named nodes

/-- A node is found whose table has other columns than that of the first one. -/
def Mismatch (loaded : SortedMap Tables) (named nodes : List DataNode) (first node : DataNode) : Prop :=
  ∃ expected ns table, FirstFound loaded named nodes first expected ∧
    Found loaded named nodes ns node table ∧ expected.columnNames ≠ table.columnNames

/-- The search of a list of nodes fails at a mismatch. -/
theorem nodes_cases {check : Bool} {loaded rest : SortedMap Tables} {named us : List DataNode}
    {first : Option (DataNode × Table)} (logicTable : String) (vs : List DataNode)
    (h : Searched check loaded named us first rest) :
    (∃ first' rest', nodes check logicTable first rest vs = .ok (first', rest') ∧
      Searched check loaded named (us ++ vs) first' rest') ∨
    (check = true ∧ ∃ n n', nodes check logicTable first rest vs =
      .error (.structureDiffers logicTable n.text n'.text) ∧ Mismatch loaded named (us ++ vs) n n') := by
  induction vs generalizing us first rest with
  | nil => exact .inl ⟨first, rest, rfl, by rwa [List.append_nil]⟩
  | cons node vs ih =>
    rw [List.append_cons us node vs]
    cases htake : take rest node with
    | none =>
      obtain ⟨hleaves, hnot⟩ := h.leaves.take_none htake
      have hsame {ns n table} : Found loaded named (us ++ [node]) ns n table ↔
          Found loaded named us ns n table := found_concat_iff hnot
      simp only [nodes, htake]
      refine ih ⟨by rwa [List.append_assoc] at hleaves, fun hnone ns n table hfound => ?_,
        fun x hx => (h.some x hx).mono ⟨_, rfl⟩, fun hcheck hdiffer => ?_⟩
      · exact h.none hnone _ _ _ (hsame.1 hfound)
      · simp only [Differ, hsame] at hdiffer
        exact h.same hcheck hdiffer
    | some x =>
      obtain ⟨table, rest'⟩ := x
      obtain ⟨hleaves, hnew, hloaded⟩ := h.leaves.take_some htake
      rw [List.append_assoc] at hleaves
      simp only [nodes, htake]
      cases first with
      | none =>
        refine ih ⟨hleaves, nofun, ?_, fun _ => (h.none rfl).not_differ_concat hloaded⟩
        rintro x ⟨⟩
        exact (h.none rfl).concat hnew hloaded
      | some x =>
        have hfirst := h.some x rfl
        dsimp only
        split
        · rename_i hdiffers
          rw [Bool.and_eq_true, bne_iff_ne] at hdiffers
          refine .inr ⟨hdiffers.1, x.1, node, rfl, x.2, us, table, ?_, ?_, hdiffers.2⟩
          · rw [List.append_assoc]
            exact hfirst.mono ⟨_, rfl⟩
          · exact (found_concat hnew hloaded).mono ⟨_, rfl⟩
        · rename_i hdiffers
          refine ih ⟨hleaves, nofun, ?_, fun hcheck => ?_⟩
          · rintro y ⟨⟩
            exact hfirst.mono ⟨_, rfl⟩
          · refine hfirst.not_differ_concat (h.same hcheck) hloaded ?_
            simpa [hcheck] using hdiffers

/-! ### Table rules -/

/-- The nodes that table rules name. -/
def named (rs : List TableRule) : List DataNode := rs.flatMap (·.dataNodes)

/-- The table that is made of a logic table: that of the first node found of the last table rule for it that
has one. -/
def Stands (loaded : SortedMap Tables) (rs : List TableRule) (logicTable : String) (table : Table) :
    Prop :=
  ∃ earlier r, earlier ++ [r] <+: rs ∧ r.logicTable = logicTable ∧
    (∃ n, FirstFound loaded (named earlier) r.dataNodes n table) ∧
    ∀ earlier' r', earlier' ++ [r'] <+: rs → earlier.length < earlier'.length →
      r'.logicTable = logicTable → NoneFound loaded (named earlier') r'.dataNodes

theorem stands_concat_iff {loaded : SortedMap Tables} {rs : List TableRule} {r : TableRule}
    {logicTable : String} {table : Table} : Stands loaded (rs ++ [r]) logicTable table ↔
      (r.logicTable = logicTable ∧ ∃ n, FirstFound loaded (named rs) r.dataNodes n table) ∨
      (Stands loaded rs logicTable table ∧
        (r.logicTable = logicTable → NoneFound loaded (named rs) r.dataNodes)) := by
  constructor
  · rintro ⟨earlier, r', hp, hl, hfound, hlast⟩
    rcases List.prefix_concat_iff.1 hp with heq | hp
    · obtain ⟨rfl, hr⟩ := List.append_inj' heq rfl
      obtain rfl : r' = r := by simpa using hr
      exact .inl ⟨hl, hfound⟩
    · have hlength := hp.length_le
      rw [List.length_append, List.length_singleton] at hlength
      refine .inr ⟨⟨earlier, r', hp, hl, hfound, fun earlier' r'' hp' => ?_⟩, ?_⟩
      · exact hlast earlier' r'' (hp'.trans ⟨_, rfl⟩)
      · exact hlast rs r List.prefix_rfl hlength
  · rintro (⟨hl, hfound⟩ | ⟨⟨earlier, r', hp, hl, hfound, hlast⟩, hnone⟩)
    · refine ⟨rs, r, List.prefix_rfl, hl, hfound, fun earlier' r' hp' hlt => ?_⟩
      have hlength := hp'.length_le
      simp only [List.length_append, List.length_singleton] at hlength
      omega
    · refine ⟨earlier, r', hp.trans ⟨_, rfl⟩, hl, hfound, fun earlier' r'' hp' hlt hl' => ?_⟩
      rcases List.prefix_concat_iff.1 hp' with heq | hp'
      · obtain ⟨rfl, hr⟩ := List.append_inj' heq rfl
        obtain rfl : r'' = r := by simpa using hr
        exact hnone hl'
      · exact hlast earlier' r'' hp' hlt hl'

/-- What has been made of the loaded tables behind table rules. -/
structure Decorated (check : Bool) (loaded : SortedMap Tables) (rs : List TableRule)
    (configured : Tables) (rest : SortedMap Tables) : Prop where
  leaves : Leaves loaded (named rs) rest
  configured_iff : ∀ l table, configured.find? l = some table ↔ Stands loaded rs l table
  same : check = true → ∀ earlier r, earlier ++ [r] <+: rs →
    ¬ Differ loaded (named earlier) r.dataNodes

theorem decorated_nil (check : Bool) (loaded : SortedMap Tables) :
    Decorated check loaded [] .empty loaded := by
  refine ⟨fun n => ?_, fun l table => ?_, fun _ earlier r hp => ?_⟩
  · exact (if_neg List.not_mem_nil).symm
  · refine iff_of_false (by simp [SortedMap.find?, SortedMap.empty, Entries.find?]) ?_
    rintro ⟨earlier, r, hp, _⟩
    simp at hp
  · simp at hp

/-- A table rule overwrites its logic table if a node of it is found, and else leaves it. -/
theorem Decorated.concat {check : Bool} {loaded rest rest' : SortedMap Tables} {us : List TableRule}
    {configured : Tables} {r : TableRule} {first : Option (DataNode × Table)}
    (h : Decorated check loaded us configured rest)
    (hr : Searched check loaded (named us) r.dataNodes first rest') :
    Decorated check loaded (us ++ [r])
      (first.elim configured fun x => configured.insert r.logicTable x.2) rest' := by
  have hnamed : named (us ++ [r]) = named us ++ r.dataNodes := by simp [named]
  refine ⟨hnamed ▸ hr.leaves, fun l table => ?_, fun hcheck earlier r' hp => ?_⟩
  · rw [stands_concat_iff, ← h.configured_iff]
    cases hfirst : first with
    | none =>
      have hnone := hr.none hfirst
      refine ⟨fun hfind => .inr ⟨hfind, fun _ => hnone⟩, ?_⟩
      rintro (⟨_, n, ns, hfound, _⟩ | ⟨hfind, _⟩)
      · exact absurd hfound (hnone _ _ _)
      · exact hfind
    | some x =>
      have hfound := hr.some x hfirst
      have hsome : ¬ NoneFound loaded (named us) r.dataNodes := fun hnone => by
        obtain ⟨ns, hfound, _⟩ := hfound
        exact hnone _ _ _ hfound
      rw [Option.elim_some]
      by_cases hl : r.logicTable = l
      · subst hl
        simp only [SortedMap.find?_insert_self, Option.some.injEq, true_and, forall_const, hsome,
          and_false, or_false]
        refine ⟨?_, fun ⟨n, hfound'⟩ => hfound.unique hfound'⟩
        rintro rfl
        exact ⟨_, hfound⟩
      · simp [SortedMap.find?_insert_of_ne _ _ hl, hl]
  · rcases List.prefix_concat_iff.1 hp with heq | hp
    · obtain ⟨rfl, hr'⟩ := List.append_inj' heq rfl
      obtain rfl : r' = r := by simpa using hr'
      exact hr.same hcheck
    · exact h.same hcheck earlier r' hp

theorem rules_cases {check : Bool} {loaded rest : SortedMap Tables} {us : List TableRule}
    {configured : Tables} (vs : List TableRule) (h : Decorated check loaded us configured rest) :
    (∃ configured' rest', rules check configured rest vs = .ok (configured', rest') ∧
      Decorated check loaded (us ++ vs) configured' rest') ∨
    (check = true ∧ ∃ earlier r n n', earlier ++ [r] <+: us ++ vs ∧
      rules check configured rest vs = .error (.structureDiffers r.logicTable n.text n'.text) ∧
      Mismatch loaded (named earlier) r.dataNodes n n') := by
  induction vs generalizing us configured rest with
  | nil => exact .inl ⟨configured, rest, rfl, by rwa [List.append_nil]⟩
  | cons r vs ih =>
    have hstart : Searched check loaded (named us) [] none rest := by
      refine ⟨by rw [List.append_nil]; exact h.leaves, fun _ ns n table hfound => ?_, nofun, ?_⟩
      · simpa using hfound.stands
      · rintro _ ⟨ns, n, table, _, _, _, hfound, _⟩
        simpa using hfound.stands
    rcases nodes_cases r.logicTable r.dataNodes hstart with
      ⟨first, rest', hnodes, hsearched⟩ | ⟨hcheck, n, n', hnodes, hmismatch⟩
    · have hnext := ih (h.concat hsearched)
      rw [List.append_cons us r vs]
      rw [rules, hnodes]
      cases first <;> exact hnext
    · refine .inr ⟨hcheck, us, r, n, n', ?_, by rw [rules, hnodes]; rfl, hmismatch⟩
      rw [List.append_cons us r vs]
      exact List.prefix_append _ _

/-- What passes a check is the same without it. -/
theorem nodes_unchecked {logicTable : String} {vs : List DataNode} {loaded : SortedMap Tables}
    {first : Option (DataNode × Table)} {x : Option (DataNode × Table) × SortedMap Tables}
    (h : nodes true logicTable first loaded vs = .ok x) :
    nodes false logicTable first loaded vs = .ok x := by
  induction vs generalizing first loaded with
  | nil => exact h
  | cons node vs ih =>
    simp only [nodes] at h ⊢
    cases htake : take loaded node with
    | none =>
      rw [htake] at h
      exact ih h
    | some y =>
      rw [htake] at h
      cases first with
      | none => exact ih h
      | some z =>
        dsimp only at h ⊢
        split at h
        · cases h
        · exact ih h

theorem rules_unchecked {rs : List TableRule} {loaded : SortedMap Tables} {configured : Tables}
    {x : Tables × SortedMap Tables} (h : rules true configured loaded rs = .ok x) :
    rules false configured loaded rs = .ok x := by
  induction rs generalizing configured loaded with
  | nil => exact h
  | cons r rs ih =>
    simp only [rules] at h ⊢
    obtain ⟨⟨first, rest⟩, hnodes, h⟩ := bind_eq_ok h
    rw [nodes_unchecked hnodes]
    cases first <;> exact ih h

/-- Backends without tables have none. -/
theorem tableAt_filter (rest : SortedMap Tables) (n : DataNode) :
    tableAt (rest.filter fun _ tables => !tables.isEmpty) n = tableAt rest n := by
  rw [tableAt, tableAt, SortedMap.find?_filter]
  cases rest.find? n.dataSource with
  | none => rfl
  | some tables =>
    cases htable : tables.find? n.table with
    | none => cases hempty : tables.isEmpty <;> simp [Option.filter, hempty, htable]
    | some table =>
      have hempty := SortedMap.isEmpty_eq_false_iff.2 ⟨_, _, htable⟩
      simp [Option.filter, hempty, htable]

end Decoration

/-- The table rules of rules, in their order. -/
def Rule.allTableRules (rs : List Rule) : List TableRule := rs.flatMap fun r => r.tableRules?.getD []

theorem decorate_cases (loaded : SortedMap Tables) (rs : List Rule) (check : Bool) :
    (∃ configured rest, decorate loaded rs check =
        .ok ⟨configured, rest.filter fun _ tables => !tables.isEmpty⟩ ∧
      Decoration.Decorated check loaded (Rule.allTableRules rs) configured rest) ∨
    (check = true ∧ ∃ earlier r n n', earlier ++ [r] <+: Rule.allTableRules rs ∧
      decorate loaded rs check = .error (.structureDiffers r.logicTable n.text n'.text) ∧
      Decoration.Mismatch loaded (Decoration.named earlier) r.dataNodes n n') := by
  have hstart := Decoration.decorated_nil check loaded
  rcases Decoration.rules_cases (Rule.allTableRules rs) hstart with
    ⟨configured, rest, hrules, hdecorated⟩ | ⟨hcheck, earlier, r, n, n', hp, hrules, hmismatch⟩
  · refine .inl ⟨configured, rest, ?_, hdecorated⟩
    rw [decorate]
    exact hrules ▸ rfl
  · refine .inr ⟨hcheck, earlier, r, n, n', hp, ?_, hmismatch⟩
    rw [decorate]
    exact hrules ▸ rfl

theorem decorate_unchecked {loaded : SortedMap Tables} {rs : List Rule} {tables : SchemaTables}
    (h : decorate loaded rs true = .ok tables) : decorate loaded rs false = .ok tables := by
  simp only [decorate] at h ⊢
  obtain ⟨x, hx, h⟩ := bind_eq_ok h
  rw [Decoration.rules_unchecked hx]
  exact h

/-- Decoration without a check always succeeds, with the logic tables and the tables of backends that the
found nodes say. A check fails exactly if two nodes of a table rule are found whose tables have other columns,
and says which; else it changes nothing. -/
theorem decorate_exact (loaded : SortedMap Tables) (rs : List Rule) :
    (∃ tables, decorate loaded rs false = .ok tables ∧
      (∀ l table, tables.configured.find? l = some table ↔
        Decoration.Stands loaded (Rule.allTableRules rs) l table) ∧
      (∀ n, Decoration.tableAt tables.unconfigured n =
        if ∃ r ∈ Rule.allTableRules rs, n ∈ r.dataNodes then none
        else Decoration.tableAt loaded n) ∧
      ∀ b ts, tables.unconfigured.find? b = some ts → ∃ t table, ts.find? t = some table) ∧
    ((∃ e, decorate loaded rs true = .error e) ↔
      ∃ earlier r, earlier ++ [r] <+: Rule.allTableRules rs ∧
        Decoration.Differ loaded (Decoration.named earlier) r.dataNodes) ∧
    (∀ e, decorate loaded rs true = .error e → ∃ earlier r n n',
      earlier ++ [r] <+: Rule.allTableRules rs ∧
      e = .structureDiffers r.logicTable n.text n'.text ∧
      Decoration.Mismatch loaded (Decoration.named earlier) r.dataNodes n n') ∧
    ∀ tables, decorate loaded rs true = .ok tables → decorate loaded rs false = .ok tables := by
  refine ⟨?_, ⟨?_, ?_⟩, ?_, fun tables h => decorate_unchecked h⟩
  · rcases decorate_cases loaded rs false with ⟨configured, rest, hok, h⟩ | ⟨hcheck, _⟩
    · refine ⟨_, hok, h.configured_iff, fun n => ?_, fun b ts hts => ?_⟩
      · have hnamed : n ∈ Decoration.named (Rule.allTableRules rs) ↔
            ∃ r ∈ Rule.allTableRules rs, n ∈ r.dataNodes := List.mem_flatMap
        simp only [← hnamed]
        exact (Decoration.tableAt_filter rest n).trans (h.leaves n)
      · rw [SortedMap.find?_filter, Option.filter_eq_some_iff] at hts
        exact SortedMap.isEmpty_eq_false_iff.1 (by simpa using hts.2)
    · cases hcheck
  · rintro ⟨e, he⟩
    rcases decorate_cases loaded rs true with
      ⟨_, _, hok, _⟩ | ⟨_, earlier, r, n, n', hp, _, expected, ns, table, hfirst, hfound, hne⟩
    · cases he.symm.trans hok
    · obtain ⟨ns', hfound', _⟩ := hfirst
      exact ⟨earlier, r, hp, _, _, _, _, _, _, hfound', hfound, hne⟩
  · rintro ⟨earlier, r, hp, hdiffer⟩
    rcases decorate_cases loaded rs true with ⟨_, _, _, h⟩ | ⟨_, _, _, _, _, _, herror, _⟩
    · exact absurd hdiffer (h.same rfl earlier r hp)
    · exact ⟨_, herror⟩
  · intro e he
    rcases decorate_cases loaded rs true with
      ⟨_, _, hok, _⟩ | ⟨_, earlier, r, n, n', hp, herror, hmismatch⟩
    · cases he.symm.trans hok
    · exact ⟨earlier, r, n, n', hp, Except.error.inj (he.symm.trans herror), hmismatch⟩

/-- A node that two logic tables name is found for the first one, and the other is not made. -/
example : decorate (.ofList [("b0", .ofList [("t0", ⟨[]⟩), ("t1", ⟨[]⟩)])])
    [.sharding ⟨[⟨"t", [⟨"b0", "t0"⟩]⟩, ⟨"u", [⟨"b0", "t0"⟩]⟩], none⟩] true =
    .ok ⟨.ofList [("t", ⟨[]⟩)], .ofList [("b0", .ofList [("t1", ⟨[]⟩)])]⟩ := by decide +kernel

end ShardRegistry
