import ShardRegistry.Proofs.Differences

/-! Partitions. Two parameter maps sort the names of their backends into those that are added, deleted and
modified, and those that stay as they are. Each name of the old map and each name of the new one falls into
one class, and the classes tell all that sets the maps apart. -/
namespace ShardRegistry

/-- Parameters differ if they differ in any of their nine fields. -/
theorem ConnectionParameters.ne_iff {p q : ConnectionParameters} : p ≠ q ↔
    p.url ≠ q.url ∨ p.username ≠ q.username ∨ p.password ≠ q.password ∨
      p.connectionTimeoutMs ≠ q.connectionTimeoutMs ∨ p.idleTimeoutMs ≠ q.idleTimeoutMs ∨
      p.maxLifetimeMs ≠ q.maxLifetimeMs ∨ p.maxPoolSize ≠ q.maxPoolSize ∨
      p.minPoolSize ≠ q.minPoolSize ∨ p.readOnly ≠ q.readOnly := by
  obtain ⟨url, username, password, connection, idle, lifetime, max, min, readOnly⟩ := p
  obtain ⟨url', username', password', connection', idle', lifetime', max', min', readOnly'⟩ := q
  rw [Ne, ConnectionParameters.mk.injEq]
  simp only [not_and_or, Ne]

namespace DataSourceChanges
variable (old new : ParameterMap)

/-- The names that have equal parameters in both maps, in the order of the old one. -/
def unchanged : List String := old.keys.filter fun n => new.find? n = old.find? n

variable {old new}
variable {n : String}

theorem mem_unchanged : n ∈ unchanged old new ↔ old.find? n ≠ none ∧ new.find? n = old.find? n := by
  simp [unchanged, List.mem_filter, OrderedMap.mem_keys_iff]

/-- A name of both maps is modified or not, as its parameters are. -/
theorem mem_modified_iff {p q : ConnectionParameters} (hp : old.find? n = some p)
    (hq : new.find? n = some q) : n ∈ (compute old new).modified ↔ p ≠ q := by
  rw [mem_modified]
  constructor
  · rintro ⟨q', p', hq', hp', hne⟩
    rw [hp] at hp'
    rw [hq] at hq'
    cases hp'
    cases hq'
    exact hne
  · exact fun hne => ⟨q, p, hq, hp, hne⟩

/-! ### Classes of names -/

section Classes
variable (old new : ParameterMap)

theorem added_sublist : (compute old new).added.Sublist new.keys := List.filter_sublist

theorem deleted_sublist : (compute old new).deleted.Sublist old.keys := List.filter_sublist

theorem modified_sublist : (compute old new).modified.Sublist new.keys :=
  List.filter_sublist.map Prod.fst

theorem nodup_unchanged : (unchanged old new).Nodup := List.Nodup.filter _ old.nodup

theorem nodup_changed :
    ((compute old new).added ++ (compute old new).deleted ++ (compute old new).modified).Nodup := by
  have hadded : (compute old new).added.Nodup := new.nodup.sublist (added_sublist old new)
  have hdeleted : (compute old new).deleted.Nodup := old.nodup.sublist (deleted_sublist old new)
  have hmodified : (compute old new).modified.Nodup := new.nodup.sublist (modified_sublist old new)
  refine (hadded.append hdeleted ?_).append hmodified ?_
  · intro n hn hn'
    exact (mem_added.1 hn).1 (mem_deleted.1 hn').2
  · intro n hn hn'
    obtain ⟨p, q, hp, hq, _⟩ := mem_modified.1 hn'
    rcases List.mem_append.1 hn with hn | hn
    · rw [(mem_added.1 hn).2] at hq
      cases hq
    · rw [(mem_deleted.1 hn).2] at hp
      cases hp

/-- A name that changes has other parameters in the new map than in the old one, or is in one of them
only. -/
theorem find?_ne_of_mem {n : String}
    (h : n ∈ (compute old new).added ++ (compute old new).deleted ++ (compute old new).modified) :
    new.find? n ≠ old.find? n := by
  rw [List.mem_append, List.mem_append, mem_added, mem_deleted, mem_modified] at h
  rcases h with (⟨hnew, hold⟩ | ⟨hold, hnew⟩) | ⟨p, q, hnew, hold, hne⟩
  · rw [hold]
    exact hnew
  · rw [hnew]
    exact hold.symm
  · rw [hnew, hold]
    exact fun h => hne (Option.some.inj h).symm

/-- The old names are those that are deleted, those that are modified and those that stay. -/
theorem perm_old : ((compute old new).deleted ++ (compute old new).modified ++
    unchanged old new).Perm old.keys := by
  have hchanged := nodup_changed old new
  rw [List.append_assoc] at hchanged
  have hnodup : ((compute old new).deleted ++ (compute old new).modified ++
      unchanged old new).Nodup := by
    refine hchanged.of_append_right.append (nodup_unchanged old new) fun n hn hn' => ?_
    refine find?_ne_of_mem old new ?_ (mem_unchanged.1 hn').2
    rw [List.append_assoc]
    exact List.mem_append_right _ hn
  have hkeys : old.keys.Nodup := old.nodup
  refine (List.perm_ext_iff_of_nodup hnodup hkeys).2 fun n => ?_
  rw [List.mem_append, List.mem_append, mem_deleted, mem_modified, mem_unchanged,
    OrderedMap.mem_keys_iff]
  cases hold : old.find? n with
  | none => simp
  | some p =>
    cases hnew : new.find? n with
    | none => simp
    | some q => simpa [eq_comm] using ne_or_eq p q

/-! ### The maps in the other order -/

/-- Between the maps in the other order the same names are modified. -/
theorem perm_modified_swap : (compute new old).modified.Perm (compute old new).modified := by
  refine (List.perm_ext_iff_of_nodup (old.nodup.sublist (modified_sublist new old))
    (new.nodup.sublist (modified_sublist old new))).2 fun n => ?_
  rw [mem_modified, mem_modified]
  constructor <;> exact fun ⟨p, q, hp, hq, hne⟩ => ⟨q, p, hq, hp, hne.symm⟩

theorem perm_unchanged_swap : (unchanged new old).Perm (unchanged old new) := by
  refine (List.perm_ext_iff_of_nodup (nodup_unchanged new old) (nodup_unchanged old new)).2
    fun n => ?_
  rw [mem_unchanged, mem_unchanged]
  constructor <;> exact fun ⟨hsome, heq⟩ => ⟨heq ▸ hsome, heq.symm⟩

/-- The new names are those that are added, those that are modified and those that stay. -/
theorem perm_new : ((compute old new).added ++ (compute old new).modified ++
    unchanged old new).Perm new.keys := by
  have hmodified := (perm_modified_swap old new).append_left (compute old new).added
  exact (hmodified.append (perm_unchanged_swap old new)).symm.trans (perm_old new old)

end Classes

/-! ### What the classes tell -/

theorem isEmpty_iff : (compute old new).isEmpty = true ↔ ∀ n, old.find? n = new.find? n := by
  constructor
  · intro h n
    simp only [isEmpty, Bool.and_eq_true, List.isEmpty_iff] at h
    obtain ⟨⟨hadded, hdeleted⟩, hmodified⟩ := h
    by_contra hne
    cases hold : old.find? n with
    | none =>
      have hnew : new.find? n ≠ none := fun hnew => hne (hold.trans hnew.symm)
      have hmem := mem_added.2 ⟨hnew, hold⟩
      rw [hadded] at hmem
      cases hmem
    | some p =>
      cases hnew : new.find? n with
      | none =>
        have hmem := mem_deleted.2 ⟨hold ▸ Option.some_ne_none p, hnew⟩
        rw [hdeleted] at hmem
        cases hmem
      | some q =>
        have hpq : p ≠ q := fun hpq => hne (by rw [hold, hnew, hpq])
        have hmem := (mem_modified_iff hold hnew).2 hpq
        rw [hmodified] at hmem
        cases hmem
  · intro h
    rw [compute_of_agree h]
    rfl

/-- A pool is superseded if the old map has its backend, and the new one lacks it or has it with other
parameters. -/
theorem supersedes_eq_true_iff : (compute old new).supersedes n = true ↔
    n ∈ old.keys ∧ (n ∉ new.keys ∨ new.find? n ≠ old.find? n) := by
  simp only [supersedes, Bool.or_eq_true, List.contains_iff_mem, mem_deleted, mem_modified,
    OrderedMap.mem_keys_iff]
  cases hold : old.find? n with
  | none => simp
  | some p => cases hnew : new.find? n <;> simp [eq_comm]

/-- How the changes `c` classify the names of two maps. -/
structure Classifies (old new : ParameterMap) (c : DataSourceChanges) : Prop where
  /-- No name is in two of the lists, or twice in one. -/
  nodup : (c.added ++ c.deleted ++ c.modified).Nodup
  old_names : (c.deleted ++ c.modified ++ unchanged old new).Perm old.keys
  new_names : (c.added ++ c.modified ++ unchanged old new).Perm new.keys
  /-- A name of both maps is modified if any of the nine fields of its parameters differs. -/
  modified : ∀ n p q, old.find? n = some p → new.find? n = some q → (n ∈ c.modified ↔
    p.url ≠ q.url ∨ p.username ≠ q.username ∨ p.password ≠ q.password ∨
      p.connectionTimeoutMs ≠ q.connectionTimeoutMs ∨ p.idleTimeoutMs ≠ q.idleTimeoutMs ∨
      p.maxLifetimeMs ≠ q.maxLifetimeMs ∨ p.maxPoolSize ≠ q.maxPoolSize ∨
      p.minPoolSize ≠ q.minPoolSize ∨ p.readOnly ≠ q.readOnly)
  added_order : c.added.Sublist new.keys
  deleted_order : c.deleted.Sublist old.keys
  modified_order : c.modified.Sublist new.keys
  /-- In the other order of the maps, what was added is deleted and what was deleted is added. -/
  swap_added : (compute new old).added = c.deleted
  swap_deleted : (compute new old).deleted = c.added
  swap_modified : (compute new old).modified.Perm c.modified
  /-- Nothing changes between maps that agree, and between those alone. -/
  empty : c.isEmpty = true ↔ ∀ n, old.find? n = new.find? n
  supersedes : ∀ n, c.supersedes n = true ↔
    n ∈ old.keys ∧ (n ∉ new.keys ∨ new.find? n ≠ old.find? n)

/-- The changes between two maps classify all of their names. -/
theorem compute_classifies (old new : ParameterMap) : Classifies old new (compute old new) where
  nodup := nodup_changed old new
  old_names := perm_old old new
  new_names := perm_new old new
  modified _ _ _ hp hq := (mem_modified_iff hp hq).trans ConnectionParameters.ne_iff
  added_order := added_sublist old new
  deleted_order := deleted_sublist old new
  modified_order := modified_sublist old new
  swap_added := rfl
  swap_deleted := rfl
  swap_modified := perm_modified_swap old new
  empty := isEmpty_iff
  supersedes _ := supersedes_eq_true_iff

end DataSourceChanges

end ShardRegistry
