import Mathlib.Data.List.Nodup
import Mathlib.Data.List.Perm.Basic
import ShardRegistry.Map.Sorted

/-! Lookups, writes and erasures of ordered and sorted maps, said of the entries as a whole. Counting
what a map holds needs the entries up to their order; looking up needs one key at a time. -/
namespace ShardRegistry

/-- The members of a list are found by what sets them apart. -/
theorem find?_eq_some_iff_of_nodup {α : Type} {f : α → String} {xs : List α} (h : (xs.map f).Nodup)
    {key : String} {x : α} : (xs.find? fun x => f x = key) = some x ↔ x ∈ xs ∧ f x = key := by
  constructor
  · intro hfind
    exact ⟨List.mem_of_find?_eq_some hfind, by simpa using List.find?_some hfind⟩
  · rintro ⟨hmem, hkey⟩
    have hsome : (xs.find? fun x => f x = key).isSome = true :=
      List.find?_isSome.2 ⟨x, hmem, by simpa using hkey⟩
    obtain ⟨y, hy⟩ := Option.isSome_iff_exists.1 hsome
    have hfound : f y = key := by simpa using List.find?_some hy
    rw [hy, List.inj_on_of_nodup_map h (List.mem_of_find?_eq_some hy) hmem (hfound.trans hkey.symm)]

/-- Dropping entries of other keys changes no lookup. -/
theorem lookup_filter {α β : Type} [BEq α] [LawfulBEq α] {l : List (α × β)} {q : α × β → Bool}
    {k : α} (h : ∀ v, q (k, v) = true) : (l.filter q).lookup k = l.lookup k := by
  induction l with
  | nil => rfl
  | cons e l ih =>
    obtain ⟨k', v⟩ := e
    by_cases hk : k = k'
    · subst hk
      simp [h v]
    · have hne : (k == k') = false := by simpa using hk
      by_cases hq : q (k', v) = true <;> simp [hq, List.lookup_cons, hne, ih]

theorem lookup_some_iff {α : Type} {es : List (Nat × α)} (hn : (es.map (·.1)).Nodup) (t : Nat)
    (x : α) : es.lookup t = some x ↔ (t, x) ∈ es := by
  induction es with
  | nil => simp
  | cons e es ih =>
    obtain ⟨k, v⟩ := e
    have hn' := List.nodup_cons.1 hn
    by_cases hk : t = k
    · subst hk
      have hnot : (t, x) ∉ es := fun hm => hn'.1 (List.mem_map.2 ⟨_, hm, rfl⟩)
      simp [hnot, eq_comm]
    · have hbeq : (t == k) = false := by simpa using hk
      simp [List.lookup_cons, hbeq, hk, ih hn'.2]

/-- The entry of a key stands in front of the others, up to their order. -/
theorem perm_of_lookup {α : Type} {es : List (Nat × α)} (hn : (es.map (·.1)).Nodup) {t : Nat}
    {x : α} (h : es.lookup t = some x) : es.Perm ((t, x) :: es.filter (·.1 ≠ t)) := by
  induction es with
  | nil => simp at h
  | cons e es ih =>
    obtain ⟨k, v⟩ := e
    have hn' := List.nodup_cons.1 hn
    by_cases hk : k = t
    · subst hk
      have hv : v = x := by simpa using h
      have hrest : es.filter (·.1 ≠ k) = es := by
        rw [List.filter_eq_self]
        intro e he
        have hne : e.1 ≠ k := by
          rintro rfl
          exact hn'.1 (List.mem_map.2 ⟨e, he, rfl⟩)
        simpa using hne
      simp only [ne_eq, decide_not] at hrest
      simp [hv, hrest]
    · have hbeq : (t == k) = false := by simpa using Ne.symm hk
      have hfilter : ((k, v) :: es).filter (·.1 ≠ t) = (k, v) :: es.filter (·.1 ≠ t) := by simp [hk]
      rw [hfilter]
      exact ((ih hn'.2 (by simpa [List.lookup_cons, hbeq] using h)).cons (k, v)).trans
        (List.Perm.swap _ _ _)

namespace Entries
variable {α β : Type}

theorem mem_of_find? {k : String} {v : α} {es : List (String × α)} (h : find? k es = some v) :
    (k, v) ∈ es := by
  induction es with
  | nil => simp [find?] at h
  | cons e es ih =>
    obtain ⟨k', v'⟩ := e
    by_cases hk : k' = k
    · simp only [find?, hk, if_true, Option.some.injEq] at h
      simp [hk, h]
    · exact List.mem_cons_of_mem _ (ih (by simpa [find?, hk] using h))

theorem find?_of_mem {k : String} {v : α} {es : List (String × α)} (hn : (es.map (·.1)).Nodup)
    (h : (k, v) ∈ es) : find? k es = some v := by
  induction es with
  | nil => simp at h
  | cons e es ih =>
    obtain ⟨k', v'⟩ := e
    have hn' := List.nodup_cons.1 hn
    rcases List.mem_cons.1 h with h | h
    · cases h
      simp [find?]
    · have hk : k' ≠ k := by
        rintro rfl
        exact hn'.1 (List.mem_map.2 ⟨_, h, rfl⟩)
      simpa [find?, hk] using ih hn'.2 h

theorem find?_eq_none_iff {k : String} {es : List (String × α)} :
    find? k es = none ↔ k ∉ es.map (·.1) := by
  induction es with
  | nil => simp [find?]
  | cons e es ih =>
    by_cases hk : e.1 = k
    · simp [find?, hk]
    · simp [find?, hk, ih, Ne.symm hk]

theorem find?_map (f : α → β) (k : String) (es : List (String × α)) :
    find? k (es.map fun e => (e.1, f e.2)) = (find? k es).map f := by
  induction es with
  | nil => rfl
  | cons e es ih => by_cases hk : e.1 = k <;> simp [find?, hk, ih]

theorem find?_filter_ne {k key : String} (es : List (String × α)) (h : k ≠ key) :
    find? k (es.filter fun e => e.1 ≠ key) = find? k es := by
  induction es with
  | nil => rfl
  | cons e es ih =>
    by_cases hk : e.1 = key
    · have hne : e.1 ≠ k := fun he => h (he.symm.trans hk)
      simpa [List.filter_cons, hk, find?, hne, Ne.symm h] using ih
    · by_cases he : e.1 = k
      · simp [find?, he, h]
      · simpa [hk, find?, he] using ih

theorem filter_ne_of_not_mem {key : String} {es : List (String × α)}
    (h : key ∉ es.map (·.1)) : es.filter (fun e => e.1 ≠ key) = es := by
  rw [List.filter_eq_self]
  intro e he
  have hne : e.1 ≠ key := by
    rintro rfl
    exact h (List.mem_map_of_mem he)
  simpa using hne

/-- An entry stands in front of all the others, up to their order. -/
theorem perm_cons_filter {k : String} {v : α} {es : List (String × α)}
    (hn : (es.map (·.1)).Nodup) (h : find? k es = some v) :
    es.Perm ((k, v) :: es.filter fun e => e.1 ≠ k) := by
  induction es with
  | nil => simp [find?] at h
  | cons e es ih =>
    obtain ⟨k', v'⟩ := e
    have hn' := List.nodup_cons.1 hn
    by_cases hk : k' = k
    · subst hk
      have hv : v' = v := by simpa [find?] using h
      have hrest : es.filter (fun e => e.1 ≠ k') = es := filter_ne_of_not_mem hn'.1
      simp only [ne_eq, decide_not] at hrest
      simp [hv, hrest]
    · have hrest := ih hn'.2 (by simpa [find?, hk] using h)
      have hfilter : ((k', v') :: es).filter (fun e => e.1 ≠ k) =
          (k', v') :: es.filter fun e => e.1 ≠ k := by simp [hk]
      rw [hfilter]
      exact (hrest.cons (k', v')).trans (List.Perm.swap _ _ _)

theorem put_of_not_mem {k : String} (v : α) {es : List (String × α)} (h : k ∉ es.map (·.1)) :
    put k v es = es ++ [(k, v)] := by
  induction es with
  | nil => rfl
  | cons e es ih =>
    have hk : e.1 ≠ k := fun he => h (by simp [he])
    have ht : k ∉ es.map (·.1) := fun hm => h (List.mem_cons_of_mem _ hm)
    simp [put, hk, ih ht]

theorem insertSorted_perm {k : String} (v : α) {es : List (String × α)}
    (hs : (es.map (·.1)).Pairwise (· < ·)) :
    (insertSorted k v es).Perm ((k, v) :: es.filter fun e => e.1 ≠ k) := by
  induction es with
  | nil => simp [insertSorted]
  | cons e es ih =>
    obtain ⟨k', v'⟩ := e
    have hs' := List.pairwise_cons.1 hs
    simp only [insertSorted]
    split
    · rename_i hlt
      have hnot : k ∉ ((k', v') :: es).map (·.1) := by
        intro hm
        rcases List.mem_cons.1 hm with hm | hm
        · subst hm
          exact String.lt_irrefl _ hlt
        · exact String.lt_irrefl _ (String.lt_trans hlt (hs'.1 k hm))
      rw [filter_ne_of_not_mem hnot]
    · split
      · rename_i hk
        subst hk
        have hnot : k' ∉ es.map (·.1) := fun hm => String.lt_irrefl _ (hs'.1 k' hm)
        have hrest := filter_ne_of_not_mem hnot
        simp only [ne_eq, decide_not] at hrest
        simp [hrest]
      · rename_i hk
        have hfilter : ((k', v') :: es).filter (fun e => e.1 ≠ k) =
            (k', v') :: es.filter fun e => e.1 ≠ k := by simp [hk]
        rw [hfilter]
        exact ((ih hs'.2).cons (k', v')).trans (List.Perm.swap _ _ _)

theorem map_insertSorted (f : α → β) (k : String) (v : α) (es : List (String × α)) :
    (insertSorted k v es).map (fun e => (e.1, f e.2)) =
      insertSorted k (f v) (es.map fun e => (e.1, f e.2)) := by
  induction es with
  | nil => rfl
  | cons e es ih =>
    by_cases hlt : k < e.1
    · simp [insertSorted, hlt]
    · by_cases hk : e.1 = k
      · simp [insertSorted, hk]
      · simp [insertSorted, hlt, hk, ih]

theorem insertSorted_of_lt {k : String} (v : α) {es : List (String × α)}
    (h : ∀ e ∈ es, e.1 < k) : insertSorted k v es = es ++ [(k, v)] := by
  induction es with
  | nil => rfl
  | cons e es ih =>
    have hlt := h e (List.mem_cons_self ..)
    have hge : ¬ k < e.1 := fun hgt => String.lt_irrefl _ (String.lt_trans hlt hgt)
    have hne : e.1 ≠ k := fun he => String.lt_irrefl _ (he ▸ hlt)
    simp [insertSorted, hge, hne, ih fun e' he => h e' (List.mem_cons_of_mem e he)]

/-- Writing what stands there changes nothing. -/
theorem insertSorted_of_find? {k : String} {v : α} {es : List (String × α)}
    (hs : (es.map (·.1)).Pairwise (· < ·)) (h : find? k es = some v) : insertSorted k v es = es := by
  induction es with
  | nil => simp [find?] at h
  | cons e es ih =>
    obtain ⟨k', v'⟩ := e
    have hs' := List.pairwise_cons.1 hs
    by_cases hk : k' = k
    · subst hk
      have hv : v' = v := by simpa [find?] using h
      rw [insertSorted, if_neg (String.lt_irrefl _), if_pos rfl, hv]
    · have ht : find? k es = some v := by simpa [find?, hk] using h
      have hlt : k' < k := hs'.1 k (List.mem_map_of_mem (mem_of_find? ht))
      have hge : ¬ k < k' := fun hgt => String.lt_irrefl _ (String.lt_trans hlt hgt)
      simp [insertSorted, hge, hk, ih hs'.2 ht]

end Entries

namespace OrderedMap
variable {α : Type}

theorem ext_entries {m m' : OrderedMap α} (h : m.entries = m'.entries) : m = m' := by
  cases m
  cases m'
  simpa using h

theorem mem_entries_iff (m : OrderedMap α) (k : String) (v : α) :
    (k, v) ∈ m.entries ↔ m.find? k = some v :=
  ⟨Entries.find?_of_mem m.nodup, Entries.mem_of_find?⟩

theorem mem_keys_iff (m : OrderedMap α) (k : String) : k ∈ m.keys ↔ m.find? k ≠ none := by
  rw [find?, Ne, Entries.find?_eq_none_iff, not_not]
  rfl

theorem entries_insert (m : OrderedMap α) {k : String} (v : α) (h : k ∉ m.keys) :
    (m.insert k v).entries = m.entries ++ [(k, v)] :=
  Entries.put_of_not_mem v h

/-- Writing new keys one after the other puts the entries at the end. -/
theorem entries_foldl_insert (m : OrderedMap α) {es : List (String × α)}
    (h : (m.keys ++ es.map (·.1)).Nodup) :
    (es.foldl (fun m e => m.insert e.1 e.2) m).entries = m.entries ++ es := by
  induction es generalizing m with
  | nil => simp
  | cons e es ih =>
    have hd := List.disjoint_of_nodup_append h
    have hnot : e.1 ∉ m.keys := fun hm => hd hm (by simp)
    have hentries := entries_insert m e.2 hnot
    have hkeys : (m.insert e.1 e.2).keys = m.keys ++ [e.1] := by
      simp [keys, hentries]
    rw [List.foldl_cons, ih]
    · simp [hentries]
    · simpa [hkeys, List.append_assoc] using h

theorem ofList_entries (m : OrderedMap α) : ofList m.entries = m := by
  refine ext_entries ?_
  have hkeys : ((empty : OrderedMap α).keys ++ m.entries.map (·.1)).Nodup := m.nodup
  rw [ofList, entries_foldl_insert _ hkeys]
  rfl

theorem find?_map {β : Type} (f : α → β) (m : OrderedMap α) (k : String) :
    (m.map f).find? k = (m.find? k).map f := Entries.find?_map f k m.entries

end OrderedMap

namespace SortedMap
variable {α β : Type}

theorem nodup_keys (m : SortedMap α) : (m.entries.map (·.1)).Nodup := by
  refine List.Pairwise.imp ?_ m.sorted
  rintro k _ hlt rfl
  exact String.lt_irrefl k hlt

theorem mem_entries_iff (m : SortedMap α) (k : String) (v : α) :
    (k, v) ∈ m.entries ↔ m.find? k = some v :=
  ⟨Entries.find?_of_mem m.nodup_keys, Entries.mem_of_find?⟩

theorem entries_perm_of_find? {m : SortedMap α} {k : String} {v : α} (h : m.find? k = some v) :
    m.entries.Perm ((k, v) :: (m.erase k).entries) :=
  Entries.perm_cons_filter m.nodup_keys h

theorem entries_erase_of_find?_none {m : SortedMap α} {k : String} (h : m.find? k = none) :
    (m.erase k).entries = m.entries :=
  Entries.filter_ne_of_not_mem (Entries.find?_eq_none_iff.1 h)

theorem entries_insert_perm (m : SortedMap α) (k : String) (v : α) :
    (m.insert k v).entries.Perm ((k, v) :: (m.erase k).entries) :=
  Entries.insertSorted_perm v m.sorted

theorem entries_insert_of_find?_none {m : SortedMap α} {k : String} (v : α)
    (h : m.find? k = none) : (m.insert k v).entries.Perm ((k, v) :: m.entries) := by
  rw [← entries_erase_of_find?_none h]
  exact entries_insert_perm m k v

theorem find?_erase_self (m : SortedMap α) (k : String) : (m.erase k).find? k = none := by
  rw [find?, Entries.find?_eq_none_iff]
  simp [erase]

theorem find?_erase_of_ne (m : SortedMap α) {key k : String} (h : k ≠ key) :
    (m.erase key).find? k = m.find? k := Entries.find?_filter_ne m.entries h

theorem find?_map (f : α → β) (m : SortedMap α) (k : String) :
    (m.map f).find? k = (m.find? k).map f := Entries.find?_map f k m.entries

theorem ext_entries {m m' : SortedMap α} (h : m.entries = m'.entries) : m = m' := by
  cases m
  cases m'
  simpa using h

theorem find?_filter (m : SortedMap α) (p : String → α → Bool) (k : String) :
    (m.filter p).find? k = (m.find? k).filter (p k) := by
  refine Option.ext fun v => ?_
  rw [← mem_entries_iff, Option.filter_eq_some_iff, ← mem_entries_iff, filter, List.mem_filter]

/-- A sorted map is determined by its lookups. -/
theorem ext_find? {m m' : SortedMap α} (h : ∀ k, m.find? k = m'.find? k) : m = m' := by
  have hmem : ∀ e, e ∈ m.entries ↔ e ∈ m'.entries := by
    rintro ⟨k, v⟩
    rw [mem_entries_iff, mem_entries_iff, h]
  have hperm : m.entries.Perm m'.entries :=
    (List.perm_ext_iff_of_nodup m.nodup_keys.of_map m'.nodup_keys.of_map).2 hmem
  refine ext_entries (hperm.eq_of_pairwise ?_ (List.pairwise_map.1 m.sorted)
    (List.pairwise_map.1 m'.sorted))
  intro a b _ _ hlt hgt
  exact absurd (String.lt_trans hlt hgt) (String.lt_irrefl _)

theorem map_insert (f : α → β) (m : SortedMap α) (k : String) (v : α) :
    (m.insert k v).map f = (m.map f).insert k (f v) :=
  ext_entries (Entries.map_insertSorted f k v m.entries)

theorem map_erase (f : α → β) (m : SortedMap α) (k : String) :
    (m.erase k).map f = (m.map f).erase k :=
  ext_entries (by simp [map, erase, List.filter_map, Function.comp_def])

theorem map_foldl_insert (f : α → β) (es : List (String × α)) (m : SortedMap α) :
    (es.foldl (fun m e => m.insert e.1 e.2) m).map f =
      (es.map fun e => (e.1, f e.2)).foldl (fun m e => m.insert e.1 e.2) (m.map f) := by
  induction es generalizing m with
  | nil => rfl
  | cons e es ih => simp [ih, map_insert]

theorem insert_of_find? {m : SortedMap α} {k : String} {v : α} (h : m.find? k = some v) :
    m.insert k v = m := ext_entries (Entries.insertSorted_of_find? m.sorted h)

/-- Pairs with distinct keys are all entries of the map made of them. -/
theorem entries_foldl_insert_perm (m : SortedMap α) {es : List (String × α)}
    (h : (m.keys ++ es.map (·.1)).Nodup) :
    (es.foldl (fun m e => m.insert e.1 e.2) m).entries.Perm (m.entries ++ es) := by
  induction es generalizing m with
  | nil => simp
  | cons e es ih =>
    have hd := List.disjoint_of_nodup_append h
    have hnot : e.1 ∉ m.entries.map (·.1) := fun hm => hd hm (by simp)
    have hperm : (m.insert e.1 e.2).entries.Perm (e :: m.entries) := by
      have hi := entries_insert_perm m e.1 e.2
      rwa [entries_erase_of_find?_none (Entries.find?_eq_none_iff.2 hnot)] at hi
    have hmove : (e :: m.entries ++ es).Perm (m.entries ++ e :: es) := List.perm_middle.symm
    have hkeys : ((m.insert e.1 e.2).keys ++ es.map (·.1)).Nodup := by
      have hp : ((m.insert e.1 e.2).keys ++ es.map (·.1)).Perm (m.keys ++ (e :: es).map (·.1)) := by
        have hleft := (hperm.append_right es).trans hmove
        simpa [keys] using hleft.map (·.1)
      exact hp.nodup_iff.2 h
    rw [List.foldl_cons]
    exact (ih _ hkeys).trans ((hperm.append_right es).trans hmove)

theorem entries_ofList_perm {es : List (String × α)} (h : (es.map (·.1)).Nodup) :
    (ofList es).entries.Perm es :=
  entries_foldl_insert_perm empty (by simpa [keys, empty] using h)

/-- Writing ascending keys one after the other puts the entries at the end. -/
theorem entries_foldl_insert (m : SortedMap α) {es : List (String × α)}
    (h : ((m.entries ++ es).map (·.1)).Pairwise (· < ·)) :
    (es.foldl (fun m e => m.insert e.1 e.2) m).entries = m.entries ++ es := by
  induction es generalizing m with
  | nil => simp
  | cons e es ih =>
    have hlt : ∀ e' ∈ m.entries, e'.1 < e.1 := by
      rw [List.map_append, List.pairwise_append] at h
      exact fun e' he => h.2.2 e'.1 (List.mem_map_of_mem he) e.1 (by simp)
    have hentries : (m.insert e.1 e.2).entries = m.entries ++ [e] := Entries.insertSorted_of_lt e.2 hlt
    have hsplit : m.entries ++ [e] ++ es = m.entries ++ e :: es := by simp
    rw [List.foldl_cons, ih _ (by rwa [hentries, hsplit]), hentries, hsplit]

theorem ofList_entries (m : SortedMap α) : ofList m.entries = m :=
  ext_entries (entries_foldl_insert empty m.sorted)

theorem mem_keys_insert (m : SortedMap α) (key : String) (value : α) (k : String) :
    k ∈ (m.insert key value).keys ↔ k = key ∨ k ∈ m.keys := Entries.mem_keys_insertSorted

theorem mem_keys_erase (m : SortedMap α) (key k : String) :
    k ∈ (m.erase key).keys ↔ k ∈ m.keys ∧ k ≠ key := by
  simp only [keys, erase, List.mem_map, List.mem_filter, decide_eq_true_eq]
  constructor
  · rintro ⟨e, ⟨he, hne⟩, rfl⟩
    exact ⟨⟨e, he, rfl⟩, hne⟩
  · rintro ⟨⟨e, he, rfl⟩, hne⟩
    exact ⟨e, ⟨he, hne⟩, rfl⟩

theorem mem_keys_ofList (es : List (String × α)) (k : String) :
    k ∈ (ofList es).keys ↔ k ∈ es.map (·.1) := by
  have hfold (m : SortedMap α) : k ∈ (es.foldl (fun m e => m.insert e.1 e.2) m).keys ↔
      k ∈ es.map (·.1) ∨ k ∈ m.keys := by
    induction es generalizing m with
    | nil => simp
    | cons e es ih => rw [List.foldl_cons, ih, mem_keys_insert, List.map_cons, List.mem_cons,
        or_left_comm, or_assoc]
  rw [ofList, hfold, or_iff_left]
  exact List.not_mem_nil

theorem mem_of_mem_ofList {es : List (String × α)} {e : String × α}
    (h : e ∈ (ofList es).entries) : e ∈ es := by
  have hfold (m : SortedMap α) : e ∈ (es.foldl (fun m e => m.insert e.1 e.2) m).entries →
      e ∈ es ∨ e ∈ m.entries := by
    clear h
    induction es generalizing m with
    | nil => exact .inr
    | cons x es ih =>
      intro h
      rcases ih (m.insert x.1 x.2) h with h | h
      · exact .inl (List.mem_cons_of_mem _ h)
      · rcases List.mem_cons.1 ((m.entries_insert_perm x.1 x.2).mem_iff.1 h) with rfl | h
        · exact .inl List.mem_cons_self
        · exact .inr (List.mem_of_mem_filter h)
  exact (hfold empty h).resolve_right List.not_mem_nil

theorem keys_map (f : α → β) (m : SortedMap α) : (m.map f).keys = m.keys := by
  simp [keys, map]

theorem mem_keys_iff (m : SortedMap α) (k : String) : k ∈ m.keys ↔ m.find? k ≠ none := by
  rw [find?, Ne, Entries.find?_eq_none_iff, not_not]
  rfl

end SortedMap

end ShardRegistry
