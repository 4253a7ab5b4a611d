import ShardRegistry.Proofs.Scalars
import ShardRegistry.Proofs.Sites
import ShardRegistry.Rule.DataNode

/-! Data nodes and their texts. A text is read as a node exactly if, without the blanks around it, it is a
backend and a table with a point between them, each of them something and neither with a point in it. Such a
node is written as that text, and read from it again. Blanks next to the point belong to the names. -/
namespace ShardRegistry

namespace Text

/-- The second text is the first one without blanks around it. -/
structure Bare (text bare : String) : Prop where
  around : ∃ us vs, text.toList = us ++ (bare.toList ++ vs) ∧ (∀ c ∈ us, isBlank c = true) ∧
    ∀ c ∈ vs, isBlank c = true
  head : ∀ c ∈ bare.toList.head?, isBlank c = false
  last : ∀ c ∈ bare.toList.getLast?, isBlank c = false

/-- Trimming is the one way to take the blanks off both ends of a text. -/
theorem bare_iff {text bare : String} : Bare text bare ↔ trim text = bare := by
  constructor
  · rintro ⟨⟨us, vs, htext, hus, hvs⟩, hhead, hlast⟩
    rw [trim, htext, ← List.append_assoc, strip_around _ hus hvs, strip_eq_self hhead hlast,
      String.ofList_toList]
  · rintro rfl
    have hlist : (trim text).toList = strip isBlank text.toList := String.toList_ofList
    refine ⟨?_, ?_, ?_⟩ <;> rw [hlist]
    · exact exists_strip isBlank text.toList
    · exact head?_strip isBlank text.toList
    · exact getLast?_dropEnd isBlank _

end Text

namespace DataNode

/-- Both names of the node are something, and neither has a point. -/
structure Plain (n : DataNode) : Prop where
  dataSource : n.dataSource ≠ "" ∧ '.' ∉ n.dataSource.toList
  table : n.table ≠ "" ∧ '.' ∉ n.table.toList

theorem toList_text (n : DataNode) : n.text.toList = n.dataSource.toList ++ '.' :: n.table.toList := by
  simp [text]

/-- A node is read from the texts that are its own text with blanks around it. -/
theorem read_eq_some_iff {s : String} {n : DataNode} :
    read s = some n ↔ n.Plain ∧ Text.trim s = n.text := by
  obtain ⟨cs, hcs⟩ : ∃ cs, Text.strip Text.isBlank s.toList = cs := ⟨_, rfl⟩
  have htrim : Text.trim s = n.text ↔ cs = n.dataSource.toList ++ '.' :: n.table.toList := by
    rw [Text.trim, hcs, ← n.toList_text, ← String.toList_inj, String.toList_ofList]
  simp only [read, hcs, htrim]
  constructor
  · intro h
    split at h
    · rename_i c table hrest
      obtain ⟨hsplit, hpoint⟩ := Url.split_of_dropWhile hrest
      split at h
      · cases h
      · rename_i hnames
        cases h
        simp only [Bool.or_eq_true, List.isEmpty_iff, List.contains_iff_mem, not_or] at hnames
        obtain ⟨⟨hsource, htable⟩, hone⟩ := hnames
        refine ⟨⟨⟨?_, ?_⟩, ?_, ?_⟩, ?_⟩
        · rwa [ne_eq, String.ofList_eq_empty_iff]
        · rwa [String.toList_ofList]
        · rwa [ne_eq, String.ofList_eq_empty_iff]
        · rwa [String.toList_ofList]
        · rwa [String.toList_ofList, String.toList_ofList]
    · cases h
  · rintro ⟨⟨⟨hsource, hpoint⟩, htable, hone⟩, heq⟩
    have hall : ∀ c ∈ n.dataSource.toList, (decide (c ≠ '.')) = true :=
      fun c hc => decide_eq_true fun h => hpoint (h ▸ hc)
    have htake : cs.takeWhile (· ≠ '.') = n.dataSource.toList := by
      rw [heq, List.takeWhile_append_of_pos hall, List.takeWhile_cons_of_neg (by simp), List.append_nil]
    have hdrop : cs.dropWhile (· ≠ '.') = '.' :: n.table.toList := by
      rw [heq, List.dropWhile_append_of_pos hall, List.dropWhile_cons_of_neg (by simp)]
    rw [htake, hdrop]
    have hnames : (n.dataSource.toList.isEmpty || n.table.toList.isEmpty ||
        n.table.toList.contains '.') = false := by simp [hsource, htable, hone]
    simp only [hnames, Bool.false_eq_true, if_false, String.ofList_toList]

/-- A text is read as a node exactly if it is two names with a point between, once the blanks around it are
gone; then the node is written as that text, and read from it again. -/
theorem accepted_exact (s : String) :
    ((∃ n, read s = some n) ↔ ∃ d t, Text.Bare s (d ++ "." ++ t) ∧ (d ≠ "" ∧ '.' ∉ d.toList) ∧
      t ≠ "" ∧ '.' ∉ t.toList) ∧
    ∀ n, read s = some n → Text.Bare s n.text ∧ read n.text = some n := by
  simp only [read_eq_some_iff, Text.bare_iff]
  refine ⟨⟨?_, ?_⟩, ?_⟩
  · rintro ⟨n, hplain, htrim⟩
    exact ⟨n.dataSource, n.table, htrim, hplain.dataSource, hplain.table⟩
  · rintro ⟨d, t, htrim, hd, ht⟩
    exact ⟨⟨d, t⟩, ⟨hd, ht⟩, htrim⟩
  · rintro n ⟨hplain, htrim⟩
    refine ⟨htrim, hplain, ?_⟩
    rw [← htrim, Text.trim, Text.trim, String.toList_ofList, Text.strip_strip]

end DataNode

end ShardRegistry
