import ShardRegistry.Proofs.Sites

/-! Marks. A mark in front of a URL, in any case, and blanks around both leave the dialect as it is. The
endpoint is the same if all letters of the mark are small or all are capital, and else there is none: the mark
is then read as the scheme. -/
namespace ShardRegistry

/-! ### Recognition -/

namespace Dialect

/-- The words that a URL of the dialect begins with, without a mark or behind it. -/
def words : Dialect → List String
  | .postgreSQL => ["postgres://", "postgresql://"]
  | .mySQL => ["mysql://", "mariadb://"]
  | .h2 => ["h2:"]
  | .sqlServer => ["sqlserver://", "microsoft:sqlserver://"]
  | .oracle => ["oracle:"]

/-- A text without a mark at its front. -/
def bare (cs : List Char) : List Char := (after? "jdbc:".toList cs).getD cs

/-- The words of different dialects differ before the first colon, and no word is a mark. -/
theorem words_differ : (∀ d ∈ all, ∀ w ∈ d.words, ':' ∈ w.toList ∧
      w.toList.takeWhile (· ≠ ':') ≠ "jdbc".toList) ∧
    ∀ d ∈ all, ∀ d' ∈ all, ∀ w ∈ d.words, ∀ w' ∈ d'.words,
      w.toList.takeWhile (· ≠ ':') = w'.toList.takeWhile (· ≠ ':') → d = d' := by
  decide

theorem mem_all (d : Dialect) : d ∈ all := by
  cases d <;> decide

theorem takeWhile_of_startsWith {word : String} {cs : List Char} (h : startsWith word cs = true)
    (hcolon : ':' ∈ word.toList) :
    (cs.takeWhile (· ≠ ':')).map folded = word.toList.takeWhile (· ≠ ':') := by
  obtain ⟨w, w', hword, hw⟩ := List.eq_append_cons_of_mem hcolon
  obtain ⟨r, hr⟩ := Option.isSome_iff_exists.1 h
  rw [hword] at hr ⊢
  rw [takeWhile_of_after? w w' hr hw, Url.takeWhile_append_colon hw]

theorem bare_of_startsWith {d : Dialect} {w : String} (hw : w ∈ d.words) {cs : List Char}
    (h : startsWith w cs = true) : bare cs = cs := by
  obtain ⟨hcolon, hne⟩ := words_differ.1 d d.mem_all w hw
  cases hafter : after? "jdbc:".toList cs with
  | none => rw [bare, hafter, Option.getD_none]
  | some r =>
    have hname := takeWhile_of_startsWith h hcolon
    exact absurd (hname.symm.trans (takeWhile_of_after? "jdbc".toList [] hafter (by decide))) hne

/-- A word in two parts stands in front of what has the first part, and then the second. -/
theorem startsWith_eq_any (word w w' : String) (hword : word.toList = w.toList ++ w'.toList)
    (cs : List Char) : startsWith word cs = (after? w.toList cs).any (startsWith w') := by
  rw [startsWith, hword, after?_append, Option.isSome_bind]
  rfl

theorem withOptional_eq_any (word : String) (p : List Char → Bool) (cs : List Char) :
    withOptional word p cs = (p cs || (after? word.toList cs).any p) := by
  rw [withOptional]
  cases after? word.toList cs <;> rfl

/-- A recognised URL begins with a word of its dialect, without a mark or behind it. -/
theorem exists_word {d : Dialect} {cs : List Char} (h : d.recognizes cs = true) :
    ∃ w ∈ d.words, startsWith w (bare cs) = true := by
  have hoptional {p : List Char → Bool} (h : withOptional "jdbc:" p cs = true)
      (hp : ∀ cs, p cs = true → ∃ w ∈ d.words, startsWith w cs = true) :
      ∃ w ∈ d.words, startsWith w (bare cs) = true := by
    rcases withOptional_cases h with h | ⟨r, hr, h⟩
    · obtain ⟨w, hw, hstarts⟩ := hp cs h
      exact ⟨w, hw, (bare_of_startsWith hw hstarts).symm ▸ hstarts⟩
    · rw [bare, hr]
      exact hp r h
  have hbehind {word w : String} (h : startsWith word cs = true) (hw : w ∈ d.words)
      (hword : word.toList = "jdbc:".toList ++ w.toList) :
      ∃ w ∈ d.words, startsWith w (bare cs) = true := by
    rw [startsWith_eq_any word "jdbc:" w hword, Option.any_eq_true] at h
    obtain ⟨r, hr, h⟩ := h
    rw [bare, hr]
    exact ⟨w, hw, h⟩
  cases d <;> simp only [recognizes] at h
  case postgreSQL => exact hoptional h fun cs h => by simpa [words] using h
  case mySQL => exact hoptional h fun cs h => by simpa [words] using h
  case h2 => exact hbehind h List.mem_cons_self rfl
  case sqlServer =>
    refine hoptional h fun cs h => ?_
    rw [withOptional_eq_any, ← startsWith_eq_any "microsoft:sqlserver://" _ _ rfl] at h
    simpa [words] using h
  case oracle => exact hbehind h List.mem_cons_self rfl

/-- Behind a mark, what begins with a word of the dialect is recognised. -/
theorem recognizes_of_word {d : Dialect} {w : String} (hw : w ∈ d.words) {cs r : List Char}
    (hafter : after? "jdbc:".toList cs = some r) (h : startsWith w r = true) :
    d.recognizes cs = true := by
  have hoptional {p : List Char → Bool} (h : p r = true) : withOptional "jdbc:" p cs = true := by
    rw [withOptional_eq_any, hafter, Option.any_some, h, Bool.or_true]
  have hbehind {word : String} (hword : word.toList = "jdbc:".toList ++ w.toList) :
      startsWith word cs = true := by
    rw [startsWith_eq_any word "jdbc:" w hword, hafter, Option.any_some, h]
  cases d <;> simp only [words, List.mem_cons, List.not_mem_nil, or_false] at hw <;>
    simp only [recognizes]
  case postgreSQL => exact hoptional (by rcases hw with rfl | rfl <;> simp [h])
  case mySQL => exact hoptional (by rcases hw with rfl | rfl <;> simp [h])
  case h2 => exact hbehind (hw ▸ rfl)
  case sqlServer =>
    refine hoptional ?_
    rw [withOptional_eq_any, ← startsWith_eq_any "microsoft:sqlserver://" _ _ rfl]
    rcases hw with rfl | rfl <;> simp [h]
  case oracle => exact hbehind (hw ▸ rfl)

/-- No URL is recognised as one of two dialects. -/
theorem recognizes_unique {d d' : Dialect} {cs : List Char} (h : d.recognizes cs = true)
    (h' : d'.recognizes cs = true) : d = d' := by
  obtain ⟨w, hw, hstarts⟩ := exists_word h
  obtain ⟨w', hw', hstarts'⟩ := exists_word h'
  refine words_differ.2 d d.mem_all d' d'.mem_all w hw w' hw' ?_
  rw [← takeWhile_of_startsWith hstarts (words_differ.1 d d.mem_all w hw).1,
    takeWhile_of_startsWith hstarts' (words_differ.1 d' d'.mem_all w' hw').1]

theorem ofUrl_eq_ok_iff {url : String} {d : Dialect} :
    ofUrl url = .ok d ↔ d.recognizes (Text.strip Text.isBlank url.toList) = true := by
  rw [ofUrl]
  constructor
  · intro h
    split at h
    · rename_i hfind
      have hrecognizes := List.find?_some hfind
      exact Except.ok.inj h ▸ hrecognizes
    · cases h
  · intro h
    split
    · rename_i hfind
      have hrecognizes := List.find?_some hfind
      rw [recognizes_unique hrecognizes h]
    · rename_i hfind
      exact absurd h (List.find?_eq_none.1 hfind d d.mem_all)

end Dialect

/-! ### Marks in any case -/

/-- A spelling of the mark, in any case. -/
def IsMark (mark : List Char) : Prop := mark.map Text.lowerAscii = "jdbc:".toList

instance (mark : List Char) : Decidable (IsMark mark) := inferInstanceAs (Decidable (_ = _))

/-- The spellings that are passed over when an endpoint is read: all letters are small, or all are
capital. -/
def IsUniformMark (mark : List Char) : Prop := mark = "jdbc:".toList ∨ mark = "JDBC:".toList

instance (mark : List Char) : Decidable (IsUniformMark mark) :=
  inferInstanceAs (Decidable (_ ∨ _))

theorem IsUniformMark.isMark {mark : List Char} (h : IsUniformMark mark) : IsMark mark := by
  rcases h with rfl | rfl <;> decide

namespace IsMark

theorem isLetter_of_lowerAscii {c : Char} (hlow : 97 ≤ (Text.lowerAscii c).toNat)
    (hhigh : (Text.lowerAscii c).toNat ≤ 122) : Text.isLetter c = true := by
  rw [Text.toNat_lowerAscii] at hlow hhigh
  have hle : ('a' ≤ c ↔ 97 ≤ c.toNat) ∧ (c ≤ 'z' ↔ c.toNat ≤ 122) ∧ ('A' ≤ c ↔ 65 ≤ c.toNat) ∧
    (c ≤ 'Z' ↔ c.toNat ≤ 90) := ⟨Iff.rfl, Iff.rfl, Iff.rfl, Iff.rfl⟩
  simp only [Text.isLetter, Bool.or_eq_true, Bool.and_eq_true, decide_eq_true_eq, hle]
  split at hlow <;> simp_all

theorem eq_colon_of_lowerAscii {c : Char} (h : Text.lowerAscii c = ':') : c = ':' := by
  refine Dialect.folded_eq_colon_iff.1 ?_
  have hn := congrArg Char.toNat h
  rw [Text.toNat_lowerAscii] at hn
  change _ = 58 at hn
  rw [Dialect.folded, if_neg, if_neg, h] <;> split at hn <;> omega

variable {mark : List Char} (h : IsMark mark)
include h

/-- A mark is the name of a scheme and a colon. -/
theorem exists_scheme : ∃ s, mark = s ++ [':'] ∧ Url.IsScheme s ∧
    s.map Text.lowerAscii = "jdbc".toList := by
  obtain ⟨s, colon, rfl, hs, hcolon⟩ :=
    List.map_eq_append_iff.1 (show _ = "jdbc".toList ++ [':'] from h)
  have hletter : ∀ c ∈ s, Text.isLetter c = true := by
    intro c hc
    have hmem : Text.lowerAscii c ∈ "jdbc".toList := hs ▸ List.mem_map_of_mem hc
    have hbounds : ∀ d ∈ ['j', 'd', 'b', 'c'], 97 ≤ d.toNat ∧ d.toNat ≤ 122 := by simp
    exact isLetter_of_lowerAscii (hbounds _ hmem).1 (hbounds _ hmem).2
  obtain ⟨c, rfl, hc⟩ := List.map_eq_singleton_iff.1 hcolon
  refine ⟨s, by rw [eq_colon_of_lowerAscii hc], ⟨?_, fun c hc => ?_⟩, hs⟩
  · obtain ⟨c, cs, rfl⟩ : ∃ c cs, s = c :: cs :=
      List.exists_cons_of_ne_nil fun hnil => by simp [hnil] at hs
    exact ⟨c, cs, rfl, hletter c List.mem_cons_self⟩
  · simp [Url.isSchemePart, hletter c hc]

theorem map_folded : mark.map Dialect.folded = "jdbc:".toList := by
  obtain ⟨s, rfl, hs, hname⟩ := h.exists_scheme
  rw [List.map_append, hs.map_folded, hname]
  decide

theorem after?_append (t : List Char) : Dialect.after? "jdbc:".toList (mark ++ t) = some t :=
  h.map_folded ▸ Dialect.after?_map_folded mark t

theorem head_not_blank (t : List Char) : ∀ c ∈ (mark ++ t).head?, Text.isBlank c = false := by
  obtain ⟨s, rfl, hs, _⟩ := h.exists_scheme
  intro c hc
  rw [List.append_assoc] at hc
  exact Bool.eq_false_iff.2 fun hblank => hs.not_faint _ c hc (.inl hblank)

end IsMark

/-- What is taken for the mark is a spelling of it. -/
theorem exists_isMark {cs r : List Char} (h : Dialect.after? "jdbc:".toList cs = some r) :
    ∃ mark, IsMark mark ∧ cs = mark ++ r := by
  have hfront {w cs : List Char} (h : Dialect.after? w cs = some r) (hw : 's' ∉ w ∧ 'k' ∉ w) :
      ∃ front, front.map Text.lowerAscii = w ∧ cs = front ++ r := by
    induction w generalizing cs with
    | nil => exact ⟨[], rfl, Option.some.inj h⟩
    | cons a w ih =>
      simp only [List.mem_cons, not_or] at hw
      cases cs with
      | nil => cases h
      | cons c cs =>
        rw [Dialect.after?] at h
        split at h
        · rename_i hc
          obtain ⟨front, rfl, rfl⟩ := ih h ⟨hw.1.2, hw.2.2⟩
          refine ⟨c :: front, ?_, rfl⟩
          rw [Dialect.folded] at hc
          split at hc
          · exact absurd hc hw.1.1
          · split at hc
            · exact absurd hc hw.2.1
            · rw [List.map_cons, hc]
        · cases h
  exact hfront h (by decide)

/-- A URL without a mark and without blanks around it, and a mark and blanks to put around it. -/
structure MarkedUrl where
  before : List Char
  mark : List Char
  url : List Char
  after : List Char
  blankBefore : ∀ c ∈ before, Text.isBlank c = true
  blankAfter : ∀ c ∈ after, Text.isBlank c = true
  isMark : IsMark mark
  trimmed : Text.strip Text.isBlank url = url
  unmarked : ∀ mark t, IsMark mark → url ≠ mark ++ t

namespace MarkedUrl
variable (x : MarkedUrl)

def text : List Char := x.before ++ (x.mark ++ x.url ++ x.after)

/-- The parameters with the mark and the blanks around their URL. -/
def around (p : ConnectionParameters) : ConnectionParameters :=
  { p with url := String.ofList x.text }

theorem strip_text : Text.strip Text.isBlank x.text = x.mark ++ x.url := by
  have hlast : ∀ c ∈ (x.mark ++ x.url).getLast?, Text.isBlank c = false := by
    intro c hc
    rw [List.getLast?_append, Option.mem_def, Option.or_eq_some_iff] at hc
    rcases hc with hc | ⟨_, hc⟩
    · exact Text.getLast?_dropEnd _ _ c (x.trimmed.symm ▸ hc)
    · obtain ⟨s, hs, _⟩ := x.isMark.exists_scheme
      rw [hs, List.getLast?_concat] at hc
      exact Option.some.inj hc ▸ rfl
  have hafter : Text.dropEnd Text.isBlank x.after = [] := by
    rw [Text.dropEnd, List.dropWhile_eq_nil_iff.2 fun c hc => x.blankAfter c (List.mem_reverse.1 hc)]
    rfl
  rw [text, Text.strip_append x.blankBefore (List.append_assoc .. ▸ x.isMark.head_not_blank _),
    Text.dropEnd_append hlast, hafter, List.append_nil]

theorem after?_url : Dialect.after? "jdbc:".toList x.url = none := by
  refine Option.eq_none_iff_forall_ne_some.2 fun r hr => ?_
  obtain ⟨mark, hmark, hurl⟩ := exists_isMark hr
  exact x.unmarked mark r hmark hurl

theorem bare_url : Dialect.bare x.url = x.url := by
  rw [Dialect.bare, x.after?_url, Option.getD_none]

theorem unmarked_url : Endpoint.unmarked x.url = x.url := by
  obtain ⟨mark, hurl, hmark⟩ := Endpoint.exists_unmarked x.url
  rcases hmark with rfl | hmark
  · exact hurl.symm
  · exact absurd hurl (x.unmarked mark _ (IsUniformMark.isMark hmark))

theorem unmarked_of_uniform (h : IsUniformMark x.mark) :
    Endpoint.unmarked (x.mark ++ x.url) = x.url := by
  rw [Endpoint.unmarked, if_pos]
  · rcases h with h | h <;> rw [h] <;> rfl
  · rw [Bool.or_eq_true, List.isPrefixOf_iff_prefix, List.isPrefixOf_iff_prefix]
    rcases h with h | h <;> rw [h]
    · exact .inl (List.prefix_append _ _)
    · exact .inr (List.prefix_append _ _)

theorem unmarked_of_not_uniform (h : ¬ IsUniformMark x.mark) :
    Endpoint.unmarked (x.mark ++ x.url) = x.mark ++ x.url := by
  have hlength : x.mark.length = "jdbc:".toList.length := by
    rw [← x.isMark, List.length_map]
  obtain ⟨mark, hsplit, hmark⟩ := Endpoint.exists_unmarked (x.mark ++ x.url)
  rcases hmark with rfl | hmark
  · exact hsplit.symm
  · have hsame : mark.length = x.mark.length := by
      rcases hmark with rfl | rfl <;> exact hlength.symm
    exact absurd ((List.append_inj hsplit hsame.symm).1 ▸ hmark) h

section
variable {p : ConnectionParameters} {d : Dialect} (hurl : p.url.toList = x.url)
  (hd : p.dialect = .ok d)
include hurl hd

theorem exists_word : ∃ w ∈ d.words, Dialect.startsWith w x.url = true := by
  have hrecognizes := Dialect.ofUrl_eq_ok_iff.1 hd
  rw [hurl, x.trimmed] at hrecognizes
  exact x.bare_url ▸ Dialect.exists_word hrecognizes

theorem recognizes_marked : d.recognizes (x.mark ++ x.url) = true := by
  obtain ⟨w, hw, hstarts⟩ := x.exists_word hurl hd
  exact Dialect.recognizes_of_word hw (x.isMark.after?_append x.url) hstarts

theorem dialect_around : (x.around p).dialect = .ok d := by
  refine Dialect.ofUrl_eq_ok_iff.2 ?_
  rw [around, String.toList_ofList, strip_text]
  exact x.recognizes_marked hurl hd

/-- The mark is read as the scheme, as no slashes follow it. -/
theorem read_marked : Url.read (String.ofList (x.mark ++ x.url)) = .ok { scheme := "jdbc".toList } := by
  obtain ⟨s, hmark, hs, hname⟩ := x.isMark.exists_scheme
  have hnamed := Dialect.isNamed_of_marked x.isMark.map_folded (x.recognizes_marked hurl hd)
  have hspecial : Url.specialPort? (s.map Text.lowerAscii) = none := by rw [hname]; rfl
  have hne : s ≠ [] := by
    obtain ⟨c, cs, rfl, _⟩ := hs.begins
    exact List.cons_ne_nil c cs
  have hall : ∀ c ∈ s, 32 < c.toNat := fun c hc => by
    have hlow := (Url.IsSchemePart.toNat (hs.parts c hc)).1
    omega
  have hslashes : ∀ t, Url.cleaned (Text.dropEnd Url.isEdge x.url) ≠ '/' :: '/' :: t := by
    intro t ht
    obtain ⟨ws, hws, _⟩ := Text.exists_dropEnd Url.isEdge x.url
    have hclean : Url.cleaned x.url = '/' :: ('/' :: t ++ Url.cleaned ws) := by
      rw [hws, Url.cleaned_append, ht]
      rfl
    exact Url.not_isNamed_of_cleaned hclean hnamed
  have hread := Url.read_scheme hs hspecial hslashes (Url.cleaned_strip_append hall hne x.url)
  rwa [hname, List.append_cons, ← hmark] at hread

/-- All that is read of the URL is the same behind a uniform mark, and the mark itself else. -/
theorem endpoint_around : (x.around p).endpoint =
    if IsUniformMark x.mark then p.endpoint
    else .error (.configuration "Missing host in connection url") := by
  have hstrip : Text.strip Text.isBlank (x.around p).url.toList = x.mark ++ x.url := by
    rw [around, String.toList_ofList, strip_text]
  simp only [ConnectionParameters.endpoint, x.dialect_around hurl hd, hd, hstrip, hurl, x.trimmed,
    x.unmarked_url]
  by_cases hmark : IsUniformMark x.mark
  · rw [if_pos hmark, x.unmarked_of_uniform hmark]
    rfl
  · rw [if_neg hmark, x.unmarked_of_not_uniform hmark, x.read_marked hurl hd]
    rfl

end

end MarkedUrl

namespace ConnectionParameters

/-- Parameters of one dialect, and with one endpoint or none. -/
structure ReadAlike (p q : ConnectionParameters) : Prop where
  dialect : q.dialect = p.dialect
  endpoint : q.endpoint.toOption = p.endpoint.toOption

/-- A mark and blanks around a recognised URL never change the dialect. The parameters are read alike exactly
if the mark is uniform or there is no endpoint without it; behind another mark the host is missing. -/
theorem readAlike_marked_iff {p : ConnectionParameters} {d : Dialect} (x : MarkedUrl)
    (hurl : p.url.toList = x.url) (hd : p.dialect = .ok d) :
    (x.around p).dialect = .ok d ∧
    (p.ReadAlike (x.around p) ↔ IsUniformMark x.mark ∨ ∀ e, p.endpoint ≠ .ok e) ∧
    (¬ IsUniformMark x.mark →
      (x.around p).endpoint = .error (.configuration "Missing host in connection url")) := by
  have hdialect := x.dialect_around hurl hd
  have hendpoint := x.endpoint_around hurl hd
  refine ⟨hdialect, ⟨fun halike => ?_, fun h => ⟨hdialect.trans hd.symm, ?_⟩⟩,
    fun hmark => hendpoint.trans (if_neg hmark)⟩
  · by_cases hmark : IsUniformMark x.mark
    · exact .inl hmark
    · have hsame := halike.endpoint
      rw [hendpoint, if_neg hmark] at hsame
      refine .inr fun e he => ?_
      rw [he] at hsame
      cases hsame
  · rw [hendpoint]
    split
    · rfl
    · have hnone := h.resolve_left ‹_›
      cases he : p.endpoint with
      | ok e => exact absurd he (hnone e)
      | error e => rfl

/-- The URL of a server behind a mark. -/
def serverMarked (mark : String) (h : IsMark mark.toList) : MarkedUrl where
  before := [' ']
  mark := mark.toList
  url := "postgres://h/db".toList
  after := []
  blankBefore := List.forall_mem_singleton.2 (by decide)
  blankAfter := List.forall_mem_nil _
  isMark := h
  trimmed := by decide
  unmarked := fun m t hm heq => by
    have hafter := hm.after?_append t
    rw [← heq] at hafter
    cases hafter

/-- A mark whose letters are of one case is passed over, and one of mixed case is not. -/
theorem readAlike_marked_iff_cases :
    let p : ConnectionParameters := { url := "postgres://h/db" }
    p.ReadAlike ((serverMarked "JDBC:" (by decide)).around p) ∧
    ¬ p.ReadAlike ((serverMarked "Jdbc:" (by decide)).around p) ∧
    p.endpoint = .ok ⟨"h", 5432, "", "", "db", false⟩ := by
  have hendpoint : ({ url := "postgres://h/db" } : ConnectionParameters).endpoint =
      .ok ⟨"h", 5432, "", "", "db", false⟩ := by decide +kernel
  have hdialect : ({ url := "postgres://h/db" } : ConnectionParameters).dialect =
      .ok .postgreSQL := by decide +kernel
  refine ⟨(readAlike_marked_iff _ rfl hdialect).2.1.2 (.inl (.inr rfl)), fun halike => ?_, hendpoint⟩
  rcases (readAlike_marked_iff _ rfl hdialect).2.1.1 halike with hmark | hnone
  · exact absurd hmark (by decide)
  · exact hnone _ hendpoint

end ConnectionParameters

end ShardRegistry
