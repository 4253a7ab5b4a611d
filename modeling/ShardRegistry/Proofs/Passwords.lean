import ShardRegistry.Proofs.Credentials

/-! Passwords in the texts of URLs. If an endpoint can be read from a URL with a password, then the URL
has one of the schemes that are recognised, and the password stands in a place of its text that reading
finds again whatever the password is. -/
namespace ShardRegistry

/-! ### Recognised schemes -/

namespace Dialect

/-- The names that recognised URLs begin with, behind a mark. -/
def schemes : List String :=
  ["postgres", "postgresql", "mysql", "mariadb", "sqlserver", "microsoft", "h2", "oracle"]

/-- The text begins with one of these names, in any case. -/
def IsNamed (cs : List Char) : Prop :=
  ∃ w ∈ schemes, (cs.takeWhile (· ≠ ':')).map folded = w.toList

theorem after?_append (w w' cs : List Char) :
    after? (w ++ w') cs = (after? w cs).bind (after? w') := by
  induction w generalizing cs with
  | nil => rfl
  | cons a w ih =>
    cases cs with
    | nil => rfl
    | cons c cs =>
      simp only [List.cons_append, after?]
      split
      · exact ih cs
      · rfl

theorem after?_map_folded (cs ds : List Char) : after? (cs.map folded) (cs ++ ds) = some ds := by
  induction cs with
  | nil => rfl
  | cons c cs ih => simpa [after?] using ih

theorem folded_eq_colon_iff {c : Char} : folded c = ':' ↔ c = ':' := by
  refine ⟨fun h => ?_, by rintro rfl; decide⟩
  simp only [folded] at h
  split at h
  · cases h
  · split at h
    · cases h
    · have hn := congrArg Char.toNat h
      rw [Text.toNat_lowerAscii] at hn
      refine Char.toNat_inj.1 ?_
      change _ = 58 at hn
      change c.toNat = 58
      split at hn <;> omega

theorem takeWhile_of_after? (w w' : List Char) {cs r : List Char}
    (h : after? (w ++ ':' :: w') cs = some r) (hw : ':' ∉ w) :
    (cs.takeWhile (· ≠ ':')).map folded = w := by
  induction w generalizing cs with
  | nil =>
    cases cs with
    | nil => cases h
    | cons c cs =>
      simp only [List.nil_append, after?] at h
      split at h
      · rename_i hc
        simp [folded_eq_colon_iff.1 hc]
      · cases h
  | cons a w ih =>
    cases cs with
    | nil => cases h
    | cons c cs =>
      simp only [List.cons_append, after?] at h
      simp only [List.mem_cons, not_or] at hw
      split at h
      · rename_i hc
        have hne : c ≠ ':' := fun heq => hw.1 ((folded_eq_colon_iff.2 heq).symm.trans hc)
        rw [List.takeWhile_cons_of_pos (by simp [hne]), List.map_cons, hc, ih h hw.2]
      · cases h

theorem isNamed_of_startsWith (w w' : List Char) {word : String} {cs : List Char}
    (h : startsWith word cs = true) (hword : word.toList = w ++ ':' :: w')
    (hw : String.ofList w ∈ schemes) (hcolon : ':' ∉ w) : IsNamed cs := by
  obtain ⟨r, hr⟩ := Option.isSome_iff_exists.1 h
  rw [hword] at hr
  exact ⟨_, hw, by rw [takeWhile_of_after? w w' hr hcolon, String.toList_ofList]⟩

theorem withOptional_cases {word : String} {p : List Char → Bool} {cs : List Char}
    (h : withOptional word p cs = true) :
    p cs = true ∨ ∃ r, after? word.toList cs = some r ∧ p r = true := by
  simp only [withOptional, Bool.or_eq_true] at h
  rcases h with h | h
  · exact .inl h
  · split at h
    · exact .inr ⟨_, ‹_›, h⟩
    · cases h

theorem isPlain_of_mem {w : String} (h : w ∈ schemes) : Url.IsPlain w.toList := by
  simp only [schemes, List.mem_cons, List.not_mem_nil, or_false] at h
  rcases h with rfl | rfl | rfl | rfl | rfl | rfl | rfl | rfl <;> exact ⟨rfl, by decide⟩

/-- Each of the names begins with a small letter, and none is the mark. -/
theorem head?_of_mem {w : String} (h : w ∈ schemes) :
    w.toList ≠ "jdbc".toList ∧ ∃ c ∈ w.toList.head?, 'a' ≤ c := by
  simp only [schemes, List.mem_cons, List.not_mem_nil, or_false] at h
  rcases h with rfl | rfl | rfl | rfl | rfl | rfl | rfl | rfl <;>
    exact ⟨by decide, _, rfl, by decide⟩

/-- A recognised URL begins with one of the names, or with a mark and one of the names. -/
theorem isNamed_of_recognizes {d : Dialect} {cs : List Char} (h : d.recognizes cs = true) :
    IsNamed cs ∨ ∃ r, after? "jdbc:".toList cs = some r ∧ IsNamed r := by
  have hoptional {p : List Char → Bool} (hp : ∀ cs, p cs = true → IsNamed cs)
      (h : withOptional "jdbc:" p cs = true) :
      IsNamed cs ∨ ∃ r, after? "jdbc:".toList cs = some r ∧ IsNamed r := by
    rcases withOptional_cases h with h | ⟨r, hr, h⟩
    · exact .inl (hp cs h)
    · exact .inr ⟨r, hr, hp r h⟩
  have hbehind {w : List Char} (h : startsWith (String.ofList ("jdbc:".toList ++ w ++ [':'])) cs = true)
      (hw : String.ofList w ∈ schemes) (hcolon : ':' ∉ w) :
      IsNamed cs ∨ ∃ r, after? "jdbc:".toList cs = some r ∧ IsNamed r := by
    obtain ⟨r', hr'⟩ := Option.isSome_iff_exists.1 h
    rw [String.toList_ofList, List.append_assoc, after?_append] at hr'
    obtain ⟨r, hr, hr'⟩ := Option.bind_eq_some_iff.1 hr'
    exact .inr ⟨r, hr, _, hw, by rw [takeWhile_of_after? w [] hr' hcolon, String.toList_ofList]⟩
  cases d <;> simp only [recognizes] at h
  case postgreSQL =>
    refine hoptional (fun cs h => ?_) h
    rcases Bool.or_eq_true _ _ ▸ h with h | h
    · exact isNamed_of_startsWith "postgres".toList "//".toList h rfl
        (by simp [schemes]) (by decide)
    · exact isNamed_of_startsWith "postgresql".toList "//".toList h rfl
        (by simp [schemes]) (by decide)
  case mySQL =>
    refine hoptional (fun cs h => ?_) h
    rcases Bool.or_eq_true _ _ ▸ h with h | h
    · exact isNamed_of_startsWith "mysql".toList "//".toList h rfl
        (by simp [schemes]) (by decide)
    · exact isNamed_of_startsWith "mariadb".toList "//".toList h rfl
        (by simp [schemes]) (by decide)
  case sqlServer =>
    refine hoptional (fun cs h => ?_) h
    rcases withOptional_cases h with h | ⟨r, hr, _⟩
    · exact isNamed_of_startsWith "sqlserver".toList "//".toList h rfl
        (by simp [schemes]) (by decide)
    · have hword : startsWith "microsoft:" cs = true := Option.isSome_iff_exists.2 ⟨r, hr⟩
      exact isNamed_of_startsWith "microsoft".toList [] hword rfl (by simp [schemes]) (by decide)
  case h2 => exact hbehind (w := "h2".toList) h (by simp [schemes]) (by decide)
  case oracle => exact hbehind (w := "oracle".toList) h (by simp [schemes]) (by decide)

/-- A recognised URL behind a mark begins with one of the names. -/
theorem isNamed_of_marked {d : Dialect} {mark t : List Char}
    (hm : mark.map folded = "jdbc:".toList) (h : d.recognizes (mark ++ t) = true) : IsNamed t := by
  have hafter := hm ▸ after?_map_folded mark t
  rcases isNamed_of_recognizes h with ⟨w, hw, hname⟩ | ⟨r, hr, hnamed⟩
  · have hjdbc := takeWhile_of_after? "jdbc".toList [] hafter (by decide)
    exact absurd (hname.symm.trans hjdbc) (head?_of_mem hw).1
  · rw [hafter] at hr
    exact Option.some.inj hr ▸ hnamed

end Dialect

/-- A URL of an endpoint has a path. -/
theorem Endpoint.path_of_ofUrl {p : ConnectionParameters} {d : Dialect} {url : Url} {e : Endpoint}
    (h : ofUrl p d url = .ok e) : url.path ≠ [] := by
  intro hpath
  simp only [ofUrl, hpath] at h
  split at h
  · split at h
    · cases h
    · cases h
  · cases h

/-! ### The place of a password -/

namespace Url

theorem IsSchemePart.toNat {c : Char} (h : isSchemePart c = true) : 43 ≤ c.toNat ∧ c.toNat < 128 := by
  simp only [isSchemePart, Bool.or_eq_true, Text.isLetter, Text.isDigit, Bool.and_eq_true,
    decide_eq_true_eq] at h
  rcases h with ((⟨h₁, h₂⟩ | ⟨h₁, h₂⟩) | ⟨h₁, h₂⟩) | h
  · have h₁ : 97 ≤ c.toNat := h₁
    have h₂ : c.toNat ≤ 122 := h₂
    omega
  · have h₁ : 65 ≤ c.toNat := h₁
    have h₂ : c.toNat ≤ 90 := h₂
    omega
  · have h₁ : 48 ≤ c.toNat := h₁
    have h₂ : c.toNat ≤ 57 := h₂
    omega
  · have h : c = '+' ∨ c = '-' ∨ c = '.' := by simpa [isOneOf] using h
    rcases h with rfl | rfl | rfl <;> decide

theorem not_isOneOf_of_toNat {c : Char} (h : 32 < c.toNat) : isOneOf "\t\n\r" c = false := by
  rw [Bool.eq_false_iff]
  intro hc
  have hc : c = '\t' ∨ c = '\n' ∨ c = '\r' := by simpa [isOneOf] using hc
  rcases hc with rfl | rfl | rfl <;> exact absurd h (by decide)

theorem toNat_of_endsAuthority {c : Char} (h : endsAuthority false c = true) : 32 < c.toNat := by
  have h : c = '/' ∨ c = '?' ∨ c = '#' := by simpa [endsAuthority, or_assoc] using h
  rcases h with rfl | rfl | rfl <;> decide

theorem takeWhile_append_colon {s : List Char} (h : ':' ∉ s) (t : List Char) :
    (s ++ ':' :: t).takeWhile (· ≠ ':') = s := by
  have hall : ∀ c ∈ s, decide (c ≠ ':') = true := fun c hc => decide_eq_true fun heq => h (heq ▸ hc)
  rw [List.takeWhile_append_of_pos hall, List.takeWhile_cons_of_neg (by simp), List.append_nil]

/-- A text that is read with a slash in front does not begin with one of the names. -/
theorem not_isNamed_of_cleaned {cs t : List Char} (h : cleaned cs = '/' :: t) :
    ¬ Dialect.IsNamed cs := by
  rintro ⟨w, hw, hname⟩
  obtain ⟨c, hc, hletter⟩ := (Dialect.head?_of_mem hw).2
  rw [← hname] at hc
  cases cs with
  | nil => cases h
  | cons d ds =>
    have hd : d = '/' ∨ d = '\t' ∨ d = '\n' ∨ d = '\r' := by
      by_cases hskipped : isOneOf "\t\n\r" d = true
      · exact .inr (by simpa [isOneOf] using hskipped)
      · rw [cleaned, List.filter_cons_of_pos (by simpa using hskipped)] at h
        exact .inl (List.cons.inj h).1
    rcases hd with rfl | rfl | rfl | rfl <;> cases hc <;> exact absurd hletter (by decide)

namespace IsScheme
variable {s : List Char} (h : IsScheme s)
include h

theorem colon : ':' ∉ s := fun hc => absurd (h.parts _ hc) (by decide)

theorem cleaned : Url.cleaned s = s :=
  List.filter_eq_self.2 fun c hc => by
    have hn := (IsSchemePart.toNat (h.parts c hc)).1
    simp [not_isOneOf_of_toNat (c := c) (by omega)]

theorem map_folded : s.map Dialect.folded = s.map Text.lowerAscii := by
  refine List.map_congr_left fun c hc => ?_
  have hn := (IsSchemePart.toNat (h.parts c hc)).2
  rw [Dialect.folded, if_neg (by omega), if_neg (by omega)]

theorem not_faint (t : List Char) : ∀ c ∈ (s ++ t).head?, ¬ IsFaint c := by
  obtain ⟨d, ds, rfl, _⟩ := h.begins
  rintro c ⟨⟩ hfaint
  obtain ⟨hlow, hhigh⟩ := IsSchemePart.toNat (h.parts d List.mem_cons_self)
  exact hfaint.toNat_ne (by omega) hhigh rfl

end IsScheme

end Url

/-- The place of a password in the text of a URL, behind a user, and what follows the password and an at
sign. There may be blanks, and a mark in lower or upper case, before the scheme. -/
structure PasswordSite where
  blanks : List Char
  mark : List Char
  scheme : List Char
  /-- Two slashes, and characters that are passed over. -/
  slashes : List Char
  user : List Char
  server : List Char
  blank : ∀ c ∈ blanks, Text.isBlank c = true
  marked : mark = [] ∨ mark = "jdbc:".toList ∨ mark = "JDBC:".toList
  named : Url.IsScheme scheme
  slashed : Url.cleaned slashes = ['/', '/']
  ofUser : ∀ c ∈ user, c ≠ ':' ∧ Url.endsAuthority false c = false
  ofServer : '@' ∉ server.takeWhile fun c => !Url.endsAuthority false c

namespace PasswordSite

/-- A text that is read as a password, and not as none. -/
structure Admits (password : List Char) : Prop where
  inside : ∀ c ∈ password, Url.endsAuthority false c = false
  nonempty : Url.cleaned password ≠ []

variable (x : PasswordSite) (password : List Char)

/-- From the scheme to the at sign. -/
def front : List Char :=
  x.scheme ++ (':' :: (x.slashes ++ (x.user ++ (':' :: (password ++ ['@'])))))

/-- The text of a URL with a password in that place. -/
def text : List Char := x.blanks ++ (x.mark ++ (x.front password ++ x.server))

/-- The scheme as it is read. -/
def schemeName : List Char := x.scheme.map Text.lowerAscii

/-- Reads the server, of which characters may be dropped or not. -/
def readServer (server : List Char) : Except Url.Fault Url :=
  Url.readServer x.schemeName (Text.percentEncode Url.userEscaped (Url.cleaned x.user))
    (Url.cleaned server)

theorem cleaned_front : Url.cleaned (x.front password) = x.scheme ++ ':' :: '/' :: '/' ::
    (Url.cleaned x.user ++ ':' :: Url.cleaned password ++ ['@']) := by
  have hcons (c : Char) (hc : Url.isOneOf "\t\n\r" c = false) (cs : List Char) :
      Url.cleaned (c :: cs) = c :: Url.cleaned cs :=
    List.filter_cons_of_pos (by simp [hc])
  rw [front, Url.cleaned_append, x.named.cleaned, hcons ':' (by decide), Url.cleaned_append,
    x.slashed, Url.cleaned_append, hcons ':' (by decide), Url.cleaned_append,
    hcons '@' (by decide)]
  simp [Url.cleaned]

theorem front_append (t : List Char) : x.front password ++ t = x.scheme ++ ':' ::
    (x.slashes ++ (x.user ++ (':' :: (password ++ '@' :: t)))) := by
  simp [front]

theorem getLast?_front (cs : List Char) : (cs ++ x.front password).getLast? = some '@' := by
  have hlast : cs ++ x.front password = (cs ++ x.scheme ++ (':' :: (x.slashes ++ (x.user ++
    (':' :: password))))) ++ ['@'] := by simp [front]
  rw [hlast, List.getLast?_concat]

variable {password}

/-- What is read does not depend on the password but for its part in it, whatever controls and spaces
stand before the scheme, and whatever follows the at sign. -/
theorem read_front (hplain : Url.IsPlain x.schemeName) (hp : Admits password) {cs t : List Char}
    (hcs : ∀ c ∈ cs, Url.isEdge c = true)
    (ht : '@' ∉ t.takeWhile fun c => !Url.endsAuthority false c) :
    Url.read (String.ofList (cs ++ (x.front password ++ t))) =
      (x.readServer (Text.dropEnd Url.isEdge t)).map fun url => { url with
        password := some (Text.percentEncode Url.userEscaped (Url.cleaned password)) } := by
  have hedge : ∀ c ∈ (x.front password).getLast?, Url.isEdge c = false := by
    have hlast : (x.front password).getLast? = some '@' := x.getLast?_front password []
    rw [hlast]
    rintro c ⟨⟩
    decide
  have hhead : ∀ c ∈ (x.front password ++ t).head?, Url.isEdge c = false := fun c hc => by
    rw [front_append] at hc
    exact Bool.eq_false_iff.2 fun h => x.named.not_faint _ c hc (.inr h)
  have hclean : Url.cleaned (Text.strip Url.isEdge (cs ++ (x.front password ++ t))) =
      x.scheme ++ ':' :: '/' :: '/' :: (Url.cleaned x.user ++ ':' :: Url.cleaned password ++
        '@' :: Url.cleaned (Text.dropEnd Url.isEdge t)) := by
    rw [Text.strip_append hcs hhead, Text.dropEnd_append hedge, Url.cleaned_append, cleaned_front]
    simp
  have huser : ∀ c ∈ Url.cleaned x.user, c ≠ ':' ∧ Url.endsAuthority false c = false :=
    fun c hc => x.ofUser c (Url.mem_of_mem_cleaned hc)
  have hserver : '@' ∉ (Url.cleaned (Text.dropEnd Url.isEdge t)).takeWhile
      fun c => !Url.endsAuthority false c := by
    obtain ⟨ws, hws, _⟩ := Text.exists_dropEnd Url.isEdge t
    rw [hws] at ht
    refine not_mem_takeWhile_filter (fun c hc => ?_) (not_mem_takeWhile_of_append ht)
    rw [Url.not_isOneOf_of_toNat (Url.toNat_of_endsAuthority (by simpa using hc))]
    rfl
  have hpassword : ∀ c ∈ Url.cleaned password, Url.endsAuthority false c = false :=
    fun c hc => hp.inside c (Url.mem_of_mem_cleaned hc)
  rw [Url.read_authority x.named hplain hclean,
    Url.readAuthority_append huser hpassword hp.nonempty hserver]
  rfl

/-! ### Endpoints -/

theorem not_faint_front (t : List Char) :
    ∀ c ∈ (x.mark ++ (x.front password ++ t)).head?, ¬ Url.IsFaint c := by
  intro c hc
  rcases x.marked with hm | hm | hm
  · rw [hm, List.nil_append, front_append] at hc
    exact x.named.not_faint _ c hc
  · rw [hm] at hc
    cases hc
    exact fun h => h.toNat_ne (n := 106) (by omega) (by omega) rfl
  · rw [hm] at hc
    cases hc
    exact fun h => h.toNat_ne (n := 74) (by omega) (by omega) rfl

theorem strip_text : Text.strip Text.isBlank (x.text password) =
    x.mark ++ (x.front password ++ Text.dropEnd Text.isBlank x.server) := by
  have hhead : ∀ c ∈ (x.mark ++ (x.front password ++ x.server)).head?, Text.isBlank c = false :=
    fun c hc => Bool.eq_false_iff.2 fun h => x.not_faint_front _ c hc (.inl h)
  have hlast : ∀ c ∈ (x.mark ++ x.front password).getLast?, Text.isBlank c = false := by
    rw [getLast?_front]
    rintro c ⟨⟩
    decide
  rw [text, Text.strip_append x.blank hhead, ← List.append_assoc, Text.dropEnd_append hlast,
    List.append_assoc]

theorem takeWhile_scheme (t : List Char) :
    (x.scheme ++ ':' :: t).takeWhile (· ≠ ':') = x.scheme :=
  Url.takeWhile_append_colon x.named.colon t

theorem schemeName_of_isNamed {t : List Char} (h : Dialect.IsNamed (x.scheme ++ ':' :: t)) :
    ∃ w ∈ Dialect.schemes, x.schemeName = w.toList := by
  obtain ⟨w, hw, hname⟩ := h
  rw [takeWhile_scheme, x.named.map_folded] at hname
  exact ⟨w, hw, hname⟩

theorem not_isNamed_slashes (t : List Char) : ¬ Dialect.IsNamed (x.slashes ++ t) := by
  have hclean : Url.cleaned (x.slashes ++ t) = '/' :: '/' :: Url.cleaned t := by
    rw [Url.cleaned_append, x.slashed]
    rfl
  exact Url.not_isNamed_of_cleaned hclean

/-- A URL that is recognised has one of the schemes in that place. -/
theorem schemeName_of_recognizes {d : Dialect} {t : List Char}
    (h : d.recognizes (x.mark ++ (x.scheme ++ ':' :: (x.slashes ++ t))) = true) :
    ∃ w ∈ Dialect.schemes, x.schemeName = w.toList := by
  have hmarked (hm : x.mark.map Dialect.folded = "jdbc:".toList) :
      ∃ w ∈ Dialect.schemes, x.schemeName = w.toList :=
    x.schemeName_of_isNamed (Dialect.isNamed_of_marked hm h)
  rcases x.marked with hm | hm | hm
  · rw [hm, List.nil_append] at h
    rcases Dialect.isNamed_of_recognizes h with hnamed | ⟨r, hr, hnamed⟩
    · exact x.schemeName_of_isNamed hnamed
    · -- the scheme itself would be the mark, but slashes follow
      have hjdbc := Dialect.takeWhile_of_after? "jdbc".toList [] hr (by decide)
      rw [takeWhile_scheme] at hjdbc
      have hmark : (x.scheme ++ [':']).map Dialect.folded = "jdbc:".toList := by
        rw [List.map_append, hjdbc]
        decide
      have hafter := hmark ▸ Dialect.after?_map_folded (x.scheme ++ [':']) (x.slashes ++ t)
      rw [List.append_assoc, List.singleton_append, hr] at hafter
      exact absurd (Option.some.inj hafter ▸ hnamed) (x.not_isNamed_slashes t)
  · exact hmarked (by rw [hm]; decide)
  · exact hmarked (by rw [hm]; decide)

theorem schemeName_of_ofUrl {url : String} (hurl : url.toList = x.text password) {d : Dialect}
    (h : Dialect.ofUrl url = .ok d) : ∃ w ∈ Dialect.schemes, x.schemeName = w.toList := by
  simp only [Dialect.ofUrl] at h
  split at h
  · rename_i hfind
    have hrecognizes := List.find?_some hfind
    rw [hurl, strip_text, front_append] at hrecognizes
    exact x.schemeName_of_recognizes hrecognizes
  · cases h

/-- The scheme is not the mark. -/
theorem not_marked_scheme (hscheme : ∃ w ∈ Dialect.schemes, x.schemeName = w.toList) (mark : List Char)
    (hm : mark.map Text.lowerAscii = "jdbc".toList) (password t : List Char) :
    ¬ mark ++ [':'] <+: x.front password ++ t := by
  rintro ⟨r, hr⟩
  obtain ⟨w, hw, hname⟩ := hscheme
  rw [front_append] at hr
  have hcolon : ∀ c ∈ mark, decide (c ≠ ':') = true := by
    intro c hc
    refine decide_eq_true fun heq => ?_
    have hmem : ':' ∈ mark.map Text.lowerAscii := List.mem_map.2 ⟨c, hc, by rw [heq]; decide⟩
    rw [hm] at hmem
    exact absurd hmem (by decide)
  have htake := congrArg (List.takeWhile (· ≠ ':')) hr
  rw [takeWhile_scheme, List.append_assoc, List.takeWhile_append_of_pos hcolon] at htake
  have hscheme : mark = x.scheme := by simpa using htake
  rw [hscheme] at hm
  exact (Dialect.head?_of_mem hw).1 (hname.symm.trans hm)

theorem unmarked_front (hscheme : ∃ w ∈ Dialect.schemes, x.schemeName = w.toList) (t : List Char) :
    Endpoint.unmarked (x.mark ++ (x.front password ++ t)) = x.front password ++ t := by
  rcases x.marked with hm | hm | hm
  · have hlower := x.not_marked_scheme hscheme "jdbc".toList (by decide) password t
    have hupper := x.not_marked_scheme hscheme "JDBC".toList (by decide) password t
    rw [hm, List.nil_append, Endpoint.unmarked, if_neg]
    rw [Bool.or_eq_true, List.isPrefixOf_iff_prefix, List.isPrefixOf_iff_prefix, not_or]
    exact ⟨hlower, hupper⟩
  · rw [hm, Endpoint.unmarked, if_pos]
    · rfl
    · rw [Bool.or_eq_true]
      exact .inl (List.isPrefixOf_iff_prefix.2 (List.prefix_append _ _))
  · rw [hm, Endpoint.unmarked, if_pos]
    · rfl
    · rw [Bool.or_eq_true]
      exact .inr (List.isPrefixOf_iff_prefix.2 (List.prefix_append _ _))

/-- If an endpoint can be read, then the scheme is a recognised one, and the server can be read, with a
path, when the blanks at the end are dropped. -/
theorem server_of_endpoint {p : ConnectionParameters} (hurl : p.url.toList = x.text password)
    (hp : Admits password) {e : Endpoint} (h : p.endpoint = .ok e) :
    (∃ w ∈ Dialect.schemes, x.schemeName = w.toList) ∧
    ∃ url, x.readServer (Text.dropEnd Url.isEdge (Text.dropEnd Text.isBlank x.server)) = .ok url ∧
      url.path ≠ [] := by
  simp only [ConnectionParameters.endpoint] at h
  obtain ⟨d, hd, h⟩ := bind_eq_ok h
  have hscheme := x.schemeName_of_ofUrl hurl hd
  refine ⟨hscheme, ?_⟩
  obtain ⟨w, hw, hname⟩ := hscheme
  obtain ⟨ws, hws, _⟩ := Text.exists_dropEnd Text.isBlank x.server
  have hserver := x.ofServer
  rw [hws] at hserver
  have hread := x.read_front (hname ▸ Dialect.isPlain_of_mem hw) hp
    (fun c (hc : c ∈ []) => absurd hc List.not_mem_nil) (not_mem_takeWhile_of_append hserver)
  rw [List.nil_append] at hread
  rw [hurl, strip_text, unmarked_front x ⟨w, hw, hname⟩, hread] at h
  cases hread' : x.readServer (Text.dropEnd Url.isEdge (Text.dropEnd Text.isBlank x.server)) with
  | error fault =>
    rw [hread'] at h
    cases h
  | ok url =>
    rw [hread'] at h
    refine ⟨url, rfl, ?_⟩
    simp only [Except.map] at h
    split at h
    · cases h
    · rename_i hofUrl
      have hpath := Endpoint.path_of_ofUrl hofUrl
      exact hpath

/-- Then it can be read as well when fewer characters are dropped at the end. -/
theorem readServer_dropEnd {url : Url}
    (h : x.readServer (Text.dropEnd Url.isEdge (Text.dropEnd Text.isBlank x.server)) = .ok url)
    (hpath : url.path ≠ []) : ∃ url', x.readServer (Text.dropEnd Url.isEdge x.server) = .ok url' := by
  obtain ⟨bs, hbs, hblank⟩ := Text.exists_dropEnd Text.isBlank x.server
  obtain ⟨es, hes, hedge⟩ := Text.exists_dropEnd Url.isEdge (Text.dropEnd Text.isBlank x.server)
  have hserver : Text.dropEnd Url.isEdge x.server =
      Text.dropEnd Url.isEdge (Text.dropEnd Text.isBlank x.server) ++
        Text.dropEnd Url.isEdge (es ++ bs) := by
    conv_lhs => rw [hbs, hes, List.append_assoc]
    exact Text.dropEnd_append (Text.getLast?_dropEnd _ _)
  rw [hserver, readServer, Url.cleaned_append]
  refine Url.readServer_append h hpath fun c hc => ?_
  obtain ⟨ds, hds, _⟩ := Text.exists_dropEnd Url.isEdge (es ++ bs)
  have hmem : c ∈ es ++ bs := by
    rw [hds]
    exact List.mem_append_left _ (Url.mem_of_mem_cleaned hc)
  exact (List.mem_append.1 hmem).symm.imp (hblank c) (hedge c)

end PasswordSite

end ShardRegistry
