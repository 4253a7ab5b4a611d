import ShardRegistry.Proofs.Passwords

/-! Sites of passwords. Every password that an endpoint finds in its URL stands in a place of the text where
it may be replaced: the parts of such a place say nothing that reading the URL does not tell. -/
namespace ShardRegistry

/-! ### Texts that are taken apart -/

theorem not_mem_takeWhile_of_filter {q f : Char → Bool} {c : Char} (hc : f c = true)
    {cs : List Char} (h : c ∉ (cs.filter f).takeWhile q) : c ∉ cs.takeWhile q := by
  induction cs with
  | nil => exact h
  | cons d cs ih =>
    cases hq : q d with
    | false => simp [hq]
    | true =>
      rw [List.takeWhile_cons_of_pos hq, List.mem_cons, not_or]
      cases hd : f d with
      | false =>
        rw [List.filter_cons_of_neg (by simp [hd])] at h
        exact ⟨fun heq => by simp [heq, hd] at hc, ih h⟩
      | true =>
        rw [List.filter_cons_of_pos hd, List.takeWhile_cons_of_pos hq, List.mem_cons, not_or] at h
        exact ⟨h.1, ih h.2⟩

theorem not_mem_takeWhile_append {q : Char → Bool} {c : Char} {cs ds : List Char}
    (hcs : c ∉ cs.takeWhile q) (hds : c ∉ ds) : c ∉ (cs ++ ds).takeWhile q := by
  rw [List.takeWhile_append]
  split
  · rename_i hlength
    have hall : cs.takeWhile q = cs := (List.takeWhile_prefix q).eq_of_length hlength
    rw [List.mem_append, not_or]
    exact ⟨hall ▸ hcs, fun hc => hds ((List.takeWhile_prefix q).subset hc)⟩
  · exact hcs

/-- A text is what stands between its blanks. -/
theorem Text.exists_strip (p : Char → Bool) (cs : List Char) :
    ∃ bs ws, cs = bs ++ (strip p cs ++ ws) ∧ (∀ c ∈ bs, p c = true) ∧ ∀ c ∈ ws, p c = true := by
  obtain ⟨ws, hws, hblank⟩ := exists_dropEnd p (cs.dropWhile p)
  refine ⟨cs.takeWhile p, ws, ?_, fun c hc => List.mem_takeWhile_imp hc, hblank⟩
  rw [strip, ← hws, List.takeWhile_append_dropWhile]

namespace Url

/-- What is read of a text goes on with a character where the text does. -/
theorem exists_of_cleaned {cs ds es : List Char} {c : Char} (h : cleaned cs = ds ++ c :: es) :
    ∃ cs₁ cs₂, cs = cs₁ ++ c :: cs₂ ∧ cleaned cs₁ = ds ∧ cleaned cs₂ = es := by
  obtain ⟨cs₁, cs', rfl, hcs₁, h⟩ := List.filter_eq_append_iff.1 h
  obtain ⟨skipped, cs₂, rfl, hskipped, _, hcs₂⟩ := List.filter_eq_cons_iff.1 h
  refine ⟨cs₁ ++ skipped, cs₂, by simp, ?_, hcs₂⟩
  rw [cleaned_append, cleaned, hcs₁, cleaned, List.filter_eq_nil_iff.2 hskipped, List.append_nil]

/-- Where a text goes on behind what stands before a character, it goes on with that character. -/
theorem split_of_dropWhile {c d : Char} {cs ds : List Char} (h : cs.dropWhile (· ≠ c) = d :: ds) :
    cs = cs.takeWhile (· ≠ c) ++ c :: ds ∧ c ∉ cs.takeWhile (· ≠ c) := by
  have hd : d = c := by
    simpa using Text.head?_dropWhile (· ≠ c) cs d (by rw [h]; rfl)
  have hsplit := List.takeWhile_append_dropWhile (p := (· ≠ c)) (l := cs)
  rw [h, hd] at hsplit
  exact ⟨hsplit.symm, fun hmem => by simpa using List.mem_takeWhile_imp hmem⟩

theorem mem_cleaned_or {c : Char} {cs : List Char} (h : c ∈ cs) : c ∈ cleaned cs ∨ IsFaint c := by
  by_cases hc : isOneOf "\t\n\r" c = true
  · refine .inr (.inr (decide_eq_true (Nat.le_of_not_lt fun hlt => ?_)))
    rw [not_isOneOf_of_toNat hlt] at hc
    cases hc
  · exact .inl (List.mem_filter.2 ⟨h, by simpa using hc⟩)

theorem splitLastAt_ok {cs ds es : List Char} (h : splitLastAt cs = some (ds, es)) :
    cs = ds ++ '@' :: es ∧ '@' ∉ es := by
  simp only [splitLastAt] at h
  split at h
  · rename_i hdrop
    cases h
    obtain ⟨hsplit, hnot⟩ := split_of_dropWhile hdrop
    refine ⟨List.reverse_inj.1 (hsplit.trans ?_), by simpa using hnot⟩
    simp
  · cases h

theorem exists_of_readCredentials {cs : List Char}
    (h : (Credentials.read cs).password.isSome = true) :
    ∃ user password, cs = user ++ ':' :: password ∧ ':' ∉ user ∧ password ≠ [] := by
  rw [Credentials.read] at h
  cases hdrop : cs.dropWhile (· ≠ ':') with
  | nil =>
    rw [hdrop] at h
    cases h
  | cons c password =>
    obtain ⟨hsplit, hnot⟩ := split_of_dropWhile hdrop
    refine ⟨_, password, hsplit, hnot, ?_⟩
    rintro rfl
    rw [hdrop] at h
    cases h

/-- The password of a URL is that of the credentials before the last at sign of its authority. -/
theorem credentials_of_readAuthority {scheme cs : List Char} {url : Url}
    (h : readAuthority scheme false cs = .ok url) (hp : url.password.isSome = true) :
    ∃ user host, splitLastAt (cs.takeWhile fun c => !endsAuthority false c) = some (user, host) ∧
      (Credentials.read user).password.isSome = true := by
  simp only [readAuthority, bind, Except.bind, pure, Except.pure, throw, throwThe,
    MonadExceptOf.throw] at h
  rcases hat : splitLastAt (cs.takeWhile fun c => !endsAuthority false c) with
    _ | ⟨_ | ⟨c, user⟩, host⟩ <;>
    simp only [hat, Bool.false_eq_true, if_false] at h <;> repeat' split at h
  all_goals cases h
  -- without a user before an at sign there is no password in what was read
  all_goals first
    | exact ⟨_, _, rfl, hp⟩
    | cases hp

/-- An authority from which a password is read has it behind a user. -/
theorem exists_of_readAuthority {scheme cs : List Char} {url : Url}
    (h : readAuthority scheme false cs = .ok url) (hp : url.password.isSome = true) :
    ∃ user password server, cs = user ++ ':' :: (password ++ '@' :: server) ∧ password ≠ [] ∧
      (∀ c ∈ user, c ≠ ':' ∧ endsAuthority false c = false) ∧
      (∀ c ∈ password, endsAuthority false c = false) ∧
      '@' ∉ server.takeWhile fun c => !endsAuthority false c := by
  obtain ⟨credentials, host, hat, hsome⟩ := credentials_of_readAuthority h hp
  obtain ⟨hauthority, hhost⟩ := splitLastAt_ok hat
  obtain ⟨user, password, rfl, huser, hne⟩ := exists_of_readCredentials hsome
  have hinside : ∀ c ∈ user ++ ':' :: password ++ '@' :: host, endsAuthority false c = false := by
    intro c hc
    have hnot := List.mem_takeWhile_imp (hauthority ▸ hc)
    simpa only [Bool.not_eq_true'] using hnot
  have hcs := List.takeWhile_append_dropWhile (p := fun c => !endsAuthority false c) (l := cs)
  have hafter := Text.head?_dropWhile (fun c => !endsAuthority false c) cs
  rw [hauthority] at hcs
  refine ⟨user, password, host ++ cs.dropWhile fun c => !endsAuthority false c, ?_, hne,
    fun c hc => ⟨fun heq => huser (heq ▸ hc), hinside c (by simp [hc])⟩,
    fun c hc => hinside c (by simp [hc]), ?_⟩
  · simpa using hcs.symm
  · have hall : ∀ c ∈ host, (!endsAuthority false c) = true := fun c hc => by
      simp [hinside c (by simp [hc])]
    have hstop : (cs.dropWhile fun c => !endsAuthority false c).takeWhile
        (fun c => !endsAuthority false c) = [] := by
      cases hdrop : cs.dropWhile fun c => !endsAuthority false c with
      | nil => rfl
      | cons c after => exact List.takeWhile_cons_of_neg (by simp [hafter c (by rw [hdrop]; rfl)])
    rw [List.takeWhile_append_of_pos hall, hstop, List.append_nil]
    exact hhost

theorem readScheme_some {cs name t : List Char} (h : readScheme cs = some (name, t)) :
    ∃ s, IsScheme s ∧ cs = s ++ ':' :: t ∧ name = s.map Text.lowerAscii := by
  rw [readScheme_eq] at h
  split at h
  · rename_i rest hdrop
    dsimp only at h
    split at h
    · rename_i hletter
      cases h
      have hsplit := List.takeWhile_append_dropWhile (p := isSchemePart) (l := cs)
      rw [hdrop] at hsplit
      refine ⟨_, ⟨?_, fun c hc => List.mem_takeWhile_imp hc⟩, hsplit.symm, rfl⟩
      cases hscheme : cs.takeWhile isSchemePart with
      | nil =>
        rw [hscheme] at hletter
        cases hletter
      | cons c s =>
        rw [hscheme] at hletter
        exact ⟨c, s, rfl, hletter⟩
    · cases h
  · cases h

theorem lt_of_lt_folded {c : Char} (h : 32 < (Dialect.folded c).toNat) : 32 < c.toNat := by
  rw [Dialect.folded] at h
  split at h
  · omega
  · split at h
    · omega
    · rw [Text.toNat_lowerAscii] at h
      split at h <;> omega

/-- A name in front of a URL is left as it is. -/
theorem cleaned_strip_append {s : List Char} (hall : ∀ c ∈ s, 32 < c.toNat) (hne : s ≠ [])
    (after : List Char) : cleaned (Text.strip isEdge (s ++ ':' :: after)) =
      s ++ ':' :: cleaned (Text.dropEnd isEdge after) := by
  have hhead : ∀ c ∈ (s ++ ':' :: after).head?, isEdge c = false := by
    intro c hc
    obtain ⟨d, s, rfl⟩ := List.exists_cons_of_ne_nil hne
    cases hc
    simpa [isEdge] using hall c List.mem_cons_self
  have hlast : ∀ c ∈ (s ++ [':']).getLast?, isEdge c = false := by
    rw [List.getLast?_concat]
    rintro c ⟨⟩
    decide
  have hself : cleaned s = s :=
    List.filter_eq_self.2 fun c hc => by simp [not_isOneOf_of_toNat (hall c hc)]
  have hstrip := Text.strip_append (List.forall_mem_nil fun c => isEdge c = true) hhead
  rw [List.nil_append] at hstrip
  rw [hstrip, List.append_cons, Text.dropEnd_append hlast, cleaned_append, cleaned_append, hself]
  simp [cleaned, isOneOf]

/-- A URL that begins with a name, behind which it has a password, is the name, two slashes and an
authority with the password. -/
theorem exists_of_read {cs w : List Char} {url : Url} (h : read (String.ofList cs) = .ok url)
    (hp : url.password.isSome = true) (hname : (cs.takeWhile (· ≠ ':')).map Dialect.folded = w)
    (hplain : IsPlain w) (hw : (w.all fun c => 32 < c.toNat) = true) (hne : w ≠ []) :
    ∃ s after t, cs = s ++ ':' :: after ∧ IsScheme s ∧
      cleaned (Text.dropEnd isEdge after) = '/' :: '/' :: t ∧ readAuthority w false t = .ok url := by
  cases hscheme : readScheme (cleaned (Text.strip isEdge cs)) with
  | none =>
    rw [read_noScheme hscheme] at h
    cases h
  | some x =>
    obtain ⟨name, t⟩ := x
    obtain ⟨s, hs, hcleaned, rfl⟩ := readScheme_some hscheme
    have hcolon : ':' ∈ cs := by
      have hmem : ':' ∈ Text.strip isEdge cs :=
        mem_of_mem_cleaned (hcleaned ▸ List.mem_append_right _ List.mem_cons_self)
      obtain ⟨bs, ws, hcs, _⟩ := Text.exists_strip isEdge cs
      rw [hcs]
      exact List.mem_append_right _ (List.mem_append_left _ hmem)
    obtain ⟨s', after, rfl, hs'⟩ := List.eq_append_cons_of_mem hcolon
    rw [takeWhile_append_colon hs'] at hname
    have hall : ∀ c ∈ s', 32 < c.toNat := fun c hc =>
      lt_of_lt_folded (of_decide_eq_true
        (List.all_eq_true.1 hw _ (hname ▸ List.mem_map_of_mem hc)))
    have hne' : s' ≠ [] := by
      rintro rfl
      exact hne hname.symm
    have htext := cleaned_strip_append hall hne' after
    have hsame := htext.symm.trans hcleaned
    obtain rfl : s' = s := by
      have htake := congrArg (List.takeWhile (· ≠ ':')) hsame
      rwa [takeWhile_append_colon hs', takeWhile_append_colon hs.colon] at htake
    rw [hs.map_folded] at hname
    subst hname
    by_cases hslashes : ∃ t', cleaned (Text.dropEnd isEdge after) = '/' :: '/' :: t'
    · obtain ⟨t', ht'⟩ := hslashes
      rw [read_authority hs hplain (htext.trans (by rw [ht']))] at h
      exact ⟨_, after, t', rfl, hs, ht', h⟩
    · rw [read_scheme hs hplain.1 (fun t' ht' => hslashes ⟨t', ht'⟩) htext] at h
      cases h
      cases hp

end Url

namespace Dialect
variable {w : String} (h : w ∈ schemes)
include h

theorem ne_nil_of_mem : w.toList ≠ [] := by
  obtain ⟨_, c, hc, _⟩ := head?_of_mem h
  rintro hnil
  rw [hnil] at hc
  cases hc

theorem all_lt_of_mem : (w.toList.all fun c => 32 < c.toNat) = true := by
  simp only [schemes, List.mem_cons, List.not_mem_nil, or_false] at h
  rcases h with rfl | rfl | rfl | rfl | rfl | rfl | rfl | rfl <;> rfl

end Dialect

namespace Endpoint

/-- The mark that is passed over, and what stands behind it. -/
theorem exists_unmarked (cs : List Char) : ∃ mark, cs = mark ++ unmarked cs ∧
    (mark = [] ∨ mark = "jdbc:".toList ∨ mark = "JDBC:".toList) := by
  rw [unmarked]
  split
  · rename_i h
    rw [Bool.or_eq_true, List.isPrefixOf_iff_prefix, List.isPrefixOf_iff_prefix] at h
    rcases h with ⟨t, rfl⟩ | ⟨t, rfl⟩
    · exact ⟨_, rfl, .inr (.inl rfl)⟩
    · exact ⟨_, rfl, .inr (.inr rfl)⟩
  · exact ⟨[], rfl, .inl rfl⟩

end Endpoint

namespace PasswordSite

/-- A recognised URL with a password has, behind a mark that is passed over, one of the names. -/
theorem isNamed_unmarked {d : Dialect} {cs : List Char} (h : d.recognizes cs = true) {url : Url}
    (hread : Url.read (String.ofList (Endpoint.unmarked cs)) = .ok url)
    (hp : url.password.isSome = true) : Dialect.IsNamed (Endpoint.unmarked cs) := by
  obtain ⟨mark, hcs, hmark⟩ := Endpoint.exists_unmarked cs
  generalize Endpoint.unmarked cs = t at hread hcs ⊢
  subst hcs
  rcases hmark with rfl | rfl | rfl
  · rcases Dialect.isNamed_of_recognizes h with hnamed | ⟨r, hr, hnamed⟩
    · exact hnamed
    · -- the mark itself would be read as the scheme, but slashes follow
      rw [List.nil_append] at hr
      have hjdbc := Dialect.takeWhile_of_after? "jdbc".toList [] hr (by decide)
      obtain ⟨s, after, t', rfl, hs, hslashes, _⟩ :=
        Url.exists_of_read hread hp hjdbc ⟨rfl, by decide⟩ rfl (by decide)
      rw [Url.takeWhile_append_colon hs.colon] at hjdbc
      have hmark : (s ++ [':']).map Dialect.folded = "jdbc:".toList := by
        rw [List.map_append, hjdbc]
        decide
      have hafter := hmark ▸ Dialect.after?_map_folded (s ++ [':']) after
      rw [List.append_assoc, List.singleton_append, hr] at hafter
      obtain ⟨ws, hws, _⟩ := Text.exists_dropEnd Url.isEdge after
      have hclean : Url.cleaned after = '/' :: ('/' :: t' ++ Url.cleaned ws) := by
        rw [hws, Url.cleaned_append, hslashes]
        rfl
      exact absurd (Option.some.inj hafter ▸ hnamed) (Url.not_isNamed_of_cleaned hclean)
  · exact Dialect.isNamed_of_marked (by decide) h
  · exact Dialect.isNamed_of_marked (by decide) h

/-- The parts of a URL that is read with a password make a place of it. -/
theorem exists_of_authority {bs mark s after ws t name : List Char} {url : Url}
    (hs : Url.IsScheme s) (hslashes : Url.cleaned (Text.dropEnd Url.isEdge after) = '/' :: '/' :: t)
    (h : Url.readAuthority name false t = .ok url) (hp : url.password.isSome = true)
    (hbs : ∀ c ∈ bs, Text.isBlank c = true)
    (hmark : mark = [] ∨ mark = "jdbc:".toList ∨ mark = "JDBC:".toList)
    (hws : ∀ c ∈ ws, Text.isBlank c = true) :
    ∃ (x : PasswordSite) (password : List Char), Admits password ∧
      bs ++ (mark ++ (s ++ ':' :: after) ++ ws) = x.text password := by
  obtain ⟨user, password, server, rfl, hne, huser, hpassword, hserver⟩ :=
    Url.exists_of_readAuthority h hp
  obtain ⟨slash, behind, hsplit, hslash, hbehind⟩ :=
    Url.exists_of_cleaned (show _ = ['/'] ++ '/' :: _ from hslashes)
  obtain ⟨user, behind, rfl, rfl, hpast⟩ := Url.exists_of_cleaned hbehind
  obtain ⟨password, server, rfl, rfl, rfl⟩ := Url.exists_of_cleaned hpast
  obtain ⟨es, hes, hedge⟩ := Text.exists_dropEnd Url.isEdge after
  have hslashed : Url.cleaned (slash ++ ['/']) = ['/', '/'] := by
    rw [Url.cleaned_append, hslash]
    rfl
  refine ⟨⟨bs, mark, s, slash ++ ['/'], user, server ++ (es ++ ws), hbs, hmark, hs, hslashed,
    fun c hc => ?_, ?_⟩, password, ⟨fun c hc => ?_, hne⟩, ?_⟩
  · rcases Url.mem_cleaned_or hc with hmem | hfaint
    · exact huser c hmem
    · exact ⟨fun heq => hfaint.toNat_ne (n := 58) (by omega) (by omega) (heq ▸ rfl), hfaint.inside⟩
  · refine not_mem_takeWhile_append (not_mem_takeWhile_of_filter (by decide) hserver) fun hat => ?_
    have hfaint : Url.IsFaint '@' := (List.mem_append.1 hat).symm.imp (hws _) (hedge _)
    exact hfaint.toNat_ne (n := 64) (by omega) (by omega) rfl
  · rcases Url.mem_cleaned_or hc with hmem | hfaint
    · exact hpassword c hmem
    · exact hfaint.inside
  · rw [hes, hsplit]
    simp [text, front]

/-- The URL of an endpoint has a place for its password, or it has none. -/
theorem exists_of_endpoint {p : ConnectionParameters} {e : Endpoint} (h : p.endpoint = .ok e) :
    ∃ url, Url.read (String.ofList (Endpoint.unmarked (Text.strip Text.isBlank p.url.toList))) =
      .ok url ∧ (url.password.isSome = true →
        ∃ (x : PasswordSite) (password : List Char), Admits password ∧
          p.url.toList = x.text password) := by
  simp only [ConnectionParameters.endpoint] at h
  obtain ⟨d, hd, h⟩ := bind_eq_ok h
  cases hread : Url.read (String.ofList (Endpoint.unmarked (Text.strip Text.isBlank p.url.toList))) with
  | error fault =>
    rw [hread] at h
    cases h
  | ok url =>
    refine ⟨url, rfl, fun hp => ?_⟩
    rw [ConnectionParameters.dialect, Dialect.ofUrl] at hd
    split at hd
    · rename_i hfind
      have hrecognizes := List.find?_some hfind
      obtain ⟨w, hw, hname⟩ := isNamed_unmarked hrecognizes hread hp
      obtain ⟨s, after, t, hafter, hs, hslashes, hauthority⟩ := Url.exists_of_read hread hp hname
        (Dialect.isPlain_of_mem hw) (Dialect.all_lt_of_mem hw) (Dialect.ne_nil_of_mem hw)
      obtain ⟨bs, ws, hblanks, hbs, hws⟩ := Text.exists_strip Text.isBlank p.url.toList
      obtain ⟨mark, hunmarked, hmark⟩ :=
        Endpoint.exists_unmarked (Text.strip Text.isBlank p.url.toList)
      obtain ⟨x, password, hx, htext⟩ := exists_of_authority hs hslashes hauthority hp hbs hmark hws
      exact ⟨x, password, hx, by rw [hblanks, hunmarked, hafter, htext]⟩
    · cases hd

end PasswordSite

end ShardRegistry
