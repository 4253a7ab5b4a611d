import ShardRegistry.Admin.View
import ShardRegistry.Proofs.Sites

/-! Masking. A password in a URL is masked if the one who masks it finds it where the endpoint has it:
the mark has to be in lower case and in front of everything, and without a mark only controls and spaces
may stand before the URL. Otherwise the whole URL is shown. -/
namespace ShardRegistry

/-- Whether a password in a URL is masked, as its text begins. -/
def Url.conceals (cs : List Char) : Bool :=
  if Dialect.startsWith "jdbc:" (cs.dropWhile Text.isBlank) then "jdbc:".toList.isPrefixOf cs
  else (cs.takeWhile Text.isBlank).all Url.isEdge

/-! ### Reading without the mark -/

namespace ConnectionParameters

theorem withoutAll_of_not_prefix {word cs : List Char} (h : ¬ word <+: cs) (fuel : Nat) :
    withoutAll word fuel cs = cs := by
  cases fuel with
  | zero => rfl
  | succ fuel => rw [withoutAll, if_neg (mt List.isPrefixOf_iff_prefix.1 h)]

/-- The URL that is read to mask its password: all marks are taken away from its front. -/
def maskedSource (p : ConnectionParameters) : String :=
  String.ofList (withoutAll "jdbc:".toList p.url.toList.length p.url.toList)

theorem displayUrl_of_password {p : ConnectionParameters} {url : Url}
    (h : Url.read p.maskedSource = .ok url) (hp : url.password.isSome = true) :
    p.displayUrl = String.ofList ((if "jdbc:".toList.isPrefixOf p.url.toList then "jdbc:".toList
      else []) ++ { url with password := some "****".toList }.text) := by
  rw [maskedSource] at h
  simp only [displayUrl, h, if_pos hp]
  split <;> rfl

theorem displayUrl_of_no_password {p : ConnectionParameters}
    (h : ∀ url, Url.read p.maskedSource = .ok url → url.password = none) : p.displayUrl = p.url := by
  rw [maskedSource] at h
  simp only [displayUrl]
  split
  · rename_i url hread
    simp [h url hread]
  · rfl

end ConnectionParameters

namespace Url

/-- Behind a blank that is neither a control nor a space nothing is read. -/
theorem read_blank {bs : List Char} (hb : ∀ c ∈ bs, Text.isBlank c = true)
    (hedge : ¬ ∀ c ∈ bs, isEdge c = true) (t : List Char) :
    ∃ fault, read (String.ofList (bs ++ t)) = .error fault := by
  obtain ⟨c, cs, hdrop⟩ : ∃ c cs, bs.dropWhile isEdge = c :: cs :=
    List.exists_cons_of_ne_nil fun hnil => hedge (List.dropWhile_eq_nil_iff.1 hnil)
  have hc : isEdge c = false := Text.head?_dropWhile isEdge bs c (by rw [hdrop]; rfl)
  have hmem : c ∈ bs := (List.dropWhile_sublist isEdge).subset (hdrop ▸ List.mem_cons_self)
  have hpart : isSchemePart c = false := by
    refine Bool.eq_false_iff.2 fun hpart => ?_
    obtain ⟨hlow, hhigh⟩ := IsSchemePart.toNat hpart
    exact IsFaint.toNat_ne (.inl (hb c hmem)) (by omega) hhigh rfl
  have hstrip : Text.strip isEdge (bs ++ t) = [c] ++ Text.dropEnd isEdge (cs ++ t) := by
    have hlast : ∀ d ∈ [c].getLast?, isEdge d = false := by
      rintro d ⟨⟩
      exact hc
    rw [Text.strip, List.dropWhile_append, hdrop]
    exact Text.dropEnd_append hlast
  have hskip : isOneOf "\t\n\r" c = false := not_isOneOf_of_toNat (by simpa [isEdge] using hc)
  refine ⟨.noScheme, ?_⟩
  have hclean : cleaned (Text.strip isEdge (bs ++ t)) =
      c :: cleaned (Text.dropEnd isEdge (cs ++ t)) := by
    rw [hstrip]
    exact List.filter_cons_of_pos (by simp [hskip])
  exact read_noScheme (hclean ▸ readScheme_of_not_part hpart _)

end Url

namespace PasswordSite
variable (x : PasswordSite) {password : List Char}

/-- What stands before the scheme lets the password be found. -/
def Conceals : Prop :=
  (x.mark = [] ∧ ∀ c ∈ x.blanks, Url.isEdge c = true) ∨ (x.mark = "jdbc:".toList ∧ x.blanks = [])

theorem not_slashes (t : List Char) :
    ∀ t', Url.cleaned (x.front password ++ t) ≠ '/' :: '/' :: t' := by
  intro t' h
  rw [Url.cleaned_append, cleaned_front] at h
  obtain ⟨c, cs, hscheme, hc⟩ := x.named.begins
  rw [hscheme] at h
  obtain rfl : c = '/' := (List.cons.inj h).1
  exact absurd hc (by decide)

/-- With a mark behind controls and spaces it is the mark that the text begins with. -/
theorem cleaned_text {s : List Char} (hedge : ∀ c ∈ x.blanks, Url.isEdge c = true)
    (hs : Url.IsScheme s) (hm : x.mark = s ++ [':']) :
    Url.cleaned (Text.strip Url.isEdge (x.text password)) =
      s ++ ':' :: Url.cleaned (x.front password ++ Text.dropEnd Url.isEdge x.server) := by
  have hhead : ∀ c ∈ (x.mark ++ (x.front password ++ x.server)).head?, Url.isEdge c = false :=
    fun c hc => Bool.eq_false_iff.2 fun h => x.not_faint_front _ c hc (.inr h)
  have hlast : ∀ c ∈ (x.mark ++ x.front password).getLast?, Url.isEdge c = false := by
    rw [getLast?_front]
    rintro c ⟨⟩
    decide
  have hmark : Url.cleaned x.mark = s ++ [':'] := by
    rw [hm, Url.cleaned_append, hs.cleaned]
    rfl
  rw [text, Text.strip_append hedge hhead, ← List.append_assoc, Text.dropEnd_append hlast,
    List.append_assoc, Url.cleaned_append, hmark, List.append_assoc]
  rfl

section
variable (hscheme : ∃ w ∈ Dialect.schemes, x.schemeName = w.toList)
include hscheme

/-- The mark is found where it is in lower case and nothing stands before it. -/
theorem prefix_text_iff :
    "jdbc:".toList <+: x.text password ↔ x.mark = "jdbc:".toList ∧ x.blanks = [] := by
  constructor
  · intro h
    cases hblanks : x.blanks with
    | cons b bs =>
      rw [text, hblanks] at h
      obtain rfl : 'j' = b := (List.cons_prefix_cons.1 h).1
      exact absurd (x.blank 'j' (hblanks ▸ List.mem_cons_self)) (by decide)
    | nil =>
      rw [text, hblanks, List.nil_append] at h
      rcases x.marked with hm | hm | hm
      · rw [hm, List.nil_append] at h
        exact absurd h (x.not_marked_scheme hscheme "jdbc".toList (by decide) password x.server)
      · exact ⟨hm, rfl⟩
      · rw [hm] at h
        exact absurd (List.cons_prefix_cons.1 h).1 (by decide)
  · rintro ⟨hm, hblanks⟩
    rw [text, hblanks, List.nil_append, hm]
    exact List.prefix_append _ _

theorem startsWith_mark_iff (t : List Char) :
    Dialect.startsWith "jdbc:" (x.mark ++ (x.front password ++ t)) = true ↔ x.mark ≠ [] := by
  have hmarked (hm : x.mark.map Dialect.folded = "jdbc:".toList) :
      Dialect.startsWith "jdbc:" (x.mark ++ (x.front password ++ t)) = true := by
    rw [Dialect.startsWith, ← hm, Dialect.after?_map_folded]
    rfl
  rcases x.marked with hm | hm | hm
  · rw [hm, List.nil_append, front_append]
    refine iff_of_false (fun h => ?_) (by simp)
    obtain ⟨r, hr⟩ := Option.isSome_iff_exists.1 h
    obtain ⟨w, hw, hname⟩ := hscheme
    have hjdbc := Dialect.takeWhile_of_after? "jdbc".toList [] hr (by decide)
    rw [takeWhile_scheme, x.named.map_folded] at hjdbc
    exact (Dialect.head?_of_mem hw).1 (hname.symm.trans hjdbc)
  · exact iff_of_true (hmarked (by rw [hm]; decide)) (by simp [hm])
  · exact iff_of_true (hmarked (by rw [hm]; decide)) (by simp [hm])

theorem conceals_iff : Url.conceals (x.text password) = true ↔ x.Conceals := by
  have hhead : ∀ c ∈ (x.mark ++ (x.front password ++ x.server)).head?, Text.isBlank c = false :=
    fun c hc => Bool.eq_false_iff.2 fun h => x.not_faint_front _ c hc (.inl h)
  have hdrop : (x.text password).dropWhile Text.isBlank =
      x.mark ++ (x.front password ++ x.server) := by
    rw [text, List.dropWhile_append_of_pos x.blank, Text.dropWhile_eq_self hhead]
  have htake : (x.text password).takeWhile Text.isBlank = x.blanks := by
    have hsplit : (x.text password).takeWhile Text.isBlank ++
        (x.text password).dropWhile Text.isBlank = x.text password :=
      List.takeWhile_append_dropWhile
    rw [hdrop] at hsplit
    exact List.append_cancel_right hsplit
  rw [Url.conceals, hdrop, htake]
  simp only [x.startsWith_mark_iff hscheme, Conceals]
  split
  · rename_i hm
    rw [List.isPrefixOf_iff_prefix, x.prefix_text_iff hscheme]
    simp [hm]
  · rename_i hm
    rw [not_not] at hm
    simp [hm]

theorem maskedSource_of_not_prefix {p : ConnectionParameters} (hurl : p.url.toList = x.text password)
    (h : ¬ (x.mark = "jdbc:".toList ∧ x.blanks = [])) :
    p.maskedSource = String.ofList (x.text password) ∧
      "jdbc:".toList.isPrefixOf p.url.toList = false := by
  have hnot : ¬ "jdbc:".toList <+: x.text password := mt (x.prefix_text_iff hscheme).1 h
  rw [ConnectionParameters.maskedSource, hurl]
  exact ⟨congrArg _ (ConnectionParameters.withoutAll_of_not_prefix hnot _),
    Bool.eq_false_iff.2 (mt List.isPrefixOf_iff_prefix.1 hnot)⟩

theorem maskedSource_of_prefix {p : ConnectionParameters} (hurl : p.url.toList = x.text password)
    (hm : x.mark = "jdbc:".toList) (hblanks : x.blanks = []) :
    p.maskedSource = String.ofList (x.front password ++ x.server) ∧
      "jdbc:".toList.isPrefixOf p.url.toList = true := by
  have hprefix : "jdbc:".toList <+: x.text password := (x.prefix_text_iff hscheme).2 ⟨hm, hblanks⟩
  have htext : x.text password = "jdbc:".toList ++ (x.front password ++ x.server) := by
    rw [text, hblanks, List.nil_append, hm]
  have hlength : (x.text password).length = (x.front password ++ x.server).length + 4 + 1 := by
    rw [htext, List.length_append]
    exact Nat.add_comm _ _
  have hnot := x.not_marked_scheme hscheme "jdbc".toList (by decide) password x.server
  have hprefix := List.isPrefixOf_iff_prefix.2 hprefix
  rw [ConnectionParameters.maskedSource, hurl]
  refine ⟨congrArg _ ?_, hprefix⟩
  rw [hlength, ConnectionParameters.withoutAll, if_pos hprefix, htext]
  exact ConnectionParameters.withoutAll_of_not_prefix hnot _

/-- A password that is found is masked, and no other part of the shown URL depends on it. -/
theorem displayUrl_of_conceals (h : x.Conceals) {url : Url}
    (hserver : x.readServer (Text.dropEnd Url.isEdge x.server) = .ok url)
    (hp : Admits password) {p : ConnectionParameters} (hurl : p.url.toList = x.text password) :
    p.displayUrl = String.ofList (x.mark ++ { url with password := some "****".toList }.text) := by
  obtain ⟨w, hw, hname⟩ := hscheme
  have hread {cs : List Char} (hcs : ∀ c ∈ cs, Url.isEdge c = true) :
      Url.read (String.ofList (cs ++ (x.front password ++ x.server))) = .ok { url with
        password := some (Text.percentEncode Url.userEscaped (Url.cleaned password)) } := by
    rw [x.read_front (hname ▸ Dialect.isPlain_of_mem hw) hp hcs x.ofServer, hserver]
    rfl
  rcases h with ⟨hm, hedge⟩ | ⟨hm, hblanks⟩
  · obtain ⟨hsource, hprefix⟩ := x.maskedSource_of_not_prefix ⟨w, hw, hname⟩ hurl (by simp [hm])
    have hread := hread hedge
    rw [← List.nil_append (x.front password ++ x.server), ← hm, ← text, ← hsource] at hread
    rw [ConnectionParameters.displayUrl_of_password hread rfl, hprefix, hm]
    rfl
  · obtain ⟨hsource, hprefix⟩ := x.maskedSource_of_prefix ⟨w, hw, hname⟩ hurl hm hblanks
    have hread := hread (fun c (hc : c ∈ []) => absurd hc List.not_mem_nil)
    rw [List.nil_append, ← hsource] at hread
    rw [ConnectionParameters.displayUrl_of_password hread rfl, hprefix, hm]
    rfl

/-- A password that is not found is shown with the whole URL. -/
theorem displayUrl_of_not_conceals (h : ¬ x.Conceals) {p : ConnectionParameters}
    (hurl : p.url.toList = x.text password) : p.displayUrl = p.url := by
  rw [Conceals, not_or] at h
  obtain ⟨hsource, _⟩ := x.maskedSource_of_not_prefix hscheme hurl h.2
  refine ConnectionParameters.displayUrl_of_no_password fun url hread => ?_
  rw [hsource] at hread
  by_cases hedge : ∀ c ∈ x.blanks, Url.isEdge c = true
  · -- the mark is read as the scheme
    obtain ⟨s, hs, hlower, hmark⟩ : ∃ s, Url.IsScheme s ∧ s.map Text.lowerAscii = "jdbc".toList ∧
        x.mark = s ++ [':'] := by
      rcases x.marked with hm | hm | hm
      · exact absurd ⟨hm, hedge⟩ h.1
      · exact ⟨"jdbc".toList, ⟨⟨_, _, rfl, by decide⟩, List.all_eq_true.1 rfl⟩, by decide, hm⟩
      · exact ⟨"JDBC".toList, ⟨⟨_, _, rfl, by decide⟩, List.all_eq_true.1 rfl⟩, by decide, hm⟩
    have hspecial : Url.specialPort? (s.map Text.lowerAscii) = none := by rw [hlower]; rfl
    rw [Url.read_scheme hs hspecial (x.not_slashes _)
      (x.cleaned_text hedge hs hmark)] at hread
    cases hread
    rfl
  · obtain ⟨fault, herror⟩ := Url.read_blank x.blank hedge (x.mark ++ (x.front password ++ x.server))
    rw [text, herror] at hread
    cases hread

end

end PasswordSite

namespace ConnectionParameters

/-- Parameters that differ in nothing but the password and the password in the URL. -/
structure AgreeButPassword (p q : ConnectionParameters) : Prop where
  fields : q = { p with url := q.url, password := q.password }
  url : p.url = q.url ∨ ∃ (x : PasswordSite) (s t : List Char), PasswordSite.Admits s ∧
    PasswordSite.Admits t ∧ p.url.toList = x.text s ∧ q.url.toList = x.text t

/-- All that is shown of two sets of parameters is the same: their URL and their text, the facts that a
schema keeps about its first backend, and the view of a data source. -/
structure ShownAlike (p q : ConnectionParameters) : Prop where
  displayUrl : p.displayUrl = q.displayUrl
  debug : p.debug = q.debug
  cached : ∀ (d : Dialect) (ps qs : ParameterMap), ps.values.head? = some p →
    qs.values.head? = some q → CachedBackend.ofParameters d ps = CachedBackend.ofParameters d qs
  view : ∀ (r : Resources) (live : PoolId → Nat) (driver : PoolDriver) (name : String) (pool : PoolId),
    DataSourceView.ofDataSource r live driver name ⟨p, pool⟩ =
      DataSourceView.ofDataSource r live driver name ⟨q, pool⟩

variable {p q : ConnectionParameters}

theorem AgreeButPassword.shownAlike (h : p.AgreeButPassword q) (hurl : p.displayUrl = q.displayUrl) :
    p.ShownAlike q := by
  have husername : q.username = p.username := by rw [h.fields]
  have hmax : q.maxPoolSize = p.maxPoolSize := by rw [h.fields]
  have hmin : q.minPoolSize = p.minPoolSize := by rw [h.fields]
  have hreadOnly : q.readOnly = p.readOnly := by rw [h.fields]
  have hconnection : q.connectionTimeoutMs = p.connectionTimeoutMs := by
    rw [h.fields]
  have hidle : q.idleTimeoutMs = p.idleTimeoutMs := by rw [h.fields]
  have hlifetime : q.maxLifetimeMs = p.maxLifetimeMs := by rw [h.fields]
  refine ⟨hurl, ?_, fun d ps qs hps hqs => ?_, fun r live driver name pool => ?_⟩
  · unfold debug
    rw [hurl, husername, hmax, hmin, hreadOnly, hconnection, hidle, hlifetime]
  · simp only [CachedBackend.ofParameters, hps, hqs, Option.map_some, hurl, husername, hmax, hreadOnly]
  · simp only [DataSourceView.ofDataSource, hurl, husername, hmax, hmin, hreadOnly]

/-- Of parameters that differ in nothing but passwords, and from which an endpoint can be read, the same is
shown exactly if the passwords in the URLs are equal or concealed. -/
theorem shownAlike_iff (h : p.AgreeButPassword q) {e : Endpoint} (he : p.endpoint = .ok e) :
    p.ShownAlike q ↔ p.url = q.url ∨ Url.conceals p.url.toList = true := by
  rcases h.url with hsame | ⟨x, s, t, hs, ht, hp, hq⟩
  · refine iff_of_true (h.shownAlike ?_) (.inl hsame)
    simp only [displayUrl, hsame]
  · obtain ⟨hscheme, url, hserver, hpath⟩ := x.server_of_endpoint hp hs he
    obtain ⟨url', hserver'⟩ := x.readServer_dropEnd hserver hpath
    rw [hp, x.conceals_iff hscheme]
    by_cases hconceals : x.Conceals
    · refine iff_of_true (h.shownAlike ?_) (.inr hconceals)
      rw [x.displayUrl_of_conceals hscheme hconceals hserver' hs hp,
        x.displayUrl_of_conceals hscheme hconceals hserver' ht hq]
    · have hshown := x.displayUrl_of_not_conceals hscheme hconceals hp
      have hshown' := x.displayUrl_of_not_conceals hscheme hconceals hq
      constructor
      · intro halike
        exact .inl (hshown ▸ hshown' ▸ halike.displayUrl)
      · rintro (hsame | hconceals')
        · exact h.shownAlike (hshown.trans (hsame.trans hshown'.symm))
        · exact absurd hconceals' hconceals

/-- A password that an endpoint finds in its URL stands in a place of it. Whatever stands there instead, the
URL is shown alike if the password is concealed; and else it is shown as it is. -/
theorem displayUrl_of_endpoint {e : Endpoint} (he : p.endpoint = .ok e) {url : Url}
    (hread : Url.read (String.ofList (Endpoint.unmarked (Text.strip Text.isBlank p.url.toList))) =
      .ok url) (hp : url.password.isSome = true) :
    ∃ (x : PasswordSite) (s : List Char), PasswordSite.Admits s ∧ p.url.toList = x.text s ∧
      (Url.conceals p.url.toList = true → ∀ (q : ConnectionParameters) (t : List Char),
        PasswordSite.Admits t → q.url.toList = x.text t → q.displayUrl = p.displayUrl) ∧
      (¬ Url.conceals p.url.toList = true → p.displayUrl = p.url) := by
  obtain ⟨url', hread', hsite⟩ := PasswordSite.exists_of_endpoint he
  cases hread.symm.trans hread'
  obtain ⟨x, s, hs, htext⟩ := hsite hp
  obtain ⟨hscheme, url', hserver, hpath⟩ := x.server_of_endpoint htext hs he
  obtain ⟨url'', hserver'⟩ := x.readServer_dropEnd hserver hpath
  rw [htext, x.conceals_iff hscheme]
  refine ⟨x, s, hs, rfl, fun hconceals q t ht hq => ?_, fun hconceals => ?_⟩
  · rw [x.displayUrl_of_conceals hscheme hconceals hserver' hs htext,
      x.displayUrl_of_conceals hscheme hconceals hserver' ht hq]
  · exact x.displayUrl_of_not_conceals hscheme hconceals htext

/-- The URL of a server, behind a mark, with a password in it. -/
def marked (mark password : String) : ConnectionParameters :=
  { url := mark ++ "postgres://u:" ++ password ++ "@h/db" }

/-- A mark in lower case lets the passwords be masked, and one in upper case shows them. -/
theorem shownAlike_iff_marked :
    (marked "jdbc:" "hunter2").ShownAlike (marked "jdbc:" "swordfish") ∧
      ¬ (marked "JDBC:" "hunter2").ShownAlike (marked "JDBC:" "swordfish") ∧
      (marked "jdbc:" "hunter2").displayUrl = "jdbc:postgres://u:****@h/db" ∧
      (marked "JDBC:" "hunter2").displayUrl = "JDBC:postgres://u:hunter2@h/db" := by
  have hagree {mark : String} (h : mark.toList = "jdbc:".toList ∨ mark.toList = "JDBC:".toList) :
      (marked mark "hunter2").AgreeButPassword (marked mark "swordfish") := by
    refine ⟨rfl, .inr ⟨⟨[], mark.toList, "postgres".toList, "//".toList, "u".toList, "h/db".toList,
      List.forall_mem_nil _, .inr h, ⟨⟨_, _, rfl, by decide⟩, List.all_eq_true.1 rfl⟩, by decide,
      List.forall_mem_singleton.2 (by decide), by decide⟩, "hunter2".toList, "swordfish".toList,
      ⟨by simp [Url.endsAuthority], by decide⟩, ⟨by simp [Url.endsAuthority], by decide⟩, ?_, ?_⟩⟩ <;>
    simp [marked, PasswordSite.text, PasswordSite.front]
  have hlower : (marked "jdbc:" "hunter2").endpoint =
      .ok ⟨"h", 5432, "u", "hunter2", "db", false⟩ := by decide +kernel
  have hupper : (marked "JDBC:" "hunter2").endpoint =
      .ok ⟨"h", 5432, "u", "hunter2", "db", false⟩ := by decide +kernel
  exact ⟨(shownAlike_iff (hagree (.inl rfl)) hlower).2 (.inr (by decide +kernel)),
    mt (shownAlike_iff (hagree (.inr rfl)) hupper).1 (by decide +kernel),
    by decide +kernel, by decide +kernel⟩

end ConnectionParameters

end ShardRegistry
