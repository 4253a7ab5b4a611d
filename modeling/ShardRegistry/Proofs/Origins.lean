import ShardRegistry.Admin.Router
import ShardRegistry.Proofs.Scalars
import ShardRegistry.Proofs.Sites
import ShardRegistry.Settings

/-! Allowed origins. The settings take from a variable any list of texts without commas and without blanks at
their ends. A list that is not empty keeps other pages out exactly if none of its entries is an asterisk and
one of them can be a header value: an asterisk ends the process, and a list of which no entry can be a header
value admits every page. -/
namespace ShardRegistry

/-! ### The list of the settings -/

namespace Settings

/-- A text that can be an entry of the list. -/
def Listed (origin : String) : Prop :=
  origin ≠ "" ∧ ',' ∉ origin.toList ∧ Text.strip Text.isBlank origin.toList = origin.toList

theorem not_mem_of_mem_splitOn {c : Char} {cs item : List Char} (h : item ∈ cs.splitOn c) : c ∉ item := by
  induction cs generalizing item with
  | nil =>
    rw [List.splitOn_nil, List.mem_singleton] at h
    simp [h]
  | cons d cs ih =>
    rw [List.splitOn_cons_eq_if_modifyHead] at h
    split at h
    · rcases List.mem_cons.1 h with rfl | h
      · exact List.not_mem_nil
      · exact ih h
    · rename_i hd
      cases hsplit : cs.splitOn c with
      | nil => exact absurd hsplit (List.splitOn_ne_nil c cs)
      | cons first rest =>
        rw [hsplit] at h ih
        rcases List.mem_cons.1 h with rfl | h
        · have hfirst := ih List.mem_cons_self
          simp at hd
          simp [hfirst, Ne.symm hd]
        · exact ih (List.mem_cons_of_mem _ h)

theorem listed_of_mem_origins {text o : String} (h : o ∈ origins text) : Listed o := by
  simp only [origins, List.mem_map, List.mem_filter] at h
  obtain ⟨cs, ⟨⟨item, hitem, rfl⟩, hne⟩, rfl⟩ := h
  obtain ⟨before, after, hwhole, -, -⟩ := Text.exists_strip Text.isBlank item
  refine ⟨?_, ?_, ?_⟩
  · simpa [String.ofList_eq_empty_iff] using hne
  · rw [String.toList_ofList]
    intro hcomma
    have : ',' ∈ item := by rw [hwhole]; simp [hcomma]
    exact not_mem_of_mem_splitOn hitem this
  · rw [String.toList_ofList, Text.strip_strip]

/-- Origins between commas. -/
def listing (allowed : List String) : String :=
  String.ofList ([','].intercalate (allowed.map String.toList))

theorem origins_listing {allowed : List String} (h : ∀ o ∈ allowed, Listed o) :
    origins (listing allowed) = allowed := by
  by_cases hnil : allowed = []
  · rw [hnil]
    rfl
  have hsplit : (listing allowed).toList.splitOn ',' = allowed.map String.toList := by
    rw [listing, String.toList_ofList]
    exact List.splitOn_intercalate ',' (List.forall_mem_map.2 fun o ho => (h o ho).2.1) (by simpa using hnil)
  have hstrip : ∀ cs ∈ allowed.map String.toList, Text.strip Text.isBlank cs = cs :=
    List.forall_mem_map.2 fun o ho => (h o ho).2.2
  have hkept : ∀ cs ∈ allowed.map String.toList, (!cs.isEmpty) = true :=
    List.forall_mem_map.2 fun o ho => by simpa using (h o ho).1
  rw [origins, hsplit, List.map_congr_left hstrip, List.map_id', List.filter_eq_self.2 hkept, List.map_map]
  simp

/-- The lists that settings come with. -/
theorem exists_load_iff {allowed : List String} :
    (∃ env s, load env = .ok s ∧ s.allowedOrigins = allowed) ↔ ∀ o ∈ allowed, Listed o := by
  constructor
  · rintro ⟨env, s, hload, rfl⟩ o ho
    obtain ⟨seconds, -, hs⟩ := bind_eq_ok hload
    rw [← Except.ok.inj hs] at ho
    cases hvariable : env "ALLOWED_ORIGINS" with
    | none => simp [hvariable] at ho
    | some text =>
      simp only [hvariable, Option.map_some, Option.getD_some] at ho
      exact listed_of_mem_origins ho
  · intro h
    refine ⟨fun name => if name = "ALLOWED_ORIGINS" then some (listing allowed) else none, _, rfl, ?_⟩
    simp [origins_listing h]

end Settings

/-! ### The origin that a response admits -/

namespace Http

/-- The origin that a response admits, by name or as an asterisk for all. -/
def Response.allowedOrigin? (r : Response) : Option String :=
  r.headers.lookup "access-control-allow-origin"

/-- Whether pages of an origin may read a response. -/
def Response.readableFrom (r : Response) (origin : String) : Prop :=
  r.allowedOrigin? = some origin ∨ r.allowedOrigin? = some "*"

theorem Response.allowedOrigin?_inCoding (r : Response) (coding : Coding) :
    (r.inCoding coding).allowedOrigin? = r.allowedOrigin? := by
  have hadded (headers : List (String × String)) :
      (headers ++ [("content-encoding", "gzip")]).lookup "access-control-allow-origin" =
        headers.lookup "access-control-allow-origin" := by
    rw [List.lookup_append]
    exact Option.or_none
  cases coding with
  | identity => rfl
  | gzip =>
    rw [inCoding]
    split
    · rfl
    · split
      · exact hadded r.headers
      · exact hadded r.headers
      · rfl

end Http

namespace Admin
open Http
variable {p : CorsPolicy} {w : World} {moments : Moments} {q : Request} {r : Response}

theorem allowedOrigin?_of_readEvent (h : readEvent q = .error r) : r.allowedOrigin? = none := by
  rw [readEvent] at h
  split at h
  · obtain rfl := Except.error.inj h
    rfl
  split at h
  · obtain rfl := Except.error.inj h
    rfl
  split at h <;> try cases h
  all_goals rfl

theorem allowedOrigin?_of_eventResponse {event : Event} {o : Outcome} (h : eventResponse event o = some r) :
    r.allowedOrigin? = none := by
  cases o with
  | generation | failed =>
    obtain rfl := Option.some.inj h
    rfl
  | _ => cases h

theorem allowedOrigin?_describeSchema (w : World) (segment : List Char) :
    (describeSchema w segment).allowedOrigin? = none := by
  rw [describeSchema]
  split
  · rfl
  · split <;> rfl

theorem allowedOrigin?_of_applyEvent (h : (applyEvent w q).2 = some r) : r.allowedOrigin? = none := by
  rw [applyEvent] at h
  split at h
  · rename_i hread
    obtain rfl := Option.some.inj h
    exact allowedOrigin?_of_readEvent hread
  · obtain ⟨o, -, hresponse⟩ := Option.bind_eq_some_iff.1 h
    exact allowedOrigin?_of_eventResponse hresponse

/-- No route admits an origin by itself. -/
theorem allowedOrigin?_of_dispatch {route : Option Route} (h : (dispatch w moments q route).2 = some r) :
    r.allowedOrigin? = none := by
  cases route with
  | none =>
    obtain rfl := Option.some.inj h
    rfl
  | some route =>
    rw [dispatch] at h
    split at h
    · cases route with
      | health | schemas | heartbeat =>
        obtain rfl := Option.some.inj h
        rfl
      | schema segment =>
        obtain rfl := Option.some.inj h
        exact allowedOrigin?_describeSchema w segment
      | events => exact allowedOrigin?_of_applyEvent h
    · obtain rfl := Option.some.inj h
      rfl

theorem lookup_originHeaders (p : CorsPolicy) (q : Request) (others : List (String × String))
    (hothers : others.lookup "access-control-allow-origin" = none) :
    (p.originHeaders q ++ others).lookup "access-control-allow-origin" = p.admitted? (q.header? "origin") := by
  rw [List.lookup_append, hothers, Option.or_none, CorsPolicy.originHeaders]
  cases p.admitted? (q.header? "origin") with
  | none => rfl
  | some o => rfl

/-- The origin that a response admits is the one of the policy. -/
theorem allowedOrigin?_respond (h : (respond p w moments q).2 = some r) :
    r.allowedOrigin? = p.admitted? (q.header? "origin") := by
  rw [respond] at h
  split at h
  · obtain rfl := Option.some.inj h
    rw [CorsPolicy.preflight, Response.allowedOrigin?, List.append_assoc]
    refine lookup_originHeaders p q _ ?_
    cases Route.ofPath? q.target.path <;> rfl
  · obtain ⟨answer, hanswer, rfl⟩ := Option.map_eq_some_iff.1 h
    have hnone := allowedOrigin?_of_dispatch hanswer
    rw [Response.allowedOrigin?] at hnone
    have hwhole : ({ answer with
        headers := answer.headers ++ p.originHeaders q, requestId := some q.requestId } : Response).allowedOrigin? =
          p.admitted? (q.header? "origin") := by
      rw [Response.allowedOrigin?, List.lookup_append, hnone, Option.none_or,
        ← lookup_originHeaders p q [] rfl, List.append_nil]
    rw [complete]
    split
    · exact (Response.allowedOrigin?_inCoding _ _).trans hwhole
    · exact (Response.allowedOrigin?_inCoding _ _).trans hwhole

/-! ### Lists that keep other pages out -/

namespace CorsPolicy
variable {allowed : List String}

/-- Whether a server with a list of allowed origins starts and lets no page of another origin read what it
responds. -/
def KeepsTo (allowed : List String) : Prop :=
  ∃ p, ofOrigins allowed = .ok p ∧ p ≠ .anyOrigin ∧ (∀ o, p.admits o → o ∈ allowed) ∧
    ∀ w moments q r o, (respond p w moments q).2 = some r → q.header? "origin" = some o →
      r.readableFrom o → o ∈ allowed

theorem mem_kept_asterisk : "*" ∈ allowed.filter isHeaderValue ↔ "*" ∈ allowed := by
  rw [List.mem_filter]
  exact and_iff_left (by decide)

theorem kept_eq_nil_iff : allowed.filter isHeaderValue = [] ↔ ∀ o ∈ allowed, isHeaderValue o = false := by
  simp [List.filter_eq_nil_iff]

/-- The three ends of making a policy. -/
theorem ofOrigins_cases (allowed : List String) :
    ((∀ o ∈ allowed, isHeaderValue o = false) ∧ "*" ∉ allowed ∧ ofOrigins allowed = .ok .anyOrigin) ∨
      ((∃ o ∈ allowed, isHeaderValue o) ∧ "*" ∈ allowed ∧ ofOrigins allowed = .error .crashed) ∨
      ((∃ o ∈ allowed, isHeaderValue o) ∧ "*" ∉ allowed ∧
        ofOrigins allowed = .ok (.only (allowed.filter isHeaderValue))) := by
  rw [ofOrigins]
  split
  · rename_i hempty
    have hnil := List.isEmpty_iff.1 hempty
    refine .inl ⟨kept_eq_nil_iff.1 hnil, fun hasterisk => ?_, rfl⟩
    rw [← mem_kept_asterisk, hnil] at hasterisk
    cases hasterisk
  · rename_i hempty
    have hsome : ∃ o ∈ allowed, isHeaderValue o := by
      by_contra hno
      push Not at hno
      exact hempty (List.isEmpty_iff.2 (kept_eq_nil_iff.2 fun o ho => by simpa using hno o ho))
    split
    · rename_i hasterisk
      exact .inr (.inl ⟨hsome, mem_kept_asterisk.1 (List.contains_iff_mem.1 hasterisk), rfl⟩)
    · rename_i hasterisk
      exact .inr (.inr ⟨hsome, fun h => hasterisk (List.contains_iff_mem.2 (mem_kept_asterisk.2 h)), rfl⟩)

theorem admits_only {origins : List String} {o : String} : (only origins).admits o ↔ o ∈ origins := by
  simp [admits, admitted?, Option.filter]

/-- A policy of some origins, of which none is an asterisk, lets pages of no other origin read anything. -/
theorem mem_of_readableFrom {origins : List String} {w : World} {moments : Moments} {q : Request} {r : Response}
    {o : String} (hasterisk : "*" ∉ origins) (h : (respond (.only origins) w moments q).2 = some r)
    (horigin : q.header? "origin" = some o) (hread : r.readableFrom o) : o ∈ origins := by
  rw [Response.readableFrom, allowedOrigin?_respond h, horigin] at hread
  have hlisted {o' : String} (ho : (only origins).admitted? (some o) = some o') : o = o' ∧ o' ∈ origins := by
    simpa [admitted?, Option.filter_eq_some_iff] using ho
  rcases hread with hread | hread
  · exact (hlisted hread).2
  · exact absurd (hlisted hread).2 hasterisk

theorem keepsTo_of_only (hasterisk : "*" ∉ allowed)
    (hmade : ofOrigins allowed = .ok (.only (allowed.filter isHeaderValue))) : KeepsTo allowed := by
  refine ⟨_, hmade, nofun, fun o ho => (List.mem_filter.1 (admits_only.1 ho)).1, ?_⟩
  intro w moments q r o h horigin hread
  have hmem := mem_of_readableFrom (fun h => hasterisk (mem_kept_asterisk.1 h)) h horigin hread
  exact (List.mem_filter.1 hmem).1

/-- Settings come with any list of texts without commas and without blanks at their ends. A list keeps other
pages out iff no entry is an asterisk and some entry can be a header value. An asterisk ends the process, every
origin is admitted iff no entry can be a header value, and otherwise the entries are that can. -/
theorem keepsTo_iff (allowed : List String) :
    ((∃ env s, Settings.load env = .ok s ∧ s.allowedOrigins = allowed) ↔
        ∀ o ∈ allowed, Settings.Listed o) ∧
      (KeepsTo allowed ↔ "*" ∉ allowed ∧ ∃ o ∈ allowed, isHeaderValue o) ∧
      (ofOrigins allowed = .error .crashed ↔ "*" ∈ allowed) ∧
      (ofOrigins allowed = .ok .anyOrigin ↔ ∀ o ∈ allowed, isHeaderValue o = false) ∧
      ∀ p, ofOrigins allowed = .ok p → p ≠ .anyOrigin →
        ∀ o, p.admits o ↔ o ∈ allowed ∧ isHeaderValue o := by
  refine ⟨Settings.exists_load_iff, ?_⟩
  have hsome : (∃ o ∈ allowed, isHeaderValue o) ↔ ¬ ∀ o ∈ allowed, isHeaderValue o = false := by simp
  obtain ⟨hnone, hasterisk, hmade⟩ | ⟨hone, hasterisk, hmade⟩ | ⟨hone, hasterisk, hmade⟩ :=
    ofOrigins_cases allowed
  · have hopen : ¬ KeepsTo allowed := by
      rintro ⟨p, hp, hrestricted, -⟩
      exact hrestricted (Except.ok.inj (hp.symm.trans hmade))
    refine ⟨iff_of_false hopen fun h => hsome.1 h.2 hnone, ?_, iff_of_true hmade hnone, ?_⟩
    · exact iff_of_false (by rw [hmade]; nofun) hasterisk
    · intro p hp hrestricted
      exact absurd (Except.ok.inj (hp.symm.trans hmade)) hrestricted
  · have hstopped (p : CorsPolicy) : ofOrigins allowed ≠ .ok p := by rw [hmade]; nofun
    refine ⟨iff_of_false ?_ fun h => h.1 hasterisk, iff_of_true hmade hasterisk,
      iff_of_false (hstopped _) (hsome.1 hone), fun p hp => absurd hp (hstopped p)⟩
    rintro ⟨p, hp, -⟩
    exact hstopped p hp
  · refine ⟨iff_of_true (keepsTo_of_only hasterisk hmade) ⟨hasterisk, hone⟩, ?_, ?_, ?_⟩
    · exact iff_of_false (by rw [hmade]; nofun) hasterisk
    · exact iff_of_false (by rw [hmade]; nofun) (hsome.1 hone)
    · intro p hp _ o
      obtain rfl := Except.ok.inj (hp.symm.trans hmade)
      rw [admits_only, List.mem_filter]

/-- A list of one entry, which no header can hold, admits every origin. -/
example : ofOrigins ["https://console.local\x01"] = .ok .anyOrigin := by decide

end CorsPolicy

end Admin

end ShardRegistry
