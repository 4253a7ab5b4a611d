import ShardRegistry.Proofs.Documents
import ShardRegistry.Proofs.Prepending
import ShardRegistry.Proofs.Uniformity

/-! Layouts and resets. A proxy starts from a layout, and a reset puts one into a running registry. The
two are declared apart: the layout stands in its text, and the reset is a variant of the events, read
from members that were read ahead. They are of one format all the same: a layout that names its schemas
is accepted if and only if it is accepted as a reset, and the same reset comes of both. -/
namespace ShardRegistry
namespace Json

/-! ### The tag among the members -/

namespace Tagged
variable {α : Type} (t : Tagged α) {levels : Nat} {closed : Bool} {ms : List (Option String × Document)}

/-- Members other than the tag are read ahead and kept. -/
theorem scan_append (hm : ∀ m ∈ ms, m.1 ≠ none ∧ m.2.strict levels = true)
    (htype : some "type" ∉ ms.map (·.1)) (tag : Option (Decoder α))
    (seen after : List (Option String × Document)) :
    t.scan (.text levels) closed tag seen (ms ++ after) =
      t.scan (.text levels) closed tag (ms.reverse ++ seen) after := by
  induction ms generalizing seen with
  | nil => rfl
  | cons m ms ih =>
    obtain ⟨⟨hkey, hd⟩, hms⟩ := List.forall_mem_cons.1 hm
    rw [List.map_cons, List.mem_cons, not_or] at htype
    obtain ⟨key, d⟩ := m
    cases key with
    | none => exact absurd rfl hkey
    | some key =>
      have hne : key ≠ "type" := fun h => htype.1 (congrArg some h.symm)
      have hany : Decoder.any (.text levels) d = .ok d.value := if_pos hd
      have hstep : t.scan (.text levels) closed tag seen ((some key, d) :: ms ++ after) =
          t.scan (.text levels) closed tag ((some key, d) :: seen) (ms ++ after) := by
        rw [List.cons_append, scan, if_neg hne, hany]
        rfl
      rw [hstep, ih hms htype.2, List.reverse_cons, List.append_assoc]
      rfl

/-- A value with one tag, wherever it stands, is read from the other members by the decoder that the tag
names. -/
theorem decode_tag {name : String} {decode : Decoder α} (hname : t.variants.lookup name = some decode)
    {before after : List (Option String × Document)}
    (hm : ∀ m ∈ before ++ after, m.1 ≠ none ∧ m.2.strict levels = true)
    (htype : some "type" ∉ (before ++ after).map (·.1)) :
    t.decode (.text (levels + 1))
        (.object (before ++ (some "type", .string (some name)) :: after) true) =
      decode .ahead (.object (before ++ after) true) := by
  rw [List.map_append, List.mem_append, not_or] at htype
  obtain ⟨hbefore, hafter⟩ := List.forall_mem_append.1 hm
  have hvariant : t.variant (.text levels) (.string (some name)) = .ok decode := by
    simp only [variant, Decoder.string, bind, Except.bind, hname]
    rfl
  have hscan : t.scan (.text levels) true none []
      (before ++ (some "type", .string (some name)) :: after) = .ok (decode, before ++ after) := by
    calc t.scan (.text levels) true none [] (before ++ (some "type", .string (some name)) :: after)
        = t.scan (.text levels) true none before.reverse ((some "type", .string (some name)) :: after) := by
          rw [t.scan_append hbefore htype.1, List.append_nil]
      _ = t.scan (.text levels) true (some decode) before.reverse (after ++ []) := by
          rw [scan, if_pos rfl, hvariant, List.append_nil]
          rfl
      _ = .ok (decode, before ++ after) := by
          rw [t.scan_append hafter htype.2, ← List.reverse_append, scan, List.reverse_reverse]
          rfl
  calc t.decode (.text (levels + 1)) (.object (before ++ (some "type", .string (some name)) :: after) true)
      = (t.scan (.text levels) true none [] (before ++ (some "type", .string (some name)) :: after) >>=
          fun x => x.1 .ahead (.object x.2 true)) := rfl
    _ = decode .ahead (.object (before ++ after) true) := by rw [hscan]; rfl

end Tagged

/-! ### Records with the same fields -/

namespace Record
variable {α β : Type} {p : Place} {closed : Bool}

/-- The fields and their checks, without regard to which of them have to be present. -/
def checks (r : Record α) : List (String × (Place → Document → Except Failure Unit)) :=
  r.fields.map fun f => (f.1, f.2.1)

theorem lookup_checks (fs : List (String × (Place → Document → Except Failure Unit) × Bool)) (key : String) :
    (fs.map fun f => (f.1, f.2.1)).lookup key = (fs.lookup key).map (·.1) := by
  induction fs with
  | nil => rfl
  | cons f fs ih =>
    rw [List.map_cons, List.lookup_cons, List.lookup_cons, ih]
    split <;> rfl

theorem scan_congr {r : Record α} {s : Record β} (h : r.checks = s.checks)
    (seen : List (String × Document)) (ms : List (Option String × Document)) :
    r.scan p closed seen ms = s.scan p closed seen ms := by
  induction ms generalizing seen with
  | nil => rfl
  | cons m ms ih =>
    obtain ⟨key, d⟩ := m
    cases key with
    | none => rfl
    | some key =>
      have hlookup := congrArg (List.lookup key) h
      simp only [checks, lookup_checks] at hlookup
      simp only [scan, ih]
      cases hr : r.fields.lookup key with
      | none =>
        have hs : s.fields.lookup key = none := Option.map_eq_none_iff.1 (by rw [← hlookup, hr]; rfl)
        rw [hs]
      | some f =>
        obtain ⟨g, hs, hcheck⟩ := Option.map_eq_some_iff.1 (hlookup.symm.trans (congrArg _ hr))
        rw [hs]
        simp only [hcheck]

/-- A scan keeps every field that occurs. -/
theorem isSome_find?_of_scan {r : Record α} {key : String} (hkey : (r.fields.lookup key).isSome = true)
    {ms : List (Option String × Document)} {seen seen' : List (String × Document)}
    (h : r.scan p closed seen ms = .ok seen')
    (hmem : (Entries.find? key seen).isSome = true ∨ some key ∈ ms.map (·.1)) :
    (Entries.find? key seen').isSome = true := by
  induction ms generalizing seen with
  | nil =>
    simp only [scan] at h
    split at h
    · cases h
      exact hmem.resolve_right List.not_mem_nil
    · cases h
  | cons m ms ih =>
    obtain ⟨k, d⟩ := m
    cases k with
    | none => cases h
    | some k =>
      rw [List.map_cons, List.mem_cons] at hmem
      simp only [scan] at h
      split at h
      · rename_i hlookup
        have hne : some key ≠ some k := by
          rintro heq
          cases heq
          rw [hlookup] at hkey
          cases hkey
        split at h
        · exact ih h (hmem.imp_right fun hm => hm.resolve_left hne)
        · cases h
      · split at h
        · cases h
        · obtain ⟨_, _, h⟩ := bind_eq_ok h
          refine ih h ?_
          by_cases hk : k = key
          · exact .inl (by simp [Entries.find?, hk])
          · have hfind : Entries.find? key ((k, d) :: seen) = Entries.find? key seen := if_neg hk
            rw [hfind]
            exact hmem.imp_right fun hm => hm.resolve_left fun heq => hk (Option.some.inj heq).symm

theorem build_optional {get : String → Option Document} {name : String} (h : get name ≠ none)
    (decode : Decoder α) (default : α) (p : Place) :
    (optional name decode default).build get p = (required name decode).build get p := by
  simp only [optional, required]
  cases hd : get name with
  | none => exact absurd hd h
  | some d => rfl

end Record

theorem Decoder.run_of_read {α : Type} {decode : Decoder α} {text : String} {root : Document}
    (h : Source.read text = ⟨root, true⟩) : decode.run text = decode .start root := by
  rw [Decoder.run, h]
  cases decode .start root <;> rfl

theorem map_eq_ok_iff {α β : Type} {f : α → β} {x : Except Failure α} {b : β} :
    x.map f = .ok b ↔ ∃ a, x = .ok a ∧ f a = b := by
  cases x <;> simp [Except.map]

end Json

open Json

/-! ### Parts of a schema -/

theorem ConnectionParameters.uniform : ConnectionParameters.decode.Uniform :=
  .record (((((((((Record.Uniform.map ConnectionParameters.mk (.required "url" .string)).seq
    (.optional "username" .string "")).seq (.optional "password" .string "")).seq
    (.optional "connectionTimeoutMs" .natural 30000)).seq
    (.optional "idleTimeoutMs" .natural 60000)).seq (.optional "maxLifetimeMs" .natural 1800000)).seq
    (.optional "maxPoolSize" .natural 50)).seq (.optional "minPoolSize" .natural 1)).seq
    (.optional "readOnly" .bool false))

theorem SchemaConfiguration.uniform : SchemaConfiguration.decode.Uniform :=
  .record ((Record.Uniform.map SchemaConfiguration.mk
    (.optional "dataSources" ConnectionParameters.uniform.orderedMap .empty)).seq
    (.optional "rules" (Decoder.Uniform.tagged RuleConfiguration.tagged).list []))

theorem User.uniform : User.decode.Uniform :=
  .record ((Record.Uniform.map User.mk (.required "password" .string)).seq
    (.optional "authorizedSchemas" .sortedSet .empty))

theorem Authentication.uniform : Authentication.decode.Uniform :=
  .record (.map Authentication.mk (.optional "users" User.uniform.sortedMap .empty))

theorem RawProperties.uniform : RawProperties.decode.Uniform := Decoder.Uniform.any.sortedMap

/-! ### Layouts and resets -/

theorem Bootstrap.uniform : Bootstrap.decode.Uniform :=
  .record (((Record.Uniform.map Bootstrap.mk
    (.optional "schemas" SchemaConfiguration.uniform.orderedMap .empty)).seq
    (.optional "authentication" Authentication.uniform {})).seq
    (.optional "props" RawProperties.uniform .empty))

namespace Bootstrap

/-- The record that a layout is read as. -/
def record : Record Bootstrap :=
  Bootstrap.mk <$> .optional "schemas" (.orderedMap SchemaConfiguration.decode) .empty
    <*> .optional "authentication" Authentication.decode {}
    <*> .optional "props" RawProperties.decode .empty

theorem decode_eq : Bootstrap.decode = record.decode := rfl

end Bootstrap

/-- The record that a reset is read as. -/
def Event.resetRecord : Record Event :=
  .reset <$> .required "schemas" (.orderedMap SchemaConfiguration.decode)
    <*> .optional "authentication" Authentication.decode {}
    <*> .optional "props" RawProperties.decode .empty

theorem Event.lookup_reset : Event.tagged.variants.lookup "initialize" = some Event.resetRecord.decode := rfl

theorem Bootstrap.checks_record : Bootstrap.record.checks = Event.resetRecord.checks := rfl

theorem Bootstrap.build_record {get : String → Option Document} (h : get "schemas" ≠ none) (p : Place) :
    (Bootstrap.record.build get p).map Bootstrap.event = Event.resetRecord.build get p := by
  simp only [record, Event.resetRecord, Functor.map, Seq.seq, Record.seq, Record.pure,
    Record.build_optional h]
  cases (Record.required "schemas" (.orderedMap SchemaConfiguration.decode)).build get p with
  | error e => rfl
  | ok schemas =>
    cases (Record.optional "authentication" Authentication.decode {}).build get p with
    | error e => rfl
    | ok authentication =>
      cases (Record.optional "props" RawProperties.decode .empty).build get p <;> rfl

/-- The members of a layout that names its schemas, read ahead, are those of a reset. -/
theorem Bootstrap.decode_ahead {ms : List (Option String × Document)} {closed : Bool}
    (h : some "schemas" ∈ ms.map (·.1)) :
    (Bootstrap.decode .ahead (.object ms closed)).map Bootstrap.event =
      Event.resetRecord.decode .ahead (.object ms closed) := by
  have hrecord {α : Type} (r : Record α) : r.decode .ahead (.object ms closed) =
      (r.scan .ahead closed [] ms >>= fun seen =>
        r.build (fun name => Entries.find? name seen) .ahead) := rfl
  rw [decode_eq, hrecord, hrecord, ← Record.scan_congr checks_record]
  cases hscan : record.scan .ahead closed [] ms with
  | error e => rfl
  | ok seen =>
    have hknown : (record.fields.lookup "schemas").isSome = true := rfl
    have hfound := Record.isSome_find?_of_scan hknown hscan (.inr h)
    exact build_record (Option.isSome_iff_ne_none.1 hfound) .ahead

/-- A layout that names its schemas and the reset with its members are of one format. The tag of the
reset may stand anywhere among the members, for example in front of them. -/
theorem Bootstrap.read_as_reset {text : String} {ms : List (Option String × Document)}
    (hread : Source.read text = ⟨.object ms true, true⟩)
    (hstrict : (Document.object ms true).strict 127 = true) (htype : some "type" ∉ ms.map (·.1))
    (hschemas : some "schemas" ∈ ms.map (·.1)) :
    (∀ before after tagged, ms = before ++ after →
      Source.read tagged =
        ⟨.object (before ++ (some "type", .string (some "initialize")) :: after) true, true⟩ →
      ∀ e, Event.decode.run tagged = .ok e ↔ ∃ b, Bootstrap.decode.run text = .ok b ∧ b.event = e) ∧
    Source.read (prepend "type" "initialize" text) =
      ⟨.object ((some "type", .string (some "initialize")) :: ms) true, true⟩ := by
  constructor
  · rintro before after tagged rfl htagged e
    obtain ⟨levels, hlevels, _, hm⟩ := Document.strict_object hstrict
    obtain rfl : levels = 126 := by omega
    have hreset : Event.decode.run tagged =
        (Bootstrap.decode .ahead (.object (before ++ after) true)).map Bootstrap.event := by
      rw [Decoder.run_of_read htagged, decode_ahead hschemas]
      exact Event.tagged.decode_tag Event.lookup_reset hm htype
    have hlayout := (Bootstrap.uniform 127 _ hstrict).map Bootstrap.event
    rw [hreset, Decoder.run_of_read hread, ← hlayout.eq_ok_iff]
    exact map_eq_ok_iff
  · have hms : ms ≠ [] := by
      rintro rfl
      cases hschemas
    exact Source.read_prepend "type" "initialize" hms hread

/-- The layout with its schemas out of alphabetical order, as a reset with the tag behind the schemas and
as one with the tag in front. -/
theorem Bootstrap.read_as_reset_unsorted :
    let members := Event.resetMembers unsorted.schemas unsorted.authentication unsorted.properties
    let ms := documentMembers members
    (Source.read unsorted.toJson.print = ⟨.object ms true, true⟩ ∧
      (Document.object ms true).strict 127 = true ∧ some "type" ∉ ms.map (·.1) ∧
      some "schemas" ∈ ms.map (·.1)) ∧
    Event.decode.run (Json.object (members.insertIdx 1 ("type", .string "initialize"))).print =
      .ok unsorted.event ∧
    Event.decode.run (prepend "type" "initialize" unsorted.toJson.print) = .ok unsorted.event := by
  intro members ms
  have hread : Source.read unsorted.toJson.print = ⟨.object ms true, true⟩ := Source.read_print rfl
  have hstrict : (Document.object ms true).strict 127 = true := rfl
  have htype : some "type" ∉ ms.map (·.1) := by decide
  have hschemas : some "schemas" ∈ ms.map (·.1) := by decide
  have hlayout : Bootstrap.decode.run unsorted.toJson.print = .ok unsorted :=
    (Bootstrap.reads rfl).run rfl (by decide)
  obtain ⟨hreset, hfront⟩ := read_as_reset hread hstrict htype hschemas
  have hbetween : Source.read (Json.object (members.insertIdx 1 ("type", .string "initialize"))).print =
      ⟨.object (ms.take 1 ++ (some "type", .string (some "initialize")) :: ms.drop 1) true, true⟩ :=
    Source.read_print rfl
  exact ⟨⟨hread, hstrict, htype, hschemas⟩,
    (hreset (ms.take 1) (ms.drop 1) _ rfl hbetween _).2 ⟨_, hlayout, rfl⟩,
    (hreset [] ms _ rfl hfront _).2 ⟨_, hlayout, rfl⟩⟩

end ShardRegistry
