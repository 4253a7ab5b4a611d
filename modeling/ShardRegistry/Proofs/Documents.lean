import ShardRegistry.Bootstrap
import ShardRegistry.Proofs.Decoding

/-! Events and layouts as documents. The text of each is read as the very value that it was made from,
with schemas and data sources in the same order. -/
namespace ShardRegistry

open Json

/-! ### Parts of a schema -/

theorem ConnectionParameters.reads (p : ConnectionParameters) :
    ConnectionParameters.decode.Reads p.toJson p :=
  Record.Reads.decode (((((((((Record.Reads.map ConnectionParameters.mk
    (.required (.string p.url))).seq (.optional (.string p.username))).seq
    (.optional (.string p.password))).seq (.optional (.natural p.connectionTimeoutMs))).seq
    (.optional (.natural p.idleTimeoutMs))).seq (.optional (.natural p.maxLifetimeMs))).seq
    (.optional (.natural p.maxPoolSize))).seq (.optional (.natural p.minPoolSize))).seq
    (.optional (.bool p.readOnly))) (by simp)

theorem ParameterMap.reads (m : ParameterMap) : ParameterMap.decode.Reads m.toJson m :=
  .orderedMap fun e _ => e.2.reads

theorem TableConfiguration.reads (t : TableConfiguration) :
    TableConfiguration.decode.Reads t.toJson t :=
  Record.Reads.decode ((Record.Reads.map TableConfiguration.mk (.required (.string t.logicTable))).seq
    (.required (.strings t.actualDataNodes))) (by simp)

theorem ShardingConfiguration.reads (c : ShardingConfiguration) :
    ShardingConfiguration.decode.Reads (.object c.members) c :=
  Record.Reads.decode ((Record.Reads.map ShardingConfiguration.mk
    (.optional (.list fun t _ => t.reads))).seq (.optional (.stringOrNull c.defaultDataSource)))
    (by simp [members])

theorem ReadWriteConfiguration.reads (c : ReadWriteConfiguration) :
    ReadWriteConfiguration.decode.Reads (.object c.members) c :=
  Record.Reads.decode (((Record.Reads.map ReadWriteConfiguration.mk (.required (.string c.name))).seq
    (.required (.string c.primary))).seq (.optional (.strings c.replicas))) (by simp [members])

theorem RuleConfiguration.reads (c : RuleConfiguration) :
    RuleConfiguration.decode.Reads c.toJson c := by
  cases c with
  | sharding c =>
    exact Tagged.reads (t := tagged) rfl (by simp [ShardingConfiguration.members])
      (c.reads.map RuleConfiguration.sharding)
  | readWrite c =>
    exact Tagged.reads (t := tagged) rfl (by simp [ReadWriteConfiguration.members])
      (c.reads.map RuleConfiguration.readWrite)

theorem SchemaConfiguration.reads (c : SchemaConfiguration) :
    SchemaConfiguration.decode.Reads c.toJson c :=
  Record.Reads.decode ((Record.Reads.map SchemaConfiguration.mk (.optional c.dataSources.reads)).seq
    (.optional (.list fun c _ => c.reads))) (by simp)

/-! ### Users, properties and tables -/

theorem User.reads (u : User) : User.decode.Reads u.toJson u :=
  Record.Reads.decode ((Record.Reads.map User.mk (.required (.string u.password))).seq
    (.optional (.sortedSet u.authorizedSchemas))) (by simp)

theorem Authentication.reads (a : Authentication) : Authentication.decode.Reads a.toJson a :=
  Record.Reads.decode (.map Authentication.mk (.optional (.sortedMap fun e _ => e.2.reads))) (by simp)

/-- Whether the properties stand for maps: no value has members out of order. -/
def RawProperties.ascending (p : RawProperties) : Bool := p.values.all (·.ascending)

theorem RawProperties.reads {p : RawProperties} (h : p.ascending = true) :
    RawProperties.decode.Reads p.toJson p := by
  have hentries : p.entries.map (fun e => (e.1, id e.2)) = p.entries := List.map_id p.entries
  have hvalues : ∀ e ∈ p.entries, Decoder.any.Reads (id e.2) e.2 := fun e he =>
    .any (List.all_eq_true.1 h e.2 (List.mem_map_of_mem he))
  rw [toJson, ← hentries]
  exact .sortedMap hvalues

theorem Column.reads (c : Column) : Column.decode.Reads c.toJson c :=
  Record.Reads.decode (((Record.Reads.map Column.mk (.required (.string c.name))).seq
    (.required (.string c.dataType))).seq (.optional (.bool c.primaryKey))) (by simp)

theorem Table.reads (t : Table) : Table.decode.Reads t.toJson t :=
  Record.Reads.decode (.map Table.mk (.required (.list fun c _ => c.reads))) (by simp)

theorem Tables.reads (ts : Tables) : Tables.decode.Reads ts.toJson ts :=
  .sortedMap fun e _ => e.2.reads

theorem SchemaTables.reads (t : SchemaTables) : SchemaTables.decode.Reads t.toJson t :=
  Record.Reads.decode ((Record.Reads.map SchemaTables.mk (.optional t.configured.reads)).seq
    (.optional (.sortedMap fun e _ => Tables.reads e.2))) (by simp)

/-! ### Events and layouts -/

namespace Event

/-- The properties that an event carries. -/
def properties : Event → RawProperties
  | .reset _ _ properties => properties
  | .propertiesChanged properties => properties
  | _ => .empty

theorem reads_rules (rules : List RuleConfiguration) : rulesField.Reads (rulesJson rules) rules :=
  .list fun c _ => c.reads

theorem reads_schemas (schemas : OrderedMap SchemaConfiguration) :
    (Decoder.orderedMap SchemaConfiguration.decode).Reads
      (.object (schemas.entries.map fun e => (e.1, e.2.toJson))) schemas :=
  .orderedMap fun e _ => e.2.reads

/-- An event is read by the decoder of its kind. -/
theorem reads {e : Event} (h : e.properties.ascending = true) : Event.decode.Reads e.toJson e := by
  cases e with
  | reset schemas authentication properties =>
    refine Tagged.reads_record (t := tagged) rfl ?_ (by simp [members, resetMembers])
    exact ((Record.Reads.map Event.reset (.required (reads_schemas schemas))).seq
      (.optional authentication.reads)).seq (.optional (RawProperties.reads h))
  | schemaAdded schema dataSources rules =>
    refine Tagged.reads_record (t := tagged) rfl ?_ (by simp [members])
    exact ((Record.Reads.map Event.schemaAdded (.required (.string schema))).seq
      (.required dataSources.reads)).seq (.optional (reads_rules rules))
  | schemaDeleted schema =>
    refine Tagged.reads_record (t := tagged) rfl ?_ (by simp [members])
    exact Record.Reads.map Event.schemaDeleted (.required (.string schema))
  | propertiesChanged properties =>
    refine Tagged.reads_record (t := tagged) rfl ?_ (by simp [members])
    exact Record.Reads.map Event.propertiesChanged (.required (RawProperties.reads h))
  | authenticationChanged authentication =>
    refine Tagged.reads_record (t := tagged) rfl ?_ (by simp [members])
    exact Record.Reads.map Event.authenticationChanged (.required authentication.reads)
  | circuitStateChanged isOpen =>
    refine Tagged.reads_record (t := tagged) rfl ?_ (by simp [members])
    exact Record.Reads.map Event.circuitStateChanged (.required (.bool isOpen))
  | metaDataChanged schemas tables =>
    refine Tagged.reads_record (t := tagged) rfl ?_ (by simp [members])
    exact (Record.Reads.map Event.metaDataChanged (.required (.strings schemas))).seq
      (.required tables.reads)
  | rulesChanged schema rules =>
    refine Tagged.reads_record (t := tagged) rfl ?_ (by simp [members])
    exact (Record.Reads.map Event.rulesChanged (.required (.string schema))).seq
      (.required (reads_rules rules))
  | disabledStateChanged schema backend disabled =>
    refine Tagged.reads_record (t := tagged) rfl ?_ (by simp [members])
    exact ((Record.Reads.map Event.disabledStateChanged (.required (.string schema))).seq
      (.required (.string backend))).seq (.required (.bool disabled))
  | dataSourcesChanged schema dataSources =>
    refine Tagged.reads_record (t := tagged) rfl ?_ (by simp [members])
    exact (Record.Reads.map Event.dataSourcesChanged (.required (.string schema))).seq
      (.required dataSources.reads)
  | heartbeat =>
    exact Tagged.reads (t := tagged) rfl List.not_mem_nil fun _ _ => rfl

end Event

theorem Bootstrap.reads {b : Bootstrap} (h : b.properties.ascending = true) :
    Bootstrap.decode.Reads b.toJson b :=
  Record.Reads.decode (((Record.Reads.map Bootstrap.mk
    (.optional (Event.reads_schemas b.schemas))).seq (.optional b.authentication.reads)).seq
    (.optional (RawProperties.reads h))) (by simp [Event.resetMembers])

/-- Whether a value with the given properties can be written down without loss: its numbers are
integers of 64 bits, its properties stand for maps, and a text may have that many levels. -/
structure Json.Faithful (j : Json) (properties : RawProperties) : Prop where
  integral : j.integral = true
  ascending : properties.ascending = true
  levels : j.depth ≤ 127

/-- What is printed of an event or of a layout is read as the same value, with the schemas, data
sources and rules in the same order. -/
theorem Event.decode_print :
    (∀ e : Event, e.toJson.Faithful e.properties → Event.decode.run e.toJson.print = .ok e) ∧
    (∀ b : Bootstrap, b.toJson.Faithful b.properties → Bootstrap.decode.run b.toJson.print = .ok b) :=
  ⟨fun _ h => (reads h.ascending).run h.integral h.levels,
    fun _ h => (Bootstrap.reads h.ascending).run h.integral h.levels⟩

/-- A layout with its schemas out of alphabetical order, rules of both kinds and nested properties. -/
def Bootstrap.unsorted : Bootstrap where
  schemas := .ofList [
    ("zeta", ⟨.ofList [("b1", { url := "postgres://db/b1" }), ("b0", { url := "postgres://db/b0" })],
      [.sharding ⟨[⟨"t_order", ["b1.t_order_0"]⟩], some "b0"⟩, .readWrite ⟨"rw", "b0", ["b1"]⟩]⟩),
    ("alpha", {})]
  authentication := ⟨.ofList [("root", { password := "\"\\\n" })]⟩
  properties := .ofList [("a", .object [("x", .number (.integer (-1))), ("y", .array [.null])])]

theorem Event.decode_print_unsorted :
    (Bootstrap.unsorted.event.toJson.Faithful Bootstrap.unsorted.event.properties ∧
      Event.decode.run Bootstrap.unsorted.event.toJson.print = .ok Bootstrap.unsorted.event) ∧
    Bootstrap.unsorted.toJson.Faithful Bootstrap.unsorted.properties ∧
      Bootstrap.decode.run Bootstrap.unsorted.toJson.print = .ok Bootstrap.unsorted ∧
    Bootstrap.unsorted.schemas.keys = ["zeta", "alpha"] := by
  have hevent : Bootstrap.unsorted.event.toJson.Faithful Bootstrap.unsorted.event.properties :=
    ⟨rfl, rfl, by decide⟩
  have hlayout : Bootstrap.unsorted.toJson.Faithful Bootstrap.unsorted.properties :=
    ⟨rfl, rfl, by decide⟩
  exact ⟨⟨hevent, decode_print.1 _ hevent⟩, hlayout, decode_print.2 _ hlayout, rfl⟩

end ShardRegistry
