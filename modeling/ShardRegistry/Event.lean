import ShardRegistry.Authentication
import ShardRegistry.MetaData.Basic
import ShardRegistry.Property
import ShardRegistry.Rule.Configuration

/-! The changes that a registry reacts to, and their JSON form. -/
namespace ShardRegistry

/-- Data sources and rules of one schema. -/
structure SchemaConfiguration where
  dataSources : ParameterMap := .empty
  rules : List RuleConfiguration := []
  deriving DecidableEq, Inhabited

inductive Event where
  /-- Replaces every schema, the users and the properties. -/
  | reset (schemas : OrderedMap SchemaConfiguration) (authentication : Authentication)
      (properties : RawProperties)
  | schemaAdded (schema : String) (dataSources : ParameterMap) (rules : List RuleConfiguration)
  | schemaDeleted (schema : String)
  | propertiesChanged (properties : RawProperties)
  | authenticationChanged (authentication : Authentication)
  | circuitStateChanged (isOpen : Bool)
  | metaDataChanged (schemas : List String) (tables : SchemaTables)
  | rulesChanged (schema : String) (rules : List RuleConfiguration)
  | disabledStateChanged (schema backend : String) (disabled : Bool)
  | dataSourcesChanged (schema : String) (dataSources : ParameterMap)
  | heartbeat

namespace SchemaConfiguration

def decode : Json.Decoder SchemaConfiguration :=
  Json.Record.decode <| SchemaConfiguration.mk
    <$> .optional "dataSources" ParameterMap.decode .empty
    <*> .optional "rules" (.list RuleConfiguration.decode) []

def toJson (c : SchemaConfiguration) : Json :=
  .object [("dataSources", c.dataSources.toJson), ("rules", .array (c.rules.map (·.toJson)))]

end SchemaConfiguration

/-- Properties as they come, keys in ascending order. -/
def RawProperties.decode : Json.Decoder RawProperties := .sortedMap .any

def RawProperties.toJson (p : RawProperties) : Json := .object p.entries

namespace Event

def kind : Event → String
  | .reset .. => "initialize"
  | .schemaAdded .. => "schema_added"
  | .schemaDeleted .. => "schema_deleted"
  | .propertiesChanged .. => "properties_changed"
  | .authenticationChanged .. => "authentication_changed"
  | .circuitStateChanged .. => "circuit_state_changed"
  | .metaDataChanged .. => "meta_data_changed"
  | .rulesChanged .. => "rule_configurations_changed"
  | .disabledStateChanged .. => "disabled_state_changed"
  | .dataSourcesChanged .. => "data_source_changed"
  | .heartbeat => "heartbeat_detect"

def rulesField : Json.Decoder (List RuleConfiguration) := .list RuleConfiguration.decode

def tagged : Json.Tagged Event where
  variants := [
    ("initialize", Json.Record.decode <| .reset <$>
      .required "schemas" (.orderedMap SchemaConfiguration.decode)
      <*> .optional "authentication" Authentication.decode {}
      <*> .optional "props" RawProperties.decode .empty),
    ("schema_added", Json.Record.decode <| .schemaAdded <$> .required "schemaName" .string
      <*> .required "dataSources" ParameterMap.decode <*> .optional "rules" rulesField []),
    ("schema_deleted", Json.Record.decode <| .schemaDeleted <$> .required "schemaName" .string),
    ("properties_changed", Json.Record.decode <| .propertiesChanged <$>
      .required "props" RawProperties.decode),
    ("authentication_changed", Json.Record.decode <| .authenticationChanged <$>
      .required "authentication" Authentication.decode),
    ("circuit_state_changed", Json.Record.decode <| .circuitStateChanged <$>
      .required "open" .bool),
    ("meta_data_changed", Json.Record.decode <| .metaDataChanged <$>
      .required "schemaNames" (.list .string) <*> .required "metadata" SchemaTables.decode),
    ("rule_configurations_changed", Json.Record.decode <| .rulesChanged <$>
      .required "schemaName" .string <*> .required "rules" rulesField),
    ("disabled_state_changed", Json.Record.decode <| .disabledStateChanged <$>
      .required "schemaName" .string <*> .required "dataSourceName" .string
      <*> .required "disabled" .bool),
    ("data_source_changed", Json.Record.decode <| .dataSourcesChanged <$>
      .required "schemaName" .string <*> .required "dataSources" ParameterMap.decode),
    ("heartbeat_detect", .unit .heartbeat)]

def decode : Json.Decoder Event := tagged.decode

/-- The members of a document that makes every schema anew. -/
def resetMembers (schemas : OrderedMap SchemaConfiguration) (authentication : Authentication)
    (properties : RawProperties) : List (String × Json) :=
  [("schemas", .object (schemas.entries.map fun e => (e.1, e.2.toJson))),
    ("authentication", authentication.toJson), ("props", properties.toJson)]

def rulesJson (rules : List RuleConfiguration) : Json := .array (rules.map (·.toJson))

def members : Event → List (String × Json)
  | .reset schemas authentication properties => resetMembers schemas authentication properties
  | .schemaAdded schema dataSources rules =>
    [("schemaName", .string schema), ("dataSources", dataSources.toJson),
      ("rules", rulesJson rules)]
  | .schemaDeleted schema => [("schemaName", .string schema)]
  | .propertiesChanged properties => [("props", properties.toJson)]
  | .authenticationChanged authentication => [("authentication", authentication.toJson)]
  | .circuitStateChanged isOpen => [("open", .bool isOpen)]
  | .metaDataChanged schemas tables =>
    [("schemaNames", .strings schemas), ("metadata", tables.toJson)]
  | .rulesChanged schema rules => [("schemaName", .string schema), ("rules", rulesJson rules)]
  | .disabledStateChanged schema backend disabled =>
    [("schemaName", .string schema), ("dataSourceName", .string backend),
      ("disabled", .bool disabled)]
  | .dataSourcesChanged schema dataSources =>
    [("schemaName", .string schema), ("dataSources", dataSources.toJson)]
  | .heartbeat => []

/-- The JSON form: the kind as member `type`, and then the members of that kind. -/
def toJson (e : Event) : Json := .object (("type", .string e.kind) :: e.members)

end Event

end ShardRegistry
