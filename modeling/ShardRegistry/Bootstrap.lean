import ShardRegistry.Event

/-! The layout that a proxy starts with, and the event that puts it into a registry. -/
namespace ShardRegistry

structure Bootstrap where
  schemas : OrderedMap SchemaConfiguration := .empty
  authentication : Authentication := {}
  properties : RawProperties := .empty

namespace Bootstrap

def decode : Json.Decoder Bootstrap :=
  Json.Record.decode <| Bootstrap.mk <$>
    .optional "schemas" (.orderedMap SchemaConfiguration.decode) .empty
    <*> .optional "authentication" Authentication.decode {}
    <*> .optional "props" RawProperties.decode .empty

def toJson (b : Bootstrap) : Json :=
  .object (Event.resetMembers b.schemas b.authentication b.properties)

def event (b : Bootstrap) : Event := .reset b.schemas b.authentication b.properties

end Bootstrap

end ShardRegistry
