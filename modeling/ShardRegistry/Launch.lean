import ShardRegistry.Admin.Router
import ShardRegistry.Bootstrap
import ShardRegistry.Settings

/-! Starting and stopping a proxy. Settings come first, then the layout in the bootstrap file, which
is put into an empty registry, and then the policy of the admin interface. -/
namespace ShardRegistry

/-- A proxy that serves: its settings, the policy of its admin interface, and its registry. -/
structure Proxy where
  settings : Settings
  policy : Admin.CorsPolicy
  world : World

namespace Proxy

/-- Why a proxy does not start. -/
inductive Fault where
  | settings (f : Settings.Fault)
  | unreadable (path : String)
  | malformed (path : String)
  /-- The registry rejects the layout. -/
  | rejected (e : Error)
  /-- The process breaks off. -/
  | crashed

/-- What is reported, if the process gets to report anything. -/
def Fault.message? : Fault → Option String
  | .settings f => some f.message
  | .unreadable path => some ("Failed to read " ++ Text.quoted path)
  | .malformed path => some ("Failed to parse " ++ Text.quoted path)
  | .rejected e => some e.message
  | .crashed => none

/-- The code that the process ends with. -/
def Fault.exitCode : Fault → Nat
  | .crashed => 101
  | _ => 1

/-- The registry of a proxy before it has a layout: PostgreSQL pools, whose backends are asked for
their tables. -/
def emptyWorld : World := { factory := .postgres, tables := .querying }

/-- Puts an event into a registry. -/
def apply (w : World) (event : Event) : Except Fault World :=
  match w.perform fun w t => w.beginEvent t event with
  | (_, some (.failed e)) => .error (.rejected e)
  | (w, some _) => .ok w
  | (_, none) => .error .crashed

/-- The registry with the layout of a bootstrap file, if there is one. -/
def bootstrap (read : String → Option String) (file : Option String) : Except Fault World :=
  match file with
  | none => .ok emptyWorld
  | some path => match read path with
    | none => .error (.unreadable path)
    | some text => match Bootstrap.decode.run text with
      | .error _ => .error (.malformed path)
      | .ok layout => apply emptyWorld layout.event

/-- Starts a proxy from the variables of its environment and the files that it can read. -/
def start (env read : String → Option String) : Except Fault Proxy := do
  let settings ← (Settings.load env).mapError .settings
  let world ← bootstrap read settings.bootstrapFile
  match Admin.CorsPolicy.ofOrigins settings.allowedOrigins with
  | .ok policy => return { settings, policy, world }
  | .error _ => throw .crashed

/-- Closes the registry of a proxy. -/
def stop (p : Proxy) : Proxy :=
  { p with world := (p.world.perform fun w t => w.beginChange t .close).1 }

end Proxy

end ShardRegistry
