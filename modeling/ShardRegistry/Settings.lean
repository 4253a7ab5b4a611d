import ShardRegistry.Text.Blank
import ShardRegistry.Text.Natural

/-! Settings of a server, from the variables of its environment. An address or port that cannot be
read counts as absent; only the period of the heartbeat is refused. -/
namespace ShardRegistry

/-- An IPv4 address as its four bytes. -/
structure HostAddress where
  bytes : List Nat
  deriving DecidableEq, Repr

namespace HostAddress

def loopback : HostAddress := ⟨[127, 0, 0, 1]⟩

def isLoopback (a : HostAddress) : Bool := a.bytes.head? = some 127

/-- A number below 256 of at most three digits without a leading zero. -/
def byte? (cs : List Char) : Option Nat :=
  if cs.length > 3 || (cs.length > 1 && cs.head? = some '0') then none
  else (Text.digits? cs).filter (· < 256)

def read (text : String) : Option HostAddress := do
  let bytes ← (text.toList.splitOn '.').mapM byte?
  if bytes.length = 4 then some ⟨bytes⟩ else none

def text (a : HostAddress) : String := String.intercalate "." (a.bytes.map toString)

end HostAddress

structure Settings where
  host : HostAddress := .loopback
  port : Nat := 3307
  /-- Origins that other pages may call from; none means any. -/
  allowedOrigins : List String := []
  bootstrapFile : Option String := none
  /-- The period of the heartbeat in seconds, unless it is off. -/
  heartbeatSeconds : Option Nat := some 30
  deriving DecidableEq, Repr

/-- A period that is no number. -/
structure Settings.Fault where
  value : String
  deriving DecidableEq, Repr

namespace Settings

def Fault.message (f : Fault) : String :=
  s!"Invalid configuration value: HEARTBEAT_INTERVAL_SECS must be a number, got `{f.value}`"

/-- The items between commas, without the blanks around them and without empty ones. -/
def origins (text : String) : List String :=
  let items := (text.toList.splitOn ',').map fun cs => Text.strip Text.isBlank cs
  (items.filter fun cs => !cs.isEmpty).map String.ofList

def heartbeat (value : Option String) : Except Fault (Option Nat) :=
  match value with
  | none => .ok (some 30)
  | some raw => match Text.natural? Text.wordLimit (Text.strip Text.isBlank raw.toList) with
    | none => .error ⟨raw⟩
    | some 0 => .ok none
    | some n => .ok (some n)

/-- Reads the settings from the variables that `env` finds. -/
def load (env : String → Option String) : Except Fault Settings := do
  let heartbeatSeconds ← heartbeat (env "HEARTBEAT_INTERVAL_SECS")
  return { host := (env "HOST").bind HostAddress.read |>.getD .loopback,
           port := (env "PORT").bind (fun s => Text.natural? (Nat.pow 2 16) s.toList) |>.getD 3307,
           allowedOrigins := ((env "ALLOWED_ORIGINS").map origins).getD [],
           bootstrapFile := (env "PROXY_BOOTSTRAP_FILE").filter fun s => !Text.blank s,
           heartbeatSeconds }

end Settings

end ShardRegistry
