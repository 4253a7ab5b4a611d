import ShardRegistry.Launch

/-! The command: starts a proxy from the environment, tells where it listens, and stops it when the
standard input ends. -/
open ShardRegistry

/-- The variables that settings are read from. -/
def settingNames : List String :=
  ["HOST", "PORT", "ALLOWED_ORIGINS", "PROXY_BOOTSTRAP_FILE", "HEARTBEAT_INTERVAL_SECS"]

/-- The content of a file, or nothing if it cannot be read as text. -/
def content? (path : String) : IO (Option String) := do
  try
    return some (← IO.FS.readFile path)
  catch _ =>
    return none

def main : IO UInt32 := do
  let found ← settingNames.filterMapM fun name => do
    return (← IO.getEnv name).map fun value => (name, value)
  let file := (found.lookup "PROXY_BOOTSTRAP_FILE").getD ""
  let text ← content? file
  match Proxy.start (fun name => found.lookup name) (fun _ => text) with
  | .error fault =>
    if let some message := fault.message? then
      IO.eprintln ("Error: " ++ message)
    return UInt32.ofNat fault.exitCode
  | .ok proxy =>
    IO.eprintln s!"Admin API listening on {proxy.settings.host.text}:{proxy.settings.port}"
    let _ ← (← IO.getStdin).readToEnd
    let stopped := proxy.stop
    IO.eprintln s!"Shut down at generation {stopped.world.registry.generation}"
    return 0
