import Sluice.Cli.Execute

/-!
The program: reads the graph file, runs one command and prints what comes of it.
-/

namespace Sluice.Cli

def readFile (name : String) : IO (Except String String) := do
  try
    return .ok (← IO.FS.readFile name)
  catch e =>
    return .error (toString e)

/-- The file that a command line names, read beforehand. -/
def readFiles (args : List String) : IO (List (String × Except String String)) :=
  match Command.parse args with
  | some (.run file _ _ _) | some (.validate file) | some (.explain file) => do
    return [(file, ← readFile file)]
  | _ => return []

def environmentNames : List String :=
  ["HOPLINE_CHANNEL_CAPACITY", "HOPLINE_SAFE_MODE", "HOPLINE_THREAD_PREFIX", "HOPLINE_BATCH_ROWS",
    "HOPLINE_FAILPOINTS"]

def readEnvironment : IO Environment :=
  environmentNames.filterMapM fun name => do
    return (← IO.getEnv name).map fun value => (name, value)

def readWorld (args : List String) : IO World := do
  let files ← readFiles args
  let environment ← readEnvironment
  let id ← IO.getRandomBytes 16
  let now ← IO.monoMsNow
  let file (name : String) : Except String String :=
    ((files.find? (·.1 == name)).map (·.2)).getD (.error "not read")
  return { file, environment, id := id.toList, now }

end Sluice.Cli

def main (args : List String) : IO UInt32 := do
  let outcome := Sluice.Cli.execute (← Sluice.Cli.readWorld args) args
  IO.print outcome.out
  if let some line := outcome.failure then IO.eprintln line
  return UInt32.ofNat outcome.exit
