import Sluice.Cli.Command
import Sluice.Graph.File
import Sluice.Run.Schedule
import Sluice.Step.Catalog

/-!
What each command prints and how it exits: 0 for success, 1 for an error, 2 for a run that failed
and for a wrong use.
-/

namespace Sluice.Cli

/-- What a command finds around it. -/
structure World where
  /-- The content of a file, or why it cannot be read. -/
  file : String → Except String String
  environment : Environment := []
  /-- Sixteen bytes that no two runs share. -/
  id : List UInt8 := List.replicate 16 0
  /-- Milliseconds by some clock. -/
  now : Nat := 0

structure Outcome where
  exit : Nat := 0
  out : String := ""
  /-- The line of the error, if there is one. -/
  failure : Option String := none
  deriving DecidableEq, Repr

def armedBy (env : Environment) : List String :=
  match env.get? "HOPLINE_FAILPOINTS" with
  | some text => (text.splitOn ",").map Text.trim
  | none => []

def padRight (width : Nat) (s : String) : String :=
  s ++ String.ofList (List.replicate (width - s.length) ' ')

def padLeft (width : Nat) (s : String) : String :=
  String.ofList (List.replicate (width - s.length) ' ') ++ s

def lines (ls : List String) : String :=
  String.join (ls.map (· ++ "\n"))

def unitLine (u : UnitReport) : String :=
  "  " ++ padRight 24 u.unit.format ++ " " ++ padRight 9 u.state.name ++
    " read " ++ padLeft 8 u.linesRead.repr ++ "  written " ++ padLeft 8 u.linesWritten.repr ++
    "  errors " ++ u.errors.repr

def summary (r : RunReport) : String :=
  let mark := if r.success then "✓" else "✗"
  lines ([
    mark ++ " Graph '" ++ r.manifest.graphName ++ "' " ++ (if r.success then "finished" else "failed"),
    "  Duration: " ++ r.manifest.duration.repr ++ "ms",
    "  Graph hash: " ++ Text.hexOfBytes r.manifest.graphDigest,
    "  Errors: " ++ r.errorCount.repr] ++
    r.units.map unitLine ++
    r.errors.map fun (unit, message) => "  ! " ++ unit.format ++ ": " ++ message)

def load (w : World) (file : String) : Except String GraphFile := do
  let text ← w.file file
  (GraphFile.read text).mapError GraphFileError.message

/-- Rounds that a run gets before it is stopped, by its time. -/
def roundsFor (milliseconds : Nat) : Nat :=
  100 + 2 * milliseconds

/-- Runs a graph file. The environment gives way to the file, and the file to the options. -/
def runFile (w : World) (file : String) (overrides : Overrides) (timeout : Option Nat) :
    Except String RunReport := do
  let g ← load w file
  let settings := (Settings.ofEnvironment w.environment).apply (g.overrides.merge overrides)
  let r := Run.new Catalog.builtins settings g.graph (armedBy w.environment)
  let (prepared, r) := r.prepare
  prepared.mapError RunError.message
  let (started, r) := r.start w.id w.now
  started.mapError RunError.message
  let r := match timeout with
    | none => r
    | some ms =>
      let r := r.settle Run.unitsIdle (roundsFor ms)
      if r.unitsIdle then r else r.stop
  match (r.runToEnd w.now).1 with
  | some answer => answer.mapError RunError.message
  | none => throw "the run does not end"

def explainFile (w : World) (file : String) : Except String String := do
  let g ← load w file
  let plan ← (Plan.ofGraph Catalog.builtins g.graph).mapError GraphFault.message
  let settings := (Settings.ofEnvironment w.environment).apply g.overrides
  return lines [
      "Transformation Plan",
      "===================",
      "",
      "Channel capacity: " ++ settings.channelCapacity.repr ++ " rows",
      "Batch rows: " ++ settings.batchRows.repr,
      "Safe mode: " ++ (if settings.safeMode then "true" else "false"),
      ""] ++
    plan.explain g.graph ++
    lines ["", "Sources: " ++ ", ".intercalate plan.sources, "Sinks: " ++ ", ".intercalate plan.sinks]

def validateFile (w : World) (file : String) : Except String String := do
  let g ← load w file
  let _ ← (Plan.ofGraph Catalog.builtins g.graph).mapError GraphFault.message
  return lines ["✓ Graph is valid (" ++ g.graph.steps.length.repr ++ " steps, " ++
    g.graph.hops.length.repr ++ " hops)"]

def typeLine (t : StepType StepMemory) : String :=
  let max := match t.maxInputs with
    | some n => n.repr
    | none => "any"
  padRight 16 t.id ++ " inputs " ++ t.minInputs.repr ++ ".." ++ max ++ "  " ++ t.description

def refused (label message : String) : Outcome :=
  { exit := 1, failure := some (label ++ message) }

def Command.execute (w : World) : Command → Outcome
  | .help => {}
  | .steps => { out := lines (Catalog.builtins.types.map typeLine) }
  | .validate file =>
    match validateFile w file with
    | .ok out => { out }
    | .error e => refused "Validation failed: " e
  | .explain file =>
    match explainFile w file with
    | .ok out => { out }
    | .error e => refused "Error: " e
  | .run file overrides timeout json =>
    match runFile w file overrides timeout with
    | .ok r =>
      { exit := if r.success then 0 else 2
        out := if json then r.encode.pretty 0 ++ "\n" else summary r }
    | .error e => refused "Error: " e

def execute (w : World) (args : List String) : Outcome :=
  match Command.parse args with
  | some command => command.execute w
  | none => { exit := 2 }

end Sluice.Cli
