import Sluice.Settings

/-!
Command lines: which command is asked for, with which options.
-/

namespace Sluice.Cli

inductive Command where
  /-- Runs a graph file; a run may be stopped after some milliseconds. -/
  | run (file : String) (overrides : Overrides) (timeout : Option Nat) (json : Bool)
  | validate (file : String)
  | explain (file : String)
  | steps
  | help
  deriving DecidableEq, Repr

structure Options where
  graph : Option String := none
  channelCapacity : Option Nat := none
  batchRows : Option Nat := none
  safeMode : Bool := false
  threadPrefix : Option String := none
  timeout : Option Nat := none
  json : Bool := false
  help : Bool := false

namespace Options

inductive Name where
  | graph
  | channelCapacity
  | batchRows
  | safeMode
  | threadPrefix
  | timeout
  | json
  | help
  deriving DecidableEq

def Name.ofLong? : String → Option Name
  | "graph" => some .graph
  | "channel-capacity" => some .channelCapacity
  | "batch-rows" => some .batchRows
  | "safe-mode" => some .safeMode
  | "thread-prefix" => some .threadPrefix
  | "timeout-ms" => some .timeout
  | "json" => some .json
  | "help" => some .help
  | _ => none

def Name.isSwitch : Name → Bool
  | .safeMode | .json | .help => true
  | _ => false

def put (o : Options) (name : Name) (text : String) : Option Options :=
  let once {α : Type} (old : Option α) (new : Option α) (set : Option α → Options) : Option Options :=
    if old.isSome then none else new.map fun a => set (some a)
  let count : Option Nat := (readCount text).toOption
  match name with
  | .graph => if text.isEmpty then none else once o.graph (some text) fun a => { o with graph := a }
  | .channelCapacity => once o.channelCapacity count fun a => { o with channelCapacity := a }
  | .batchRows => once o.batchRows count fun a => { o with batchRows := a }
  | .threadPrefix => once o.threadPrefix (some text) fun a => { o with threadPrefix := a }
  | .timeout => once o.timeout count fun a => { o with timeout := a }
  | _ => none

def turnOn (o : Options) : Name → Option Options
  | .safeMode => if o.safeMode then none else some { o with safeMode := true }
  | .json => if o.json then none else some { o with json := true }
  | .help => some { o with help := true }
  | _ => none

end Options

/-- One argument: an option by its name, with the value that is attached to it. -/
def splitOption (allowed : List Options.Name) (arg : String) :
    Option (Options.Name × Option String) := do
  let (name, value) ← match arg.toList with
    | '-' :: '-' :: rest =>
      let name := rest.takeWhile (· ≠ '=')
      let value := match rest.drop name.length with
        | _ :: value => some (String.ofList value)
        | [] => none
      some (← Options.Name.ofLong? (String.ofList name), value)
    | ['-', 'h'] => some (.help, none)
    | ['-', 'g'] => some (.graph, none)
    | '-' :: 'g' :: '=' :: value => some (.graph, some (String.ofList value))
    | '-' :: 'g' :: value => some (.graph, some (String.ofList value))
    | _ => none
  guard (allowed.contains name)
  return (name, value)

/-- An argument that is no option may be the value of one; so may a lone hyphen. -/
def isValue (arg : String) : Bool :=
  arg.toList.head? ≠ some '-' || arg == "-"

def readOptions (allowed : List Options.Name) : Options → List String → Option Options
  | o, [] => some o
  | o, ["--"] => some o
  | o, arg :: rest =>
    match splitOption allowed arg with
    | none => none
    | some (name, attached) =>
      if name.isSwitch then
        if attached.isSome then none
        else if name = .help then some { o with help := true }
        else (o.turnOn name).bind fun o => readOptions allowed o rest
      else match attached, rest with
        | some value, rest => (o.put name value).bind fun o => readOptions allowed o rest
        | none, value :: rest =>
          if isValue value then (o.put name value).bind fun o => readOptions allowed o rest else none
        | none, [] => none

def withFile (allowed : List Options.Name) (args : List String)
    (make : String → Options → Command) : Option Command := do
  let o ← readOptions (.graph :: .help :: allowed) {} args
  if o.help then return .help
  return make (← o.graph) o

namespace Command

def runOptions : List Options.Name :=
  [.channelCapacity, .batchRows, .safeMode, .threadPrefix, .timeout, .json]

def parse : List String → Option Command
  | "run" :: args =>
    withFile runOptions args fun file o =>
      .run file
        { channelCapacity := o.channelCapacity
          safeMode := if o.safeMode then some true else none
          threadPrefix := o.threadPrefix
          batchRows := o.batchRows }
        o.timeout o.json
  | "validate" :: args => withFile [] args fun file _ => .validate file
  | "explain" :: args => withFile [] args fun file _ => .explain file
  | "steps" :: args => do
    let o ← readOptions [.help] {} args
    return if o.help then .help else .steps
  | ["--help"] | ["-h"] | "help" :: _ => some .help
  | _ => none

end Command

end Sluice.Cli
