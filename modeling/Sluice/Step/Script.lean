import Sluice.Step.Type

/-!
A step that follows a script, one action a batch, to try out how a run takes errors, panics and
unusual reads and writes.
-/

namespace Sluice.Script

inductive Action where
  | fail (e : StepError)
  /-- Writes a row with this single value. -/
  | emit (hop : Option Nat) (value : Value)
  | reportData (message : String)
  /-- Moves one row; the end of the input ends the step. -/
  | move
  /-- Moves one row of an input, if there is one. -/
  | moveFrom (input : Nat)
  /-- Moves every row. -/
  | drain
  | panic (payload : Option String)
  | finish
  | proceed

structure Memory where
  /-- What is left to do. -/
  actions : List Action := []
  /-- What disposing of the step panics with. -/
  disposePanic : Option String := none

def natOf (n : Int) : Nat := n.toNat

def valueOf? : Json → Option Value
  | .int n => some (.integer (Int64.ofInt n))
  | .str s => some (.string s)
  | _ => none

def errorOf? : List Json → Option StepError
  | [.str "config", .str m] => some (.config (.custom m))
  | [.str "data", .str m] => some (.data (.custom m))
  | [.str "fatal", .str m] => some (.fatal (.custom m))
  | [.str "aborted"] => some .aborted
  | _ => none

def actionOf? : List Json → Option Action
  | [.str "emit", v] => (valueOf? v).map (.emit none)
  | [.str "emit_to", v, .int k] => (valueOf? v).map (.emit (some (natOf k)))
  | [.str "data_error", .str m] => some (.reportData m)
  | [.str "read"] => some .move
  | [.str "read_from", .int k] => some (.moveFrom (natOf k))
  | [.str "drain"] => some .drain
  | [.str "panic", .str m] => some (.panic (some m))
  | [.str "panic_static"] => some (.panic (some "static payload"))
  | [.str "panic_other"] => some (.panic none)
  | [.str "finished"] => some .finish
  | [.str "continue"] => some .proceed
  | parts => (errorOf? parts).map .fail

def partsOf : Json → List Json
  | .arr parts => parts
  | _ => []

/-- The actions of a script; what is no action is left out. -/
def actionsOf (script : Json) : List Action :=
  (partsOf script).filterMap fun item => actionOf? (partsOf item)

def init (setup : Setup) : Except StepError Memory :=
  let config := setup.spec.config
  match (config.get? "init_error").bind fun e => errorOf? (partsOf e) with
  | some e => .error e
  | none =>
    .ok {
      actions := ((config.get? "script").map actionsOf).getD []
      disposePanic := match config.get? "dispose_panic" with
        | some (.str text) => some text
        | _ => none }

/-- The name and type of the only field go by the type of the value. -/
def rowOf (v : Value) : Row :=
  let field : Field := match v with
    | .integer _ => { name := "n", type := .integer }
    | _ => { name := "s", type := .string }
  ⟨⟨[field]⟩, [v], rfl⟩

def perform : Action → Work Memory BatchOutcome
  | .fail e => Work.fail e
  | .emit none v => do
    Work.putRow (rowOf v)
    return .more
  | .emit (some hop) v => do
    Work.putRowTo hop (rowOf v)
    return .more
  | .reportData m => do
    Work.reportData (.custom m)
    return .more
  | .move => do
    match ← Work.getRow with
    | none => return .finished
    | some row =>
      Work.putRow row
      return .more
  | .moveFrom input => do
    match ← Work.getRowFrom input with
    | none => return .more
    | some row =>
      Work.putRow row
      return .more
  | .drain => do
    match ← Work.getRow with
    | none => return .more
    | some row =>
      modify fun m => { m with actions := .drain :: m.actions }
      Work.putRow row
      return .more
  | .panic payload => Work.panic payload
  | .finish => return .finished
  | .proceed => return .more

def process (_ : Surroundings) : Work Memory BatchOutcome := do
  match (← get).actions with
  | [] => return .finished
  | action :: rest =>
    modify fun m => { m with actions := rest }
    perform action

def behaviour : Behaviour Memory where
  fresh := {}
  init := fun setup => (init setup).mapError .error
  process := process
  dispose := fun m =>
    match m.disposePanic with
    | some text => .error (some text)
    | none => .ok ()

end Sluice.Script
