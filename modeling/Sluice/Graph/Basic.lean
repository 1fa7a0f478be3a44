import Sluice.Error
import Sluice.Json.Basic

/-!
Graphs of steps: what each step is and which steps feed which. The content of a step's own
configuration is left to its type.
-/

namespace Sluice

inductive DataErrorPolicy where
  | skip
  | abort
  deriving DecidableEq, Repr, Inhabited

def DataErrorPolicy.name : DataErrorPolicy → String
  | .skip => "skip"
  | .abort => "abort"

structure StepSpec where
  name : String
  type : String
  /-- How many copies of the step run side by side. -/
  copies : Nat := 1
  config : Json := .null
  /-- Rows go to the output hops in turn instead of to each of them. -/
  distribute : Bool := false
  onDataError : DataErrorPolicy := .abort
  deriving Inhabited

/-- Rows flow from one step to another, unless the hop is switched off. -/
structure Hop where
  source : String
  target : String
  enabled : Bool := true
  deriving DecidableEq, Repr, Inhabited

structure Graph where
  name : String := ""
  steps : List StepSpec := []
  hops : List Hop := []
  deriving Inhabited

namespace Graph

def step? (g : Graph) (name : String) : Option StepSpec :=
  g.steps.find? (·.name == name)

def step (g : Graph) (name : String) : Except Error StepSpec :=
  match g.step? name with
  | some s => .ok s
  | none => .error (.unknownStep name)

def stepNames (g : Graph) : List String :=
  g.steps.map (·.name)

def enabledHops (g : Graph) : List Hop :=
  g.hops.filter (·.enabled)

def inputHops (g : Graph) (name : String) : List Hop :=
  g.enabledHops.filter (·.target == name)

def outputHops (g : Graph) (name : String) : List Hop :=
  g.enabledHops.filter (·.source == name)

end Graph

end Sluice
