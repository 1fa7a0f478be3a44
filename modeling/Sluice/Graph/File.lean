import Sluice.Graph.Codec
import Sluice.Settings
import Sluice.Yaml.Document

/-!
Graph files: a graph as YAML, with the settings it asks for. Only the form of the file is checked.
-/

namespace Sluice

structure GraphFile where
  graph : Graph
  overrides : Overrides := {}
  deriving Inhabited

inductive GraphFileError where
  /-- No YAML, or not of the right shape. -/
  | yaml
  | noSteps
  deriving DecidableEq, Repr

def GraphFileError.message : GraphFileError → String
  | .yaml => "yaml"
  | .noSteps => "invalid graph file: no steps"

namespace GraphFile

def unnamed : String := "unnamed"

section Documents

variable {δ : Type} [Document δ]

def record : Record δ GraphFile :=
  ((((Record.start "GraphFile" 4
    fun (name : Option String) (config : Option Overrides) (steps : List StepSpec)
        (hops : List Hop) =>
      (⟨⟨name.getD unnamed, steps, hops⟩, config.getD {}⟩ : GraphFile)).optional
    "name" (Document.maybe Document.string) none).optional
    "config" (Document.maybe Overrides.decode) none).required
    "steps" (Document.listOf StepSpec.decode)).optional
    "hops" (Document.listOf Hop.decode) []

end Documents

def read (text : String) : Except GraphFileError GraphFile :=
  match Yaml.read text with
  | none => .error .yaml
  | some part =>
    match record.decode true part with
    | .error _ => .error .yaml
    | .ok file => if file.graph.steps.isEmpty then .error .noSteps else .ok file

end GraphFile

end Sluice
