import Sluice.Graph.Topology
import Sluice.Step.Type

/-!
Plans: a graph that a run can have, with the order of its steps. Of several faults of a graph the
first one counts: names, types and copies of the steps as declared, then the ends of the enabled
hops, then how many inputs each step has, then cycles.
-/

namespace Sluice

inductive GraphFault where
  | empty
  | emptyName
  | duplicateStep (name : String)
  | unknownType (step type : String)
  | unknownStep (source target missing : String)
  | duplicateHop (source target : String)
  | tooFewInputs (step type : String) (min actual : Nat)
  | tooManyInputs (step type : String) (max actual : Nat)
  | invalidCopies (step : String)
  | cycle (steps : List String)
  deriving DecidableEq, Repr

def GraphFault.message : GraphFault → String
  | .empty => "graph has no steps"
  | .emptyName => "step with empty name"
  | .duplicateStep name => "duplicate step name '" ++ name ++ "'"
  | .unknownType step type => "step '" ++ step ++ "' has unregistered type '" ++ type ++ "'"
  | .unknownStep source target missing =>
    "hop " ++ source ++ " -> " ++ target ++ " references unknown step '" ++ missing ++ "'"
  | .duplicateHop source target => "duplicate hop " ++ source ++ " -> " ++ target
  | .tooFewInputs step type min actual =>
    "step '" ++ step ++ "' (" ++ type ++ ") needs at least " ++ min.repr ++ " input hop(s), has " ++
      actual.repr
  | .tooManyInputs step type max actual =>
    "step '" ++ step ++ "' (" ++ type ++ ") accepts at most " ++ max.repr ++ " input hop(s), has " ++
      actual.repr
  | .invalidCopies step => "step '" ++ step ++ "' must run at least one copy"
  | .cycle steps => "hops form a cycle through: " ++ ", ".intercalate steps

structure Plan where
  topology : Topology
  /-- Steps without enabled hops into them. -/
  sources : List String
  /-- Steps without enabled hops out of them. -/
  sinks : List String
  deriving DecidableEq, Repr, Inhabited

namespace Plan

variable {σ : Type}

/-- A step whose name comes after these. -/
def checkStep (registry : Registry σ) (before : List String) (s : StepSpec) :
    Except GraphFault Unit :=
  if (Text.trimChars s.name.toList).isEmpty then .error .emptyName
  else if before.contains s.name then .error (.duplicateStep s.name)
  else if !registry.contains s.type then .error (.unknownType s.name s.type)
  else if s.copies = 0 then .error (.invalidCopies s.name)
  else .ok ()

def checkSteps (registry : Registry σ) : List String → List StepSpec → Except GraphFault Unit
  | _, [] => .ok ()
  | before, s :: rest => do
    checkStep registry before s
    checkSteps registry (s.name :: before) rest

def checkHop (names : List String) (before : List (String × String)) (h : Hop) :
    Except GraphFault Unit :=
  if !names.contains h.source then .error (.unknownStep h.source h.target h.source)
  else if !names.contains h.target then .error (.unknownStep h.source h.target h.target)
  else if before.contains (h.source, h.target) then .error (.duplicateHop h.source h.target)
  else .ok ()

def checkHops (names : List String) :
    List (String × String) → List Hop → Except GraphFault Unit
  | _, [] => .ok ()
  | before, h :: rest => do
    checkHop names before h
    checkHops names ((h.source, h.target) :: before) rest

def checkInputs (registry : Registry σ) (g : Graph) (s : StepSpec) : Except GraphFault Unit :=
  match registry.find? s.type with
  | none => .ok ()
  | some t =>
    let actual := (g.inputHops s.name).length
    if actual < t.minInputs then .error (.tooFewInputs s.name s.type t.minInputs actual)
    else match t.maxInputs with
      | none => .ok ()
      | some max => if max < actual then .error (.tooManyInputs s.name s.type max actual) else .ok ()

def sourcesOf (g : Graph) : List String :=
  (g.steps.filter fun s => (g.inputHops s.name).isEmpty).map (·.name)

def sinksOf (g : Graph) : List String :=
  (g.steps.filter fun s => (g.outputHops s.name).isEmpty).map (·.name)

/-- The plan of a graph, or the first thing wrong with it. -/
def ofGraph (registry : Registry σ) (g : Graph) : Except GraphFault Plan := do
  if g.steps.isEmpty then throw .empty
  checkSteps registry [] g.steps
  checkHops g.stepNames [] g.enabledHops
  g.steps.forM (checkInputs registry g)
  let topology ← (Topology.ofGraph g).mapError .cycle
  return { topology, sources := sourcesOf g, sinks := sinksOf g }

def explainStep (plan : Plan) (g : Graph) (s : StepSpec) (name : String) : String :=
  let inputs := (g.inputHops name).map (·.source)
  String.ofList (List.replicate (2 * plan.topology.level name) ' ') ++
    s.name ++ " [" ++ s.type ++ "] x" ++ s.copies.repr ++
    (if s.distribute then " distribute" else "") ++
    (if inputs.isEmpty then "" else " <- " ++ ", ".intercalate inputs) ++ "\n"

def explain (plan : Plan) (g : Graph) : String :=
  let head := "graph '" ++ g.name ++ "': " ++ g.steps.length.repr ++ " step(s), " ++
    g.enabledHops.length.repr ++ " enabled hop(s), depth " ++ plan.topology.depth.repr ++ "\n"
  plan.topology.order.foldl (fun text name =>
    match g.step? name with
    | none => text
    | some s => text ++ plan.explainStep g s name) head

end Plan

end Sluice
