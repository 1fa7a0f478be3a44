import Sluice.Step.Type

/-!
Concatenating streams: each input is read to its end before the next one is touched.
-/

namespace Sluice.Append

structure Config where
  /-- Steps to read from, first to last; the inputs of all others follow. -/
  order : List String := []

def record : Record Json Config :=
  (Record.start "AppendConfig" 1 fun order => (⟨order⟩ : Config)).optional
    "order" (Document.listOf Document.string) []

structure Memory where
  /-- The inputs in the order in which they are read. -/
  order : List Nat := []
  /-- How many of them have been read to their end. -/
  current : Nat := 0
  /-- The order covers exactly the inputs there are. -/
  resolved : Bool := false

def addNew (order new : List Nat) : List Nat :=
  new.foldl (fun acc i => if acc.contains i then acc else acc ++ [i]) order

def inputsOf (inputSteps : List String) (name : String) : List Nat :=
  (List.range inputSteps.length).filter fun i => inputSteps[i]? == some name

/-- Inputs of the named steps first, as named, then all others. -/
def resolve (inputSteps named : List String) : Except StepError (List Nat) := do
  let order ← named.foldlM (fun order name =>
      match inputsOf inputSteps name with
      | [] => .error (.config (.appendOrder name))
      | inputs => .ok (addNew order inputs)) []
  return addNew order (List.range inputSteps.length)

def init (setup : Setup) : Except StepError Memory := do
  let config ← setup.config (record.decode true) {}
  return { order := ← resolve setup.inputSteps config.order }

/-- Inputs attached after the step was set up come last. -/
def cover (inputs : Nat) (order : List Nat) : List Nat :=
  (order ++ (List.range inputs).drop order.length).filter (· < inputs)

/-- Moves at most `n` rows of one input; at the end of the input, tells how many were left. -/
def moveFrom (input : Nat) : Nat → Work Memory (Option Nat)
  | 0 => return none
  | n + 1 => do
    match ← Work.getRowFrom input with
    | none => return some (n + 1)
    | some row =>
      Work.putRow row
      moveFrom input n

def moveInOrder : List Nat → Nat → Work Memory BatchOutcome
  | [], n => return if n = 0 then .more else .finished
  | input :: rest, n => do
    match ← moveFrom input n with
    | none => return .more
    | some left =>
      modify fun m => { m with current := m.current + 1 }
      moveInOrder rest left

def process (around : Surroundings) : Work Memory BatchOutcome := do
  modify fun m => if m.resolved then m else { m with order := cover around.inputs m.order, resolved := true }
  let m ← get
  moveInOrder (m.order.drop m.current) around.batchRows

def behaviour : Behaviour Memory where
  fresh := {}
  init := fun setup => (init setup).mapError .error
  process := process

end Sluice.Append
