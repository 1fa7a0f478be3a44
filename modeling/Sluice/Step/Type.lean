import Sluice.Graph.Basic
import Sluice.Json.Document
import Sluice.Settings
import Sluice.Step.Task

/-!
Step types: what a type is called, how many inputs it takes, and how its steps behave. A step is
set up once from its configuration and its hops, then works in batches, and is disposed of once.
-/

namespace Sluice

/-- All that a step may look at when it is set up. -/
structure Setup where
  spec : StepSpec
  copy : Nat := 0
  /-- The step at the other end of each input. -/
  inputSteps : List String := []
  /-- The step at the other end of each output hop. -/
  outputSteps : List String := []
  settings : Settings := {}

namespace Setup

/-- The step's own configuration; an absent one stands for the default. -/
def config {α : Type} (s : Setup) (decode : Json → Except ShapeFault α) (default : α) :
    Except StepError α :=
  if s.spec.config.isNull then .ok default
  else (decode s.spec.config).mapError fun fault => .config (.shape s.spec.name fault)

def outputTo (s : Setup) (target : String) : Except StepError Nat :=
  match s.outputSteps.findIdx? (· == target) with
  | some i => .ok i
  | none => .error (.config (.noOutput s.spec.name target))

end Setup

/-- What a step may know of its unit while it works. -/
structure Surroundings where
  /-- The most rows of one batch. -/
  batchRows : Nat
  inputs : Nat

/-- How the steps of a type behave, with a memory of their own. -/
structure Behaviour (σ : Type) where
  /-- The memory before the step is set up. -/
  fresh : σ
  init : Setup → Except Halt σ
  process : Surroundings → Work σ BatchOutcome
  /-- All that disposal can do wrong is to panic. -/
  dispose : σ → Except (Option String) Unit := fun _ => .ok ()

structure StepType (σ : Type) where
  id : String
  description : String := ""
  minInputs : Nat := 0
  /-- Unbounded when absent. -/
  maxInputs : Option Nat := none
  behaviour : Behaviour σ

/-- Looks at a memory through a wider one. -/
def Work.within {σ τ α : Type} (wrap : σ → τ) (unwrap : τ → σ) (work : Work σ α) : Work τ α :=
  ExceptT.mk fun memory => do
    let (r, inner) ← work.start (unwrap memory)
    return (r, wrap inner)

def Behaviour.within {σ τ : Type} (wrap : σ → τ) (unwrap : τ → σ) (b : Behaviour σ) : Behaviour τ :=
  { fresh := wrap b.fresh
    init := fun setup => (b.init setup).map wrap
    process := fun around => (b.process around).within wrap unwrap
    dispose := fun memory => b.dispose (unwrap memory) }

/-- The step types a run may use, in the order of their names. -/
structure Registry (σ : Type) where
  types : List (StepType σ) := []

namespace Registry

variable {σ : Type}

def insert (t : StepType σ) : List (StepType σ) → List (StepType σ)
  | [] => [t]
  | other :: rest =>
    if t.id < other.id then t :: other :: rest
    else if t.id = other.id then t :: rest
    else other :: insert t rest

/-- Adds a type, in place of one of the same name. -/
def register (r : Registry σ) (t : StepType σ) : Registry σ :=
  ⟨insert t r.types⟩

def find? (r : Registry σ) (id : String) : Option (StepType σ) :=
  r.types.find? (·.id == id)

def contains (r : Registry σ) (id : String) : Bool :=
  (r.find? id).isSome

end Registry

end Sluice
