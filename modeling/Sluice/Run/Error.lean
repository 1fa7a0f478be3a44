import Sluice.Graph.Plan

/-!
Why a run refuses an operation, or fails.
-/

namespace Sluice

inductive Phase where
  | new
  | prepared
  | running
  | finished
  deriving DecidableEq, Repr, Inhabited

def Phase.name : Phase → String
  | .new => "new"
  | .prepared => "prepared"
  | .running => "running"
  | .finished => "finished"

/-- What can be asked of a run in one phase only. -/
inductive Operation where
  | prepare
  | addProducer
  | addObserver
  | start
  | wait
  deriving DecidableEq, Repr

def Operation.name : Operation → String
  | .prepare => "prepare"
  | .addProducer => "add a row producer"
  | .addObserver => "add a row observer"
  | .start => "start threads"
  | .wait => "wait"

inductive RunError where
  | graph (fault : GraphFault)
  | core (e : Error)
  | init (unit : UnitId) (e : StepError)
  | outOfPhase (op : Operation) (phase : Phase)
  | unknownUnit (unit : UnitId)
  | hasInputHop (step : String)
  | takesNoInput (step type : String)
  | channel (refusal : Refusal)
  | spawn (unit : UnitId) (reason : String)
  | failed (errors : Nat) (messages : List (UnitId × String))
  /-- A step panicked in the hands of whoever asked, who gets no answer. -/
  | panicked (payload : Option String)

def RunError.message : RunError → String
  | .graph fault => "invalid graph: " ++ fault.message
  | .core e => e.message
  | .init unit e => "step " ++ unit.format ++ " failed to initialize: " ++ e.message
  | .outOfPhase op phase => "cannot " ++ op.name ++ " while the run is " ++ phase.name
  | .unknownUnit unit => "no step-copy " ++ unit.format ++ " in this run"
  | .hasInputHop step => "step '" ++ step ++ "' has an upstream hop; rows cannot be injected into it"
  | .takesNoInput step type =>
    "step '" ++ step ++ "' of type '" ++ type ++ "' reads no input; rows cannot be injected into it"
  | .channel refusal => "channel: " ++ refusal.message
  | .spawn unit reason => "failed to start thread for " ++ unit.format ++ ": " ++ reason
  | .failed errors messages =>
    "run failed with " ++ errors.repr ++ " error(s): " ++
      "; ".intercalate (messages.map fun (unit, m) => unit.format ++ ": " ++ m)
  | .panicked payload => panicMessage payload

end Sluice
