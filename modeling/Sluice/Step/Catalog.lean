import Sluice.Step.Abort
import Sluice.Step.Append
import Sluice.Step.Filter
import Sluice.Step.Generate
import Sluice.Step.Script
import Sluice.Step.Select

/-!
The step types that every engine knows.
-/

namespace Sluice

inductive StepMemory where
  | none
  | abort (m : Abort.Memory)
  | append (m : Append.Memory)
  | filter (m : Filter.Memory)
  | generate (m : Generate.Memory)
  | select (m : Select.Memory)
  | script (m : Script.Memory)

namespace StepMemory

def asAbort : StepMemory → Abort.Memory
  | .abort m => m
  | _ => {}

def asAppend : StepMemory → Append.Memory
  | .append m => m
  | _ => {}

def asFilter : StepMemory → Filter.Memory
  | .filter m => m
  | _ => {}

def asGenerate : StepMemory → Generate.Memory
  | .generate m => m
  | _ => {}

def asSelect : StepMemory → Select.Memory
  | .select m => m
  | _ => {}

def asScript : StepMemory → Script.Memory
  | .script m => m
  | _ => {}

end StepMemory

namespace Catalog

def injector : StepType StepMemory where
  id := "injector"
  description := "Forwards rows pushed by a row producer"
  behaviour := passThrough.within (fun _ => .none) fun _ => ()

def dummy : StepType StepMemory where
  id := "dummy"
  description := "Passes rows through unchanged"
  behaviour := passThrough.within (fun _ => .none) fun _ => ()

def append : StepType StepMemory where
  id := "append"
  description := "Concatenates input streams in order"
  minInputs := 2
  behaviour := Append.behaviour.within .append StepMemory.asAppend

def generateRows : StepType StepMemory where
  id := "generate_rows"
  description := "Emits constant rows"
  maxInputs := some 0
  behaviour := Generate.behaviour.within .generate StepMemory.asGenerate

def filterRows : StepType StepMemory where
  id := "filter_rows"
  description := "Routes rows on a field comparison"
  minInputs := 1
  behaviour := Filter.behaviour.within .filter StepMemory.asFilter

def selectValues : StepType StepMemory where
  id := "select_values"
  description := "Selects, renames, and converts fields"
  minInputs := 1
  behaviour := Select.behaviour.within .select StepMemory.asSelect

def abort : StepType StepMemory where
  id := "abort"
  description := "Fails the run past a row threshold"
  minInputs := 1
  behaviour := Abort.behaviour.within .abort StepMemory.asAbort

def scripted (id description : String) (minInputs : Nat) (maxInputs : Option Nat) :
    StepType StepMemory :=
  { id, description, minInputs, maxInputs
    behaviour := Script.behaviour.within .script StepMemory.asScript }

def builtins : Registry StepMemory :=
  [injector, dummy, append, generateRows, filterRows, selectValues, abort].foldl
    Registry.register {}

end Catalog

end Sluice
