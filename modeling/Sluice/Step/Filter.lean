import Sluice.Step.Condition
import Sluice.Step.Loop

/-!
Routing rows by a condition. Without targets the rows that meet it go to every output and the rest
are dropped; with targets each side goes to its own hop, and a side without one is dropped.
-/

namespace Sluice.Filter

structure Config where
  condition : String := ""
  trueTo : Option String := none
  falseTo : Option String := none

def record : Record Json Config :=
  (((Record.start "FilterConfig" 3 fun condition trueTo falseTo =>
    (⟨condition, trueTo, falseTo⟩ : Config)).required
    "condition" Document.string).named
    "send_true_to" (Document.maybe Document.string) none).named
    "send_false_to" (Document.maybe Document.string) none

structure Memory where
  condition : Option Condition := none
  trueTo : Option Nat := none
  falseTo : Option Nat := none
  /-- The schema of the last row and where its field was found. -/
  found : Option (Schema × Nat) := none

/-- Whether rows go to one side's target instead of to every output. -/
def Memory.routed (m : Memory) : Bool :=
  m.trueTo.isSome || m.falseTo.isSome

def init (setup : Setup) : Except StepError Memory := do
  let config ← setup.config (record.decode true) {}
  match Condition.parse config.condition with
  | none => throw (.config (.condition config.condition))
  | some condition =>
    let trueTo ← config.trueTo.mapM setup.outputTo
    let falseTo ← config.falseTo.mapM setup.outputTo
    return { condition := some condition, trueTo, falseTo }

/-- Where the field stands in a row. The place is kept while the schema stays the same. -/
def place (field : String) (row : Row) : Work Memory Nat := do
  let lookUp : Work Memory Nat := do
    match row.schema.indexOf? field with
    | none => Work.fatal (.conditionField field)
    | some i =>
      modify fun m => { m with found := some (row.schema, i) }
      return i
  match (← get).found with
  | some (schema, i) => if schema = row.schema then return i else lookUp
  | none => lookUp

def route (m : Memory) (row : Row) (keep : Bool) : Work Memory Unit :=
  if m.routed then
    match if keep then m.trueTo else m.falseTo with
    | some hop => Work.putRowTo hop row
    | none => return
  else if keep then Work.putRow row
  else return

def handle (row : Row) : Work Memory Unit := do
  match (← get).condition with
  | none => Work.fatal (.beforeInit "filter_rows")
  | some condition =>
    let i ← place condition.field row
    match condition.test ((row.value? i).getD .null) with
    | .error e => Work.reportData (.literal e)
    | .ok keep => route (← get) row keep

def behaviour : Behaviour Memory where
  fresh := {}
  init := fun setup => (init setup).mapError .error
  process := fun around => Work.forRows handle around.batchRows

end Sluice.Filter
