import Sluice.Step.Type

/-!
Emitting one constant row, a limited number of times or until the run stops.
-/

namespace Sluice.Generate

structure FieldConfig where
  name : String
  type : String
  value : Json := .null

def fieldRecord : Record Json FieldConfig :=
  (((Record.start "FieldDef" 3 fun name type value => (⟨name, type, value⟩ : FieldConfig)).required
    "name" Document.string).required
    "type" Document.string).optional
    "value" Document.json .null

structure Config where
  /-- Unlimited when absent. -/
  limit : Option Nat := none
  fields : List FieldConfig := []

def record : Record Json Config :=
  ((Record.start "GenerateConfig" 2 fun limit fields => (⟨limit, fields⟩ : Config)).named
    "limit" (Document.maybe (Document.count "u64")) none).optional
    "fields" (Document.listOf (fieldRecord.decode true)) []

/-- A literal as a value; lists and maps are taken as their text. -/
def literal : Json → Value
  | .null => .null
  | .bool b => .boolean b
  | .int n => if Integer.fitsInt64 n then .integer (Int64.ofInt n) else .number (.ofInt n)
  | .float x => .number x
  | .str s => .string s
  | doc => .string doc.compact

def field (config : FieldConfig) : Except StepError (Field × Value) :=
  match DataType.ofSpelling? config.type with
  | none => .error (.config (.fieldType config.name config.type))
  | some type =>
    match (literal config.value).convert type with
    | .ok value => .ok ({ name := config.name, type }, value)
    | .error e => .error (.config (.fieldValue config.name e))

def rowOf (fields : List (Field × Value)) : Row :=
  ⟨⟨fields.map (·.1)⟩, fields.map (·.2), by simp⟩

structure Memory where
  row : Option Row := none
  limit : Option Nat := none
  emitted : Nat := 0

def init (setup : Setup) : Except StepError Memory := do
  let config ← setup.config (record.decode true) {}
  let fields ← config.fields.mapM field
  return { row := some (rowOf fields), limit := config.limit }

/-- Emits at most `n` rows; only a whole batch asks whether the run stops. -/
def emit (row : Row) : Nat → Work Memory BatchOutcome
  | 0 => do
    if ← Work.isStopping then Work.fail .aborted else return .more
  | n + 1 => do
    let m ← get
    if m.limit.any (· ≤ m.emitted) then return .finished
    Work.putRow row
    modify fun m => { m with emitted := m.emitted + 1 }
    emit row n

def process (around : Surroundings) : Work Memory BatchOutcome := do
  match (← get).row with
  | none => Work.fatal (.beforeInit "generate_rows")
  | some row => emit row around.batchRows

def behaviour : Behaviour Memory where
  fresh := {}
  init := fun setup => (init setup).mapError .error
  process := process

end Sluice.Generate
