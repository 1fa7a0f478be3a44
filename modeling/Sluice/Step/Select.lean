import Sluice.Step.Loop
import Sluice.Table

/-!
Choosing, renaming and converting fields. The layout of the output is worked out from the layout of
the input and kept while rows of that layout come in.
-/

namespace Sluice.Select

structure Config where
  /-- Fields to keep, in output order; all of them when empty. -/
  select : List String := []
  rename : List (String × String) := []
  /-- Types by the name of the field in the input. -/
  convert : List (String × String) := []

def record : Record Json Config :=
  (((Record.start "SelectConfig" 3 fun select rename convert =>
    (⟨select, rename, convert⟩ : Config)).optional
    "select" (Document.listOf Document.string) []).optional
    "rename" Document.texts []).optional
    "convert" Document.texts []

structure Layout where
  input : Schema
  output : Schema
  /-- For each output field, where it stands in the input and what it is converted to. -/
  fields : List (Nat × Option DataType)

structure Memory where
  select : List String := []
  rename : Table String := []
  convert : Table DataType := []
  layout : Option Layout := none

def init (setup : Setup) : Except StepError Memory := do
  let config ← setup.config (record.decode true) {}
  let convert ← config.convert.mapM fun (field, type) =>
    match DataType.ofSpelling? type with
    | some t => .ok (field, t)
    | none => .error (.config (.conversionType field type))
  return { select := config.select, rename := config.rename, convert }

/-- Where the fields to keep stand, or the first one that is missing. -/
def positions (m : Memory) (input : Schema) : Except String (List Nat) :=
  if m.select.isEmpty then .ok (List.range input.length)
  else m.select.mapM fun name =>
    match input.indexOf? name with
    | some i => .ok i
    | none => .error name

/-- An output field: its type and its name may change, each by its name in the input. -/
def outputField (m : Memory) (field : Field) : Field :=
  { field with
    type := (m.convert.get? field.name).getD field.type
    name := (m.rename.get? field.name).getD field.name }

def buildLayout (m : Memory) (input : Schema) : Except String Layout := do
  let positions ← positions m input
  match ((m.rename.map (·.1)) ++ m.convert.map (·.1)).find? fun name => (input.indexOf? name).isNone with
  | some name => throw name
  | none =>
    let fields := positions.filterMap fun i => (input.fields[i]?).map fun field => (i, field)
    return {
      input
      output := ⟨fields.map fun (_, field) => outputField m field⟩
      fields := fields.map fun (i, field) => (i, m.convert.get? field.name) }

def convertField (row : Row) (position : Nat) (target : Option DataType) :
    Except ConversionError Value :=
  let v := (row.value? position).getD .null
  match target with
  | some t => v.convert t
  | none => .ok v

/-- The layout for a row, worked out anew when the last one does not fit. -/
def layoutFor (row : Row) : Work Memory Layout := do
  let m ← get
  let renew : Work Memory Layout := do
    match buildLayout m row.schema with
    | .error name => Work.fatal (.selectField name)
    | .ok layout =>
      set { m with layout := some layout }
      return layout
  match m.layout with
  | some layout => if layout.input.sameLayout row.schema then return layout else renew
  | none => renew

def handle (row : Row) : Work Memory Unit := do
  let layout ← layoutFor row
  match layout.fields.mapM fun (i, target) => convertField row i target with
  | .error e => Work.reportData (.field e)
  | .ok values =>
    match Row.ofValues layout.output values with
    | .ok out => Work.putRow out
    | .error e => Work.fatal (.custom e.message)

def behaviour : Behaviour Memory where
  fresh := {}
  init := fun setup => (init setup).mapError .error
  process := fun around => Work.forRows handle around.batchRows

end Sluice.Select
