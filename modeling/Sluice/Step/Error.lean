import Sluice.Value.Convert
import Sluice.Shape
import Sluice.Channel.Basic
import Sluice.UnitId

/-!
How a step fails: its configuration is wrong, a row cannot be processed, it cannot go on, or the
run was stopped underneath it.
-/

namespace Sluice

inductive ConfigFault where
  | shape (step : String) (fault : ShapeFault)
  | condition (text : String)
  | noOutput (step target : String)
  | appendOrder (name : String)
  | conversionType (field type : String)
  | fieldType (field type : String)
  | fieldValue (field : String) (e : ConversionError)
  | custom (message : String)
  deriving Inhabited

def ConfigFault.message : ConfigFault → String
  | .shape step fault => "step '" ++ step ++ "': " ++ fault.message
  | .condition text => "unparseable condition: " ++ text
  | .noOutput step target => "step '" ++ step ++ "' has no output hop to '" ++ target ++ "'"
  | .appendOrder name => "append order names '" ++ name ++ "', which is not an input"
  | .conversionType field type => "convert '" ++ field ++ "': unknown type '" ++ type ++ "'"
  | .fieldType field type => "field '" ++ field ++ "': unknown type '" ++ type ++ "'"
  | .fieldValue field e => "field '" ++ field ++ "': " ++ e.message
  | .custom message => message

inductive DataFault where
  /-- The literal of a condition does not convert to the type of the field. -/
  | literal (e : ConversionError)
  /-- A field does not convert to the wanted type. -/
  | field (e : ConversionError)
  | custom (message : String)

def DataFault.message : DataFault → String
  | .literal e => e.message
  | .field e => "data error: " ++ e.message
  | .custom message => message

inductive FatalFault where
  | noInput (index : Nat)
  | noOutput (index : Nat)
  | channelClosed
  | layout (unit : UnitId) (names first : List String)
  | conditionField (name : String)
  | selectField (name : String)
  | beforeInit (type : String)
  | rowThreshold (threshold : Nat)
  | custom (message : String)
  deriving DecidableEq

def FatalFault.message : FatalFault → String
  | .noInput index => "no input #" ++ index.repr
  | .noOutput index => "no output #" ++ index.repr
  | .channelClosed => Refusal.closed.message
  | .layout unit names first =>
    "unit " ++ unit.format ++ ": row layout [" ++ ", ".intercalate names ++
      "] differs from first row [" ++ ", ".intercalate first ++ "]"
  | .conditionField name => "field '" ++ name ++ "' not found in input row"
  | .selectField name => "select: no field '" ++ name ++ "'"
  | .beforeInit type => type ++ " used before init"
  | .rowThreshold threshold => "row threshold " ++ threshold.repr ++ " exceeded"
  | .custom message => message

inductive StepError where
  | config (fault : ConfigFault)
  | data (fault : DataFault)
  | fatal (fault : FatalFault)
  | aborted
  deriving Inhabited

namespace StepError

def message : StepError → String
  | .config fault => "configuration error: " ++ fault.message
  | .data fault => "data error: " ++ fault.message
  | .fatal fault => "fatal error: " ++ fault.message
  | .aborted => "stopped: " ++ Refusal.aborted.message

/-- An aborted channel means that the run is being stopped; a closed one must not happen. -/
def ofRefusal : Refusal → StepError
  | .aborted => .aborted
  | .closed => .fatal .channelClosed

end StepError

end Sluice
