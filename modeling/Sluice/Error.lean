import Sluice.Value.Convert
import Sluice.Schema

/-!
What can be wrong with settings, rows, conversions and graph look-ups.
-/

namespace Sluice

inductive SettingFault where
  | channelCapacity
  | batchRows
  deriving DecidableEq, Repr

def SettingFault.message : SettingFault → String
  | .channelCapacity => "channel_capacity must be at least 1"
  | .batchRows => "batch_rows must be at least 1"

inductive Error where
  | setting (fault : SettingFault)
  /-- A row with another number of values than its schema has fields. -/
  | arity (values fields : Nat)
  | conversion (e : ConversionError)
  | unknownStep (name : String)
  deriving DecidableEq

def Error.message : Error → String
  | .setting fault => "Invalid configuration: " ++ fault.message
  | .arity values fields =>
    "Schema error: row has " ++ values.repr ++ " values but schema has " ++ fields.repr ++ " fields"
  | .conversion e => e.message
  | .unknownStep name => "Graph error: unknown step '" ++ name ++ "'"

end Sluice
