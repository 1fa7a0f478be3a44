import Sluice.Json.Basic
import Sluice.Text.Quoted

/-!
Why a document does not have the shape that was asked for.
-/

namespace Sluice

/-- What stands in a document where something else was wanted. -/
inductive Found where
  | null
  | boolean (b : Bool)
  | integer (n : Int)
  | float (x : Binary64)
  | string (s : String)
  | sequence
  | map
  deriving Repr

def Found.message : Found → String
  | .null => "null"
  | .boolean b => "boolean `" ++ (if b then "true" else "false") ++ "`"
  | .integer n => "integer `" ++ Integer.format n ++ "`"
  | .float x => "floating point `" ++ NumberFormat.document.write x ++ "`"
  | .string s => "string " ++ Text.quoted s
  | .sequence => "sequence"
  | .map => "map"

inductive ShapeFault where
  | type (found : Found) (expected : String)
  | value (found : Found) (expected : String)
  | length (n : Nat) (expected : String)
  | missingField (name : String)
  | duplicateField (name : String)
  | unknownField (name : String) (expected : List String)
  | unknownVariant (name : String) (expected : List String)
  /-- Nested deeper than is read, or repeated more often. -/
  | tooDeep
  deriving Repr

namespace ShapeFault

def ticked (s : String) : String := "`" ++ s ++ "`"

def oneOf : List String → String
  | [a] => ticked a
  | [a, b] => ticked a ++ " or " ++ ticked b
  | names => "one of " ++ ", ".intercalate (names.map ticked)

def message : ShapeFault → String
  | .type found expected => "invalid type: " ++ found.message ++ ", expected " ++ expected
  | .value found expected => "invalid value: " ++ found.message ++ ", expected " ++ expected
  | .length n expected => "invalid length " ++ n.repr ++ ", expected " ++ expected
  | .missingField name => "missing field " ++ ticked name
  | .duplicateField name => "duplicate field " ++ ticked name
  | .unknownField name [] => "unknown field " ++ ticked name ++ ", there are no fields"
  | .unknownField name expected => "unknown field " ++ ticked name ++ ", expected " ++ oneOf expected
  | .unknownVariant name [] => "unknown variant " ++ ticked name ++ ", there are no variants"
  | .unknownVariant name expected =>
    "unknown variant " ++ ticked name ++ ", expected " ++ oneOf expected
  | .tooDeep => "recursion limit exceeded"

end ShapeFault

end Sluice
