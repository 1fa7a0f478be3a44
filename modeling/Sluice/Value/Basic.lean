import Sluice.Number.Decimal
import Sluice.Text.Hex

/-!
Typed values: what a field of a row holds, its type, and its plain text.
-/

namespace Sluice

inductive DataType where
  | string
  | integer
  | number
  | bigNumber
  | date
  | boolean
  | binary
  deriving DecidableEq, Repr, Inhabited

namespace DataType

def name : DataType → String
  | .string => "String"
  | .integer => "Integer"
  | .number => "Number"
  | .bigNumber => "BigNumber"
  | .date => "Date"
  | .boolean => "Boolean"
  | .binary => "Binary"

def all : List DataType :=
  [.string, .integer, .number, .bigNumber, .date, .boolean, .binary]

/-- Other spellings accepted where a type is written by hand. -/
def aliases : DataType → List String
  | .string => ["string", "Utf8", "str"]
  | .integer => ["integer", "int", "Int64", "i64"]
  | .number => ["number", "Float64", "f64"]
  | .bigNumber => ["bignumber", "decimal"]
  | .date => ["date"]
  | .boolean => ["boolean", "bool"]
  | .binary => ["binary", "bytes"]

def ofName? (s : String) : Option DataType :=
  all.find? fun t => t.name == s

def ofSpelling? (s : String) : Option DataType :=
  all.find? fun t => t.name == s || t.aliases.contains s

end DataType

/-- One field's content. A date counts milliseconds from the start of 1970. -/
inductive Value where
  | null
  | string (s : String)
  | integer (n : Int64)
  | number (x : Binary64)
  | bigNumber (d : Decimal)
  | date (ms : Int64)
  | boolean (b : Bool)
  | binary (bytes : List UInt8)
  deriving DecidableEq, Inhabited

namespace Value

def isNull : Value → Bool
  | .null => true
  | _ => false

def type? : Value → Option DataType
  | .null => none
  | .string _ => some .string
  | .integer _ => some .integer
  | .number _ => some .number
  | .bigNumber _ => some .bigNumber
  | .date _ => some .date
  | .boolean _ => some .boolean
  | .binary _ => some .binary

def format : Value → String
  | .null => "<null>"
  | .string s => s
  | .integer n => Integer.format n.toInt
  | .number x => NumberFormat.plain.write x
  | .bigNumber d => d.format
  | .date ms => Integer.format ms.toInt
  | .boolean b => if b then "true" else "false"
  | .binary bytes => Text.hexOfBytes bytes

end Value

end Sluice
