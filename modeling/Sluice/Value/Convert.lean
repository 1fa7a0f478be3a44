import Sluice.Value.Order
import Sluice.Text.Blank

/-!
Conversion of a value to another type. Null converts to null, a value to its own type is itself,
and every other pair either yields a value of the wanted type or says why it cannot.
-/

namespace Sluice

inductive ConversionFault where
  | invalidUtf8
  | notInteger (fault : IntegerFault)
  | notNumber (fault : NumberFault)
  | notFinite
  | outOfRange
  | scaleOverflow
  | notDecimal
  | notBoolean
  | unsupported
  deriving DecidableEq, Repr

def ConversionFault.message : ConversionFault → String
  | .invalidUtf8 => "invalid utf-8"
  | .notInteger fault => fault.message
  | .notNumber fault => fault.message
  | .notFinite => "not finite"
  | .outOfRange => "out of range"
  | .scaleOverflow => "scale overflow"
  | .notDecimal => "not a decimal"
  | .notBoolean => "not a boolean"
  | .unsupported => "unsupported conversion"

structure ConversionError where
  value : Value
  target : DataType
  fault : ConversionFault
  deriving DecidableEq

def ConversionError.message (e : ConversionError) : String :=
  "cannot convert " ++ e.value.format ++ " to " ++ e.target.name ++ ": " ++ e.fault.message

namespace Value

def readDecimal (text : String) : Except ConversionError Decimal :=
  match Decimal.read text with
  | some d => .ok d
  | none => .error ⟨.string text, .bigNumber, .notDecimal⟩

/-- Text of a value as data: a truth value is a letter and bytes are decoded. -/
def toText : Value → Except ConversionFault String
  | .binary bytes =>
    match String.fromUTF8? ⟨bytes.toArray⟩ with
    | some s => .ok s
    | none => .error .invalidUtf8
  | .boolean b => .ok (if b then "Y" else "N")
  | v => .ok v.format

def readInteger (text : String) : Except ConversionFault Int64 :=
  (Int64.readText (Text.trim text)).mapError .notInteger

def integerInRange (n : Int) : Except ConversionFault Int64 :=
  if Integer.fitsInt64 n then .ok (Int64.ofInt n) else .error .outOfRange

def toInteger : Value → Except ConversionFault Int64
  | .string s => readInteger s
  | .integer n => .ok n
  | .number x => if x.isFinite then integerInRange x.roundAway else .error .notFinite
  | .bigNumber d =>
    match Decimal.powerOfTen? d.scale.toNat with
    | some p => integerInRange (d.unscaled.tdiv p)
    | none => .error .scaleOverflow
  | .date ms => .ok ms
  | .boolean b => .ok (if b then 1 else 0)
  | _ => .error .unsupported

def toNumber : Value → Except ConversionFault Binary64
  | .string s => (Binary64.readText (Text.trim s)).mapError .notNumber
  | .integer n => .ok (.ofInt n.toInt)
  | .number x => .ok x
  | .bigNumber d => .ok d.toBinary64
  | .date ms => .ok (.ofInt ms.toInt)
  | .boolean b => .ok (if b then .one else .zero)
  | _ => .error .unsupported

def toDate : Value → Except ConversionFault Int64
  | .string s => readInteger s
  | .integer n => .ok n
  | .date ms => .ok ms
  | _ => .error .unsupported

def yesTexts : List String := ["Y", "y", "true", "TRUE", "True", "1"]
def noTexts : List String := ["N", "n", "false", "FALSE", "False", "0"]

def toBoolean : Value → Except ConversionFault Bool
  | .string s =>
    let t := Text.trim s
    if yesTexts.contains t then .ok true
    else if noTexts.contains t then .ok false
    else .error .notBoolean
  | .integer n => .ok (n != 0)
  | .number x => .ok !x.isZero
  | .boolean b => .ok b
  | _ => .error .unsupported

def toBinary : Value → Except ConversionFault (List UInt8)
  | .string s => .ok s.toUTF8.toList
  | .binary bytes => .ok bytes
  | _ => .error .unsupported

/-- Numbers reach decimals through their plain text, and an unreadable text is the one to blame. -/
def toDecimal (v : Value) : Except ConversionError Decimal :=
  match v with
  | .string s => readDecimal (Text.trim s)
  | .integer n => .ok (.ofInt64 n)
  | .number x =>
    if x.isFinite then readDecimal (NumberFormat.plain.write x)
    else .error ⟨v, .bigNumber, .notFinite⟩
  | .bigNumber d => .ok d
  | _ => .error ⟨v, .bigNumber, .unsupported⟩

/-- Converts, leaving null and values of the wanted type as they are. -/
def convert (v : Value) (target : DataType) : Except ConversionError Value :=
  let blame {α : Type} (r : Except ConversionFault α) : Except ConversionError α :=
    r.mapError fun fault => ⟨v, target, fault⟩
  if v.isNull || v.type? == some target then .ok v
  else match target with
    | .string => (blame v.toText).map .string
    | .integer => (blame v.toInteger).map .integer
    | .number => (blame v.toNumber).map .number
    | .bigNumber => v.toDecimal.map .bigNumber
    | .date => (blame v.toDate).map .date
    | .boolean => (blame v.toBoolean).map .boolean
    | .binary => (blame v.toBinary).map .binary

end Value

end Sluice
