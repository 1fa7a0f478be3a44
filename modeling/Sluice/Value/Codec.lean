import Sluice.Json.Read
import Sluice.Json.Document
import Sluice.Value.Basic

/-!
Values as structured documents: the name of the type around the content, and the bare name for
null.
-/

namespace Sluice.Value

def encodeDecimal (d : Decimal) : Json :=
  .obj [("unscaled", .int d.unscaled), ("scale", .int d.scale.toNat)]

def encode : Value → Json
  | .null => .str "Null"
  | .string s => .obj [("String", .str s)]
  | .integer n => .obj [("Integer", .int n.toInt)]
  | .number x => .obj [("Number", .float x)]
  | .bigNumber d => .obj [("BigNumber", encodeDecimal d)]
  | .date ms => .obj [("Date", .int ms.toInt)]
  | .boolean b => .obj [("Boolean", .bool b)]
  | .binary bytes => .obj [("Binary", .arr (bytes.map fun b => .int b.toNat))]

def decodeInt64 (doc : Json) : Except ShapeFault Int64 :=
  (Document.integer "i64" Int64.minValue.toInt Int64.maxValue.toInt doc).map Int64.ofInt

def decodeByte (doc : Json) : Except ShapeFault UInt8 :=
  (Document.integer "u8" 0 255 doc).map fun n => UInt8.ofNat n.toNat

def decodeNumber : Json → Except ShapeFault Binary64
  | .float x => .ok x
  | .int n =>
    match Json.narrow n with
    | some (.float x) => .ok x
    | some _ => .ok (.ofInt n)
    | none => .error (.type (.integer n) "f64")
  | doc => .error (.type doc.found "f64")

def decodeUnscaled : Json → Except ShapeFault { n : Int // Decimal.min ≤ n ∧ n ≤ Decimal.max }
  | .int n =>
    if h : Decimal.min ≤ n ∧ n ≤ Decimal.max then .ok ⟨n, h⟩
    else .error (.value (.integer n) "i128")
  | doc => .error (.type doc.found "i128")

def decimalRecord : Record Json Decimal :=
  (((Record.start "variant Value::BigNumber" 2
    fun (n : { n : Int // Decimal.min ≤ n ∧ n ≤ Decimal.max }) (scale : UInt32) =>
      (⟨n.1, scale, n.2⟩ : Decimal)).required
    "unscaled" decodeUnscaled).required
    "scale" Document.word)

def typeNames : List String :=
  ["Null", "String", "Integer", "Number", "BigNumber", "Date", "Boolean", "Binary"]

def decode : Json → Except ShapeFault Value
  | .str "Null" => .ok .null
  | .obj [("Null", content)] => if content.isNull then .ok .null else .error (.type content.found "unit")
  | .obj [("String", content)] => (Document.string content).map .string
  | .obj [("Integer", content)] => (decodeInt64 content).map .integer
  | .obj [("Number", content)] => (decodeNumber content).map .number
  | .obj [("BigNumber", content)] => (decimalRecord.decode false content).map .bigNumber
  | .obj [("Date", content)] => (decodeInt64 content).map .date
  | .obj [("Boolean", content)] => (Document.bool content).map .boolean
  | .obj [("Binary", content)] => (Document.listOf decodeByte content).map .binary
  | .obj [(name, _)] => .error (.unknownVariant name typeNames)
  | .str name =>
    if typeNames.contains name then .error (.type (.string name) "newtype variant")
    else .error (.unknownVariant name typeNames)
  | .obj _ => .error (.value .map "map with a single key")
  | doc => .error (.type doc.found "string or map")

end Sluice.Value
