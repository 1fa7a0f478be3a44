import Sluice.Document

/-!
Structured values as documents.
-/

namespace Sluice.Json

def found : Json → Found
  | .null => .null
  | .bool b => .boolean b
  | .int n => .integer n
  | .float x => .float x
  | .str s => .string s
  | .arr _ => .sequence
  | .obj _ => .map

def asBool : Json → Except ShapeFault Bool
  | .bool b => .ok b
  | j => .error (.type j.found "a boolean")

def asInteger (expected : String) (lo hi : Int) : Json → Except ShapeFault Int
  | .int n => if lo ≤ n ∧ n ≤ hi then .ok n else .error (.value (.integer n) expected)
  | j => .error (.type j.found expected)

def asString : Json → Except ShapeFault String
  | .str s => .ok s
  | j => .error (.type j.found "a string")

def asItems : Json → Except ShapeFault (List Json)
  | .arr items => .ok items
  | j => .error (.type j.found "a sequence")

def asEntries (expected : String) : Json → Except ShapeFault (Entries Json)
  | .obj entries => .ok (.named entries)
  | .arr items => .ok (.listed items)
  | j => .error (.type j.found expected)

/-- A name, or the name as the only entry of a map with nothing in it. -/
def asVariant (names : List String) : Json → Except ShapeFault String
  | .str s => if names.contains s then .ok s else .error (.unknownVariant s names)
  | .obj [(s, item)] =>
    if !names.contains s then .error (.unknownVariant s names)
    else if item.isNull then .ok s
    else .error (.type item.found "unit")
  | .obj _ => .error (.value .map "map with a single key")
  | j => .error (.type j.found "string or map")

instance : Document Json where
  isNull := fun j => .ok j.isNull
  bool := asBool
  integer := asInteger
  string := asString
  items := asItems
  entries := asEntries
  variant := asVariant
  json := .ok

end Sluice.Json
