import Sluice.Document
import Sluice.Yaml.Node
import Sluice.Yaml.Plain
import Sluice.Yaml.Tokens

/-!
YAML nodes as documents. What a plain scalar stands for decides whether it is taken for null, a
truth value or a number; a text is taken from any scalar. Collections nest at most 128 deep.
-/

namespace Sluice.Yaml

/-- A node and how much deeper collections may nest. -/
structure Part where
  node : Node
  depth : Nat := 128

namespace Part

def boolTag : String := "tag:yaml.org,2002:bool"
def intTag : String := "tag:yaml.org,2002:int"
def floatTag : String := "tag:yaml.org,2002:float"
def nullTag : String := "tag:yaml.org,2002:null"

def view (p : Part) : Node :=
  match p.node with
  | .alias n _ => n
  | n => n

def foundOf : Node → Found
  | .scalar _ _ text => .string text
  | .sequence _ _ => .sequence
  | .mapping _ _ => .map
  | .alias _ _ => .map
  | .cycle => .map

def refuse {α : Type} (n : Node) (expected : String) : Except ShapeFault α :=
  match n with
  | .cycle => .error .tooDeep
  | n => .error (.type (foundOf n) expected)

/-- A plain scalar, or a literal block with the tag of the wanted type. -/
def literalText? (wanted : String) : Node → Option String
  | .scalar _ .plain text => some text
  | .scalar (some tag) .literal text => if tag == wanted then some text else none
  | _ => none

def isBlank : Node → Bool
  | .scalar _ .plain text => text.isEmpty
  | _ => false

/-- Null, for what may be absent. What has the tag of null has to be null. -/
def isNull (p : Part) : Except ShapeFault Bool :=
  match p.view with
  | .scalar (some tag) .plain text =>
    if tag != nullTag then .ok false
    else if Plain.nullWords.contains text then .ok true
    else .error (.value (.string text) "null")
  | .scalar none .plain text => .ok (text.isEmpty || Plain.nullWords.contains text)
  | _ => .ok false

def bool (p : Part) : Except ShapeFault Bool :=
  match (literalText? boolTag p.view).bind Plain.bool? with
  | some b => .ok b
  | none => refuse p.view "a boolean"

def integer (expected : String) (lo hi : Int) (p : Part) : Except ShapeFault Int :=
  let read (text : String) : Option Int :=
    if let some n := Plain.natural? hi.toNat text.toList then some n
    else if lo < 0 then (Plain.negative? (-lo).toNat text.toList).map fun n => -Int.ofNat n
    else none
  match (literalText? intTag p.view).bind read with
  | some n => .ok n
  | none => refuse p.view expected

def string (p : Part) : Except ShapeFault String :=
  match p.view with
  | .scalar _ _ text => .ok text
  | n => refuse n "a string"

def inner (p : Part) (n : Node) : Part := ⟨n, p.depth - 1⟩

def items (p : Part) : Except ShapeFault (List Part) :=
  match p.view with
  | .sequence _ items => if p.depth = 0 then .error .tooDeep else .ok (items.map p.inner)
  | n => if isBlank n then .ok [] else refuse n "a sequence"

def entries (expected : String) (p : Part) : Except ShapeFault (Entries Part) :=
  match p.view with
  | .mapping _ entries =>
    if p.depth = 0 then .error .tooDeep
    else do
      return .named (← entries.mapM fun (key, item) => do
        return (← string (p.inner key), p.inner item))
  | .sequence _ items => if p.depth = 0 then .error .tooDeep else .ok (.listed (items.map p.inner))
  | n => if isBlank n then .ok (.named []) else refuse n expected

def ownTag? (tag : Option String) : Option String := do
  match (← tag).toList with
  | ['!'] => some "!"
  | '!' :: rest => some (String.ofList rest)
  | _ => none

/-- A name as a text, or as the tag of nothing. -/
def variant (names : List String) (p : Part) : Except ShapeFault String :=
  let known (name : String) : Except ShapeFault String :=
    if names.contains name then .ok name else .error (.unknownVariant name names)
  match p.view with
  | .scalar tag style text =>
    match ownTag? tag with
    | none => known text
    | some name =>
      if style == .plain && (text.isEmpty || Plain.nullWords.contains text) then known name
      else .error (.type (.string text) "unit")
  | n => refuse n "an enumeration"

def scalarJson (tag : Option String) (style : Style) (text : String) : Except ShapeFault Json :=
  let number (plain : Plain) : Except ShapeFault Json :=
    match plain with
    | .null => .ok .null
    | .bool b => .ok (.bool b)
    | .int n => .ok (.int n)
    | .float x => .ok (if x.isFinite then .float x else .null)
    | .text => .ok (.str text)
    | .tooLarge => .error (.type (.string text) "a number of 64 bits")
  let wanted (what : String) : Except ShapeFault Json := .error (.value (.string text) what)
  match tag with
  | none => if style == .plain then number (.ofText text) else .ok (.str text)
  | some tag =>
    if (ownTag? (some tag)).isSome then .error (.type (.string text) "any value")
    else if tag == boolTag then
      match Plain.bool? text with
      | some b => .ok (.bool b)
      | none => wanted "a boolean"
    else if tag == intTag then
      match Plain.integer? text.toList with
      | some plain => number plain
      | none => wanted "an integer"
    else if tag == floatTag then
      match Plain.float? text with
      | some x => number (.float x)
      | none => wanted "a float"
    else if tag == nullTag then
      if Plain.nullWords.contains text then .ok .null else wanted "null"
    else .ok (.str text)

def keyText : Node → Except ShapeFault String
  | .scalar _ _ text => .ok text
  | .alias (.scalar _ _ text) _ => .ok text
  | n => refuse n "a string key"

/-- A collection with a tag of its own is no plain value. -/
def untagged (tag : Option String) : Except ShapeFault Unit :=
  if (ownTag? tag).isSome then .error (.type .map "any value") else .ok ()

mutual

def nodeJson (depth : Nat) : Node → Except ShapeFault Json
  | .scalar tag style text => scalarJson tag style text
  | .sequence tag items => do
    untagged tag
    if depth = 0 then throw .tooDeep
    return .arr (← itemsJson (depth - 1) items)
  | .mapping tag entries => do
    untagged tag
    if depth = 0 then throw .tooDeep
    return .ofEntries (← entriesJson (depth - 1) entries)
  | .alias n _ => nodeJson depth n
  | .cycle => .error .tooDeep

def itemsJson (depth : Nat) : List Node → Except ShapeFault (List Json)
  | [] => .ok []
  | n :: rest => do return (← nodeJson depth n) :: (← itemsJson depth rest)

def entriesJson (depth : Nat) : List (Node × Node) → Except ShapeFault (List (String × Json))
  | [] => .ok []
  | (key, n) :: rest => do
    return (← keyText key, ← nodeJson depth n) :: (← entriesJson depth rest)

end

instance : Document Part where
  isNull := isNull
  bool := bool
  integer := integer
  string := string
  items := items
  entries := entries
  variant := variant
  json := fun p => nodeJson p.depth p.node

end Part

/-- The document of a text; none if it is no YAML, or has more repetitions than a hundred for each
of its nodes. -/
def read (text : String) : Option Part := do
  let tokens ← tokensOf? text
  let (root, reader) ← (Read.document (4 * tokens.length + 16)).run { tokens }
  guard (root.repeats ≤ 100 * reader.size)
  return { node := root }

end Sluice.Yaml
