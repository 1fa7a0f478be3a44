import Sluice.Yaml.Token

/-!
The nodes of a YAML document. A repeated node stands where it is repeated; one that would contain
itself does not.
-/

namespace Sluice.Yaml

inductive Node where
  | scalar (tag : Option String) (style : Style) (text : String)
  | sequence (tag : Option String) (items : List Node)
  | mapping (tag : Option String) (entries : List (Node × Node))
  /-- A node met before, and how many repetitions reading it takes. -/
  | alias (target : Node) (repeats : Nat)
  /-- A repetition of a node inside itself. -/
  | cycle
  deriving Inhabited

namespace Node

mutual

/-- How many repetitions reading a node takes. -/
def repeats : Node → Nat
  | .scalar _ _ _ => 0
  | .sequence _ items => repeatsOfItems items
  | .mapping _ entries => repeatsOfEntries entries
  | .alias _ n => n
  | .cycle => 1

def repeatsOfItems : List Node → Nat
  | [] => 0
  | item :: rest => item.repeats + repeatsOfItems rest

def repeatsOfEntries : List (Node × Node) → Nat
  | [] => 0
  | (key, item) :: rest => key.repeats + item.repeats + repeatsOfEntries rest

end

def empty : Node := .scalar none .plain ""

end Node

/-- What is left of the tokens, and what was learnt from them. -/
structure Reader where
  tokens : List Token
  /-- Tag handles and what they stand for. -/
  handles : List (String × String) := []
  /-- Named nodes; one that is not complete yet has no node. -/
  anchors : List (String × Option Node) := []
  /-- How many nodes and ends of collections there were. -/
  size : Nat := 0

abbrev Read := StateT Reader Option

namespace Read

def peek : Read (Option Token) := do return (← get).tokens.head?

def advance : Read Unit := modify fun r => { r with tokens := r.tokens.drop 1 }

def count (n : Nat) : Read Unit := modify fun r => { r with size := r.size + n }

def pass (t : Token) : Read Bool := do
  if (← peek) == some t then
    advance
    return true
  else return false

def expect (t : Token) : Read Unit := do
  guard (← pass t)

def nextIn (ts : List Token) : Read Bool := do
  return (← peek).any ts.contains

def setAnchor (name : String) (node : Option Node) : Read Unit :=
  modify fun r => { r with anchors := (name, node) :: r.anchors }

def lookUp (name : String) : Read Node := do
  match (← get).anchors.find? (·.1 == name) with
  | none => failure
  | some (_, none) => return .cycle
  | some (_, some node) => return .alias node (node.repeats + 1)

def fullTag (handle suffix : String) : Read String := do
  if handle.isEmpty then return suffix
  match (← get).handles.find? (·.1 == handle) with
  | some (_, start) => return start ++ suffix
  | none => failure

def readAnchor : Read (Option String) := do
  match ← peek with
  | some (.anchor name) =>
    advance
    return some name
  | _ => return none

def readTag : Read (Option String) := do
  match ← peek with
  | some (.tag handle suffix) =>
    advance
    return some (← fullTag handle suffix)
  | _ => return none

/-- The anchor and the tag of a node, in either order. -/
def properties : Read (Option String × Option String) := do
  match ← readAnchor with
  | some name => return (some name, ← readTag)
  | none =>
    let tag ← readTag
    return (← readAnchor, tag)

def emptyNode : Read Node := do
  count 1
  return .empty

/-- The tag of a scalar. A lone exclamation mark only says that it is one. -/
def scalarTag (tag : Option String) : Option String :=
  if tag = some "!" then none else tag

mutual

/-- A node. In a block context block collections may stand there, and behind a key also a sequence
that is not indented. -/
def node (block unindented : Bool) : Nat → Read Node
  | 0 => failure
  | fuel + 1 => do
    if let some (.alias name) ← peek then
      advance
      count 1
      return ← lookUp name
    let (anchor, tag) ← properties
    if let some name := anchor then setAnchor name none
    let result ← content block unindented anchor.isSome tag fuel
    if let some name := anchor then setAnchor name (some result)
    return result

def content (block unindented anchored : Bool) (tag : Option String) : Nat → Read Node
  | 0 => failure
  | fuel + 1 => do
    match ← peek with
    | some (.scalar style text) =>
      advance
      count 1
      return .scalar (scalarTag tag) style text
    | some .flowSequenceStart =>
      advance
      count 2
      return .sequence tag (← flowItems true fuel)
    | some .flowMappingStart =>
      advance
      count 2
      return .mapping tag (← flowEntries true fuel)
    | some .blockEntry =>
      if unindented then
        count 2
        return .sequence tag (← unindentedItems fuel)
      else bare
    | some .blockSequenceStart =>
      if block then
        advance
        count 2
        return .sequence tag (← blockItems fuel)
      else bare
    | some .blockMappingStart =>
      if block then
        advance
        count 2
        return .mapping tag (← blockEntries fuel)
      else bare
    | _ => bare
where
  /-- Properties without a node. -/
  bare : Read Node := do
    guard (anchored || tag.isSome)
    count 1
    return .scalar tag .plain ""

def blockItems : Nat → Read (List Node)
  | 0 => failure
  | fuel + 1 => do
    if ← pass .blockEntry then
      let item ←
        if ← nextIn [.blockEntry, .blockEnd] then emptyNode else node true false fuel
      return item :: (← blockItems fuel)
    else
      expect .blockEnd
      return []

/-- Items of a sequence that stands at the indentation of its mapping. -/
def unindentedItems : Nat → Read (List Node)
  | 0 => failure
  | fuel + 1 => do
    if ← pass .blockEntry then
      let item ←
        if ← nextIn [.blockEntry, .key, .value, .blockEnd] then emptyNode else node true false fuel
      return item :: (← unindentedItems fuel)
    else return []

def blockPart : Nat → Read Node
  | 0 => failure
  | fuel + 1 => do
    if ← nextIn [.key, .value, .blockEnd] then emptyNode else node true true fuel

def blockEntries : Nat → Read (List (Node × Node))
  | 0 => failure
  | fuel + 1 => do
    if ← pass .key then
      let key ← blockPart fuel
      let value ← if ← pass .value then blockPart fuel else emptyNode
      return (key, value) :: (← blockEntries fuel)
    else
      expect .blockEnd
      return []

/-- Items of a flow sequence up to its end; a single entry of a mapping may be one. -/
def flowItems (first : Bool) : Nat → Read (List Node)
  | 0 => failure
  | fuel + 1 => do
    if ← pass .flowSequenceEnd then return []
    unless first do expect .flowEntry
    if ← pass .flowSequenceEnd then return []
    let item ← if ← pass .key then pairItem fuel else node false false fuel
    return item :: (← flowItems false fuel)

/-- A single entry as an item. Where the key is left out, the token behind it is lost. -/
def pairItem : Nat → Read Node
  | 0 => failure
  | fuel + 1 => do
    count 2
    let key ←
      if ← nextIn [.value, .flowEntry, .flowSequenceEnd] then
        advance
        emptyNode
      else node false false fuel
    let value ←
      if ← pass .value then
        if ← nextIn [.flowEntry, .flowSequenceEnd] then emptyNode else node false false fuel
      else emptyNode
    return .mapping none [(key, value)]

def flowEntries (first : Bool) : Nat → Read (List (Node × Node))
  | 0 => failure
  | fuel + 1 => do
    if ← pass .flowMappingEnd then return []
    unless first do expect .flowEntry
    if ← pass .flowMappingEnd then return []
    let entry ← flowEntry fuel
    return entry :: (← flowEntries false fuel)

/-- An entry of a flow mapping; what has no mark of a key has no value. -/
def flowEntry : Nat → Read (Node × Node)
  | 0 => failure
  | fuel + 1 => do
    if ← pass .key then
      let key ←
        if ← nextIn [.value, .flowEntry, .flowMappingEnd] then emptyNode else node false false fuel
      let value ←
        if ← pass .value then
          if ← nextIn [.flowEntry, .flowMappingEnd] then emptyNode else node false false fuel
        else emptyNode
      return (key, value)
    else return (← node false false fuel, ← emptyNode)

end

/-- Directives before a document: one version at most, and no handle twice. -/
def directives (versioned : Bool) (handles : List (String × String)) :
    Nat → Read (List (String × String))
  | 0 => failure
  | fuel + 1 => do
    match ← peek with
    | some (.version major minor) =>
      guard (!versioned && major == 1 && (minor == 1 || minor == 2))
      advance
      directives true handles fuel
    | some (.tagHandle handle start) =>
      guard !(handles.any (·.1 == handle))
      advance
      directives versioned (handles ++ [(handle, start)]) fuel
    | _ => return handles

def commonHandles : List (String × String) :=
  [("!", "!"), ("!!", "tag:yaml.org,2002:")]

def passEnds : Nat → Read Unit
  | 0 => failure
  | fuel + 1 => do
    if ← pass .documentEnd then passEnds fuel

def document (fuel : Nat) : Read Node := do
  let directed := match ← peek with
    | some (.version _ _) | some (.tagHandle _ _) => true
    | _ => false
  let declared ← directives false [] fuel
  modify fun r => { r with handles := declared ++ commonHandles }
  let marked ← pass .documentStart
  guard (marked || !directed)
  let bare := match ← peek with
    | none | some .documentStart | some .documentEnd | some (.version _ _)
    | some (.tagHandle _ _) => true
    | _ => false
  let root ← if marked && bare then emptyNode else node true false fuel
  passEnds fuel
  guard (← peek).isNone
  return root

end Read

end Sluice.Yaml
