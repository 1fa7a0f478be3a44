import Sluice.Yaml.Scalar

/-!
The tokens of a YAML text. Indentation opens and closes block collections; a token that may turn out
to be a mapping key is remembered until a colon follows it on the same line, and the tokens that
make it a key are then put in before it.
-/

namespace Sluice.Yaml

/-- A token that may turn out to be a key. -/
structure PossibleKey where
  /-- Nothing else may stand there. -/
  required : Bool
  /-- How many tokens come before it. -/
  number : Nat
  index : Nat
  line : Nat
  column : Nat

structure Scan where
  cursor : Cursor
  /-- Tokens so far, the last one first. -/
  tokens : List Token := []
  count : Nat := 0
  /-- Open flow collections. -/
  flow : Nat := 0
  /-- The column of the current block collection, `-1` outside of any. -/
  indent : Int := -1
  /-- The columns of the collections around it. -/
  indents : List Int := []
  /-- A key may begin here. -/
  keyAllowed : Bool := true
  /-- The possible key of this flow collection and of those around it. -/
  keys : List (Option PossibleKey) := [none]

namespace Scan

def inFlow (s : Scan) : Bool := s.flow != 0

def push (s : Scan) (t : Token) : Scan :=
  { s with tokens := t :: s.tokens, count := s.count + 1 }

/-- Puts a token behind the first `number` tokens. -/
def insertAt (s : Scan) (number : Nat) (t : Token) : Scan :=
  let behind := s.count - number
  { s with tokens := s.tokens.take behind ++ t :: s.tokens.drop behind, count := s.count + 1 }

def skip (s : Scan) (n : Nat := 1) : Scan :=
  { s with cursor := s.cursor.skip n }

/-- Passes blanks, comments and line breaks. A tab counts as a blank only where no key may begin. -/
def skipToToken : Nat → Scan → Scan
  | 0, s => s
  | fuel + 1, s =>
    let c := s.cursor
    let c := if c.column == 0 && c.peek == some '\ufeff' then c.skip else c
    let c := c.skipWhile fun ch => ch == ' ' || ((s.inFlow || !s.keyAllowed) && ch == '\t')
    let c := if c.peek == some '#' then c.skipWhile (!isBreak ·) else c
    if (c.peek).any isBreak then
      skipToToken fuel { s with cursor := c.skipBreak, keyAllowed := s.keyAllowed || !s.inFlow }
    else { s with cursor := c }

/-- A possible key has to be on one line and no longer than 1024 characters. -/
def isStale (c : Cursor) (k : PossibleKey) : Bool :=
  k.line < c.line || k.index + 1024 < c.index

/-- Forgets keys that are too far behind; a required one must not be. -/
def dropStale (s : Scan) : Option Scan :=
  let stale (k : Option PossibleKey) : Bool := k.any (isStale s.cursor)
  if s.keys.any fun k => stale k && k.any (·.required) then none
  else some { s with keys := s.keys.map fun k => if stale k then none else k }

def dropKey (s : Scan) : Option Scan :=
  match s.keys with
  | some k :: rest => if k.required then none else some { s with keys := none :: rest }
  | _ => some s

def saveKey (s : Scan) : Option Scan :=
  if s.keyAllowed then do
    let s ← s.dropKey
    let c := s.cursor
    let key : PossibleKey :=
      { required := !s.inFlow && s.indent == c.column, number := s.count
        index := c.index, line := c.line, column := c.column }
    return { s with keys := some key :: s.keys.drop 1 }
  else some s

/-- Opens a block collection at a column that lies deeper; its token goes behind the first `number`
tokens. -/
def openBlock (s : Scan) (column number : Nat) (t : Token) : Scan :=
  if !s.inFlow && s.indent < (column : Int) then
    { s with indents := s.indent :: s.indents, indent := column }.insertAt number t
  else s

def closeBlocks (column : Int) : Nat → Scan → Scan
  | 0, s => s
  | fuel + 1, s =>
    if s.inFlow || s.indent ≤ column then s
    else
      let outer := { s with indent := s.indents.head?.getD (-1), indents := s.indents.drop 1 }
      closeBlocks column fuel (outer.push .blockEnd)

def closeTo (s : Scan) (column : Int) : Scan :=
  closeBlocks column (s.indents.length + 1) s

/-- Leaves all block collections, as a line that marks a document does. -/
def leaveBlocks (s : Scan) : Option Scan := do
  let s ← (s.closeTo (-1)).dropKey
  return { s with keyAllowed := false }

def readVersionNumber (c : Cursor) : Option (Nat × Cursor) := do
  let digits := c.rest.takeWhile Char.isDigit
  guard (0 < digits.length ∧ digits.length ≤ 9)
  return (digits.foldl (fun n d => 10 * n + (d.toNat - '0'.toNat)) 0, c.skip digits.length)

/-- Characters of a tag. The indicators of flow collections count only in some places. -/
def isTagChar (indicators : Bool) (c : Char) : Bool :=
  isWordChar c || ";/?:@&=+$.%!~*'()".toList.contains c ||
    (indicators && (c == ',' || c == '[' || c == ']'))

def readOctet : List Char → Option (UInt8 × List Char)
  | '%' :: a :: b :: rest => do return (UInt8.ofNat (← Text.natOfHex? [a, b]), rest)
  | _ => none

/-- How many octets a character has that starts with this one. -/
def octetsOf (first : UInt8) : Nat :=
  if first &&& 0x80 == 0x00 then 1
  else if first &&& 0xE0 == 0xC0 then 2
  else if first &&& 0xF0 == 0xE0 then 3
  else if first &&& 0xF8 == 0xF0 then 4
  else 0

def readFollowing : Nat → List Char → Option (List UInt8 × List Char)
  | 0, cs => some ([], cs)
  | n + 1, cs => do
    let (b, cs) ← readOctet cs
    guard (b &&& 0xC0 == 0x80)
    let (bs, cs) ← readFollowing n cs
    return (b :: bs, cs)

def readEscaped (cs : List Char) : Option (List Char × List Char) := do
  let (first, rest) ← readOctet cs
  let width := octetsOf first
  guard (width ≠ 0)
  let (following, rest) ← readFollowing (width - 1) rest
  let text ← String.fromUTF8? ⟨(first :: following).toArray⟩
  return (text.toList, rest)

def readTagChars (indicators : Bool) : Nat → List Char → Option (List Char × List Char)
  | 0, _ => none
  | _ + 1, [] => some ([], [])
  | fuel + 1, c :: rest =>
    if c == '%' then do
      let (head, rest) ← readEscaped (c :: rest)
      let (tail, rest) ← readTagChars indicators fuel rest
      return (head ++ tail, rest)
    else if isTagChar indicators c then do
      let (tail, rest) ← readTagChars indicators fuel rest
      return (c :: tail, rest)
    else some ([], c :: rest)

/-- The text of a tag behind what was read of it as a handle; it must not be all empty. -/
def readTagText (indicators : Bool) (head : List Char) (c : Cursor) :
    Option (List Char × Cursor) := do
  let (text, rest) ← readTagChars indicators (c.rest.length + 1) c.rest
  guard !(head.isEmpty && text.isEmpty)
  return (head.drop 1 ++ text, c.skip (c.rest.length - rest.length))

def readHandle (declared : Bool) (c : Cursor) : Option (List Char × Cursor) :=
  match c.rest with
  | '!' :: rest =>
    let word := rest.takeWhile isWordChar
    let c := c.skip (word.length + 1)
    if c.peek == some '!' then some ('!' :: word ++ ['!'], c.skip)
    else if declared && !word.isEmpty then none
    else some ('!' :: word, c)
  | _ => none

def readDirective (c : Cursor) : Option (Token × Cursor) := do
  let name := c.rest.takeWhile isWordChar
  guard !name.isEmpty
  let c := c.skip name.length
  guard (endsWord c.rest)
  let c := c.skipWhile isSpace
  match String.ofList name with
  | "YAML" =>
    let (major, c) ← readVersionNumber c
    guard (c.peek == some '.')
    let (minor, c) ← readVersionNumber c.skip
    return (.version major minor, c)
  | "TAG" =>
    let (handle, c) ← readHandle true c
    guard ((c.peek).any isSpace)
    let (start, c) ← readTagText true [] (c.skipWhile isSpace)
    guard (endsWord c.rest)
    return (.tagHandle (String.ofList handle) (String.ofList start), c)
  | _ => none

/-- A directive and the rest of its line. -/
def directive (s : Scan) : Option Scan := do
  let s ← s.leaveBlocks
  let (t, c) ← readDirective s.cursor.skip
  let c := c.skipWhile isSpace
  let c := if c.peek == some '#' then c.skipWhile (!isBreak ·) else c
  guard (endsLine c.rest)
  return { s with cursor := c.skipBreak }.push t

def marker (s : Scan) (t : Token) : Option Scan := do
  let s ← s.leaveBlocks
  return (s.skip 3).push t

def openFlow (s : Scan) (t : Token) : Option Scan := do
  let s ← s.saveKey
  return ({ s with keys := none :: s.keys, flow := s.flow + 1, keyAllowed := true }.skip).push t

def closeFlow (s : Scan) (t : Token) : Option Scan := do
  let s ← s.dropKey
  let s := if s.inFlow then { s with flow := s.flow - 1, keys := s.keys.drop 1 } else s
  return ({ s with keyAllowed := false }.skip).push t

def flowEntry (s : Scan) : Option Scan := do
  let s ← s.dropKey
  return ({ s with keyAllowed := true }.skip).push .flowEntry

/-- An entry of a block sequence. One in a flow collection is refused later. -/
def blockEntry (s : Scan) : Option Scan := do
  guard (s.inFlow || s.keyAllowed)
  let s ← (s.openBlock s.cursor.column s.count .blockSequenceStart).dropKey
  return ({ s with keyAllowed := true }.skip).push .blockEntry

def key (s : Scan) : Option Scan := do
  guard (s.inFlow || s.keyAllowed)
  let s ← (s.openBlock s.cursor.column s.count .blockMappingStart).dropKey
  return ({ s with keyAllowed := !s.inFlow }.skip).push .key

/-- A colon: what was a possible key is one. -/
def value (s : Scan) : Option Scan :=
  match s.keys with
  | some k :: rest =>
    let s := (s.insertAt k.number .key).openBlock k.column k.number .blockMappingStart
    some (({ s with keys := none :: rest, keyAllowed := false }.skip).push .value)
  | _ => do
    guard (s.inFlow || s.keyAllowed)
    let s := s.openBlock s.cursor.column s.count .blockMappingStart
    return ({ s with keyAllowed := !s.inFlow }.skip).push .value

def named (s : Scan) (token : String → Token) : Option Scan := do
  let s ← s.saveKey
  let c := s.cursor.skip
  let name := c.rest.takeWhile isWordChar
  let c := c.skip name.length
  let follows (ch : Char) : Bool := "?:,]\x7d%@\x60".toList.contains ch
  guard (!name.isEmpty && (endsWord c.rest || (c.peek).any follows))
  return { s with cursor := c, keyAllowed := false }.push (token (String.ofList name))

/-- A tag: written in full between angle brackets, or with a handle. -/
def readTag (c : Cursor) : Option (Token × Cursor) :=
  match c.rest with
  | '!' :: '<' :: _ => do
    let (text, c) ← readTagText true [] (c.skip 2)
    guard (c.peek == some '>')
    return (.tag "" (String.ofList text), c.skip)
  | _ => do
    let (handle, c) ← readHandle false c
    if 1 < handle.length ∧ handle.getLast? = some '!' then
      let (suffix, c) ← readTagText false [] c
      return (.tag (String.ofList handle) (String.ofList suffix), c)
    else
      let (suffix, c) ← readTagText false handle c
      if suffix.isEmpty then return (.tag "" "!", c)
      else return (.tag "!" (String.ofList suffix), c)

def tag (s : Scan) : Option Scan := do
  let s ← s.saveKey
  let (t, c) ← readTag s.cursor
  guard (endsWord c.rest || (s.inFlow && c.peek == some ','))
  return { s with cursor := c, keyAllowed := false }.push t

def block (s : Scan) (style : Style) : Option Scan := do
  let s ← s.dropKey
  let r ← readBlock (style == .literal) s.indent s.cursor.skip
  return { s with cursor := r.cursor, keyAllowed := true }.push (.scalar style (String.ofList r.text))

def quoted (s : Scan) (single : Bool) : Option Scan := do
  let s ← s.saveKey
  let r ← readQuoted single (s.cursor.rest.length + 1) [] s.cursor.skip
  return { s with cursor := r.cursor, keyAllowed := false }.push
    (.scalar .quoted (String.ofList r.text))

def plain (s : Scan) : Option Scan := do
  let s ← s.saveKey
  let r ← readPlain s.inFlow (s.indent + 1) (s.cursor.rest.length + 2) [] {} s.cursor
  return { s with cursor := r.cursor, keyAllowed := r.broken }.push
    (.scalar .plain (String.ofList r.text))

def isIndicator (c : Char) : Bool :=
  "-?:,[]\x7b\x7d#&*!|>'\"%@\x60".toList.contains c

def startsPlain (inFlow : Bool) (c : Char) (rest : List Char) : Bool :=
  let spaceNext : Bool := (rest.head?).any isSpace
  !(isSpace c || isBreak c || isIndicator c) ||
    (c == '-' && !spaceNext) ||
    (!inFlow && (c == '?' || c == ':') && !endsWord rest)

def token (s : Scan) (c : Char) (rest : List Char) : Option Scan :=
  let atStart := s.cursor.column == 0
  let alone := endsWord rest
  if atStart && c == '%' then s.directive
  else if s.cursor.atMarker && c == '-' then s.marker .documentStart
  else if s.cursor.atMarker && c == '.' then s.marker .documentEnd
  else if c == '[' then s.openFlow .flowSequenceStart
  else if c == '\x7b' then s.openFlow .flowMappingStart
  else if c == ']' then s.closeFlow .flowSequenceEnd
  else if c == '\x7d' then s.closeFlow .flowMappingEnd
  else if c == ',' then s.flowEntry
  else if c == '-' && alone then s.blockEntry
  else if c == '?' && (s.inFlow || alone) then s.key
  else if c == ':' && (s.inFlow || alone) then s.value
  else if c == '*' then s.named .alias
  else if c == '&' then s.named .anchor
  else if c == '!' then s.tag
  else if c == '|' && !s.inFlow then s.block .literal
  else if c == '>' && !s.inFlow then s.block .folded
  else if c == '\'' then s.quoted true
  else if c == '"' then s.quoted false
  else if startsPlain s.inFlow c rest then s.plain
  else none

def finish (s : Scan) : Option Scan :=
  (s.closeTo (-1)).dropKey

def run : Nat → Scan → Option Scan
  | 0, _ => none
  | fuel + 1, s => do
    let s ← (skipToToken (s.cursor.rest.length + 1) s).dropStale
    let s := s.closeTo s.cursor.column
    match s.cursor.rest with
    | [] => s.finish
    | c :: rest => run fuel (← s.token c rest)

def isAllowed (c : Char) : Bool :=
  let n := c.toNat
  n == 0x09 || n == 0x0A || n == 0x0D || (0x20 ≤ n && n ≤ 0x7E) || n == 0x85 ||
    (0xA0 ≤ n && n ≤ 0xD7FF) || (0xE000 ≤ n && n ≤ 0xFFFD) || 0x10000 ≤ n

end Scan

/-- The tokens of a text, if it has any. A byte order mark at its start is no part of it. -/
def tokensOf? (text : String) : Option (List Token) := do
  let cs := match text.toList with
    | '\ufeff' :: rest => rest
    | cs => cs
  guard (cs.all Scan.isAllowed)
  let s ← Scan.run (cs.length + 2) { cursor := { rest := cs } }
  return s.tokens.reverse

end Sluice.Yaml
