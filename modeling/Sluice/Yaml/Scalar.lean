import Sluice.Text.Hex
import Sluice.Yaml.Cursor
import Sluice.Yaml.Token

/-!
Reading scalars: plain ones, quoted ones and indented blocks. A single line break inside a plain or
quoted scalar counts as a space, further ones count as themselves.
-/

namespace Sluice.Yaml

structure Gap where
  /-- Blanks, where no line was broken. -/
  blanks : List Char := []
  /-- The first line break. -/
  first : List Char := []
  /-- All further line breaks. -/
  more : List Char := []
  broken : Bool := false

namespace Gap

def text (g : Gap) : List Char :=
  if !g.broken then g.blanks
  else if g.first = ['\n'] then if g.more.isEmpty then [' '] else g.more
  else g.first ++ g.more

/-- Takes blanks and breaks. Where a line has to be indented, a tab in its indentation is refused. -/
def read (indent : Option Int) : Nat → Gap → Cursor → Option (Gap × Cursor)
  | 0, g, c => some (g, c)
  | fuel + 1, g, c =>
    match c.peek with
    | none => some (g, c)
    | some ch =>
      if isSpace ch then
        if g.broken && ch == '\t' && indent.any (fun n => (c.column : Int) < n) then none
        else if g.broken then read indent fuel g c.skip
        else read indent fuel { g with blanks := g.blanks ++ [ch] } c.skip
      else if isBreak ch then
        if g.broken then read indent fuel { g with more := g.more ++ c.breakText } c.skipBreak
        else read indent fuel { first := c.breakText, broken := true } c.skipBreak
      else some (g, c)

end Gap

/-- Characters that end a plain scalar, or may not follow a colon, in a flow collection. -/
def isFlowIndicator (c : Char) : Bool :=
  c == ',' || c == '[' || c == ']' || c == '\x7b' || c == '\x7d'

/-- A colon in a flow collection may not stand before one of these. -/
def colonRefused : List Char → Bool
  | ':' :: c :: _ => isFlowIndicator c || c == '?'
  | _ => false

def plainStops (flow : Bool) : List Char → Bool
  | [] => true
  | c :: rest => (c == ':' && endsWord rest) || (flow && isFlowIndicator c)

/-- The characters of a plain scalar up to a blank or an indicator that ends it. -/
def plainWord (flow : Bool) : List Char → Option (List Char)
  | [] => some []
  | c :: rest =>
    if isSpace c || isBreak c then some []
    else if flow && colonRefused (c :: rest) then none
    else if plainStops flow (c :: rest) then some []
    else (plainWord flow rest).map (c :: ·)

/-- A scalar as it was read: its text, where it ends, and whether a line was broken behind it. -/
structure ScalarRead where
  text : List Char
  cursor : Cursor
  broken : Bool := false

/-- A plain scalar, whose further lines are indented by at least `indent`. -/
def readPlain (flow : Bool) (indent : Int) : Nat → List Char → Gap → Cursor → Option ScalarRead
  | 0, _, _, _ => none
  | fuel + 1, acc, gap, c =>
    if c.atMarker || c.peek == some '#' then some ⟨acc, c, gap.broken⟩
    else do
      let word ← plainWord flow c.rest
      let (acc, gap) := if word.isEmpty then (acc, gap) else (acc ++ gap.text ++ word, {})
      let c := c.skip word.length
      if c.rest.isEmpty || !endsWord c.rest then return ⟨acc, c, gap.broken⟩
      let (gap, c) ← gap.read (some indent) (c.rest.length + 1) c
      if !flow && (c.column : Int) < indent then return ⟨acc, c, gap.broken⟩
      readPlain flow indent fuel acc gap c

def escapeLetter? : Char → Option Char
  | '0' => some '\x00'
  | 'a' => some '\x07'
  | 'b' => some '\x08'
  | 't' => some '\t'
  | '\t' => some '\t'
  | 'n' => some '\n'
  | 'v' => some '\x0b'
  | 'f' => some '\x0c'
  | 'r' => some '\r'
  | 'e' => some '\x1b'
  | ' ' => some ' '
  | '"' => some '"'
  | '/' => some '/'
  | '\\' => some '\\'
  | 'N' => some '\x85'
  | '_' => some '\xa0'
  | 'L' => some '\u2028'
  | 'P' => some '\u2029'
  | _ => none

def escapeWidth? : Char → Option Nat
  | 'x' => some 2
  | 'u' => some 4
  | 'U' => some 8
  | _ => none

/-- An escape behind its backslash: the character and the length of the escape. -/
def readEscape : List Char → Option (Char × Nat)
  | [] => none
  | c :: rest =>
    match escapeLetter? c, escapeWidth? c with
    | some ch, _ => some (ch, 1)
    | none, some width => do
      let digits := rest.take width
      guard (digits.length = width)
      let n ← Text.natOfHex? digits
      guard (n.isValidChar)
      return (Char.ofNat n, width + 1)
    | none, none => none

inductive WordEnd where
  | blank
  | quote
  /-- At an escaped line break. -/
  | joined

/-- Characters inside single quotes; a doubled quote stands for one. -/
def singleWord : List Char → List Char × Nat × WordEnd
  | [] => ([], 0, .blank)
  | '\'' :: '\'' :: rest =>
    let (word, n, ending) := singleWord rest
    ('\'' :: word, n + 2, ending)
  | '\'' :: _ => ([], 0, .quote)
  | c :: rest =>
    if isSpace c || isBreak c then ([], 0, .blank)
    else
      let (word, n, ending) := singleWord rest
      (c :: word, n + 1, ending)

def doubleWord : Nat → List Char → Option (List Char × Nat × WordEnd)
  | 0, _ => none
  | _ + 1, [] => some ([], 0, .blank)
  | fuel + 1, c :: rest =>
    if isSpace c || isBreak c then some ([], 0, .blank)
    else if c == '"' then some ([], 0, .quote)
    else if c == '\\' then
      match rest with
      | d :: _ =>
        if isBreak d then some ([], 1, .joined)
        else do
          let (ch, width) ← readEscape rest
          let (word, n, ending) ← doubleWord fuel (rest.drop width)
          return (ch :: word, n + width + 1, ending)
      | [] => none
    else do
      let (word, n, ending) ← doubleWord fuel rest
      return (c :: word, n + 1, ending)

def readQuoted (single : Bool) : Nat → List Char → Cursor → Option ScalarRead
  | 0, _, _ => none
  | fuel + 1, acc, c =>
    if c.atMarker || c.rest.isEmpty then none
    else do
      let (word, n, ending) ←
        if single then some (singleWord c.rest) else doubleWord (c.rest.length + 1) c.rest
      let acc := acc ++ word
      let c := c.skip n
      match ending with
      | .quote => return ⟨acc, c.skip, false⟩
      | .blank =>
        let (gap, c) ← Gap.read none (c.rest.length + 1) {} c
        readQuoted single fuel (acc ++ gap.text) c
      | .joined =>
        let c := c.skipBreak
        let (gap, c) ← Gap.read none (c.rest.length + 1) { broken := true } c
        readQuoted single fuel (acc ++ gap.text) c

/-- What becomes of the line breaks at the end of a block. -/
inductive Chomping where
  | strip
  | clip
  | keep
  deriving DecidableEq

/-- The header of a block: how it ends and how far it is indented. -/
def readHeader (c : Cursor) : Option (Chomping × Option Nat × Cursor) :=
  let chomping (c : Cursor) : Option Chomping × Cursor :=
    match c.peek with
    | some '+' => (some .keep, c.skip)
    | some '-' => (some .strip, c.skip)
    | _ => (none, c)
  let indentation (c : Cursor) : Option (Option Nat × Cursor) :=
    match c.peek with
    | some d =>
      if d == '0' then none
      else if d.isDigit then some (some (d.toNat - '0'.toNat), c.skip)
      else some (none, c)
    | none => some (none, c)
  do
    let (first, c) := chomping c
    let (indent, c) ← indentation c
    let (ending, c) := match first with
      | some ending => (some ending, c)
      | none => if indent.isSome then chomping c else (none, c)
    let c := c.skipWhile isSpace
    let c := if c.peek == some '#' then c.skipWhile (!isBreak ·) else c
    guard (endsLine c.rest)
    return (ending.getD .clip, indent, c.skipBreak)

/-- Empty lines of a block, up to its next text. Without an indentation so far, the widest of them
is found too. -/
def readEmptyLines (indent : Option Nat) : Nat → Nat → List Char → Cursor →
    Option (Nat × List Char × Cursor)
  | 0, widest, breaks, c => some (widest, breaks, c)
  | fuel + 1, widest, breaks, c =>
    let blanks := (c.rest.takeWhile (· == ' ')).length
    let c := c.skip (match indent with
      | some n => min blanks (n - c.column)
      | none => blanks)
    let widest := max widest c.column
    if c.peek == some '\t' && indent.all (fun n => c.column < n) then none
    else if (c.peek).any isBreak then
      readEmptyLines indent fuel widest (breaks ++ c.breakText) c.skipBreak
    else some (widest, breaks, c)

structure BlockRead where
  text : List Char := []
  /-- The line break behind the last line. -/
  pending : List Char := []
  /-- Empty lines behind it. -/
  empty : List Char
  /-- The last line began with a blank. -/
  blank : Bool := false
  cursor : Cursor

/-- The lines of a block. A folded block joins lines that begin with no blank. -/
def readLines (literal : Bool) (indent : Nat) : Nat → BlockRead → Option BlockRead
  | 0, _ => none
  | fuel + 1, b =>
    if b.cursor.column != indent || b.cursor.rest.isEmpty then some b
    else do
      let c := b.cursor
      let blank := (c.peek).any isSpace
      let join := !literal && b.pending == ['\n'] && !b.blank && !blank
      let head := if join then (if b.empty.isEmpty then [' '] else []) else b.pending
      let line := c.rest.takeWhile (!isBreak ·)
      let c := c.skip line.length
      let pending := c.breakText
      let (_, empty, c) ← readEmptyLines (some indent) (c.rest.length + 1) 0 [] c.skipBreak
      readLines literal indent fuel
        { text := b.text ++ head ++ b.empty ++ line, pending, empty, blank, cursor := c }

/-- A block after its indicator, inside a collection indented by `outer`. -/
def readBlock (literal : Bool) (outer : Int) (c : Cursor) : Option ScalarRead := do
  let (chomping, increment, c) ← readHeader c
  let known := increment.map fun n => (if outer < 0 then 0 else outer.toNat) + n
  let (widest, empty, c) ← readEmptyLines known (c.rest.length + 1) 0 [] c
  let indent := known.getD (max widest (max (outer + 1).toNat 1))
  let b ← readLines literal indent (c.rest.length + 1) { empty, cursor := c }
  let tail := match chomping with
    | .strip => []
    | .clip => b.pending
    | .keep => b.pending ++ b.empty
  return ⟨b.text ++ tail, b.cursor, false⟩

end Sluice.Yaml
