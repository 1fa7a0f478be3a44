import Sluice.Number.Written
import Sluice.Text.Hex

/-!
Structured values: null, truth values, whole and fractional numbers, texts, lists and named
entries, with their compact and their indented text. Whole numbers and fractional ones stay
apart: `2` and `2.0` are two values.
-/

namespace Sluice

inductive Json where
  | null
  | bool (b : Bool)
  | int (n : Int)
  | float (x : Binary64)
  | str (s : String)
  | arr (items : List Json)
  | obj (entries : List (String × Json))
  deriving Inhabited

namespace Json

def escapeChar (c : Char) : List Char :=
  match c with
  | '"' => ['\\', '"']
  | '\\' => ['\\', '\\']
  | '\n' => ['\\', 'n']
  | '\r' => ['\\', 'r']
  | '\t' => ['\\', 't']
  | '\x08' => ['\\', 'b']
  | '\x0c' => ['\\', 'f']
  | c =>
    if c.toNat < 0x20 then
      ['\\', 'u', '0', '0', Text.hexDigit (c.toNat / 16), Text.hexDigit c.toNat]
    else [c]

def quote (s : String) : String :=
  String.ofList ('"' :: s.toList.flatMap escapeChar ++ ['"'])

/-- Numbers without digits have no text of their own. -/
def floatText (x : Binary64) : String :=
  if x.isFinite then NumberFormat.document.write x else "null"

mutual

def compact : Json → String
  | .null => "null"
  | .bool b => if b then "true" else "false"
  | .int n => Integer.format n
  | .float x => floatText x
  | .str s => quote s
  | .arr [] => "[]"
  | .arr (item :: rest) => "[" ++ item.compact ++ compactItems rest ++ "]"
  | .obj [] => "\x7b\x7d"
  | .obj ((name, item) :: rest) =>
    "\x7b" ++ quote name ++ ":" ++ item.compact ++ compactEntries rest ++ "\x7d"

def compactItems : List Json → String
  | [] => ""
  | item :: rest => "," ++ item.compact ++ compactItems rest

def compactEntries : List (String × Json) → String
  | [] => ""
  | (name, item) :: rest => "," ++ quote name ++ ":" ++ item.compact ++ compactEntries rest

end

def newline (depth : Nat) : String :=
  String.ofList ('\n' :: List.replicate (2 * depth) ' ')

mutual

/-- One item a line, two blanks a level. -/
def pretty (depth : Nat) : Json → String
  | .arr (item :: rest) =>
    "[" ++ newline (depth + 1) ++ item.pretty (depth + 1) ++ prettyItems (depth + 1) rest ++
      newline depth ++ "]"
  | .obj ((name, item) :: rest) =>
    "\x7b" ++ newline (depth + 1) ++ quote name ++ ": " ++ item.pretty (depth + 1) ++
      prettyEntries (depth + 1) rest ++ newline depth ++ "\x7d"
  | .null => "null"
  | .bool b => if b then "true" else "false"
  | .int n => Integer.format n
  | .float x => floatText x
  | .str s => quote s
  | .arr [] => "[]"
  | .obj [] => "\x7b\x7d"

def prettyItems (depth : Nat) : List Json → String
  | [] => ""
  | item :: rest => "," ++ newline depth ++ item.pretty depth ++ prettyItems depth rest

def prettyEntries (depth : Nat) : List (String × Json) → String
  | [] => ""
  | (name, item) :: rest =>
    "," ++ newline depth ++ quote name ++ ": " ++ item.pretty depth ++ prettyEntries depth rest

end

def isNull : Json → Bool
  | .null => true
  | _ => false

def ofNat (n : Nat) : Json := .int n

def get? (j : Json) (name : String) : Option Json :=
  match j with
  | .obj entries => (entries.find? (·.1 == name)).map (·.2)
  | _ => none

/-- Puts an entry in its place by name, in place of one that has the name already. -/
def insertEntry (name : String) (item : Json) : List (String × Json) → List (String × Json)
  | [] => [(name, item)]
  | (other, old) :: rest =>
    if name < other then (name, item) :: (other, old) :: rest
    else if name = other then (name, item) :: rest
    else (other, old) :: insertEntry name item rest

/-- Named entries in the order of their names; of two with one name the later counts. -/
def ofEntries (entries : List (String × Json)) : Json :=
  .obj (entries.foldl (fun acc e => insertEntry e.1 e.2 acc) [])

end Json

end Sluice
