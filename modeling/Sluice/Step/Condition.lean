import Sluice.Value.Convert

/-!
Conditions on one field: `field OP literal`, the literal read as a value of the field's own type.
-/

namespace Sluice

inductive Comparison where
  | eq
  | ne
  | lt
  | le
  | gt
  | ge
  deriving DecidableEq, Repr

namespace Comparison

def text : Comparison → String
  | .eq => "=="
  | .ne => "!="
  | .lt => "<"
  | .le => "<="
  | .gt => ">"
  | .ge => ">="

def holds : Comparison → Ordering → Bool
  | .eq, o => o == .eq
  | .ne, o => o != .eq
  | .lt, o => o == .lt
  | .le, o => o != .gt
  | .gt, o => o == .gt
  | .ge, o => o != .lt

/-- Two-character operators come first, so that none of them is taken for the shorter one. -/
def all : List Comparison := [.eq, .ne, .le, .ge, .lt, .gt]

end Comparison

structure Condition where
  field : String
  op : Comparison
  literal : String
  deriving DecidableEq, Repr

namespace Condition

def dropWord : List Char → List Char → Option (List Char)
  | [], cs => some cs
  | _ :: _, [] => none
  | w :: ws, c :: cs => if w = c then dropWord ws cs else none

def cutAt (word : List Char) : List Char → Option (List Char × List Char)
  | [] => if word.isEmpty then some ([], []) else none
  | c :: cs =>
    match dropWord word (c :: cs) with
    | some rest => some ([], rest)
    | none => (cutAt word cs).map fun (before, rest) => (c :: before, rest)

/-- The parts around the first operator of the list that occurs; they are trimmed, and the field
must not be empty. -/
def parseWith (cs : List Char) : List Comparison → Option Condition
  | [] => none
  | op :: ops =>
    match cutAt op.text.toList cs with
    | none => parseWith cs ops
    | some (before, rest) =>
      let field := Text.trimChars before
      if field.isEmpty then none
      else some ⟨String.ofList field, op, String.ofList (Text.trimChars rest)⟩

def parse (text : String) : Option Condition :=
  parseWith text.toList Comparison.all

/-- Null meets no condition. -/
def test (c : Condition) (v : Value) : Except ConversionError Bool :=
  match v.type? with
  | none => .ok false
  | some t => ((Value.string c.literal).convert t).map fun literal => c.op.holds (v.compare literal)

end Condition

end Sluice
