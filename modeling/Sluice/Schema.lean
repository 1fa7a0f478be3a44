import Sluice.Value.Basic

/-!
Row schemas: the named and typed fields of a row, in order.
-/

namespace Sluice

structure Field where
  name : String
  type : DataType
  /-- A display mask. -/
  format : Option String := none
  length : Option UInt32 := none
  precision : Option UInt32 := none
  deriving DecidableEq, Repr, Inhabited

def Field.agrees (a b : Field) : Bool :=
  a.name == b.name && a.type == b.type

structure Schema where
  fields : List Field
  deriving DecidableEq, Repr, Inhabited

namespace Schema

def length (s : Schema) : Nat := s.fields.length

def names (s : Schema) : List String :=
  s.fields.map (·.name)

def indexOf? (s : Schema) (name : String) : Option Nat :=
  s.fields.findIdx? (·.name == name)

/-- Both schemas have a field at each position, and the two agree there. -/
def compatibleAt (a b : Schema) (positions : List Nat) : Bool :=
  positions.all fun i =>
    match a.fields[i]?, b.fields[i]? with
    | some x, some y => x.agrees y
    | _, _ => false

def sameLayout (a b : Schema) : Bool :=
  a.length == b.length && (a.fields.zip b.fields).all fun (x, y) => x.agrees y

end Schema

end Sluice
