import Sluice.Error

/-!
Rows: values aligned with the fields of a schema.
-/

namespace Sluice

structure Row where
  schema : Schema
  values : List Value
  aligned : schema.fields.length = values.length
  deriving DecidableEq

namespace Row

def ofValues (schema : Schema) (values : List Value) : Except Error Row :=
  if h : schema.fields.length = values.length then .ok ⟨schema, values, h⟩
  else .error (.arity values.length schema.fields.length)

def length (r : Row) : Nat := r.values.length

def value? (r : Row) (i : Nat) : Option Value := r.values[i]?

def get? (r : Row) (name : String) : Option Value := do
  r.value? (← r.schema.indexOf? name)

/-- An absent value comes before any present one. -/
def compareAt (a b : Row) (i : Nat) : Ordering :=
  match a.value? i, b.value? i with
  | some x, some y => x.compare y
  | some _, none => .gt
  | none, some _ => .lt
  | none, none => .eq

/-- By the first position in the list where the rows differ. -/
def compare (a b : Row) : List Nat → Ordering
  | [] => .eq
  | i :: rest => (compareAt a b i).then (compare a b rest)

def same (a b : Row) : Bool :=
  a.schema == b.schema && a.values.length == b.values.length &&
    (a.values.zip b.values).all fun (x, y) => x.same y

end Row

end Sluice
