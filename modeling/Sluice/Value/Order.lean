import Sluice.Value.Basic

/-!
The order of values: nulls first, then by type, then inside a type. It is what rows are sorted
and filter conditions decided by.
-/

namespace Sluice.Value

def rank : Value → Nat
  | .null => 0
  | .boolean _ => 1
  | .integer _ => 2
  | .number _ => 3
  | .bigNumber _ => 4
  | .date _ => 5
  | .string _ => 6
  | .binary _ => 7

/-- Lexicographic, a proper beginning before the longer text. -/
def compareLists [Ord α] : List α → List α → Ordering
  | [], [] => .eq
  | [], _ :: _ => .lt
  | _ :: _, [] => .gt
  | a :: as, b :: bs => (Ord.compare a b).then (compareLists as bs)

def compareStrings (a b : String) : Ordering :=
  compareLists (a.toList.map Char.toNat) (b.toList.map Char.toNat)

def compare : Value → Value → Ordering
  | .null, .null => .eq
  | .null, _ => .lt
  | _, .null => .gt
  | .string a, .string b => compareStrings a b
  | .integer a, .integer b => Ord.compare a.toInt b.toInt
  | .number a, .number b => a.totalCompare b
  | .bigNumber a, .bigNumber b => a.compare b
  | .date a, .date b => Ord.compare a.toInt b.toInt
  | .boolean a, .boolean b => Ord.compare a.toNat b.toNat
  | .binary a, .binary b => compareLists (a.map UInt8.toNat) (b.map UInt8.toNat)
  | a, b => Ord.compare a.rank b.rank

/-- Equality of content, with numbers by value: NaN differs from itself and the zeros agree. -/
def same : Value → Value → Bool
  | .number a, .number b => a.partialCompare b == some .eq
  | a, b => a == b

end Sluice.Value
