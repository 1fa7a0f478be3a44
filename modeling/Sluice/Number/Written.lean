import Sluice.Number.Shortest
import Sluice.Number.Integer

/-!
Numbers as decimal text: writing the shortest decimal in a chosen layout, and reading any decimal
with one correct rounding.
-/

namespace Sluice

structure NumberFormat where
  tie : TieBreak
  /-- Whole numbers keep a fractional zero. -/
  keepsPoint : Bool
  /-- Positions of the decimal point, counted from the first digit, that are written without an
  exponent; all of them when absent. -/
  positional : Option (Int × Int)

namespace NumberFormat

/-- Always positional, and a whole number has no point. -/
def plain : NumberFormat := ⟨.up, false, none⟩

/-- Positional from `1e-5` up to `1e16`, always with a point or an exponent. -/
def document : NumberFormat := ⟨.even, true, some (-4, 16)⟩

def zeros (n : Int) : List Char :=
  List.replicate n.toNat '0'

/-- Digits around a point that stands `point` digits after their start. -/
def layPositional (keepsPoint : Bool) (digits : List Char) (point : Int) : List Char :=
  if point ≤ 0 then '0' :: '.' :: zeros (-point) ++ digits
  else if (digits.length : Int) ≤ point then
    digits ++ zeros (point - digits.length) ++ if keepsPoint then ['.', '0'] else []
  else digits.take point.toNat ++ '.' :: digits.drop point.toNat

def layExponent (digits : List Char) (point : Int) : List Char :=
  let e := point - 1
  let tail := 'e' :: (if e < 0 then '-' else '+') :: Nat.toDigits 10 e.natAbs
  match digits with
  | [] => tail
  | [d] => d :: tail
  | d :: rest => d :: '.' :: rest ++ tail

def write (format : NumberFormat) (x : Binary64) : String :=
  if x.isNaN then "NaN"
  else if x.isInfinite then if x.negative then "-inf" else "inf"
  else
    let s := x.shortest format.tie
    let digits := Nat.toDigits 10 s.digits
    let point := (digits.length : Int) + s.exponent
    let positional := x.isZero || match format.positional with
      | none => true
      | some (low, high) => low ≤ point && point ≤ high
    let body :=
      if positional then layPositional format.keepsPoint digits point else layExponent digits point
    String.ofList (if x.negative then '-' :: body else body)

end NumberFormat

inductive NumberFault where
  | empty
  | invalid
  deriving DecidableEq, Repr

def NumberFault.message : NumberFault → String
  | .empty => "cannot parse float from empty string"
  | .invalid => "invalid float literal"

namespace Binary64

/-- The number nearest to `digits * 10 ^ exponent`. Past four hundred places on either side the
answer is known without the power. -/
def ofDecimal (negative : Bool) (digits : Nat) (exponent : Int) : Binary64 :=
  if digits = 0 then ofMagnitude negative 0
  else
    let point := ((Nat.toDigits 10 digits).length : Int) + exponent
    if point > 400 then infinity negative
    else if point < -400 then ofMagnitude negative 0
    else if exponent ≥ 0 then ofRatio negative (digits * Nat.pow 10 exponent.toNat) 1
    else ofRatio negative digits (Nat.pow 10 (-exponent).toNat)

def natOfDigits (cs : List Char) : Nat :=
  cs.foldl (fun acc c => 10 * acc + (c.toNat - '0'.toNat)) 0

def readExponent (cs : List Char) : Option Int :=
  let (sign, digits) : Int × List Char := match cs with
    | '-' :: rest => (-1, rest)
    | '+' :: rest => (1, rest)
    | _ => (1, cs)
  if digits.isEmpty || !digits.all Char.isDigit then none else some (sign * natOfDigits digits)

def readUnsigned (negative : Bool) (cs : List Char) : Option Binary64 := do
  let whole := cs.takeWhile Char.isDigit
  let rest := cs.dropWhile Char.isDigit
  let (fraction, rest) := match rest with
    | '.' :: rest => (rest.takeWhile Char.isDigit, rest.dropWhile Char.isDigit)
    | _ => ([], rest)
  guard !(whole.isEmpty && fraction.isEmpty)
  let exponent ← match rest with
    | [] => some 0
    | c :: rest => if c = 'e' ∨ c = 'E' then readExponent rest else none
  return ofDecimal negative (natOfDigits (whole ++ fraction)) (exponent - fraction.length)

/-- The words for the numbers that have no digits, in any case. -/
def readWord (negative : Bool) (cs : List Char) : Option Binary64 :=
  match String.ofList (cs.map Char.toLower) with
  | "inf" | "infinity" => some (infinity negative)
  | "nan" => some (if negative then nan.neg else nan)
  | _ => none

def readText (text : String) : Except NumberFault Binary64 :=
  let (negative, body) : Bool × List Char := match text.toList with
    | '-' :: rest => (true, rest)
    | '+' :: rest => (false, rest)
    | cs => (false, cs)
  if text.isEmpty then .error .empty
  else match (readWord negative body).orElse fun _ => readUnsigned negative body with
    | some x => .ok x
    | none => .error .invalid

end Binary64

end Sluice
