import Sluice.Number.Written

/-!
Fixed-point decimals: a 128-bit integer and the number of its digits that follow the point.
-/

namespace Sluice

def Decimal.min : Int := -(Integer.size128 / 2 : Nat)
def Decimal.max : Int := (Integer.size128 / 2 - 1 : Nat)

/-- `unscaled * 10 ^ -scale`. -/
structure Decimal where
  unscaled : Int
  scale : UInt32
  inRange : Decimal.min ≤ unscaled ∧ unscaled ≤ Decimal.max
  deriving DecidableEq

namespace Decimal

instance : Repr Decimal where
  reprPrec d _ := repr d.unscaled ++ "e-" ++ repr d.scale

def ofInt? (unscaled : Int) (scale : UInt32) : Option Decimal :=
  if h : Decimal.min ≤ unscaled ∧ unscaled ≤ Decimal.max then some ⟨unscaled, scale, h⟩ else none

theorem inRange_of_int64 (n : Int64) : Decimal.min ≤ n.toInt ∧ n.toInt ≤ Decimal.max := by
  have h1 := n.le_toInt
  have h2 := n.toInt_lt
  simp only [Decimal.min, Decimal.max, Integer.size128]
  omega

def ofInt64 (n : Int64) : Decimal :=
  ⟨n.toInt, 0, inRange_of_int64 n⟩

/-- `10 ^ n` where it is a 128-bit integer. -/
def powerOfTen? (n : Nat) : Option Int :=
  if n ≤ 38 then some (Nat.pow 10 n : Nat) else none

def checkedMul? (a b : Int) : Option Int :=
  let p := a * b
  if Decimal.min ≤ p ∧ p ≤ Decimal.max then some p else none

/-- A 32-bit count taken as a signed 32-bit integer. -/
def signedScale (scale : UInt32) : Int :=
  Int.bmod scale.toNat UInt32.size

/-- Numerator and power of ten each rounded, then divided. -/
def toBinary64 (d : Decimal) : Binary64 :=
  (Binary64.ofInt d.unscaled).div ((Binary64.ofNat 10).pow (signedScale d.scale))

/-- Both sides brought to the larger scale; where that leaves 128 bits, the order of the nearest
numbers. -/
def compare (x y : Decimal) : Ordering :=
  let s := Nat.max x.scale.toNat y.scale.toNat
  let left := do checkedMul? x.unscaled (← powerOfTen? (s - x.scale.toNat))
  let right := do checkedMul? y.unscaled (← powerOfTen? (s - y.scale.toNat))
  match left, right with
  | some l, some r => Ord.compare l r
  | _, _ => (x.toBinary64.partialCompare y.toBinary64).getD .eq

def readDigits : Int → List Char → Option Int
  | acc, [] => some acc
  | acc, c :: rest =>
    let acc := 10 * acc + ((c.toNat - '0'.toNat : Nat) : Int)
    if acc ≤ Decimal.max then readDigits acc rest else none

def splitPoint (cs : List Char) : List Char × List Char :=
  (cs.takeWhile (· ≠ '.'), (cs.dropWhile (· ≠ '.')).drop 1)

def readUnsigned (negative : Bool) (cs : List Char) : Option Decimal :=
  let (whole, fraction) := splitPoint cs
  if (whole ++ fraction).isEmpty || !(whole ++ fraction).all Char.isDigit then none
  else do
    let n ← readDigits 0 (whole ++ fraction)
    guard (fraction.length < UInt32.size)
    ofInt? (if negative then -n else n) (UInt32.ofNat fraction.length)

/-- An optional sign, digits, and at most one point among them. -/
def readChars : List Char → Option Decimal
  | '-' :: rest => readUnsigned true rest
  | '+' :: rest => readUnsigned false rest
  | cs => readUnsigned false cs

def read (text : String) : Option Decimal :=
  readChars text.toList

/-- The digits of the magnitude, with zeros in front until one stands before the point. -/
def paddedDigits (d : Decimal) : List Char :=
  let digits := Nat.toDigits 10 d.unscaled.natAbs
  List.replicate (d.scale.toNat + 1 - digits.length) '0' ++ digits

def formatChars (d : Decimal) : List Char :=
  let sign := if d.unscaled < 0 then ['-'] else []
  if d.scale = 0 then sign ++ Nat.toDigits 10 d.unscaled.natAbs
  else
    let digits := d.paddedDigits
    let point := digits.length - d.scale.toNat
    sign ++ digits.take point ++ '.' :: digits.drop point

def format (d : Decimal) : String :=
  String.ofList d.formatChars

end Decimal

end Sluice
