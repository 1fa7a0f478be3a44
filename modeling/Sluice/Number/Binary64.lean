/-!
Numbers in the 64-bit binary interchange format. A number is its bits; what it stands for is read
off them exactly (sign, significand, power of two), and every operation is the exact result
rounded once to the nearest number, ties to the even significand.
-/

namespace Sluice

structure Binary64 where
  bits : UInt64
  deriving DecidableEq, Repr, Inhabited

namespace Binary64

def signBit : Nat := 0x8000000000000000

/-- The weight of the lowest bit of the exponent, and of the leading bit of a significand. -/
def leadingBit : Nat := 0x10000000000000

def negative (x : Binary64) : Bool :=
  signBit ≤ x.bits.toNat

def magnitude (x : Binary64) : Nat :=
  x.bits.toNat % signBit

def exponentField (x : Binary64) : Nat :=
  x.magnitude / leadingBit

def fraction (x : Binary64) : Nat :=
  x.magnitude % leadingBit

def infinityMagnitude : Nat := 2047 * leadingBit

def isNaN (x : Binary64) : Bool :=
  infinityMagnitude < x.magnitude

def isInfinite (x : Binary64) : Bool :=
  x.magnitude == infinityMagnitude

def isFinite (x : Binary64) : Bool :=
  x.magnitude < infinityMagnitude

def isZero (x : Binary64) : Bool :=
  x.magnitude == 0

/-- A finite magnitude is `significand * 2 ^ power`. -/
def significand (x : Binary64) : Nat :=
  if x.exponentField = 0 then x.fraction else x.fraction + leadingBit

def power (x : Binary64) : Int :=
  max x.exponentField 1 - 1075

def ofMagnitude (negative : Bool) (magnitude : Nat) : Binary64 :=
  ⟨UInt64.ofNat (magnitude + if negative then signBit else 0)⟩

def zero : Binary64 := ⟨0⟩

def one : Binary64 := ofMagnitude false (1023 * leadingBit)

def nan : Binary64 := ofMagnitude false (infinityMagnitude + leadingBit / 2)

def infinity (negative : Bool) : Binary64 :=
  ofMagnitude negative infinityMagnitude

def neg (x : Binary64) : Binary64 :=
  ofMagnitude (!x.negative) x.magnitude

/-- `num / den` as a fraction of naturals after dividing by `2 ^ q`. -/
def scaled (num den : Nat) (q : Int) : Nat × Nat :=
  if q ≥ 0 then (num, den * Nat.pow 2 q.toNat) else (num * Nat.pow 2 (-q).toNat, den)

/-- The quotient rounded to the nearest natural, a half to the even one. -/
def roundEven (num den : Nat) : Nat :=
  let q := num / den
  let r := num % den
  if 2 * r > den || (2 * r == den && q % 2 == 1) then q + 1 else q

/-- The largest `e` with `2 ^ e ≤ num / den`, for positive operands. -/
def floorLog2 (num den : Nat) : Int :=
  let e : Int := (num.log2 : Int) - (den.log2 : Int)
  let (n, d) := scaled num den e
  if n < d then e - 1 else e

/-- The bits of `m * 2 ^ q`, where `m` is at most `2 ^ 53` and below `2 ^ 52` only at the lowest
power. Beyond the finite numbers lies infinity. -/
def packMagnitude (m : Nat) (q : Int) : Nat :=
  if m < leadingBit then m
  else min ((q + 1075).toNat * leadingBit + (m - leadingBit)) infinityMagnitude

/-- The number nearest to `num / den`. -/
def ofRatio (negative : Bool) (num den : Nat) : Binary64 :=
  if num = 0 then ofMagnitude negative 0
  else
    let q := max (floorLog2 num den - 52) (-1074)
    let (n, d) := scaled num den q
    ofMagnitude negative (packMagnitude (roundEven n d) q)

def ofNat (n : Nat) : Binary64 :=
  ofRatio false n 1

def ofInt (n : Int) : Binary64 :=
  ofRatio (n < 0) n.natAbs 1

def ratio (x : Binary64) : Nat × Nat :=
  if x.power ≥ 0 then (x.significand * Nat.pow 2 x.power.toNat, 1)
  else (x.significand, Nat.pow 2 (-x.power).toNat)

def mul (x y : Binary64) : Binary64 :=
  let s := x.negative != y.negative
  if x.isNaN || y.isNaN then nan
  else if x.isInfinite || y.isInfinite then
    if x.isZero || y.isZero then nan else infinity s
  else
    let (a, b) := x.ratio
    let (c, d) := y.ratio
    ofRatio s (a * c) (b * d)

def div (x y : Binary64) : Binary64 :=
  let s := x.negative != y.negative
  if x.isNaN || y.isNaN then nan
  else if x.isInfinite then
    if y.isInfinite then nan else infinity s
  else if y.isInfinite then ofMagnitude s 0
  else if y.isZero then
    if x.isZero then nan else infinity s
  else
    let (a, b) := x.ratio
    let (c, d) := y.ratio
    ofRatio s (a * d) (b * c)

/-- Repeated squaring, each product rounded: `acc * base ^ n`. -/
def powerLoop : Nat → Binary64 → Binary64 → Nat → Binary64
  | 0, acc, _, _ => acc
  | fuel + 1, acc, base, n =>
    let acc := if n % 2 = 1 then mul acc base else acc
    if n / 2 = 0 then acc else powerLoop fuel acc (mul base base) (n / 2)

/-- An integer power by repeated squaring; a negative exponent inverts the result at the end. -/
def pow (base : Binary64) (n : Int) : Binary64 :=
  let r := powerLoop (n.natAbs + 1) one base n.natAbs
  if n < 0 then div one r else r

/-- The place of a number among all others, except for NaN. Both zeros share one place. -/
def key (x : Binary64) : Int :=
  if x.negative then -(x.magnitude : Int) else x.magnitude

def partialCompare (x y : Binary64) : Option Ordering :=
  if x.isNaN || y.isNaN then none else some (compare x.key y.key)

/-- The order of numbers with NaN above all and equal to itself. -/
def totalCompare (x y : Binary64) : Ordering :=
  match x.isNaN, y.isNaN with
  | true, true => .eq
  | true, false => .gt
  | false, true => .lt
  | false, false => compare x.key y.key

/-- The nearest integer to a finite number, a half away from zero. -/
def roundAway (x : Binary64) : Int :=
  let (n, d) := x.ratio
  let r := (2 * n + d) / (2 * d)
  if x.negative then -(r : Int) else r

end Binary64

end Sluice
