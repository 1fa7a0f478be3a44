import Sluice.Number.Binary64

/-!
The shortest decimal that reads back as a given number: of the decimals with the fewest digits
inside the interval that rounds to the number, the one nearest to it.
-/

namespace Sluice

/-- `digits * 10 ^ exponent`. -/
structure ShortDecimal where
  digits : Nat
  exponent : Int
  deriving DecidableEq, Repr

inductive TieBreak where
  | up
  | even
  deriving DecidableEq, Repr

namespace Shortest

/-- The interval of reals that round to a positive finite number, over a common denominator:
lower end, the number, upper end, denominator. The ends belong to it when the significand is
even. -/
structure Interval where
  low : Nat
  mid : Nat
  high : Nat
  den : Nat
  closed : Bool

/-- Below a power of two the numbers are twice as dense. -/
def Interval.of (x : Binary64) : Interval :=
  let m := x.significand
  let gap := if x.fraction = 0 ∧ 1 < x.exponentField then 1 else 2
  let (num, den) := if x.power ≥ 0 then (Nat.pow 2 x.power.toNat, 4) else (1, 4 * Nat.pow 2 (-x.power).toNat)
  ⟨(4 * m - gap) * num, 4 * m * num, (4 * m + 2) * num, den, m % 2 = 0⟩

def Interval.holds (i : Interval) (d : Nat) (p : Int) : Bool :=
  let (v, den) :=
    if p ≥ 0 then (d * Nat.pow 10 p.toNat * i.den, 1) else (d * i.den, Nat.pow 10 (-p).toNat)
  if i.closed then i.low * den ≤ v && v ≤ i.high * den
  else i.low * den < v && v < i.high * den

/-- The two neighbours of the number on the grid of multiples of `10 ^ p`, the nearer first. -/
def neighbours (tie : TieBreak) (i : Interval) (p : Int) : List Nat :=
  let (n, d) :=
    if p ≥ 0 then (i.mid, i.den * Nat.pow 10 p.toNat) else (i.mid * Nat.pow 10 (-p).toNat, i.den)
  let q := n / d
  let r := n % d
  let upFirst := 2 * r > d || (2 * r == d && (tie = .up || q % 2 == 1))
  if upFirst then [q + 1, q] else [q, q + 1]

/-- From the coarsest grid to finer ones. -/
def search (tie : TieBreak) (i : Interval) : Nat → Int → ShortDecimal
  | 0, p => ⟨((neighbours tie i p).head?).getD 0, p⟩
  | fuel + 1, p =>
    match (neighbours tie i p).find? fun d => 0 < d && i.holds d p with
    | some d => ⟨d, p⟩
    | none => search tie i fuel (p - 1)

/-- An upper bound for the decimal exponent of `num / den`. -/
def exponentBound (x : Binary64) : Int :=
  ((x.power + (x.significand.log2 : Int) + 1) * 1233) / 4096 + 1

end Shortest

def ShortDecimal.normalize : Nat → ShortDecimal → ShortDecimal
  | 0, s => s
  | fuel + 1, s =>
    if s.digits ≠ 0 ∧ s.digits % 10 = 0 then normalize fuel ⟨s.digits / 10, s.exponent + 1⟩ else s

def Binary64.shortest (tie : TieBreak) (x : Binary64) : ShortDecimal :=
  if x.isZero then ⟨0, 0⟩
  else (Shortest.search tie (.of x) 20 (Shortest.exponentBound x)).normalize 20

end Sluice
