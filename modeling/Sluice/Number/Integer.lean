/-!
Integers written in digits, read into a range. Reading stops at the first character that is no
digit, or at the first digit that leaves the range, whichever comes first.
-/

namespace Sluice

inductive IntegerFault where
  | empty
  | invalidDigit
  | tooLarge
  | tooSmall
  deriving DecidableEq, Repr

def IntegerFault.message : IntegerFault → String
  | .empty => "cannot parse integer from empty string"
  | .invalidDigit => "invalid digit found in string"
  | .tooLarge => "number too large to fit in target type"
  | .tooSmall => "number too small to fit in target type"

namespace Integer

def digit? (radix : Nat) (c : Char) : Option Nat :=
  let n :=
    if '0' ≤ c && c ≤ '9' then some (c.toNat - '0'.toNat)
    else if 'a' ≤ c && c ≤ 'z' then some (c.toNat - 'a'.toNat + 10)
    else if 'A' ≤ c && c ≤ 'Z' then some (c.toNat - 'A'.toNat + 10)
    else none
  n.filter (· < radix)

def readDigits (radix limit : Nat) (beyond : IntegerFault) : Nat → List Char → Except IntegerFault Nat
  | acc, [] => .ok acc
  | acc, c :: rest =>
    match digit? radix c with
    | none => .error .invalidDigit
    | some d =>
      if radix * acc + d ≤ limit then readDigits radix limit beyond (radix * acc + d) rest
      else .error beyond

/-- An optional sign and digits, between `lo` and `hi`. A minus sign counts as a sign only where
`lo` is negative. -/
def readChars (radix : Nat) (lo hi : Int) : List Char → Except IntegerFault Int
  | [] => .error .empty
  | ['+'] => .error .invalidDigit
  | ['-'] => .error .invalidDigit
  | '+' :: rest => do return Int.ofNat (← readDigits radix hi.toNat .tooLarge 0 rest)
  | c :: rest =>
    if c = '-' ∧ lo < 0 then do return -Int.ofNat (← readDigits radix (-lo).toNat .tooSmall 0 rest)
    else do return Int.ofNat (← readDigits radix hi.toNat .tooLarge 0 (c :: rest))

def read (lo hi : Int) (text : String) : Except IntegerFault Int :=
  readChars 10 lo hi text.toList

def format (n : Int) : String :=
  match n with
  | .ofNat k => k.repr
  | .negSucc k => "-" ++ (k + 1).repr

def size128 : Nat := 0x100000000000000000000000000000000

def fitsInt64 (n : Int) : Prop := Int64.minValue.toInt ≤ n ∧ n ≤ Int64.maxValue.toInt

instance (n : Int) : Decidable (fitsInt64 n) := inferInstanceAs (Decidable (_ ∧ _))

end Integer

def Int64.readText (text : String) : Except IntegerFault Int64 := do
  return Int64.ofInt (← Integer.read Int64.minValue.toInt Int64.maxValue.toInt text)

/-- An unsigned 64-bit integer, the range of counts and capacities. -/
def readCount (text : String) : Except IntegerFault Nat := do
  return (← Integer.read 0 (UInt64.size - 1) text).toNat

end Sluice
