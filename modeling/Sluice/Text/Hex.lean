/-!
Bytes as lower-case hexadecimal text.
-/

namespace Sluice.Text

def hexDigit (n : Nat) : Char :=
  Nat.digitChar (n % 16)

/-- Two digits a byte, high half first. -/
def hexOfByte (b : UInt8) : List Char :=
  [hexDigit (b.toNat / 16), hexDigit b.toNat]

def hexOfBytes (bytes : List UInt8) : String :=
  String.ofList (bytes.flatMap hexOfByte)

def hexValue? (c : Char) : Option Nat :=
  if '0' ≤ c && c ≤ '9' then some (c.toNat - '0'.toNat)
  else if 'a' ≤ c && c ≤ 'f' then some (c.toNat - 'a'.toNat + 10)
  else if 'A' ≤ c && c ≤ 'F' then some (c.toNat - 'A'.toNat + 10)
  else none

/-- Reads pairs of digits; refuses an odd digit out. -/
def bytesOfHex? : List Char → Option (List UInt8)
  | [] => some []
  | [_] => none
  | h :: l :: rest => do
    let hi ← hexValue? h
    let lo ← hexValue? l
    let tail ← bytesOfHex? rest
    return UInt8.ofNat (16 * hi + lo) :: tail

def natOfHex? (cs : List Char) : Option Nat :=
  if cs.isEmpty then none
  else cs.foldl (fun acc c => do return 16 * (← acc) + (← hexValue? c)) (some 0)

/-- The lowest `width` hexadecimal digits of a number. -/
def hexOfNat (width n : Nat) : String :=
  String.ofList ((List.range width).map fun k => hexDigit (n / Nat.pow 16 (width - 1 - k)))

end Sluice.Text
