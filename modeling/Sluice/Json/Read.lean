import Sluice.Json.Basic

/-!
Reading structured values from their text. A text is first read as it is written, with whole
numbers of any size and entries in their order; settling then keeps the last of several entries
with one name, sorts them, and turns whole numbers beyond 64 bits into fractional ones.
-/

namespace Sluice.Json

def isSpace (c : Char) : Bool :=
  c == ' ' || c == '\n' || c == '\r' || c == '\t'

def skipSpace (cs : List Char) : List Char :=
  cs.dropWhile isSpace

def readUnit : List Char → Option (Nat × List Char)
  | a :: b :: c :: d :: rest => do return (← Text.natOfHex? [a, b, c, d], rest)
  | _ => none

def isHighSurrogate (n : Nat) : Bool := 0xD800 ≤ n && n < 0xDC00
def isLowSurrogate (n : Nat) : Bool := 0xDC00 ≤ n && n < 0xE000

/-- A character named by its code unit, or by the two units of a pair. -/
def readUnicode (cs : List Char) : Option (Char × List Char) := do
  let (n, rest) ← readUnit cs
  if isLowSurrogate n then none
  else if isHighSurrogate n then
    match rest with
    | '\\' :: 'u' :: rest =>
      let (m, rest) ← readUnit rest
      if isLowSurrogate m then
        return (Char.ofNat (0x10000 + (n - 0xD800) * 0x400 + (m - 0xDC00)), rest)
      else none
    | _ => none
  else return (Char.ofNat n, rest)

def readEscape : List Char → Option (Char × List Char)
  | '"' :: rest => some ('"', rest)
  | '\\' :: rest => some ('\\', rest)
  | '/' :: rest => some ('/', rest)
  | 'b' :: rest => some ('\x08', rest)
  | 'f' :: rest => some ('\x0c', rest)
  | 'n' :: rest => some ('\n', rest)
  | 'r' :: rest => some ('\r', rest)
  | 't' :: rest => some ('\t', rest)
  | 'u' :: rest => readUnicode rest
  | _ => none

/-- The rest of a quoted text after its opening quote; `acc` holds what was read, backwards. -/
def readQuoted : Nat → List Char → List Char → Option (String × List Char)
  | 0, _, _ => none
  | _ + 1, _, [] => none
  | fuel + 1, acc, c :: rest =>
    if c = '"' then some (String.ofList acc.reverse, rest)
    else if c = '\\' then do
      let (d, rest) ← readEscape rest
      readQuoted fuel (d :: acc) rest
    else if c.toNat < 0x20 then none
    else readQuoted fuel (c :: acc) rest

def significandLimit : Nat := UInt64.size - 1

/-- Digits from the left while they fit, and how many are left over. -/
def keepDigits : Nat → List Char → Nat × List Char
  | acc, [] => (acc, [])
  | acc, c :: rest =>
    let next := 10 * acc + (c.toNat - '0'.toNat)
    if next ≤ significandLimit then keepDigits next rest else (acc, c :: rest)

/-- Scales by a power of ten in steps of at most 308, each step rounded. Too large a number has
no value. -/
def scale : Nat → Binary64 → Int → Option Binary64
  | 0, _, _ => none
  | fuel + 1, x, e =>
    if e.natAbs ≤ 308 then
      let p := Binary64.ofDecimal false 1 e.natAbs
      if e ≥ 0 then
        let y := x.mul p
        if y.isInfinite then none else some y
      else some (x.div p)
    else if x.isZero then some x
    else if e ≥ 0 then none
    else scale fuel (x.div (Binary64.ofDecimal false 1 308)) (e + 308)

def floatOfParts (negative : Bool) (significand : Nat) (exponent : Int) : Option Json := do
  let x ← scale 8 (Binary64.ofNat significand) exponent
  return .float (if negative then x.neg else x)

/-- A whole number; zero with a minus sign is fractional. -/
def wholeNumber (negative : Bool) (n : Nat) : Json :=
  if !negative then .int n
  else if n = 0 then .float Binary64.zero.neg
  else .int (-n)

def readExponent (cs : List Char) : Option (Int × List Char) :=
  let (negative, cs) : Bool × List Char := match cs with
    | '-' :: rest => (true, rest)
    | '+' :: rest => (false, rest)
    | _ => (false, cs)
  let digits := cs.takeWhile Char.isDigit
  if digits.isEmpty then none
  else
    let n : Int := Binary64.natOfDigits digits
    some (if negative then -n else n, cs.dropWhile Char.isDigit)

def readMagnitude (negative : Bool) (cs : List Char) : Option (Json × List Char) := do
  let whole := cs.takeWhile Char.isDigit
  let rest := cs.dropWhile Char.isDigit
  guard !whole.isEmpty
  guard !(whole.head? == some '0' && whole.length > 1)
  let (n, dropped) := keepDigits 0 whole
  let (fraction, rest) ← match rest with
    | '.' :: rest =>
      let fraction := rest.takeWhile Char.isDigit
      if fraction.isEmpty then none else some (some fraction, rest.dropWhile Char.isDigit)
    | _ => some (none, rest)
  let (exponent, rest) ← match rest with
    | c :: tail =>
      if c = 'e' ∨ c = 'E' then (readExponent tail).map fun (e, rest) => (some e, rest)
      else some (none, rest)
    | [] => some (none, rest)
  if fraction.isNone && exponent.isNone then
    return (wholeNumber negative (Binary64.natOfDigits whole), rest)
  else
    let digits := fraction.getD []
    let (n, unread) := keepDigits n digits
    let shift : Int := dropped.length - (digits.length - unread.length : Nat)
    return (← floatOfParts negative n (shift + exponent.getD 0), rest)

def readNumber : List Char → Option (Json × List Char)
  | '-' :: rest => readMagnitude true rest
  | cs => readMagnitude false cs

def readWord : List Char → List Char → Option (List Char)
  | [], cs => some cs
  | w :: ws, c :: cs => if w = c then readWord ws cs else none
  | _ :: _, [] => none

mutual

def readValue : Nat → List Char → Option (Json × List Char)
  | 0, _ => none
  | fuel + 1, cs =>
    match skipSpace cs with
    | 'n' :: rest => (readWord ['u', 'l', 'l'] rest).map fun rest => (.null, rest)
    | 't' :: rest => (readWord ['r', 'u', 'e'] rest).map fun rest => (.bool true, rest)
    | 'f' :: rest => (readWord ['a', 'l', 's', 'e'] rest).map fun rest => (.bool false, rest)
    | '"' :: rest => (readQuoted (rest.length + 1) [] rest).map fun (s, rest) => (.str s, rest)
    | '[' :: rest =>
      match skipSpace rest with
      | ']' :: rest => some (.arr [], rest)
      | rest => readItems fuel [] rest
    | '\x7b' :: rest =>
      match skipSpace rest with
      | '\x7d' :: rest => some (.obj [], rest)
      | rest => readEntries fuel [] rest
    | cs => readNumber cs

def readItems : Nat → List Json → List Char → Option (Json × List Char)
  | 0, _, _ => none
  | fuel + 1, acc, cs => do
    let (item, rest) ← readValue fuel cs
    match skipSpace rest with
    | ',' :: rest => readItems fuel (item :: acc) rest
    | ']' :: rest => return (.arr (item :: acc).reverse, rest)
    | _ => none

def readEntries : Nat → List (String × Json) → List Char → Option (Json × List Char)
  | 0, _, _ => none
  | fuel + 1, acc, cs => do
    let '"' :: rest := skipSpace cs | none
    let (name, rest) ← readQuoted (rest.length + 1) [] rest
    let ':' :: rest := skipSpace rest | none
    let (item, rest) ← readValue fuel rest
    match skipSpace rest with
    | ',' :: rest => readEntries fuel ((name, item) :: acc) rest
    | '\x7d' :: rest => return (.obj ((name, item) :: acc).reverse, rest)
    | _ => none

end

def readWritten (text : String) : Option Json := do
  let cs := text.toList
  let (value, rest) ← readValue (cs.length + 1) cs
  guard (skipSpace rest).isEmpty
  return value

/-- A whole number that fits 64 bits, or the fractional number nearest to its first digits. -/
def narrow (n : Int) : Option Json :=
  if Int64.minValue.toInt ≤ n ∧ n < UInt64.size then some (.int n)
  else if -UInt64.size < n ∧ n < 0 then some (.float (Binary64.ofNat n.natAbs).neg)
  else
    let (kept, dropped) := keepDigits 0 (Nat.toDigits 10 n.natAbs)
    floatOfParts (n < 0) kept dropped.length

mutual

def settle : Json → Option Json
  | .int n => narrow n
  | .arr items => do return .arr (← settleItems items)
  | .obj entries => do return .ofEntries (← settleEntries entries)
  | j => some j

def settleItems : List Json → Option (List Json)
  | [] => some []
  | item :: rest => do return (← settle item) :: (← settleItems rest)

def settleEntries : List (String × Json) → Option (List (String × Json))
  | [] => some []
  | (name, item) :: rest => do return (name, ← settle item) :: (← settleEntries rest)

end

def read (text : String) : Option Json := do
  settle (← readWritten text)

end Sluice.Json
