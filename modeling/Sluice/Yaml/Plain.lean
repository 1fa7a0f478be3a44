import Sluice.Number.Written

/-!
What a plain scalar stands for: null, a truth value, a whole or a fractional number, or its text.
-/

namespace Sluice.Yaml

inductive Plain where
  | null
  | bool (b : Bool)
  | int (n : Int)
  | float (x : Binary64)
  | text
  /-- A whole number too large for any use. -/
  | tooLarge

namespace Plain

def nullWords : List String := ["null", "Null", "NULL", "~"]

def bool? : String → Option Bool
  | "true" | "True" | "TRUE" => some true
  | "false" | "False" | "FALSE" => some false
  | _ => none

/-- Digits after a zero are no number. -/
def isZeroPadded (cs : List Char) : Bool :=
  let digits := match cs with
    | '-' :: rest => rest
    | '+' :: rest => rest
    | _ => cs
  match digits with
  | '0' :: rest => !rest.isEmpty && rest.all Char.isDigit
  | _ => false

def digits? (radix limit : Nat) (cs : List Char) : Option Nat :=
  if cs.isEmpty then none else (Integer.readDigits radix limit .tooLarge 0 cs).toOption

def marked? (limit : Nat) : List Char → Option Nat
  | '0' :: 'x' :: rest => digits? 16 limit rest
  | '0' :: 'o' :: rest => digits? 8 limit rest
  | '0' :: 'b' :: rest => digits? 2 limit rest
  | _ => none

def dropPlus : List Char → List Char
  | '+' :: rest => rest
  | cs => cs

def natural? (limit : Nat) (cs : List Char) : Option Nat :=
  (marked? limit (dropPlus cs)).orElse fun _ =>
    if isZeroPadded cs then none else digits? 10 limit (dropPlus cs)

/-- The magnitude of a whole number with a minus sign. -/
def negative? (limit : Nat) : List Char → Option Nat
  | '-' :: rest =>
    (marked? limit rest).orElse fun _ =>
      if isZeroPadded ('-' :: rest) then none else digits? 10 limit rest
  | _ => none

/-- A whole number of 64 bits, signed or not; up to 128 bits one is too large, and beyond it is no
whole number. -/
def integer? (cs : List Char) : Option Plain :=
  if let some n := natural? (UInt64.size - 1) cs then some (.int n)
  else if let some n := negative? (UInt64.size / 2) cs then some (.int (-n))
  else if (natural? (Integer.size128 - 1) cs).isSome ||
      (negative? (Integer.size128 / 2) cs).isSome then some .tooLarge
  else none

def infinityWords : List String := [".inf", ".Inf", ".INF"]
def nanWords : List String := [".nan", ".NaN", ".NAN"]

/-- A number as digits may spell it, or one of the words for what has none. -/
def float? (text : String) : Option Binary64 :=
  let cs := text.toList
  let body := dropPlus cs
  let signedTwice := match cs, body with
    | '+' :: _, '+' :: _ => true
    | '+' :: _, '-' :: _ => true
    | _, _ => false
  if signedTwice then none
  else if infinityWords.contains (String.ofList body) then some (.infinity false)
  else if (infinityWords.map ("-" ++ ·)).contains text then some (.infinity true)
  else if nanWords.contains text then some .nan
  else match Binary64.readText (String.ofList body) with
    | .ok x => if x.isFinite then some x else none
    | .error _ => none

def ofText (text : String) : Plain :=
  let cs := text.toList
  if text.isEmpty || nullWords.contains text then .null
  else if let some b := bool? text then .bool b
  else if let some n := integer? cs then n
  else if isZeroPadded cs then .text
  else match float? text with
    | some x => .float x
    | none => .text

end Plain

end Sluice.Yaml
