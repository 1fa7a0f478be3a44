import Sluice.Shape

/-!
Reading documents into types. A document is anything that can be asked for a text, a count, a list
or entries; a record is read field by field, and of several faults the one that stands first in
the document is reported.
-/

namespace Sluice

inductive Entries (δ : Type) where
  | named (entries : List (String × δ))
  | listed (items : List δ)

class Document (δ : Type) where
  isNull : δ → Except ShapeFault Bool
  bool : δ → Except ShapeFault Bool
  /-- An integer of a named range. -/
  integer : (expected : String) → (lo hi : Int) → δ → Except ShapeFault Int
  string : δ → Except ShapeFault String
  items : δ → Except ShapeFault (List δ)
  entries : (expected : String) → δ → Except ShapeFault (Entries δ)
  variant : List String → δ → Except ShapeFault String
  json : δ → Except ShapeFault Json

structure PlacedFault where
  place : Nat
  fault : ShapeFault

structure Record (δ α : Type) where
  typeName : String
  /-- How many fields it will have. -/
  size : Nat
  fields : List String
  /-- Reads the fields, given how many stand before them. -/
  read : Nat → Entries δ → Except PlacedFault α

namespace Record

variable {δ α β : Type}

/-- The fault that stands first; at one place, the one met first. -/
def firstOf (a b : PlacedFault) : PlacedFault :=
  if b.place < a.place then b else a

def start (typeName : String) (size : Nat) (make : α) : Record δ α :=
  ⟨typeName, size, [], fun _ _ => .ok make⟩

def readField (name : String) (decode : δ → Except ShapeFault α)
    (absent : Except ShapeFault α) (index : Nat) : Entries δ → Except PlacedFault α
  | .named entries =>
    match entries.findIdx? (·.1 == name) with
    | some i =>
      match entries[i]? with
      | some (_, d) => (decode d).mapError (⟨i, ·⟩)
      | none => absent.mapError (⟨entries.length, ·⟩)
    | none => absent.mapError (⟨entries.length, ·⟩)
  | .listed items =>
    match items[index]? with
    | some d => (decode d).mapError (⟨index, ·⟩)
    | none => absent.mapError (⟨index, ·⟩)

def addField (r : Record δ (α → β)) (name : String) (decode : δ → Except ShapeFault α)
    (absent : Entries δ → Nat → Except ShapeFault α) : Record δ β :=
  { typeName := r.typeName
    size := r.size
    fields := r.fields ++ [name]
    read := fun before entries =>
      let index := before + r.fields.length
      match r.read before entries, readField name decode (absent entries index) index entries with
      | .ok f, .ok a => .ok (f a)
      | .error e, .ok _ => .error e
      | .ok _, .error e => .error e
      | .error e, .error e' => .error (firstOf e e') }

def listExpectation (typeName : String) (n : Nat) : String :=
  "struct " ++ typeName ++ " with " ++ n.repr ++ (if n = 1 then " element" else " elements")

def tooShort (r : Record δ α) (index : Nat) : ShapeFault :=
  .length index (listExpectation r.typeName r.size)

def required (r : Record δ (α → β)) (name : String) (decode : δ → Except ShapeFault α) :
    Record δ β :=
  r.addField name decode fun entries index =>
    match entries with
    | .named _ => .error (.missingField name)
    | .listed _ => .error (r.tooShort index)

/-- A field that has a value of its own when it is not named, but has to be in a list. -/
def named (r : Record δ (α → β)) (name : String) (decode : δ → Except ShapeFault α)
    (default : α) : Record δ β :=
  r.addField name decode fun entries index =>
    match entries with
    | .named _ => .ok default
    | .listed _ => .error (r.tooShort index)

def optional (r : Record δ (α → β)) (name : String) (decode : δ → Except ShapeFault α)
    (default : α) : Record δ β :=
  r.addField name decode fun _ _ => .ok default

def strayEntry (fields : List String) (strict : Bool) (entries : List (String × δ)) :
    Option PlacedFault :=
  let faults := entries.mapIdx fun i (name, _) =>
    if fields.contains name then
      if (entries.take i).any (·.1 == name) then some ⟨i, ShapeFault.duplicateField name⟩ else none
    else if strict then some ⟨i, ShapeFault.unknownField name fields⟩
    else none
  faults.findSome? id

/-- Reads a whole record. A strict record knows all its entries. -/
def decode [Document δ] (r : Record δ α) (strict : Bool) (doc : δ) : Except ShapeFault α := do
  let entries ← Document.entries ("struct " ++ r.typeName) doc
  match entries with
  | .named list =>
    match r.read 0 entries, strayEntry r.fields strict list with
    | .ok a, none => .ok a
    | .ok _, some e => .error e.fault
    | .error e, none => .error e.fault
    | .error e, some e' => .error (firstOf e e').fault
  | .listed items =>
    let a ← (r.read 0 entries).mapError (·.fault)
    if items.length ≤ r.fields.length then return a
    else throw (.length items.length "fewer elements in array")

end Record

namespace Document

variable {δ α : Type} [Document δ]

def count (expected : String) (doc : δ) : Except ShapeFault Nat :=
  (integer expected 0 (UInt64.size - 1) doc).map Int.toNat

def size (doc : δ) : Except ShapeFault Nat := count "usize" doc

def word (doc : δ) : Except ShapeFault UInt32 :=
  (integer "u32" 0 (UInt32.size - 1) doc).map fun n => UInt32.ofNat n.toNat

/-- Null stands for absence. -/
def maybe (decode : δ → Except ShapeFault α) (doc : δ) : Except ShapeFault (Option α) := do
  if ← isNull doc then return none
  return some (← decode doc)

def listOf (decode : δ → Except ShapeFault α) (doc : δ) : Except ShapeFault (List α) := do
  (← items doc).mapM decode

/-- Named texts, in the order of their names. -/
def texts (doc : δ) : Except ShapeFault (List (String × String)) := do
  match ← entries "a map" doc with
  | .named list =>
    let pairs ← list.mapM fun (name, d) => do return (name, ← string d)
    return pairs.foldl (fun acc (name, text) => put name text acc) []
  | .listed _ => throw (.type .sequence "a map")
where
  put (name text : String) : List (String × String) → List (String × String)
    | [] => [(name, text)]
    | (other, old) :: rest =>
      if name < other then (name, text) :: (other, old) :: rest
      else if name = other then (name, text) :: rest
      else (other, old) :: put name text rest

end Document

end Sluice
