/-!
Finite tables from names, in the order the names came in. Setting a name twice keeps its place.
-/

namespace Sluice

abbrev Table (α : Type) := List (String × α)

namespace Table

variable {α : Type}

def get? (t : Table α) (name : String) : Option α :=
  match t with
  | [] => none
  | (other, a) :: rest => if other = name then some a else get? rest name

def set (t : Table α) (name : String) (value : α) : Table α :=
  match t with
  | [] => [(name, value)]
  | (other, a) :: rest =>
    if other = name then (other, value) :: rest else (other, a) :: set rest name value

def contains (t : Table α) (name : String) : Bool :=
  (t.get? name).isSome

theorem get?_set_self (t : Table α) (name : String) (value : α) :
    (t.set name value).get? name = some value := by
  induction t with
  | nil => simp [set, get?]
  | cons e rest ih =>
    obtain ⟨other, a⟩ := e
    by_cases h : other = name <;> simp [set, get?, h, ih]

theorem get?_set_of_ne (t : Table α) {name other : String} (value : α) (h : name ≠ other) :
    (t.set name value).get? other = t.get? other := by
  induction t with
  | nil => simp [set, get?, h]
  | cons e rest ih =>
    obtain ⟨first, a⟩ := e
    by_cases h1 : first = name
    · subst h1
      simp [set, get?, h]
    · by_cases h2 : first = other
      · subst h2
        simp [set, get?, h1]
      · simp [set, get?, h1, h2, ih]

end Table

end Sluice
