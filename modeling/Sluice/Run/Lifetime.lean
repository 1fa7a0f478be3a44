import Sluice.Run.History

/-!
The lifetime of a run: all that happens to it from its making on. Once its owner gives it up nobody
asks it for anything any more, while its threads go on, and so do its producers and whoever stops
it.
-/

namespace Sluice

inductive Happening where
  | deed (d : Deed)
  /-- The owner gives the run up. -/
  | abandon

/-- Needs nobody who owns the run. -/
def Deed.outlives : Deed → Bool
  | .offer .. | .finish _ | .stop | .move _ => true
  | .prepare | .addProducer _ | .addObserver _ | .start .. | .wait _ => false

def Happening.outlives : Happening → Bool
  | .deed d => d.outlives
  | .abandon => false

/-- Whether all this can happen in this order. -/
def Happening.possible : List Happening → Bool
  | [] => true
  | .deed _ :: rest => possible rest
  | .abandon :: rest => rest.all (·.outlives)

def Event.unit : Event → UnitId
  | .init unit | .batch unit | .dispose unit => unit

namespace Run

variable {σ : Type}

def undergo (r : Run σ) : Happening → Run σ
  | .deed d => r.act d
  | .abandon => r.abandon

def through (r : Run σ) (hs : List Happening) : Run σ :=
  hs.foldl undergo r

/-- The states in which a unit is seen by who looks whenever something has happened. -/
def states (r : Run σ) (unit : UnitId) : List Happening → List UnitState
  | [] => (r.unitState unit).toList
  | h :: hs => (r.unitState unit).toList ++ (r.undergo h).states unit hs

/-- Calls of the step of one unit, the first one first. -/
def callsOf (r : Run σ) (unit : UnitId) : List Event :=
  (r.calls.filter (·.unit == unit)).reverse

end Run

end Sluice
