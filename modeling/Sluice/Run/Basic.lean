import Sluice.Run.Producer
import Sluice.Run.Report
import Sluice.Run.Unit

/-!
A run: the units of a graph and the channels between them, producers that put rows in from
outside, and stops requested from outside. Any party that can move may move next.
-/

namespace Sluice

structure Wire where
  channel : Nat
  /-- The writing unit, or the word for rows from outside. -/
  source : String
  target : UnitId
  deriving DecidableEq, Repr

structure Run (σ : Type) where
  graph : Graph
  settings : Settings := {}
  registry : Registry σ
  /-- Points armed to panic. -/
  armed : List String := []
  phase : Phase := .new
  plan : Option Plan := none
  /-- In the order of the plan, the copies of a step side by side. -/
  units : List (RunUnit σ) := []
  wires : List Wire := []
  net : Net := {}
  producers : List Producer := []
  /-- Stops under way that were requested from outside. -/
  stops : List (List NetAction) := []
  manifest : Option Manifest := none
  report : Option RunReport := none
  /-- Calls of the steps, the last one first. -/
  calls : List Event := []

/-- Whoever can move. -/
inductive Party where
  | unit (i : Nat)
  | producer (k : Nat)
  | stop (k : Nat)
  deriving DecidableEq, Repr

namespace Run

variable {σ : Type}

def indexOf? (units : List (RunUnit σ)) (id : UnitId) : Option Nat :=
  units.findIdx? (·.id == id)

def unit? (r : Run σ) (id : UnitId) : Option (RunUnit σ) :=
  r.units.find? (·.id == id)

def addCall (r : Run σ) (event : Option Event) : Run σ :=
  match event with
  | some e => { r with calls := e :: r.calls }
  | none => r

def moveUnit (r : Run σ) (i : Nat) : Option (Run σ) := do
  let m ← (← r.units[i]?).move r.net r.armed
  return { r with units := r.units.set i m.unit, net := m.net }.addCall m.event

def moveProducer (r : Run σ) (k : Nat) : Option (Run σ) := do
  let (p, net) ← (← r.producers[k]?).move r.net
  return { r with producers := r.producers.set k p, net }

def moveStop (r : Run σ) (k : Nat) : Option (Run σ) :=
  match r.stops[k]? with
  | some (action :: rest) =>
    let (net, owed) := action.perform r.net
    some { r with stops := r.stops.set k (owed ++ rest), net }
  | _ => none

def move (r : Run σ) : Party → Option (Run σ)
  | .unit i => r.moveUnit i
  | .producer k => r.moveProducer k
  | .stop k => r.moveStop k

def parties (r : Run σ) : List Party :=
  (List.range r.units.length).map .unit ++ (List.range r.producers.length).map .producer ++
    (List.range r.stops.length).map .stop

/-- No unit has a thread that goes on. -/
def unitsIdle (r : Run σ) : Bool :=
  r.units.all (·.isIdle)

def producersIdle (r : Run σ) : Bool :=
  r.producers.all (·.isIdle)

def errorCount (r : Run σ) : Nat :=
  r.units.foldr (fun u n => u.border.counters.errors + n) 0

def errors (r : Run σ) : List (UnitId × String) :=
  r.units.flatMap (·.messages)

/-- There are units, and all of them have been disposed of. -/
def isFinished (r : Run σ) : Bool :=
  !r.units.isEmpty && r.units.all fun u => u.life.state == .disposed

end Run

end Sluice
