/-!
The life of a unit. It only moves forward, ends in one of three ways, and is disposed of last.
-/

namespace Sluice

inductive UnitState where
  | created
  | initialized
  | running
  | finished
  | stopped
  | errored
  | disposed
  deriving DecidableEq, Repr, Inhabited

namespace UnitState

def name : UnitState → String
  | .created => "CREATED"
  | .initialized => "INITIALIZED"
  | .running => "RUNNING"
  | .finished => "FINISHED"
  | .stopped => "STOPPED"
  | .errored => "ERRORED"
  | .disposed => "DISPOSED"

/-- In the order of a life; the three ends stand side by side. -/
def all : List UnitState :=
  [.created, .initialized, .running, .finished, .stopped, .errored, .disposed]

def ofName? (s : String) : Option UnitState :=
  all.find? (·.name == s)

def rank (s : UnitState) : Nat :=
  all.idxOf s

def compare (a b : UnitState) : Ordering :=
  Ord.compare a.rank b.rank

def isEnd : UnitState → Bool
  | .finished | .stopped | .errored => true
  | _ => false

def canMoveTo : UnitState → UnitState → Bool
  | .created, .initialized => true
  | .initialized, .running => true
  | .initialized, .disposed => true
  | .running, next => next.isEnd
  | .finished, .disposed => true
  | .stopped, .disposed => true
  | .errored, .disposed => true
  | _, _ => false

end UnitState

/-- Where a unit is in its life, and how its work ended. -/
structure Lifecycle where
  state : UnitState := .created
  ended : Option UnitState := none
  deriving DecidableEq, Repr, Inhabited

namespace Lifecycle

def advance? (l : Lifecycle) (next : UnitState) : Option Lifecycle :=
  if l.state.canMoveTo next then some ⟨next, if next.isEnd then some next else l.ended⟩ else none

def advance (l : Lifecycle) (next : UnitState) : Lifecycle :=
  (l.advance? next).getD l

/-- How the work ended, or the current state of a unit that never worked. -/
def outcome (l : Lifecycle) : UnitState :=
  l.ended.getD l.state

end Lifecycle

end Sluice
