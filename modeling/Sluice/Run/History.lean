import Sluice.Run.Control

/-!
Histories of a run: what its owner asks of it and what its parties do, in whatever order it
happens. A party that cannot move and an operation that is refused leave the run as it is.
-/

namespace Sluice

inductive Deed where
  | prepare
  | addProducer (unit : UnitId)
  | addObserver (unit : UnitId)
  | start (id : List UInt8) (now : Nat)
  /-- Hands rows to a producer. -/
  | offer (k : Nat) (rows : List (Except Error Row))
  /-- Lets a producer end its stream. -/
  | finish (k : Nat)
  /-- Begins to stop the run from outside. -/
  | stop
  | wait (now : Nat)
  | move (party : Party)

/-- The row that entered a channel between two nets one step apart. -/
def Net.entered (before after : Net) (c : Nat) : List Row :=
  match before.channel? c, after.channel? c with
  | some b, some a => if b.rowsPut < a.rowsPut then a.queue.getLast?.toList else []
  | _, _ => []

namespace Run

variable {σ : Type}

def act (r : Run σ) : Deed → Run σ
  | .prepare => r.prepare.2
  | .addProducer unit => (r.addProducer unit).2
  | .addObserver unit => (r.addObserver unit).2
  | .start id now => (r.start id now).2
  | .offer k rows => r.offer k rows
  | .finish k => r.finishProducer k
  | .stop => r.requestStop
  | .wait now => ((r.wait now).map (·.2)).getD r
  | .move party => (r.move party).getD r

def after (r : Run σ) (deeds : List Deed) : Run σ :=
  deeds.foldl act r

/-- The same where the system refuses some of the threads. -/
def actUnder (refuses : UnitId → Option String) (r : Run σ) : Deed → Run σ
  | .start id now => (r.launch refuses id now).2
  | d => r.act d

def afterUnder (refuses : UnitId → Option String) (r : Run σ) (deeds : List Deed) : Run σ :=
  deeds.foldl (actUnder refuses) r

/-- All rows that entered a channel in the course of some deeds, in their order. -/
def carried (r : Run σ) (c : Nat) : List Deed → List Row
  | [] => []
  | d :: deeds => r.net.entered (r.act d).net c ++ (r.act d).carried c deeds

end Run

end Sluice
