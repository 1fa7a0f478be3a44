import Sluice.Run.Control

/-!
A fair schedule: the parties take turns, and each goes as far as it can within its turn. It is one
of the orders in which a run may go; fuel bounds how many rounds are taken.
-/

namespace Sluice

namespace Run

variable {σ : Type}

def turnSteps : Nat := 64

/-- Lets a party take at most `n` steps; whether it took any. -/
def turn (party : Party) : Nat → Run σ × Bool → Run σ × Bool
  | 0, state => state
  | n + 1, (r, moved) =>
    match r.move party with
    | some r => turn party n (r, true)
    | none => (r, moved)

/-- A turn for each party; whether any of them moved. -/
def round (r : Run σ) : Run σ × Bool :=
  r.parties.foldl (fun state party => turn party turnSteps state) (r, false)

/-- Rounds until `done`, or until nobody moves, at most `fuel` of them. -/
def settle (done : Run σ → Bool) : Nat → Run σ → Run σ
  | 0, r => r
  | fuel + 1, r =>
    if done r then r
    else
      let (r, moved) := r.round
      if moved then settle done fuel r else r

/-- Rounds enough for any run that is tried out. -/
def patience : Nat := 1000000

/-- Waits for all units and reports; the answer is missing when the run is stuck. -/
def runToEnd (r : Run σ) (now : Nat) : Option (Except RunError RunReport) × Run σ :=
  let r := if r.phase = .running then settle unitsIdle patience r else r
  match r.wait now with
  | some (answer, r) => (some answer, r)
  | none => (none, r)

def runProducer (r : Run σ) (k : Nat) : Run σ :=
  let steps := match r.producers[k]? with
    | some p => 3 * p.offers.length + 4
    | none => 0
  (turn (.producer k) steps (r, false)).1

/-- Puts one row through a producer: at once if there is room, otherwise once the units have made
some. The answer is missing when there is never room. -/
def putRow (r : Run σ) (k : Nat) (row : Except Error Row) : Option (Except RunError Unit) × Run σ :=
  let idle (r : Run σ) : Bool := (r.producers[k]?).all (·.isIdle)
  let r := (r.offer k [row]).runProducer k
  let r := if idle r then r else if r.phase = .running then settle idle patience r else r
  match r.producers[k]? with
  | some p =>
    if p.isIdle then (some (p.outcome.map fun _ => ()), r)
    else (none, { r with producers := r.producers.set k (p.offer []) })
  | none => (none, r)

def endProducer (r : Run σ) (k : Nat) : Run σ :=
  (r.finishProducer k).runProducer k

def feed (r : Run σ) (feeds : List (Nat × List (Except Error Row))) : Run σ :=
  let begun := feeds.foldl (fun r (k, rows) => (r.offer k rows).finishProducer k) r
  settle producersIdle patience begun

/-- Ends all producers, gives the run up and lets its threads end. -/
def discard (r : Run σ) : Run σ :=
  let r := (List.range r.producers.length).foldl endProducer r
  settle unitsIdle patience r.abandon

def execute (r : Run σ) (id : List UInt8) (now : Nat) : Except RunError RunReport := do
  let (prepared, r) := r.prepare
  prepared
  let (started, r) := r.start id now
  started
  match (r.runToEnd now).1 with
  | some answer => answer
  | none => throw (.outOfPhase .wait .running)

end Run

end Sluice
