import Sluice.Run.Action
import Sluice.Run.Error

/-!
Producers: rows from outside the run, put into a channel of their own, one access at a time.
-/

namespace Sluice

structure Producer where
  /-- The unit the rows go to. -/
  unit : UnitId
  channel : Nat
  /-- Rows still to put, the next one first; one that is no row ends them with its error. -/
  offers : List (Except Error Row) := []
  /-- The stream ends after them. -/
  ends : Bool := false
  todo : List NetAction := []
  /-- Rows that went in since the last offer. -/
  sent : Nat := 0
  /-- What cut the last offer short. -/
  failure : Option RunError := none

namespace Producer

def offer (p : Producer) (rows : List (Except Error Row)) : Producer :=
  { p with offers := rows, sent := 0, failure := none }

def finish (p : Producer) : Producer :=
  { p with ends := true }

/-- One step, unless there is nothing to do or no room. -/
def move (p : Producer) (net : Net) : Option (Producer × Net) :=
  match p.todo, p.offers with
  | action :: rest, _ =>
    let (net, owed) := action.perform net
    some ({ p with todo := owed ++ rest }, net)
  | [], .error e :: _ => some ({ p with offers := [], failure := some (.core e) }, net)
  | [], .ok row :: rest =>
    match net.put p.channel row with
    | none => none
    | some (.error e, net) => some ({ p with offers := [], failure := some (.channel e) }, net)
    | some (.ok (), net) =>
      some ({ p with offers := rest, sent := p.sent + 1, todo := [.signal p.channel] }, net)
  | [], [] =>
    if p.ends then some ({ p with ends := false, todo := [.close p.channel] }, net) else none

def isIdle (p : Producer) : Bool :=
  p.todo.isEmpty && p.offers.isEmpty && !p.ends

/-- How many rows went in, or why no more did. -/
def outcome (p : Producer) : Except RunError Nat :=
  match p.failure with
  | some e => .error e
  | none => .ok p.sent

end Producer

end Sluice
