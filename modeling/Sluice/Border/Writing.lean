import Sluice.Border.Progress

/-!
Writing rows. A row goes to one hop after another, each time to the channel whose turn it is; the
reader of a channel is told after the row is in. In safe mode a row of another layout than the
first one goes nowhere.
-/

namespace Sluice

inductive Writing where
  /-- To every hop, or to the one whose turn it is. -/
  | every (row : Row)
  /-- To one hop. -/
  | only (hop : Nat) (row : Row)
  /-- Choosing the channel of the next of these hops. -/
  | send (hops : List Nat) (row : Row)
  /-- Waiting for room in a channel, with these hops to follow. -/
  | deliver (channel : Nat) (hops : List Nat) (row : Row)
  /-- Owing a signal to the reader of a channel, with these hops to follow. -/
  | signal (channel : Nat) (hops : List Nat) (row : Row)
  deriving DecidableEq

abbrev Writing.Progress := Sluice.Progress Writing (Except StepError Unit)

namespace Border

/-- A row is shared out among several hops only if the step distributes. -/
def writeEvery (p : Border) (net : Net) (row : Row) : Writing.Progress :=
  match p.checkLayout row with
  | .error e => .replies (.error e) p net
  | .ok p =>
    let n := p.outputs.length
    if p.distribute && 1 < n then
      let i := p.nextOutput % n
      .continues (.send [i] row) { p with nextOutput := (i + 1) % n } net
    else .continues (.send (List.range n) row) p net

def writeOnly (p : Border) (net : Net) (hop : Nat) (row : Row) : Writing.Progress :=
  match p.checkLayout row with
  | .error e => .replies (.error e) p net
  | .ok p =>
    if hop < p.outputs.length then .continues (.send [hop] row) p net
    else .replies (.error (.fatal (.noOutput hop))) p net

/-- Moves the turn of a hop on and tells which channel had it. -/
def takeTurn (p : Border) (hop : Nat) : Option (Nat × Border) := do
  let h ← p.outputs[hop]?
  let i := h.next % h.channels.length
  let channel ← h.channels[i]?
  let moved := { h with next := (i + 1) % h.channels.length }
  return (channel, { p with outputs := p.outputs.set hop moved })

def advanceWrite (p : Border) (net : Net) : Writing → Writing.Progress
  | .every row => p.writeEvery net row
  | .only hop row => p.writeOnly net hop row
  | .send [] row => .replies (.ok ()) (p.onWritten row) net
  | .send (hop :: hops) row =>
    match p.takeTurn hop with
    | none => .continues (.send hops row) p net
    | some (channel, p) => .continues (.deliver channel hops row) p net
  | .deliver channel hops row =>
    match net.put channel row with
    | none => .blocked
    | some (.error e, net) => .replies (.error (.ofRefusal e)) p net
    | some (.ok (), net) => .continues (.signal channel hops row) p net
  | .signal channel hops row => .continues (.send hops row) p (net.signal channel)

/-- Enough steps for a write that nobody interferes with: three for each hop. -/
def writeBound (p : Border) : Nat :=
  3 * p.outputs.length + 4

def write (p : Border) (net : Net) (how : Writing) : Outcome (Except StepError Unit) :=
  Progress.settle (fun call p net => p.advanceWrite net call) p.writeBound how p net

def finishOutputs (p : Border) (net : Net) : Net :=
  p.outputChannels.foldl Net.close net

end Border

end Sluice
