import Sluice.Border.Progress

/-!
Reading rows. From any input: the live inputs are looked at in turn without waiting, and the
reader sleeps only when its wakeup has not moved since before it looked; a single live input is
waited for directly. From one input: the reader waits for that one alone.
-/

namespace Sluice

inductive Reading where
  /-- From whichever input has a row. -/
  | any
  /-- From one input. -/
  | only (input : Nat)
  /-- Looking at the inputs in turn, so many of them done, since this generation. -/
  | scan (seen : UInt64) (done : Nat)
  /-- Waiting for the wakeup to leave this generation. -/
  | sleep (seen : UInt64)
  /-- Waiting for one input. -/
  | receive (input : Nat)
  deriving DecidableEq, Repr

abbrev Reading.Progress := Sluice.Progress Reading (Except StepError (Option Row))

namespace Border

def readAny (p : Border) (net : Net) : Reading.Progress :=
  match p.liveInputs with
  | [] => .replies (.ok none) p net
  | [i] => .continues (.receive i) p net
  | _ => .continues (.scan (net.generation p.wakeup) 0) p net

/-- The end of an input's stream is remembered. -/
def readOnly (p : Border) (net : Net) (i : Nat) : Reading.Progress :=
  match p.inputs[i]? with
  | none => .replies (.error (.fatal (.noInput i))) p net
  | some inlet => if inlet.finished then .replies (.ok none) p net else .continues (.receive i) p net

/-- One input of a round. The next round starts behind the input that had a row. -/
def scanInput (p : Border) (net : Net) (seen : UInt64) (done : Nat) : Reading.Progress :=
  let n := p.inputs.length
  let i := (p.nextInput + done) % n
  match p.inputs[i]? with
  | none => .continues (.scan seen (done + 1)) p net
  | some inlet =>
    if inlet.finished then .continues (.scan seen (done + 1)) p net
    else match net.tryGet inlet.channel with
      | (.error e, net) => .replies (.error (.ofRefusal e)) p net
      | (.ok (.item row), net) =>
        .replies (.ok (some row)) ({ p with nextInput := (i + 1) % n }.onRead row) net
      | (.ok .ended, net) => .continues (.scan seen (done + 1)) (p.finishInput i) net
      | (.ok .empty, net) => .continues (.scan seen (done + 1)) p net

/-- After a round that found no row: done, stopped, or asleep. -/
def endRound (p : Border) (net : Net) (seen : UInt64) : Reading.Progress :=
  if p.liveInputs.isEmpty then .replies (.ok none) p net
  else if net.stopping then .replies (.error .aborted) p net
  else .continues (.sleep seen) p net

def receive (p : Border) (net : Net) (i : Nat) : Reading.Progress :=
  match p.inputs[i]? with
  | none => .replies (.error (.fatal (.noInput i))) p net
  | some inlet =>
    match net.get inlet.channel with
    | none => .blocked
    | some (.error e, net) => .replies (.error (.ofRefusal e)) p net
    | some (.ok none, net) => .replies (.ok none) (p.finishInput i) net
    | some (.ok (some row), net) => .replies (.ok (some row)) (p.onRead row) net

def advanceRead (p : Border) (net : Net) : Reading → Reading.Progress
  | .any => p.readAny net
  | .only i => p.readOnly net i
  | .scan seen done =>
    if done < p.inputs.length then p.scanInput net seen done else p.endRound net seen
  | .sleep seen => if net.generation p.wakeup = seen then .blocked else .continues .any p net
  | .receive i => p.receive net i

/-- Enough steps for a read that nobody interferes with: at most two rounds. -/
def readBound (p : Border) : Nat :=
  2 * p.inputs.length + 8

def read (p : Border) (net : Net) (how : Reading) : Outcome (Except StepError (Option Row)) :=
  Progress.settle (fun call p net => p.advanceRead net call) p.readBound how p net

end Border

end Sluice
