import Sluice.Channel.Net
import Sluice.Graph.Basic
import Sluice.Step.Error

/-!
The border of a unit: where its rows come from and go to, whose turn it is among several channels,
what it has counted, and who listens to its rows.
-/

namespace Sluice

structure Inlet where
  source : UnitId
  channel : Nat
  /-- The end of its stream was read. -/
  finished : Bool := false
  deriving DecidableEq, Repr, Inhabited

/-- The channels to the copies of one target step; rows go to them in turn. -/
structure Outlet where
  target : String
  channels : List Nat
  next : Nat := 0
  deriving DecidableEq, Repr, Inhabited

/-- What a unit has counted, not cut off at 64 bits either. -/
structure Counters where
  linesRead : Nat := 0
  linesWritten : Nat := 0
  errors : Nat := 0
  messages : Array String := #[]
  deriving DecidableEq, Repr, Inhabited

def Counters.recordError (c : Counters) (message : String) : Counters :=
  { c with errors := c.errors + 1, messages := c.messages.push message }

/-- A row that a unit read or wrote, as a listener sees it. -/
inductive Crossing where
  | read (row : Row)
  | written (row : Row)

structure Border where
  unit : UnitId
  /-- The wakeup of this reader. -/
  wakeup : Nat := 0
  inputs : List Inlet := []
  outputs : List Outlet := []
  policy : DataErrorPolicy := .abort
  distribute : Bool := false
  /-- The input to look at first. -/
  nextInput : Nat := 0
  /-- The output hop whose turn it is when rows are distributed. -/
  nextOutput : Nat := 0
  batchRows : Nat := 64
  safeMode : Bool := false
  /-- The schema of the first row written in safe mode. -/
  layout : Option Schema := none
  counters : Counters := {}
  /-- What each listener has seen, in order. -/
  listeners : Array (Array Crossing) := #[]
  deriving Inhabited

namespace Border

def onRead (p : Border) (row : Row) : Border :=
  { p with
    counters := { p.counters with linesRead := p.counters.linesRead + 1 }
    listeners := p.listeners.map (·.push (.read row)) }

def onWritten (p : Border) (row : Row) : Border :=
  { p with
    counters := { p.counters with linesWritten := p.counters.linesWritten + 1 }
    listeners := p.listeners.map (·.push (.written row)) }

def recordError (p : Border) (message : String) : Border :=
  { p with counters := p.counters.recordError message }

def finishInput (p : Border) (i : Nat) : Border :=
  { p with inputs := p.inputs.modify i fun inlet => { inlet with finished := true } }

def inputFinished (p : Border) (i : Nat) : Bool :=
  (p.inputs[i]?).all (·.finished)

def liveInputs (p : Border) : List Nat :=
  (List.range p.inputs.length).filter fun i => !p.inputFinished i

def addInput (p : Border) (source : UnitId) (channel : Nat) : Border :=
  { p with inputs := p.inputs ++ [{ source, channel }] }

def addOutput (p : Border) (target : String) (channels : List Nat) : Border :=
  { p with outputs := p.outputs ++ [{ target, channels }] }

def addListener (p : Border) : Border :=
  { p with listeners := p.listeners.push #[] }

def outputChannels (p : Border) : List Nat :=
  p.outputs.flatMap (·.channels)

/-- In safe mode a row has the layout of the first one; the first one sets it. -/
def checkLayout (p : Border) (row : Row) : Except StepError Border :=
  if !p.safeMode then .ok p
  else match p.layout with
    | none => .ok { p with layout := some row.schema }
    | some first =>
      if first == row.schema || first.sameLayout row.schema then .ok p
      else .error (.fatal (.layout p.unit row.schema.names first.names))

/-- What becomes of a row that cannot be processed: counted and dropped, or an error. -/
def reportData (p : Border) (fault : DataFault) : Except StepError Unit × Border :=
  match p.policy with
  | .skip => (.ok (), p.recordError fault.message)
  | .abort => (.error (.data fault), p)

end Border

end Sluice
