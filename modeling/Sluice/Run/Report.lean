import Sluice.Run.Error
import Sluice.Run.Lifecycle
import Sluice.Run.Manifest

/-!
What a finished run reports.
-/

namespace Sluice

structure UnitReport where
  unit : UnitId
  /-- How its work ended. -/
  state : UnitState
  linesRead : Nat
  linesWritten : Nat
  errors : Nat
  messages : List String
  deriving DecidableEq, Repr

structure ChannelReport where
  id : ChannelId
  /-- The writing unit, or the word for rows from outside. -/
  source : String
  target : UnitId
  capacity : Nat
  rowsPut : Nat
  rowsTaken : Nat
  peakDepth : Nat
  deriving DecidableEq, Repr

structure RunReport where
  units : List UnitReport
  channels : List ChannelReport
  manifest : Manifest
  deriving DecidableEq, Repr

def UnitId.encode (u : UnitId) : Json :=
  .obj [("step", .str u.step), ("copy", .ofNat u.copy)]

/-- Messages are left out where there are none. -/
def UnitReport.encode (u : UnitReport) : Json :=
  .obj ([
    ("unit", u.unit.encode),
    ("state", .str u.state.name),
    ("lines_read", .ofNat u.linesRead),
    ("lines_written", .ofNat u.linesWritten),
    ("errors", .ofNat u.errors)] ++
    if u.messages.isEmpty then [] else [("messages", .arr (u.messages.map .str))])

def ChannelReport.encode (c : ChannelReport) : Json :=
  .obj [
    ("id", .ofNat c.id.number),
    ("from", .str c.source),
    ("to", c.target.encode),
    ("capacity", .ofNat c.capacity),
    ("rows_put", .ofNat c.rowsPut),
    ("rows_taken", .ofNat c.rowsTaken),
    ("peak_depth", .ofNat c.peakDepth)]

namespace RunReport

/-- Every unit finished. Rows that were skipped do not count against a run. -/
def success (r : RunReport) : Bool :=
  r.units.all fun u => u.state == .finished

def errorCount (r : RunReport) : Nat :=
  r.units.foldr (fun u n => u.errors + n) 0

def errors (r : RunReport) : List (UnitId × String) :=
  r.units.flatMap fun u => u.messages.map fun m => (u.unit, m)

def unit? (r : RunReport) (unit : UnitId) : Option UnitReport :=
  r.units.find? (·.unit == unit)

def result (r : RunReport) : Except RunError RunReport :=
  if r.success then .ok r else .error (.failed r.errorCount r.errors)

def encode (r : RunReport) : Json :=
  .obj [
    ("success", .bool r.success),
    ("units", .arr (r.units.map UnitReport.encode)),
    ("channels", .arr (r.channels.map ChannelReport.encode)),
    ("manifest", r.manifest.encode)]

end RunReport

end Sluice
