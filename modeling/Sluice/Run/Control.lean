import Sluice.Graph.Codec
import Sluice.Run.Wiring

/-!
What the owner of a run can ask of it. Each operation belongs to one phase, and a refused one
leaves the run as it was; a run that could not be prepared is spent. A step that panics while it is
set up, or disposed of by the owner, takes the operation with it.
-/

namespace Sluice

namespace Run

variable {σ : Type}

def new (registry : Registry σ) (settings : Settings) (graph : Graph)
    (armed : List String := []) : Run σ :=
  { graph, settings, registry, armed }

/-- Refuses an operation outside its phase. -/
def expect (r : Run σ) (op : Operation) (phase : Phase) : Except RunError Unit :=
  if r.phase = phase then .ok () else .error (.outOfPhase op r.phase)

/-- Settings and graph are checked before anything is built. -/
def wire (r : Run σ) : Except RunError (Plan × Wiring σ) := do
  r.settings.check.mapError .core
  let plan ← (Plan.ofGraph r.registry r.graph).mapError .graph
  return (plan, ← Wiring.ofPlan r.settings r.graph plan r.net)

/-- The run with all of its units set up. When one fails, those before it are disposed of. Units and
channels are lost in a panic, and the run stays as new. -/
def setUp (r : Run σ) (plan : Plan) (w : Wiring σ) : Except RunError Unit × Run σ :=
  let i := Initiation.ofUnits r.registry w.units
  let calls := i.calls.reverse ++ r.calls
  match i.failure with
  | none =>
    (.ok (), { r with
      phase := .prepared, plan := some plan, units := i.units, wires := w.wires, net := w.net, calls })
  | some (.panicked payload) => (.error (.panicked payload), { r with calls })
  | some e =>
    let d := Disposal.ofUnits i.units
    let calls := d.calls.reverse ++ calls
    match d.panic with
    | some payload => (.error (.panicked payload), { r with calls })
    | none => (.error e, { r with phase := .finished, units := d.units, net := w.net, calls })

def prepare (r : Run σ) : Except RunError Unit × Run σ :=
  match r.expect .prepare .new with
  | .error e => (.error e, r)
  | .ok () =>
    match r.wire with
    | .error e => (.error e, { r with phase := .finished })
    | .ok (plan, w) => r.setUp plan w

def outside : String := "producer"

/-- What keeps a unit from taking rows from outside. -/
def checkInjection (r : Run σ) (unit : UnitId) : Except RunError Nat := do
  r.expect .addProducer .prepared
  match indexOf? r.units unit with
  | none => throw (.unknownUnit unit)
  | some i =>
    if !(r.graph.inputHops unit.step).isEmpty then throw (.hasInputHop unit.step)
    let spec ← (r.graph.step unit.step).mapError .core
    if ((r.registry.find? spec.type).bind (·.maxInputs)) = some 0 then
      throw (.takesNoInput unit.step spec.type)
    return i

def attachProducer (r : Run σ) (i : Nat) (unit : UnitId) : Run σ :=
  let reader := (r.units[i]?).map (·.border.wakeup)
  let (channel, net) := r.net.addLink r.settings.channelCapacity reader
  let attach (u : RunUnit σ) : RunUnit σ :=
    { u with border := u.border.addInput ⟨outside, u.border.inputs.length⟩ channel }
  { r with
    units := r.units.modify i attach
    net
    wires := r.wires ++ [⟨channel, outside, unit⟩]
    producers := r.producers ++ [{ unit, channel }] }

/-- A new producer for a unit without hops into it; tells its number. -/
def addProducer (r : Run σ) (unit : UnitId) : Except RunError Nat × Run σ :=
  match r.checkInjection unit with
  | .error e => (.error e, r)
  | .ok i => (.ok r.producers.length, r.attachProducer i unit)

/-- A listener for the rows of a unit; tells the places of both. -/
def addObserver (r : Run σ) (unit : UnitId) : Except RunError (Nat × Nat) × Run σ :=
  match r.expect .addObserver .prepared with
  | .error e => (.error e, r)
  | .ok () =>
    match indexOf? r.units unit with
    | none => (.error (.unknownUnit unit), r)
    | some i =>
      let place := ((r.units[i]?).map (·.border.listeners.size)).getD 0
      let attach (u : RunUnit σ) : RunUnit σ := { u with border := u.border.addListener }
      (.ok (i, place), { r with units := r.units.modify i attach })

def seen (r : Run σ) (place : Nat × Nat) : List Crossing :=
  (((r.units[place.1]?).bind fun u => u.border.listeners[place.2]?).getD #[]).toList

/-- A thread for every unit, as far as the system grants them; for each it refuses it tells why. A
unit that gets none is dropped, its outputs are closed and the run is stopped. -/
def launch (refuses : UnitId → Option String) (r : Run σ) (id : List UInt8) (now : Nat) :
    Except RunError Unit × Run σ :=
  match r.expect .start .prepared with
  | .error e => (.error e, r)
  | .ok () =>
    let manifest : Manifest :=
      { Manifest.new id r.graph.name r.graph.digest now with
        units := r.units.length, channels := r.wires.length }
    let launched := r.units.map (·.launch refuses)
    let r' : Run σ :=
      { r with
        phase := .running
        manifest := some manifest
        units := launched.map (·.1)
        calls := (launched.filterMap (·.2)).reverse ++ r.calls }
    match r.units.filterMap fun u => (u.refusal refuses).map fun reason => (u, reason) with
    | [] => (.ok (), r')
    | (u, reason) :: others =>
      let stop := ((u, reason) :: others).flatMap fun (u, _) =>
        u.border.outputChannels.map .close ++ NetAction.stopAll
      (.error (.spawn u.id reason), { r' with stops := r.stops ++ [stop] })

/-- A thread for every unit. -/
def start (r : Run σ) (id : List UInt8) (now : Nat) : Except RunError Unit × Run σ :=
  r.launch (fun _ => none) id now

/-- Begins to stop the run, as one more party. -/
def requestStop (r : Run σ) : Run σ :=
  { r with stops := r.stops ++ [NetAction.stopAll] }

/-- Stops the run while nobody else moves. -/
def stop (r : Run σ) : Run σ :=
  { r with net := r.net.stop }

def unitReport (u : RunUnit σ) : UnitReport :=
  { unit := u.id
    state := u.life.outcome
    linesRead := u.border.counters.linesRead
    linesWritten := u.border.counters.linesWritten
    errors := u.border.counters.errors
    messages := u.border.counters.messages.toList }

def channelReport (r : Run σ) (w : Wire) : ChannelReport :=
  let c := (r.net.channel? w.channel).getD (.new 1)
  { id := ⟨w.channel⟩
    source := w.source
    target := w.target
    capacity := c.capacity
    rowsPut := c.rowsPut
    rowsTaken := c.rowsTaken
    peakDepth := c.peakDepth }

def summarize (r : Run σ) (now : Nat) : RunReport :=
  { units := r.units.map unitReport
    channels := r.wires.map r.channelReport
    manifest := match r.manifest with
      | some m => m.finish now
      | none => Manifest.new [] r.graph.name (List.replicate 32 0) now }

/-- The report, once no unit goes on; nothing while one does. -/
def wait (r : Run σ) (now : Nat) : Option (Except RunError RunReport × Run σ) :=
  match r.phase with
  | .running =>
    if r.unitsIdle then
      let report := r.summarize now
      some (.ok report, { r with phase := .finished, report := some report, manifest := none })
    else none
  | .finished =>
    match r.report with
    | some report => some (.ok report, r)
    | none => some (.error (.outOfPhase .wait r.phase), r)
  | phase => some (.error (.outOfPhase .wait phase), r)

/-- Disposes of what waits for a thread. -/
def unload (r : Run σ) : Disposal σ :=
  if r.phase = .prepared then Disposal.ofUnits r.units else ⟨r.units, [], none⟩

/-- Gives the run up: what has no thread is disposed of, what has one is stopped. -/
def abandon (r : Run σ) : Run σ :=
  let d := r.unload
  let r := { r with units := d.units, calls := d.calls.reverse ++ r.calls }
  if r.phase = .running then r.stop else r

def offer (r : Run σ) (k : Nat) (rows : List (Except Error Row)) : Run σ :=
  { r with producers := r.producers.modify k (·.offer rows) }

def finishProducer (r : Run σ) (k : Nat) : Run σ :=
  { r with producers := r.producers.modify k (·.finish) }

def unitState (r : Run σ) (unit : UnitId) : Option UnitState :=
  (r.unit? unit).map (·.life.state)

end Run

end Sluice
