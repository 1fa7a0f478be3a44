import Sluice.Run.Basic

/-!
Wiring a run: a unit for each copy of each step, and channels for each enabled hop. Between steps
with as many copies each copy feeds its counterpart, otherwise each copy feeds every copy.
-/

namespace Sluice

structure Wiring (σ : Type) where
  units : List (RunUnit σ) := []
  net : Net := {}
  wires : List Wire := []

namespace Wiring

variable {σ : Type}

def addUnit (settings : Settings) (w : Wiring σ) (spec : StepSpec) (copy : Nat) : Wiring σ :=
  let (wakeup, net) := w.net.addWakeup
  let unit : RunUnit σ :=
    { setup := { spec, copy, settings }
      border :=
        { unit := ⟨spec.name, copy⟩
          wakeup
          policy := spec.onDataError
          distribute := spec.distribute
          batchRows := max settings.batchRows 1
          safeMode := settings.safeMode } }
  { w with units := w.units ++ [unit], net }

def addStep (settings : Settings) (g : Graph) (w : Wiring σ) (name : String) :
    Except RunError (Wiring σ) := do
  let spec ← (g.step name).mapError .core
  return (List.range spec.copies).foldl (fun w copy => w.addUnit settings spec copy) w

def slot (w : Wiring σ) (id : UnitId) : Except RunError Nat :=
  match Run.indexOf? w.units id with
  | some i => .ok i
  | none => .error (.unknownUnit id)

/-- A channel from one unit to another, as an input of the second. -/
def connect (capacity : Nat) (w : Wiring σ) (source target : UnitId) :
    Except RunError (Nat × Wiring σ) := do
  let t ← w.slot target
  let reader := (w.units[t]?).map (·.border.wakeup)
  let (channel, net) := w.net.addLink capacity reader
  let attach (u : RunUnit σ) : RunUnit σ :=
    { u with
      border := u.border.addInput source channel
      setup := { u.setup with inputSteps := u.setup.inputSteps ++ [source.step] } }
  return (channel,
    { units := w.units.modify t attach
      net
      wires := w.wires ++ [⟨channel, source.format, target⟩] })

def targets (source target : StepSpec) (copy : Nat) : List Nat :=
  if source.copies = target.copies then [copy] else List.range target.copies

def connectCopy (capacity : Nat) (source target : StepSpec) (w : Wiring σ) (copy : Nat) :
    Except RunError (Wiring σ) := do
  let sourceId : UnitId := ⟨source.name, copy⟩
  let (channels, w) ← (targets source target copy).foldlM
    (fun (channels, w) j => do
      let (channel, w) ← connect capacity w sourceId ⟨target.name, j⟩
      return (channels ++ [channel], w))
    (([] : List Nat), w)
  let s ← w.slot sourceId
  let attach (u : RunUnit σ) : RunUnit σ :=
    { u with
      border := u.border.addOutput target.name channels
      setup := { u.setup with outputSteps := u.setup.outputSteps ++ [target.name] } }
  return { w with units := w.units.modify s attach }

def connectHop (capacity : Nat) (g : Graph) (w : Wiring σ) (h : Hop) :
    Except RunError (Wiring σ) := do
  let source ← (g.step h.source).mapError .core
  let target ← (g.step h.target).mapError .core
  (List.range source.copies).foldlM (connectCopy capacity source target) w

/-- All units in the order of the plan, then all enabled hops as declared. -/
def ofPlan (settings : Settings) (g : Graph) (plan : Plan) (net : Net) :
    Except RunError (Wiring σ) := do
  let w ← plan.topology.order.foldlM (addStep settings g) { net }
  g.enabledHops.foldlM (connectHop settings.channelCapacity g) w

end Wiring

structure Initiation (σ : Type) where
  units : List (RunUnit σ)
  failure : Option RunError
  /-- In the order of the calls. -/
  calls : List Event

namespace Initiation

variable {σ : Type}

/-- Sets up one unit after another until one fails, which records its error, or panics. -/
def ofUnits (registry : Registry σ) : List (RunUnit σ) → Initiation σ
  | [] => ⟨[], none, []⟩
  | u :: rest =>
    match registry.find? u.setup.spec.type with
    | none => ⟨u :: rest, some (.graph (.unknownType u.setup.spec.name u.setup.spec.type)), []⟩
    | some t =>
      match t.behaviour.init u.setup with
      | .error (.error e) => ⟨u.record e.message :: rest, some (.init u.id e), [.init u.id]⟩
      | .error (.panic payload) => ⟨u :: rest, some (.panicked payload), [.init u.id]⟩
      | .ok memory =>
        let u : RunUnit σ :=
          { u with life := u.life.advance .initialized, step := some (t.behaviour, memory) }
        let others := ofUnits registry rest
        ⟨u :: others.units, others.failure, .init u.id :: others.calls⟩

end Initiation

structure Disposal (σ : Type) where
  units : List (RunUnit σ)
  /-- In the order of the calls. -/
  calls : List Event
  panic : Option (Option String)

/-- Disposes of one step after another until one panics. Nobody catches that: the unit does not
become disposed, and those after it keep their steps. -/
def Disposal.ofUnits {σ : Type} : List (RunUnit σ) → Disposal σ
  | [] => ⟨[], [], none⟩
  | u :: rest =>
    match u.step with
    | none =>
      let others := ofUnits rest
      ⟨u :: others.units, others.calls, others.panic⟩
    | some (behaviour, memory) =>
      let u : RunUnit σ := { u with step := none }
      match behaviour.dispose memory with
      | .error payload => ⟨u :: rest, [.dispose u.id], some payload⟩
      | .ok () =>
        let others := ofUnits rest
        ⟨{ u with life := u.life.advance .disposed } :: others.units, .dispose u.id :: others.calls,
          others.panic⟩

end Sluice
