import Sluice.Border.Perform
import Sluice.Run.Action
import Sluice.Run.Lifecycle
import Sluice.Step.Type

/-!
One unit of a run and its thread, step by step. At the top of its loop a unit looks at the stop
flag and starts a batch; reads and writes of the batch are calls across its border. A unit that
fails records the error and stops the whole run before it closes its outputs; every unit closes
its outputs, then disposes of its step, then takes its end state.
-/

namespace Sluice

abbrev BatchTask (σ : Type) := Task (Except Halt BatchOutcome × σ)

inductive Stage (σ : Type) where
  /-- There is no thread. -/
  | unstarted
  | spawned
  /-- At the top of the loop. -/
  | checking
  | working (task : BatchTask σ)
  | reading (call : Reading) (next : Except StepError (Option Row) → BatchTask σ)
  | writing (call : Writing) (next : Except StepError Unit → BatchTask σ)
  /-- Failed, and stopping the run. -/
  | failing (todo : List NetAction)
  | closing (todo : List NetAction) (ending : UnitState)
  | disposing (ending : UnitState)
  /-- Disposed of, with these states still to take. -/
  | leaving (states : List UnitState)
  | ended

/-- Calls of a step, as a run remembers them. -/
inductive Event where
  | init (unit : UnitId)
  | batch (unit : UnitId)
  | dispose (unit : UnitId)
  deriving DecidableEq, Repr

structure RunUnit (σ : Type) where
  setup : Setup
  border : Border
  life : Lifecycle := {}
  /-- The step's behaviour and memory, from its setting up until its disposal. -/
  step : Option (Behaviour σ × σ) := none
  stage : Stage σ := .unstarted

structure UnitMove (σ : Type) where
  unit : RunUnit σ
  net : Net
  event : Option Event := none

namespace RunUnit

variable {σ : Type}

def id (u : RunUnit σ) : UnitId := u.border.unit

def record (u : RunUnit σ) (message : String) : RunUnit σ :=
  { u with border := u.border.recordError message }

def panicText (what : String) (payload : Option String) : String :=
  what ++ "panicked: " ++ panicMessage payload

/-- On the way out, first closing the outputs. -/
def leave (u : RunUnit σ) (ending : UnitState) : RunUnit σ :=
  { u with stage := .closing (u.border.outputChannels.map .close) ending }

/-- On the way out after a failure, first stopping the run. -/
def fail (u : RunUnit σ) : RunUnit σ :=
  { u with stage := .failing NetAction.stopAll }

/-- What follows a batch. A bad row is recorded; it fails the unit unless bad rows are skipped. -/
def afterBatch (u : RunUnit σ) : Except Halt BatchOutcome → RunUnit σ
  | .ok .more => { u with stage := .checking }
  | .ok .finished => u.leave .finished
  | .error (.error (.data fault)) =>
    let u := u.record fault.message
    match u.border.policy with
    | .skip => { u with stage := .checking }
    | .abort => u.fail
  | .error (.error .aborted) => u.leave .stopped
  | .error (.error e) => (u.record e.message).fail
  | .error (.panic payload) => (u.record (panicText "" payload)).fail

def surroundings (u : RunUnit σ) : Surroundings :=
  { batchRows := u.border.batchRows, inputs := u.border.inputs.length }

/-- The point at the top of the loop that can be armed to panic. -/
def failPoint (u : RunUnit σ) : String :=
  "process_batch." ++ u.id.step

def check (u : RunUnit σ) (net : Net) (armed : List String) : UnitMove σ :=
  if net.stopping then ⟨u.leave .stopped, net, none⟩
  else if armed.contains u.failPoint then
    ⟨(u.record (panicText "" (some ("failpoint triggered: " ++ u.failPoint)))).fail, net, none⟩
  else match u.step with
    | none => ⟨u.leave .stopped, net, none⟩
    | some (behaviour, memory) =>
      let task := (behaviour.process u.surroundings).start memory
      ⟨{ u with stage := .working task }, net, some (.batch u.id)⟩

/-- One step of a batch: a call is begun, a question is answered, or the batch is over. -/
def work (u : RunUnit σ) (net : Net) : BatchTask σ → RunUnit σ
  | .done (result, memory) =>
    let u : RunUnit σ := { u with step := u.step.map fun s => (s.1, memory) }
    u.afterBatch result
  | .read input next => { u with stage := .reading (Border.readingOf input) next }
  | .write hop row next => { u with stage := .writing (Border.writingOf row hop) next }
  | .report fault next =>
    let (r, border) := u.border.reportData fault
    { u with border, stage := .working (next r) }
  | .stopping next => { u with stage := .working (next net.stopping) }

/-- Disposes of the step; a panic is recorded. -/
def disposeStep (u : RunUnit σ) : RunUnit σ × Option Event :=
  match u.step with
  | none => (u, none)
  | some (behaviour, memory) =>
    let u := { u with step := none }
    match behaviour.dispose memory with
    | .ok () => (u, some (.dispose u.id))
    | .error payload => (u.record (panicText "dispose " payload), some (.dispose u.id))

def spawn (u : RunUnit σ) : RunUnit σ :=
  if u.step.isSome then { u with stage := .spawned } else u

/-- The unit is dropped with the thread it does not get, which disposes of its step. -/
def turnAway (u : RunUnit σ) (reason : String) : RunUnit σ × Option Event :=
  let (u, event) := u.disposeStep
  let u := { u with life := (u.life.advance .stopped).advance .disposed }
  (u.record ("thread spawn failed: " ++ reason), event)

/-- Why the unit gets no thread, if it needs one. -/
def refusal (u : RunUnit σ) (refuses : UnitId → Option String) : Option String :=
  if u.step.isSome then refuses u.id else none

def launch (u : RunUnit σ) (refuses : UnitId → Option String) : RunUnit σ × Option Event :=
  match u.refusal refuses with
  | none => (u.spawn, none)
  | some reason => u.turnAway reason

def move (u : RunUnit σ) (net : Net) (armed : List String) : Option (UnitMove σ) :=
  match u.stage with
  | .unstarted => none
  | .spawned =>
    match u.life.advance? .running with
    | some life => some ⟨{ u with life, stage := .checking }, net, none⟩
    | none => some ⟨u.leave .stopped, net, none⟩
  | .checking => some (u.check net armed)
  | .working task => some ⟨u.work net task, net, none⟩
  | .reading call next =>
    match u.border.advanceRead net call with
    | .blocked => none
    | .continues call border net => some ⟨{ u with border, stage := .reading call next }, net, none⟩
    | .replies r border net => some ⟨{ u with border, stage := .working (next r) }, net, none⟩
  | .writing call next =>
    match u.border.advanceWrite net call with
    | .blocked => none
    | .continues call border net => some ⟨{ u with border, stage := .writing call next }, net, none⟩
    | .replies r border net => some ⟨{ u with border, stage := .working (next r) }, net, none⟩
  | .failing (action :: rest) =>
    let (net, owed) := action.perform net
    some ⟨{ u with stage := .failing (owed ++ rest) }, net, none⟩
  | .failing [] => some ⟨u.leave .errored, net, none⟩
  | .closing (action :: rest) ending =>
    let (net, owed) := action.perform net
    some ⟨{ u with stage := .closing (owed ++ rest) ending }, net, none⟩
  | .closing [] ending => some ⟨{ u with stage := .disposing ending }, net, none⟩
  | .disposing ending =>
    let (u, event) := u.disposeStep
    some ⟨{ u with stage := .leaving [ending, .disposed] }, net, event⟩
  | .leaving (state :: rest) =>
    some ⟨{ u with life := u.life.advance state, stage := .leaving rest }, net, none⟩
  | .leaving [] => some ⟨{ u with stage := .ended }, net, none⟩
  | .ended => none

/-- The thread is over, or there never was one. -/
def isIdle (u : RunUnit σ) : Bool :=
  match u.stage with
  | .unstarted | .ended => true
  | _ => false

def messages (u : RunUnit σ) : List (UnitId × String) :=
  u.border.counters.messages.toList.map fun m => (u.id, m)

end RunUnit

end Sluice
