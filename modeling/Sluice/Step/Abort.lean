import Sluice.Step.Loop

/-!
Failing once too many rows arrive.
-/

namespace Sluice.Abort

structure Config where
  /-- How many rows are let through. -/
  threshold : Nat := 0
  message : Option String := none

def record : Record Json Config :=
  ((Record.start "AbortConfig" 2 fun threshold message => (⟨threshold, message⟩ : Config)).optional
    "threshold" (Document.count "u64") 0).named
    "message" (Document.maybe Document.string) none

structure Memory where
  threshold : Nat := 0
  message : Option String := none
  seen : Nat := 0

def init (setup : Setup) : Except StepError Memory := do
  let config ← setup.config (record.decode true) {}
  return { threshold := config.threshold, message := config.message }

def handle (row : Row) : Work Memory Unit := do
  modify fun m => { m with seen := m.seen + 1 }
  let m ← get
  if m.threshold < m.seen then
    Work.fatal (match m.message with
      | some message => .custom message
      | none => .rowThreshold m.threshold)
  else Work.putRow row

def behaviour : Behaviour Memory where
  fresh := {}
  init := fun setup => (init setup).mapError .error
  process := fun around => Work.forRows handle around.batchRows

end Sluice.Abort
