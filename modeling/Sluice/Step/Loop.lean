import Sluice.Step.Type

/-!
Batches that handle rows one after another.
-/

namespace Sluice

namespace Work

variable {σ : Type}

/-- Handles at most `n` rows; the end of the input finishes the step. -/
def forRows (handle : Row → Work σ Unit) : Nat → Work σ BatchOutcome
  | 0 => return .more
  | n + 1 => do
    match ← getRow with
    | none => return .finished
    | some row =>
      handle row
      forRows handle n

end Work

/-- Hands every row on unchanged. It needs no setting up and takes any configuration. -/
def passThrough : Behaviour Unit where
  fresh := ()
  init := fun _ => .ok ()
  process := fun around => Work.forRows Work.putRow around.batchRows

end Sluice
