import Sluice.Border.Reading
import Sluice.Border.Writing
import Sluice.Step.Task

/-!
A whole batch while nobody else uses the net.
-/

namespace Sluice.Border

variable {α : Type}

def readingOf : Option Nat → Reading
  | none => .any
  | some i => .only i

def writingOf (row : Row) : Option Nat → Writing
  | none => .every row
  | some i => .only i row

/-- Runs a task; it has no reply when a read or a write in it has to wait. -/
def perform : Task α → Border → Net → Outcome α
  | .done a, p, net => ⟨some a, p, net⟩
  | .read input next, p, net =>
    match p.read net (readingOf input) with
    | ⟨some r, p, net⟩ => perform (next r) p net
    | ⟨none, p, net⟩ => ⟨none, p, net⟩
  | .write hop row next, p, net =>
    match p.write net (writingOf row hop) with
    | ⟨some r, p, net⟩ => perform (next r) p net
    | ⟨none, p, net⟩ => ⟨none, p, net⟩
  | .report fault next, p, net =>
    let (r, p) := p.reportData fault
    perform (next r) p net
  | .stopping next, p, net => perform (next net.stopping) p net

/-- Everything left in a channel, and how its stream ends. -/
def drain : Nat → Nat → Net → List Row × Except Refusal (Poll Row) × Net
  | 0, _, net => ([], .ok .empty, net)
  | fuel + 1, i, net =>
    match net.tryGet i with
    | (.ok (.item row), net) =>
      let (rows, ending, net) := drain fuel i net
      (row :: rows, ending, net)
    | (ending, net) => ([], ending, net)

end Sluice.Border
