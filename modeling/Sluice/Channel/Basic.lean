/-!
Bounded channels: one writer, one reader, first in first out. Each operation here is one critical
section; an operation that has to wait leaves the channel as it is. An aborted channel refuses
everything; after the writer is done no item enters, and what is queued can still be read.
-/

namespace Sluice

inductive Refusal where
  | aborted
  | closed
  deriving DecidableEq, Repr

def Refusal.message : Refusal → String
  | .aborted => "channel aborted"
  | .closed => "channel closed: producer already finished"

/-- A channel and what it has counted. The counts are not cut off: counters of 64 bits would start
again at `2 ^ 64` rows, and no run gets there. -/
structure Channel (α : Type) where
  capacity : Nat
  /-- Queued items, the next one to be read first. -/
  queue : List α := []
  /-- The writer is done. -/
  closed : Bool := false
  aborted : Bool := false
  rowsPut : Nat := 0
  rowsTaken : Nat := 0
  /-- The largest length the queue has had. -/
  peakDepth : Nat := 0
  capacity_pos : 0 < capacity
  deriving DecidableEq, Repr

/-- What a blocking operation comes to when it gets its turn. -/
inductive Turn (α ρ : Type) where
  | waits
  | returns (result : ρ) (channel : Channel α)

inductive Poll (α : Type) where
  | item (a : α)
  | empty
  | ended
  deriving DecidableEq, Repr

namespace Channel

variable {α : Type}

/-- An empty channel; a capacity of zero counts as one. -/
def new (capacity : Nat) : Channel α :=
  { capacity := max capacity 1, capacity_pos := by omega }

instance : Inhabited (Channel α) := ⟨new 1⟩

/-- The writer is done and nothing is left to read. -/
def drained (c : Channel α) : Bool :=
  c.closed && c.queue.isEmpty

def put (c : Channel α) (a : α) : Turn α (Except Refusal Unit) :=
  if c.capacity ≤ c.queue.length && !c.aborted && !c.closed then .waits
  else if c.aborted then .returns (.error .aborted) c
  else if c.closed then .returns (.error .closed) c
  else
    .returns (.ok ())
      { c with
        queue := c.queue ++ [a]
        rowsPut := c.rowsPut + 1
        peakDepth := max c.peakDepth (c.queue.length + 1) }

def get (c : Channel α) : Turn α (Except Refusal (Option α)) :=
  if c.queue.isEmpty && !c.closed && !c.aborted then .waits
  else if c.aborted then .returns (.error .aborted) c
  else match c.queue with
    | [] => .returns (.ok none) c
    | a :: rest => .returns (.ok (some a)) { c with queue := rest, rowsTaken := c.rowsTaken + 1 }

def tryGet (c : Channel α) : Except Refusal (Poll α) × Channel α :=
  if c.aborted then (.error .aborted, c)
  else match c.queue with
    | a :: rest => (.ok (.item a), { c with queue := rest, rowsTaken := c.rowsTaken + 1 })
    | [] => (.ok (if c.closed then .ended else .empty), c)

def close (c : Channel α) : Channel α :=
  { c with closed := true }

/-- Releases both ends at once. -/
def abort (c : Channel α) : Channel α :=
  { c with aborted := true }

end Channel

/-- A counter that a reader of several channels watches for changes. -/
structure Wakeup where
  generation : UInt64 := 0
  deriving DecidableEq, Repr, Inhabited

namespace Wakeup

/-- Counts a change, starting over after the last generation. -/
def notify (w : Wakeup) : Wakeup :=
  ⟨w.generation + 1⟩

end Wakeup

end Sluice
