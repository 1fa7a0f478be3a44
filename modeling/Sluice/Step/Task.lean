import Sluice.Border.Basic

/-!
What a step does in one batch, as its unit sees it: it asks for rows, hands rows over, reports rows
it cannot process and asks whether the run stops, and goes on with the answer each time. A batch
ends with a result, breaks off with an error, or panics; the memory of the step survives all three.
-/

namespace Sluice

inductive Task (α : Type) where
  | done (a : α)
  /-- Asks for a row, of one input or of any. -/
  | read (input : Option Nat) (next : Except StepError (Option Row) → Task α)
  /-- Hands a row over, to one hop or to all. -/
  | write (hop : Option Nat) (row : Row) (next : Except StepError Unit → Task α)
  /-- Reports a row that cannot be processed. -/
  | report (fault : DataFault) (next : Except StepError Unit → Task α)
  /-- Asks whether the run is being stopped. -/
  | stopping (next : Bool → Task α)

namespace Task

variable {α β γ : Type}

def bind : Task α → (α → Task β) → Task β
  | .done a, f => f a
  | .read input next, f => .read input fun r => (next r).bind f
  | .write hop row next, f => .write hop row fun r => (next r).bind f
  | .report fault next, f => .report fault fun r => (next r).bind f
  | .stopping next, f => .stopping fun b => (next b).bind f

instance : Monad Task where
  pure := .done
  bind := bind

theorem bind_assoc (t : Task α) (f : α → Task β) (g : β → Task γ) :
    (t.bind f).bind g = t.bind fun a => (f a).bind g := by
  induction t with
  | done a => rfl
  | read input next ih => simp only [bind, ih]
  | write hop row next ih => simp only [bind, ih]
  | report fault next ih => simp only [bind, ih]
  | stopping next ih => simp only [bind, ih]

end Task

/-- How a call of a step breaks off. A panic may carry a text. -/
inductive Halt where
  | error (e : StepError)
  | panic (payload : Option String)

def panicMessage (payload : Option String) : String :=
  payload.getD "non-string panic payload"

/-- What a finished batch reports: more may follow, or there is nothing left to do. -/
inductive BatchOutcome where
  | more
  | finished
  deriving DecidableEq, Repr

/-- The work of a step whose memory is a `σ`. -/
abbrev Work (σ α : Type) := ExceptT Halt (StateT σ Task) α

namespace Work

variable {σ α : Type}

def ask (t : Task (Except StepError α)) : Work σ α :=
  ExceptT.mk do
    match ← liftM (n := StateT σ Task) t with
    | .ok a => return .ok a
    | .error e => return .error (.error e)

def getRow : Work σ (Option Row) := ask (.read none .done)

def getRowFrom (input : Nat) : Work σ (Option Row) := ask (.read (some input) .done)

def putRow (row : Row) : Work σ Unit := ask (.write none row .done)

def putRowTo (hop : Nat) (row : Row) : Work σ Unit := ask (.write (some hop) row .done)

/-- Where bad rows are skipped this counts one, elsewhere it ends the batch. -/
def reportData (fault : DataFault) : Work σ Unit := ask (.report fault .done)

def isStopping : Work σ Bool := ask (.stopping fun b => .done (.ok b))

def fail (e : StepError) : Work σ α := throw (.error e)

def fatal (fault : FatalFault) : Work σ α := fail (.fatal fault)

def panic (payload : Option String) : Work σ α := throw (.panic payload)

/-- A whole batch from a memory: how it ends, and the memory it leaves. -/
def start (work : Work σ α) (memory : σ) : Task (Except Halt α × σ) :=
  work.run.run memory

end Work

end Sluice
