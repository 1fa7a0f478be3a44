import Sluice.Channel.Basic

/-!
Threads that call one channel, down to taking its lock, waiting on its two conditions and waking
others. A thread that has to wait parks on a condition and gives the lock up; whoever changes the
channel gives the lock up first and signals the conditions afterwards; a woken thread looks again.
-/

namespace Sluice.Waiting

inductive Call (α : Type) where
  | put (a : α)
  | get
  | tryGet
  | close
  | abort
  /-- Waits until the reader's wakeup has left this generation. -/
  | past (seen : UInt64)
  deriving DecidableEq, Repr

inductive Condition where
  | notEmpty
  | notFull
  /-- The reader's wakeup changed. -/
  | changed
  deriving DecidableEq, Repr

inductive Reply (α : Type) where
  | put (r : Except Refusal Unit)
  | got (r : Except Refusal (Option α))
  | polled (r : Except Refusal (Poll α))
  | done
  | woken

/-- What a thread still owes to others after it has changed the channel. -/
inductive Signal where
  /-- Wakes one of the threads parked on a condition. -/
  | one (c : Condition)
  | all (c : Condition)
  /-- Counts a change of the reader's wakeup and wakes all that wait for it. -/
  | wakeup
  deriving DecidableEq, Repr

inductive Place (α : Type) where
  | entering (call : Call α)
  | parked (on : Condition) (call : Call α)
  | woken (call : Call α)
  | signalling (owed : List Signal) (reply : Reply α)
  | returned (reply : Reply α)

structure State (α : Type) where
  channel : Channel α
  /-- The reader has a wakeup that changes are counted on. -/
  hasWakeup : Bool
  wakeup : Wakeup := {}
  threads : List (Place α) := []

variable {α : Type}

/-- The signals of a change that both sides may wait for. -/
def endSignals : List Signal :=
  [.all .notEmpty, .all .notFull, .wakeup]

/-- One look at the channel under its lock. -/
def attempt (s : State α) (call : Call α) : Place α × Channel α :=
  let c := s.channel
  match call with
  | .put a =>
    match c.put a with
    | .waits => (.parked .notFull call, c)
    | .returns (.ok ()) c => (.signalling [.one .notEmpty, .wakeup] (.put (.ok ())), c)
    | .returns (.error e) c => (.returned (.put (.error e)), c)
  | .get =>
    match c.get with
    | .waits => (.parked .notEmpty call, c)
    | .returns (.ok (some a)) c => (.signalling [.one .notFull] (.got (.ok (some a))), c)
    | .returns r c => (.returned (.got r), c)
  | .tryGet =>
    match c.tryGet with
    | (.ok (.item a), c) => (.signalling [.one .notFull] (.polled (.ok (.item a))), c)
    | (r, c) => (.returned (.polled r), c)
  | .close =>
    if c.closed then (.returned .done, c) else (.signalling endSignals .done, c.close)
  | .abort =>
    if c.aborted then (.returned .done, c) else (.signalling endSignals .done, c.abort)
  | .past seen =>
    if s.wakeup.generation = seen then (.parked .changed call, c) else (.returned .woken, c)

def wake (on : Condition) : Place α → Place α
  | .parked c call => if c = on then .woken call else .parked c call
  | p => p

def wakeAll (on : Condition) (s : State α) : State α :=
  { s with threads := s.threads.map (wake on) }

def wakeOne (on : Condition) (pick : Nat) (s : State α) : State α :=
  { s with threads := s.threads.modify pick (wake on) }

def deliver (signal : Signal) (pick : Nat) (s : State α) : State α :=
  match signal with
  | .one c => wakeOne c pick s
  | .all c => wakeAll c s
  | .wakeup =>
    if s.hasWakeup then wakeAll .changed { s with wakeup := s.wakeup.notify } else s

/-- Whether the chosen thread is one that a signal to one thread may go to. -/
def mayPick (on : Condition) (pick : Nat) (s : State α) : Bool :=
  let waits : Place α → Bool
    | .parked c _ => c = on
    | _ => false
  (s.threads[pick]?).any waits || !s.threads.any waits

/-- One step of a thread. A signal to one thread goes to the picked one. -/
def step (s : State α) (thread pick : Nat) : Option (State α) :=
  match s.threads[thread]? with
  | some (.entering call) | some (.woken call) =>
    let (place, channel) := attempt s call
    some { s with channel, threads := s.threads.set thread place }
  | some (.signalling (signal :: owed) reply) =>
    let allowed := match signal with
      | .one c => mayPick c pick s
      | _ => true
    if allowed then
      some (deliver signal pick { s with threads := s.threads.set thread (.signalling owed reply) })
    else none
  | some (.signalling [] reply) => some { s with threads := s.threads.set thread (.returned reply) }
  | _ => none

def enter (s : State α) (call : Call α) : State α :=
  { s with threads := s.threads ++ [.entering call] }

def firstParked (on : Condition) (s : State α) : Nat :=
  (s.threads.findIdx? fun
    | .parked c _ => decide (c = on)
    | _ => false).getD 0

/-- The thread that the next signal of a thread goes to when waiting threads are woken in order. -/
def nextPick (s : State α) (thread : Nat) : Nat :=
  match s.threads[thread]? with
  | some (.signalling (.one c :: _) _) => firstParked c s
  | _ => 0

/-- Every thread takes one step, in order, if it can; whether any could. -/
def sweep (s : State α) : State α × Bool :=
  (List.range s.threads.length).foldl
    (fun (s, moved) i =>
      match step s i (nextPick s i) with
      | some s => (s, true)
      | none => (s, moved))
    (s, false)

/-- Lets the threads run until none of them can, for at most `fuel` rounds. -/
def settle : Nat → State α → State α
  | 0, s => s
  | fuel + 1, s =>
    match sweep s with
    | (s, true) => settle fuel s
    | (s, false) => s

end Sluice.Waiting
