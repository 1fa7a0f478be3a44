import Sluice.Channel.Basic
import Sluice.Row
import Sluice.UnitId

/-!
What the units of a run share: the channels between them, one wakeup for each reader, and the flag
that asks them to stop. Changing a channel and telling its reader are two steps; whoever takes the
first owes the second.
-/

namespace Sluice

/-- A channel with the wakeup of its reader, if it has one. -/
structure Link where
  channel : Channel Row
  reader : Option Nat
  deriving Inhabited

structure Net where
  links : List Link := []
  wakeups : List Wakeup := []
  stopping : Bool := false
  deriving Inhabited

namespace Net

def channel? (net : Net) (i : Nat) : Option (Channel Row) :=
  (net.links[i]?).map (·.channel)

def setChannel (net : Net) (i : Nat) (c : Channel Row) : Net :=
  { net with links := net.links.modify i fun link => { link with channel := c } }

def generation (net : Net) (wakeup : Nat) : UInt64 :=
  ((net.wakeups[wakeup]?).getD {}).generation

def notify (net : Net) (wakeup : Nat) : Net :=
  { net with wakeups := net.wakeups.modify wakeup Wakeup.notify }

def signal (net : Net) (i : Nat) : Net :=
  match (net.links[i]?).bind (·.reader) with
  | some wakeup => net.notify wakeup
  | none => net

/-- Writes to a channel, or nothing while it is full. -/
def put (net : Net) (i : Nat) (row : Row) : Option (Except Refusal Unit × Net) :=
  match net.channel? i with
  | none => none
  | some c =>
    match c.put row with
    | .waits => none
    | .returns r c => some (r, net.setChannel i c)

def get (net : Net) (i : Nat) : Option (Except Refusal (Option Row) × Net) :=
  match net.channel? i with
  | none => none
  | some c =>
    match c.get with
    | .waits => none
    | .returns r c => some (r, net.setChannel i c)

def tryGet (net : Net) (i : Nat) : Except Refusal (Poll Row) × Net :=
  match net.channel? i with
  | none => (.ok .empty, net)
  | some c =>
    let (r, c) := c.tryGet
    (r, net.setChannel i c)

/-- Marks the end of a channel's stream, unless it is marked already. -/
def close? (net : Net) (i : Nat) : Option Net :=
  match net.channel? i with
  | none => none
  | some c => if c.closed then none else some (net.setChannel i c.close)

def abort? (net : Net) (i : Nat) : Option Net :=
  match net.channel? i with
  | none => none
  | some c => if c.aborted then none else some (net.setChannel i c.abort)

def close (net : Net) (i : Nat) : Net :=
  match net.close? i with
  | some net => net.signal i
  | none => net

def abort (net : Net) (i : Nat) : Net :=
  match net.abort? i with
  | some net => net.signal i
  | none => net

/-- Raises the flag, then aborts every channel and notifies every wakeup. -/
def stop (net : Net) : Net :=
  let net := { net with stopping := true }
  let net := (List.range net.links.length).foldl abort net
  (List.range net.wakeups.length).foldl notify net

def addLink (net : Net) (capacity : Nat) (reader : Option Nat) : Nat × Net :=
  (net.links.length, { net with links := net.links ++ [⟨.new capacity, reader⟩] })

def addWakeup (net : Net) : Nat × Net :=
  (net.wakeups.length, { net with wakeups := net.wakeups ++ [{}] })

end Net

end Sluice
