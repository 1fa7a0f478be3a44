import Sluice.Channel.Net

/-!
Accesses to the shared net that need no answer. Each is one step; a change of a channel leaves a
signal to its reader owed. Stopping a run raises the flag first and aborts the channels after it,
those that are there by then, one by one.
-/

namespace Sluice

inductive NetAction where
  /-- Raises the stop flag. -/
  | raise
  /-- Looks up the channels, all of which are to be aborted. -/
  | abortAll
  /-- Looks up the wakeups, all of which are to be notified. -/
  | notifyAll
  | abort (channel : Nat)
  | close (channel : Nat)
  /-- Tells the reader of a channel that it changed. -/
  | signal (channel : Nat)
  | notify (wakeup : Nat)
  deriving DecidableEq, Repr

namespace NetAction

/-- The net after an action, and the actions owed because of it. -/
def perform (net : Net) : NetAction → Net × List NetAction
  | .raise => ({ net with stopping := true }, [])
  | .abortAll => (net, (List.range net.links.length).map .abort)
  | .notifyAll => (net, (List.range net.wakeups.length).map .notify)
  | .abort i =>
    match net.abort? i with
    | some net => (net, [.signal i])
    | none => (net, [])
  | .close i =>
    match net.close? i with
    | some net => (net, [.signal i])
    | none => (net, [])
  | .signal i => (net.signal i, [])
  | .notify w => (net.notify w, [])

/-- All that stopping a run takes: the flag, every channel, every wakeup. -/
def stopAll : List NetAction :=
  [.raise, .abortAll, .notifyAll]

end NetAction

end Sluice
