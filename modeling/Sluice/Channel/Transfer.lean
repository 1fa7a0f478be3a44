import Sluice.Channel.Basic

/-!
One writer and one reader on a channel of their own: the writer puts items and ends the stream, the
reader takes whatever comes, each going on as long as it can.
-/

namespace Sluice

structure Transfer (α : Type) where
  channel : Channel α
  /-- Items still to put. -/
  pending : List α
  /-- How the writer ended, once it has. -/
  written : Option (Except Refusal Unit) := none
  received : List α := []
  /-- How the reader ended, once it has. -/
  ended : Option (Except Refusal Unit) := none

namespace Transfer

variable {α : Type}

/-- One step of the writer. It stops at the first refusal, otherwise it ends the stream. -/
def write (t : Transfer α) : Transfer α :=
  match t.written, t.pending with
  | some _, _ => t
  | none, [] => { t with channel := t.channel.close, written := some (.ok ()) }
  | none, a :: rest =>
    match t.channel.put a with
    | .waits => t
    | .returns (.ok ()) channel => { t with channel, pending := rest }
    | .returns (.error e) channel => { t with channel, written := some (.error e) }

def read (t : Transfer α) : Transfer α :=
  match t.ended with
  | some _ => t
  | none =>
    match t.channel.get with
    | .waits => t
    | .returns (.ok (some a)) channel => { t with channel, received := t.received ++ [a] }
    | .returns (.ok none) channel => { t with channel, ended := some (.ok ()) }
    | .returns (.error e) channel => { t with channel, ended := some (.error e) }

def run : Nat → Transfer α → Transfer α
  | 0, t => t
  | n + 1, t => if t.ended.isSome && t.written.isSome then t else run n t.write.read

def ofItems (items : List α) (c : Channel α) : Transfer α :=
  run (2 * (items.length + c.queue.length) + 4) { channel := c, pending := items }

end Transfer

end Sluice
