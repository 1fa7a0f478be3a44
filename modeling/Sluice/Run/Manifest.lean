import Sluice.Json.Basic
import Sluice.Text.Hex

/-!
Manifests: which graph a run ran, with which engine, and when.
-/

namespace Sluice

def engineVersion : String := "0.1.0"

structure Manifest where
  /-- Sixteen bytes that no two runs share. -/
  id : List UInt8
  graphName : String
  graphDigest : List UInt8
  engineVersion : String := Sluice.engineVersion
  units : Nat := 0
  channels : Nat := 0
  /-- Milliseconds by the clock of whoever runs it. -/
  started : Nat
  finished : Nat
  deriving DecidableEq, Repr

namespace Manifest

def new (id : List UInt8) (graphName : String) (graphDigest : List UInt8) (started : Nat) :
    Manifest :=
  { id, graphName, graphDigest, started, finished := started }

/-- A run does not end before it starts, whatever the clock says. -/
def finish (m : Manifest) (now : Nat) : Manifest :=
  { m with finished := max now m.started }

def duration (m : Manifest) : Nat :=
  m.finished - m.started

/-- Hexadecimal digits in groups of 8, 4, 4, 4 and 12. -/
def idText (id : List UInt8) : String :=
  let part (start n : Nat) : String := Text.hexOfBytes ((id.drop start).take n)
  "-".intercalate [part 0 4, part 4 2, part 6 2, part 8 2, part 10 6]

def encode (m : Manifest) : Json :=
  .obj [
    ("id", .str (idText m.id)),
    ("graph_name", .str m.graphName),
    ("graph_hash", .arr (m.graphDigest.map fun b => .ofNat b.toNat)),
    ("engine_version", .str m.engineVersion),
    ("units", .ofNat m.units),
    ("channels", .ofNat m.channels),
    ("started_ms", .ofNat m.started),
    ("finished_ms", .ofNat m.finished)]

end Manifest

end Sluice
