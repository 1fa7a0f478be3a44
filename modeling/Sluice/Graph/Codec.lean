import Sluice.Graph.Basic
import Sluice.Document
import Sluice.Digest

/-!
Graphs as documents, and the digest of what a graph runs.
-/

namespace Sluice

namespace DataErrorPolicy

variable {δ : Type} [Document δ]

def decode (doc : δ) : Except ShapeFault DataErrorPolicy :=
  (Document.variant ["skip", "abort"] doc).map fun name => if name = "skip" then .skip else .abort

end DataErrorPolicy

namespace StepSpec

def encode (s : StepSpec) : Json :=
  .obj [("name", .str s.name), ("type", .str s.type), ("copies", .ofNat s.copies),
    ("config", s.config), ("distribute", .bool s.distribute),
    ("on_data_error", .str s.onDataError.name)]

variable {δ : Type} [Document δ]

def record : Record δ StepSpec :=
  ((((((Record.start "StepMeta" 6 fun name type copies config distribute policy =>
    (⟨name, type, copies, config, distribute, policy⟩ : StepSpec)).required
    "name" Document.string).required
    "type" Document.string).optional
    "copies" Document.size 1).optional
    "config" Document.json .null).optional
    "distribute" Document.bool false).optional
    "on_data_error" DataErrorPolicy.decode .abort

def decode (doc : δ) : Except ShapeFault StepSpec :=
  record.decode false doc

end StepSpec

namespace Hop

def encode (h : Hop) : Json :=
  .obj [("from", .str h.source), ("to", .str h.target), ("enabled", .bool h.enabled)]

variable {δ : Type} [Document δ]

def record : Record δ Hop :=
  (((Record.start "HopMeta" 3 fun source target enabled => (⟨source, target, enabled⟩ : Hop)).required
    "from" Document.string).required
    "to" Document.string).optional
    "enabled" Document.bool true

def decode (doc : δ) : Except ShapeFault Hop :=
  record.decode false doc

end Hop

namespace Graph

def encode (g : Graph) : Json :=
  .obj [("name", .str g.name), ("steps", .arr (g.steps.map StepSpec.encode)),
    ("hops", .arr (g.hops.map Hop.encode))]

variable {δ : Type} [Document δ]

def record : Record δ Graph :=
  (((Record.start "TransGraph" 3 fun name steps hops => (⟨name, steps, hops⟩ : Graph)).optional
    "name" Document.string "").optional
    "steps" (Document.listOf StepSpec.decode) []).optional
    "hops" (Document.listOf Hop.decode) []

def decode (doc : δ) : Except ShapeFault Graph :=
  record.decode false doc

/-- What a graph runs, as text: its steps and its enabled hops. Neither the name of the graph nor a
disabled hop is part of it. -/
def runnableText (g : Graph) : String :=
  (Json.arr [.arr (g.steps.map StepSpec.encode), .arr (g.enabledHops.map Hop.encode)]).compact

def digest (g : Graph) : List UInt8 :=
  Digest.ofText g.runnableText

end Graph

end Sluice
