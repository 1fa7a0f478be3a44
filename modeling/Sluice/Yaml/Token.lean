/-!
Tokens of a YAML text.
-/

namespace Sluice.Yaml

inductive Style where
  | plain
  | literal
  | folded
  | quoted
  deriving DecidableEq, Repr, Inhabited

inductive Token where
  | version (major minor : Nat)
  /-- Declares a tag handle. -/
  | tagHandle (handle start : String)
  | documentStart
  | documentEnd
  | blockSequenceStart
  | blockMappingStart
  | blockEnd
  | flowSequenceStart
  | flowSequenceEnd
  | flowMappingStart
  | flowMappingEnd
  | blockEntry
  | flowEntry
  | key
  | value
  | alias (name : String)
  | anchor (name : String)
  /-- A tag; without a handle it is written in full. -/
  | tag (handle suffix : String)
  | scalar (style : Style) (text : String)
  deriving DecidableEq, Repr, Inhabited

end Sluice.Yaml
