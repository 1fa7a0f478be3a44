import Sluice.Error
import Sluice.Document
import Sluice.Text.Blank

/-!
Engine settings: their defaults, what the environment and a graph file may change, and which
settings a run cannot have.
-/

namespace Sluice

structure Settings where
  /-- Rows a channel holds before a writer has to wait. -/
  channelCapacity : Nat := 10000
  /-- Every row a unit writes has the layout of its first one. -/
  safeMode : Bool := false
  /-- What the names of unit threads begin with. -/
  threadPrefix : String := "hopline-"
  /-- The most rows a step moves in one batch. -/
  batchRows : Nat := 64
  deriving DecidableEq, Repr, Inhabited

structure Overrides where
  channelCapacity : Option Nat := none
  safeMode : Option Bool := none
  threadPrefix : Option String := none
  batchRows : Option Nat := none
  deriving DecidableEq, Repr, Inhabited

abbrev Environment := List (String × String)

def Environment.get? (env : Environment) (name : String) : Option String :=
  (env.find? (·.1 == name)).map (·.2)

namespace Settings

def onTexts : List String := ["1", "true", "TRUE", "yes", "Y"]

/-- The defaults, changed by what the environment says. A number that cannot be read changes
nothing, any other text of the switch turns it off. -/
def ofEnvironment (env : Environment) : Settings :=
  let base : Settings := {}
  let number (name : String) (fallback : Nat) : Nat :=
    ((env.get? name).bind fun text => (readCount text).toOption).getD fallback
  { channelCapacity := number "HOPLINE_CHANNEL_CAPACITY" base.channelCapacity
    safeMode := match env.get? "HOPLINE_SAFE_MODE" with
      | some text => onTexts.contains (Text.trim text)
      | none => base.safeMode
    threadPrefix := (env.get? "HOPLINE_THREAD_PREFIX").getD base.threadPrefix
    batchRows := number "HOPLINE_BATCH_ROWS" base.batchRows }

def check (s : Settings) : Except Error Unit :=
  if s.channelCapacity = 0 then .error (.setting .channelCapacity)
  else if s.batchRows = 0 then .error (.setting .batchRows)
  else .ok ()

def apply (s : Settings) (o : Overrides) : Settings :=
  { channelCapacity := o.channelCapacity.getD s.channelCapacity
    safeMode := o.safeMode.getD s.safeMode
    threadPrefix := o.threadPrefix.getD s.threadPrefix
    batchRows := o.batchRows.getD s.batchRows }

section Documents

variable {δ : Type} [Document δ]

def record : Record δ Settings :=
  let base : Settings := {}
  ((((Record.start "EngineConfig" 4 fun capacity safe name rows =>
    (⟨capacity, safe, name, rows⟩ : Settings)).optional
    "channel_capacity" Document.size base.channelCapacity).optional
    "safe_mode" Document.bool base.safeMode).optional
    "thread_prefix" Document.string base.threadPrefix).optional
    "batch_rows" Document.size base.batchRows

def decode (doc : δ) : Except ShapeFault Settings :=
  record.decode false doc

end Documents

end Settings

namespace Overrides

/-- Both sets of changes, the second one stronger. -/
def merge (weak strong : Overrides) : Overrides :=
  { channelCapacity := strong.channelCapacity.or weak.channelCapacity
    safeMode := strong.safeMode.or weak.safeMode
    threadPrefix := strong.threadPrefix.or weak.threadPrefix
    batchRows := strong.batchRows.or weak.batchRows }

variable {δ : Type} [Document δ]

def record : Record δ Overrides :=
  ((((Record.start "ConfigOverrides" 4 fun capacity safe name rows =>
    (⟨capacity, safe, name, rows⟩ : Overrides)).optional
    "channel_capacity" (Document.maybe Document.size) none).optional
    "safe_mode" (Document.maybe Document.bool) none).optional
    "thread_prefix" (Document.maybe Document.string) none).optional
    "batch_rows" (Document.maybe Document.size) none

/-- Only the four settings may be named. -/
def decode (doc : δ) : Except ShapeFault Overrides :=
  record.decode true doc

end Overrides

end Sluice
