import Sluice.Border.Basic

/-!
Calls across a border take one access to the shared net at a time. A call answers, goes on, or is
blocked until somebody else moves.
-/

namespace Sluice

/-- One step of a call of kind `κ` that answers with `ρ`. -/
inductive Progress (κ ρ : Type) where
  | blocked
  | continues (call : κ) (border : Border) (net : Net)
  | replies (reply : ρ) (border : Border) (net : Net)

/-- What became of a call that nobody interfered with. -/
structure Outcome (ρ : Type) where
  /-- Missing when the call has to wait. -/
  reply : Option ρ
  border : Border
  net : Net

namespace Progress

variable {κ ρ : Type}

/-- Takes a call as far as it gets while nobody else moves, in at most `fuel` steps. -/
def settle (advance : κ → Border → Net → Progress κ ρ) : Nat → κ → Border → Net → Outcome ρ
  | 0, _, border, net => ⟨none, border, net⟩
  | fuel + 1, call, border, net =>
    match advance call border net with
    | .blocked => ⟨none, border, net⟩
    | .continues call border net => settle advance fuel call border net
    | .replies reply border net => ⟨some reply, border, net⟩

end Progress

end Sluice
