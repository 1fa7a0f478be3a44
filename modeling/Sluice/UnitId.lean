import Sluice.Value.Order

/-!
Units: the single copies that steps run as, each known by its step and its number.
-/

namespace Sluice

structure UnitId where
  step : String
  copy : Nat
  deriving DecidableEq, Repr, Inhabited

namespace UnitId

def format (u : UnitId) : String :=
  u.step ++ "." ++ u.copy.repr

def compare (a b : UnitId) : Ordering :=
  (Value.compareStrings a.step b.step).then (Ord.compare a.copy b.copy)

end UnitId

structure ChannelId where
  number : Nat
  deriving DecidableEq, Repr, Inhabited

def ChannelId.format (c : ChannelId) : String :=
  "ChannelId(" ++ c.number.repr ++ ")"

end Sluice
