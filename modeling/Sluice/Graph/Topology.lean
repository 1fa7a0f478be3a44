import Sluice.Graph.Basic
import Sluice.Table

/-!
An order of the steps in which every step comes after the steps that feed it, and the level of
each step: the length of the longest path of hops that ends there. Among steps that could come
next, the one that became ready first does.
-/

namespace Sluice

structure Topology where
  /-- Each step after the steps that feed it. -/
  order : List String
  levels : Table Nat
  deriving DecidableEq, Repr, Inhabited

namespace Topology

def level (t : Topology) (name : String) : Nat :=
  (t.levels.get? name).getD 0

def depth (t : Topology) : Nat :=
  t.levels.foldl (fun acc (_, l) => max acc (l + 1)) 0

/-- The enabled hops between steps of the graph, as pairs of names. -/
def edges (g : Graph) : List (String × String) :=
  let known (name : String) : Bool := g.stepNames.contains name
  (g.enabledHops.filter fun h => known h.source && known h.target).map fun h => (h.source, h.target)

/-- A walk through the steps, each visited once all that feed it have been. -/
structure Walk where
  /-- For each step, how many of its incoming hops have not been followed yet. -/
  waiting : Table Int
  levels : Table Nat := []
  /-- Steps to visit, the next one first. -/
  ready : List String
  /-- Steps visited, the last one first. -/
  visited : List String := []
  deriving Repr

namespace Walk

def start (g : Graph) : Walk :=
  let none : Table Int := g.steps.foldl (fun t s => t.set s.name 0) []
  let waiting := (edges g).foldl (fun t (_, v) => t.set v ((t.get? v).getD 0 + 1)) none
  { waiting, ready := g.stepNames.filter fun name => waiting.get? name == some 0 }

/-- Follows a hop into `v` from a step of the given level. -/
def follow (level : Nat) (w : Walk) (v : String) : Walk :=
  let left := (w.waiting.get? v).getD 0 - 1
  { w with
    levels := w.levels.set v (max ((w.levels.get? v).getD 0) (level + 1))
    waiting := w.waiting.set v left
    ready := if left = 0 then w.ready ++ [v] else w.ready }

def visit (edges : List (String × String)) (w : Walk) (name : String) (rest : List String) : Walk :=
  let level := (w.levels.get? name).getD 0
  let targets := (edges.filter (·.1 == name)).map (·.2)
  targets.foldl (follow level)
    { w with levels := w.levels.set name level, ready := rest, visited := name :: w.visited }

def run (edges : List (String × String)) : Nat → Walk → Walk
  | 0, w => w
  | fuel + 1, w =>
    match w.ready with
    | [] => w
    | name :: rest => run edges fuel (visit edges w name rest)

end Walk

/-- Every step becomes ready at most twice: at the start and when its last hop is followed. -/
def visitBound (g : Graph) : Nat :=
  2 * g.steps.length

/-- The order of the steps, or the steps that are still waited for, as declared. -/
def ofGraph (g : Graph) : Except (List String) Topology :=
  let w := Walk.run (edges g) (visitBound g) (.start g)
  if w.visited.length < g.steps.length then
    .error (g.stepNames.filter fun name => (w.waiting.get? name).any (· ≠ 0))
  else .ok { order := w.visited.reverse, levels := w.levels }

end Topology

end Sluice
