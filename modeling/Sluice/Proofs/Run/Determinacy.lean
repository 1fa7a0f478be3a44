import Sluice.Proofs.Run.Blueprint
import Sluice.Proofs.Run.Reference

/-!
Determinacy: where every unit of a run finished, what the channels carried and what the units report
is the sequential evaluation of the graph on the rows of its producers. Nothing else has a say in it,
neither the order in which the parties moved nor the settings.
-/

namespace Sluice

/-- The stream at the numbers from a first one on; nothing at others. -/
def streamsFrom (first : Nat) (streams : List (List Row)) (c : Nat) : List Row :=
  ((List.replicate first [] ++ streams)[c]?).getD []

/-- The sequential evaluation of a graph, on all rows that each producer puts in. -/
def Evaluation.ofGraph (g : Graph) (feeds : List (UnitId × List Row)) : Option Evaluation := do
  let s ← g.sketch.toOption
  let fed := (feeds.map (·.1)).foldl Sketch.feed s
  ofStations fed.stations (streamsFrom s.channels (feeds.map (·.2)))

theorem Catalog.init_settings {type : String} {t : StepType StepMemory}
    (ht : builtins.find? type = some t) (setup : Setup) (settings : Settings) :
    t.behaviour.init { setup with settings } = t.behaviour.init setup := by
  obtain ⟨-, rfl | rfl | rfl | rfl | rfl | rfl | rfl⟩ := find?_cases ht <;> rfl

theorem Station.emissions_plain (s : Station) (inputs : List (List Row)) :
    s.plain.emissions inputs = s.emissions inputs := by
  have hspec : s.plain.setup.spec = s.setup.spec := rfl
  unfold emissions
  rw [hspec]
  cases ht : Catalog.builtins.find? s.setup.spec.type with
  | none => rfl
  | some t =>
    simp only [Option.bind_eq_bind, Option.bind_some, plain, Catalog.init_settings ht]

theorem Evaluation.ofStations_plain (stations : List Station) (feeds : Nat → List Row) :
    ofStations (stations.map Station.plain) feeds = ofStations stations feeds := by
  have hvisit (e : Evaluation) (s : Station) : e.visit s.plain = e.visit s := by
    have hplace : s.plain.place = s.place := rfl
    simp only [visit, Station.emissions_plain, hplace]
    rfl
  simp only [ofStations, List.foldlM_map, hvisit]

namespace Run

/-- A history in which every unit finished and the producers put in these rows. No unit but one
that concatenates has a choice between inputs. -/
structure Completed (start : Run StepMemory) (ds : List Deed) (feeds : List (UnitId × List Row)) :
    Prop where
  units : (start.after ds).units ≠ []
  finished : ∀ u ∈ (start.after ds).units, u.life.outcome = .finished
  plain : ∀ u ∈ (start.after ds).units,
    u.border.inputs.length ≤ 1 ∨ u.setup.spec.type = "append"
  feeds : (start.after ds).producers.map (fun p => (p.unit, start.carried p.channel ds)) = feeds

variable {r : Run StepMemory} {l : Ledger} {s : Sketch}

theorem Drawn.streamsFrom (h : r.Drawn s) {put : Nat → List Row}
    (beyond : ∀ c, r.net.links.length ≤ c → put c = []) (c : Nat)
    (hc : c ∈ r.chart.feeds ∨ r.net.links.length ≤ c) :
    streamsFrom s.channels (r.producers.map fun p => put p.channel) c = put c := by
  have hstreams : r.producers.map (fun p => put p.channel) =
      (List.range' s.channels r.producers.length).map put := by
    rw [← h.feeds, List.map_map]
    rfl
  rw [hstreams, Sluice.streamsFrom]
  rcases hc with hc | hc
  · have hfeeds : r.chart.feeds = List.range' s.channels r.producers.length := h.feeds
    rw [hfeeds, List.mem_range'_1] at hc
    rw [List.getElem?_append_right (by simpa using hc.1)]
    have hlt : c - s.channels < r.producers.length := by omega
    simp [hlt, Nat.add_sub_of_le hc.1]
  · rw [beyond c hc, List.getElem?_eq_none (by simpa [h.links] using hc)]
    rfl

/-- However the parties of a run took turns, and whatever its settings: if every unit finished, then
each channel carried, and each unit reports, what the sequential evaluation says. -/
theorem completed_evaluates (settings : Settings) (g : Graph) (armed : List String)
    (ds : List Deed) (feeds : List (UnitId × List Row)) :
    let start := Run.new Catalog.builtins settings g armed
    start.Completed ds feeds → Evaluation.ofGraph g feeds = some {
      streams := fun c => start.carried c ds
      reports := (start.after ds).units.map unitReport } := by
  intro start completed
  obtain ⟨ho, l, hs, hput⟩ := steady_after (fun _ r => r.Closing ∧ ∃ s, r.Drawn s)
    (fun _ d => (closing_conveys _ d).carries.and (drawn_carries _ d)) ds
  obtain ⟨u, hu⟩ := List.exists_mem_of_ne_nil _ completed.units
  cases hs with
  | blank phase => exact absurd (ho.blank phase).units completed.units
  | shelved phase units =>
    have hout := (units u hu).outcome
    simp [completed.finished u hu, UnitState.isEnd] at hout
  | live live holds =>
    obtain ⟨hclosing, s, hs⟩ := holds
    obtain ⟨e, he, hstreams, hreports⟩ := live.evaluated hclosing completed.finished completed.plain
      (hs.streamsFrom fun c hc => (live.beyond c hc).1)
    have hgraph : g.sketch = .ok s := by
      rw [← hs.graph, graph_after]
      rfl
    have hcarried : (fun c => start.carried c ds) = l.put := funext fun c => (hput c).symm
    have hunits : feeds.map (·.1) = (start.after ds).producers.map (·.unit) := by
      simp [← completed.feeds, Function.comp_def]
    have hrows : feeds.map (·.2) = (start.after ds).producers.map fun p => l.put p.channel := by
      rw [← completed.feeds, List.map_map]
      exact List.map_congr_left fun p _ => congrFun hcarried p.channel
    calc Evaluation.ofGraph g feeds
        = Evaluation.ofStations ((feeds.map (·.1)).foldl Sketch.feed s).stations
            (streamsFrom s.channels (feeds.map (·.2))) := by
          simp [Evaluation.ofGraph, hgraph, Except.toOption]
      _ = Evaluation.ofStations (start.after ds).stations
            (streamsFrom s.channels ((start.after ds).producers.map fun p => l.put p.channel)) := by
          rw [hunits, hrows, ← hs.stations, Evaluation.ofStations_plain]
      _ = some e := he
      _ = some { streams := fun c => start.carried c ds
                 reports := (start.after ds).units.map unitReport } := by
          rw [hcarried, ← funext hstreams]
          exact congrArg (fun reports => some { e with reports }) hreports

/-- A unit that shares its rows out between two, and a third one that puts them together again. -/
def diamond : Graph where
  name := "diamond"
  steps := [{ name := "s", type := "injector", distribute := true }, { name := "x", type := "dummy" },
    { name := "y", type := "dummy" }, { name := "t", type := "append" }]
  hops := [{ source := "s", target := "x" }, { source := "s", target := "y" },
    { source := "x", target := "t" }, { source := "y", target := "t" }]

def word (text : String) : Row :=
  ⟨⟨[{ name := "word", type := .string }]⟩, [.string text], rfl⟩

/-- Three rows, where each channel holds one; all parties in turn, again and again. -/
def takingTurns : List Deed :=
  List.flatten [
    [.prepare, .addProducer ⟨"s", 0⟩, .start [] 0,
      .offer 0 [.ok (word "a"), .ok (word "b"), .ok (word "c")], .finish 0],
    (List.replicate 60 [.move (.producer 0), .move (.unit 0), .move (.unit 1), .move (.unit 2),
      .move (.unit 3)]).flatten]

theorem takingTurns_evaluates :
    let start := Run.new Catalog.builtins { channelCapacity := 1, batchRows := 1 } diamond []
    let feeds := [(⟨"s", 0⟩, [word "a", word "b", word "c"])]
    start.Completed takingTurns feeds ∧ Evaluation.ofGraph diamond feeds = some {
      streams := fun c => start.carried c takingTurns
      reports := (start.after takingTurns).units.map unitReport } := by
  intro start feeds
  obtain ⟨units, finished, plain, fed⟩ :
      (start.after takingTurns).units.length ≠ 0 ∧
      (∀ u ∈ (start.after takingTurns).units, u.life.outcome = .finished) ∧
      (∀ u ∈ (start.after takingTurns).units,
        u.border.inputs.length ≤ 1 ∨ u.setup.spec.type = "append") ∧
      (start.after takingTurns).producers.map
        (fun p => (p.unit, start.carried p.channel takingTurns)) = feeds := by
    decide +kernel
  have completed : start.Completed takingTurns feeds :=
    ⟨fun h => units (by simp [h]), finished, plain, fed⟩
  exact ⟨completed, completed_evaluates _ diamond [] takingTurns feeds completed⟩

end Run

end Sluice
