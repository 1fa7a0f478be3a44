import Sluice.Proofs.Run.Steady

/-!
What of a run its settings do not touch: which unit stands where, and which channels it reads and
writes, follows from the graph and from the units that producers were added to, in their order.
-/

namespace Sluice

def Station.plain (s : Station) : Station :=
  { s with setup := { s.setup with settings := {} } }

def Station.addInput (channel : Nat) (s : Station) : Station :=
  { s with place := { s.place with ins := s.place.ins ++ [channel] } }

/-- The stations of a graph, with the numbers of its channels and wakeups. -/
@[ext]
structure Sketch where
  stations : List Station
  channels : Nat
  wakeups : Nat

def Sketch.feed (s : Sketch) (unit : UnitId) : Sketch :=
  { s with
    stations := match s.stations.findIdx? (·.place.unit == unit) with
      | some i => s.stations.modify i (Station.addInput s.channels)
      | none => s.stations
    channels := s.channels + 1 }

namespace Wiring

variable {σ : Type}

def sketch (w : Wiring σ) : Sketch :=
  ⟨w.units.map (·.station.plain), w.net.links.length, w.net.wakeups.length⟩

end Wiring

/-- The plan of a graph, wired. -/
def Graph.sketch (g : Graph) : Except RunError Sketch := do
  let plan ← (Plan.ofGraph Catalog.builtins g).mapError .graph
  let w ← Wiring.ofPlan (σ := StepMemory) {} g plan {}
  return w.sketch

namespace Wiring

variable {σ : Type} {w d : Wiring σ}

theorem indexOf?_stations (units : List (RunUnit σ)) (id : UnitId) :
    Run.indexOf? units id = (units.map (·.station.plain)).findIdx? (·.place.unit == id) := by
  rw [List.findIdx?_map]
  rfl

theorem slot_sketch (h : w.sketch = d.sketch) (id : UnitId) : w.slot id = d.slot id := by
  have hstations : w.units.map (·.station.plain) = d.units.map (·.station.plain) :=
    congrArg Sketch.stations h
  rw [slot, slot, indexOf?_stations, indexOf?_stations, hstations]

theorem addUnit_sketch (h : w.sketch = d.sketch) (settings settings' : Settings) (spec : StepSpec)
    (copy : Nat) : (w.addUnit settings spec copy).sketch = (d.addUnit settings' spec copy).sketch := by
  obtain ⟨hstations, hlinks, hwakeups⟩ := Sketch.mk.inj h
  refine Sketch.ext ?_ hlinks ?_
  · simp only [sketch, addUnit, List.map_append, hstations]
    exact congrArg (_ ++ [·]) (by simp [Net.addWakeup, hwakeups, RunUnit.station, Station.plain,
      Border.place, Border.inputChannels])
  · simp [sketch, addUnit, Net.addWakeup, hwakeups]

theorem addStep_sketch (h : w.sketch = d.sketch) (settings settings' : Settings) (g : Graph)
    (name : String) :
    (addStep settings g w name).map sketch = (addStep settings' g d name).map sketch := by
  refine Except.map_bind_congr (s := id) (t := id) rfl fun spec spec' hspec => ?_
  obtain rfl : spec = spec' := hspec
  refine congrArg Except.ok ?_
  generalize List.range spec.copies = copies
  induction copies generalizing w d with
  | nil => exact h
  | cons copy copies ih => exact ih (addUnit_sketch h settings settings' spec copy)

theorem connect_sketch (h : w.sketch = d.sketch) (capacity capacity' : Nat) (source target : UnitId) :
    (connect capacity w source target).map (Prod.map id sketch) =
      (connect capacity' d source target).map (Prod.map id sketch) := by
  obtain ⟨hstations, hlinks, hwakeups⟩ := Sketch.mk.inj h
  unfold connect
  rw [slot_sketch h]
  refine Except.map_bind_congr (s := id) (t := id) rfl fun t t' ht => ?_
  obtain rfl : t = t' := ht
  have hunits (w : Wiring σ) (c : Nat) :
      (w.units.modify t (attachInput source c)).map (·.station.plain) =
        (w.units.map (·.station.plain)).modify t fun s => Station.addInput c
          { s with setup := { s.setup with inputSteps := s.setup.inputSteps ++ [source.step] } } := by
    refine List.map_modify_comm (fun u => ?_) w.units t
    simp [attachInput, RunUnit.station, Station.plain, Station.addInput, Border.place,
      Border.inputChannels, Border.addInput]
  refine congrArg Except.ok (Prod.ext hlinks (Sketch.ext ?_ ?_ hwakeups))
  · refine (hunits w _).trans (Eq.trans ?_ (hunits d _).symm)
    rw [hstations]
    exact congrArg (fun c => (d.units.map (·.station.plain)).modify t fun s => Station.addInput c
      { s with setup := { s.setup with inputSteps := s.setup.inputSteps ++ [source.step] } }) hlinks
  · simp [sketch, hlinks]

theorem connectCopy_sketch (h : w.sketch = d.sketch) (capacity capacity' : Nat)
    (source target : StepSpec) (copy : Nat) :
    (connectCopy capacity source target w copy).map sketch =
      (connectCopy capacity' source target d copy).map sketch := by
  refine Except.map_bind_congr (s := Prod.map id sketch) (t := Prod.map id sketch) ?_ ?_
  · refine Except.map_foldlM_congr (fun j _ => ?_) (by simp [h])
    rintro ⟨channels, w⟩ ⟨channels', d⟩ hpair
    obtain ⟨rfl, h⟩ : channels = channels' ∧ w.sketch = d.sketch := Prod.mk.inj hpair
    refine Except.map_bind_congr (connect_sketch h capacity capacity' _ _) ?_
    rintro ⟨c, w⟩ ⟨c', d⟩ hpair
    obtain ⟨rfl, h⟩ : c = c' ∧ w.sketch = d.sketch := Prod.mk.inj hpair
    exact congrArg Except.ok (Prod.ext rfl h)
  · rintro ⟨channels, w⟩ ⟨channels', d⟩ hpair
    obtain ⟨rfl, h⟩ : channels = channels' ∧ w.sketch = d.sketch := Prod.mk.inj hpair
    obtain ⟨hstations, hlinks, hwakeups⟩ := Sketch.mk.inj h
    have hslot := slot_sketch h ⟨source.name, copy⟩
    refine Except.map_bind_congr (s := id) (t := id) (congrArg (Except.map id) hslot) ?_
    intro i i' hi
    obtain rfl : i = i' := hi
    have hunits (w : Wiring σ) :
        (w.units.modify i (attachOutput target.name channels)).map (·.station.plain) =
          (w.units.map (·.station.plain)).modify i fun s =>
            { setup := { s.setup with outputSteps := s.setup.outputSteps ++ [target.name] }
              place := { s.place with outs := s.place.outs ++ [channels] } } := by
      refine List.map_modify_comm (fun u => ?_) w.units i
      simp [attachOutput, RunUnit.station, Station.plain, Border.place, Border.inputChannels,
        Border.addOutput]
    refine congrArg Except.ok (Sketch.ext ?_ hlinks hwakeups)
    exact (hunits w).trans (hstations ▸ (hunits d).symm)

theorem connectHop_sketch (h : w.sketch = d.sketch) (capacity capacity' : Nat) (g : Graph) (hop : Hop) :
    (connectHop capacity g w hop).map sketch = (connectHop capacity' g d hop).map sketch := by
  refine Except.map_bind_congr (s := id) (t := id) rfl fun source source' hs => ?_
  obtain rfl : source = source' := hs
  refine Except.map_bind_congr (s := id) (t := id) rfl fun target target' ht => ?_
  obtain rfl : target = target' := ht
  exact Except.map_foldlM_congr
    (fun copy _ w d h => connectCopy_sketch h capacity capacity' source target copy) h

/-- How a plan is wired does not depend on the settings. -/
theorem ofPlan_sketch (settings settings' : Settings) (g : Graph) (plan : Plan) (net net' : Net)
    (hlinks : net.links.length = net'.links.length)
    (hwakeups : net.wakeups.length = net'.wakeups.length) :
    (ofPlan (σ := σ) settings g plan net).map sketch =
      (ofPlan (σ := σ) settings' g plan net').map sketch := by
  refine Except.map_bind_congr (s := sketch) (t := sketch) ?_ fun w d h => ?_
  · exact Except.map_foldlM_congr (fun name _ w d h => addStep_sketch h settings settings' g name)
      (Sketch.ext rfl hlinks hwakeups)
  · exact Except.map_foldlM_congr (fun hop _ w d h => connectHop_sketch h _ _ g hop) h

end Wiring

namespace Run

/-- A run is laid out as its graph says, and has channels of its own for its producers. -/
structure Drawn (r : Run StepMemory) (s : Sketch) : Prop where
  graph : r.graph.sketch = .ok s
  stations : r.stations.map Station.plain =
    ((r.producers.map (·.unit)).foldl Sketch.feed s).stations
  links : r.net.links.length = s.channels + r.producers.length
  feeds : r.producers.map (·.channel) = List.range' s.channels r.producers.length

variable {r r' : Run StepMemory} {s : Sketch}

theorem Drawn.alike (h : r.Drawn s) (ha : r.Alike r') : r'.Drawn s := by
  have hlength : r'.producers.length = r.producers.length := by
    simpa [Run.feeds] using congrArg List.length ha.feeds
  have hunits : r'.producers.map (·.unit) = r.producers.map (·.unit) := by
    simpa [Run.feeds, Function.comp_def] using congrArg (List.map Prod.fst) ha.feeds
  have hchannels : r'.producers.map (·.channel) = r.producers.map (·.channel) := by
    simpa [Run.feeds, Function.comp_def] using congrArg (List.map Prod.snd) ha.feeds
  have hstations : r'.stations = r.stations := by
    simpa [Run.stations, RunUnit.rig, Function.comp_def] using congrArg (List.map Prod.fst) ha.rigs
  exact ⟨ha.graph ▸ h.graph, by rw [hstations, hunits]; exact h.stations,
    by rw [ha.links, hlength]; exact h.links, by rw [hchannels, hlength]; exact h.feeds⟩

theorem Drawn.fed (h : r.Drawn s) {unit : UnitId} {i : Nat} (slot : indexOf? r.units unit = some i) :
    (r.attachProducer i unit).Drawn s := by
  rw [Wiring.indexOf?_stations] at slot
  have hstations : r.units.map (·.station.plain) =
      ((r.producers.map (·.unit)).foldl Sketch.feed s).stations := by
    rw [← h.stations, Run.stations, List.map_map]
    rfl
  have hchannels : ((r.producers.map (·.unit)).foldl Sketch.feed s).channels = r.net.links.length := by
    rw [h.links]
    generalize r.producers = producers
    induction producers using List.reverseRecOn with
    | nil => rfl
    | append_singleton producers p ih =>
      simp only [List.map_append, List.map_singleton, List.foldl_append, List.foldl_cons,
        List.foldl_nil, Sketch.feed, ih, List.length_append, List.length_singleton, Nat.add_assoc]
  refine ⟨h.graph, ?_, ?_, ?_⟩
  · simp only [attachProducer, List.map_append, List.map_singleton, List.foldl_append,
      List.foldl_cons, List.foldl_nil, Sketch.feed, Run.stations, List.map_map]
    rw [← hstations, hchannels, slot]
    refine List.map_modify_comm (fun u => ?_) r.units i
    simp [RunUnit.station, Station.plain, Station.addInput, Border.place, Border.inputChannels,
      Border.addInput, Net.addLink]
  · simp [attachProducer, Net.addLink, h.links]
    omega
  · simp [attachProducer, Net.addLink, h.feeds, h.links, List.range'_concat]

theorem Blank.sketch (h : r.Blank) (hregistry : r.registry = Catalog.builtins) {plan : Plan}
    {w : Wiring StepMemory} (hw : r.wire = .ok (plan, w)) : r.graph.sketch = .ok w.sketch := by
  obtain ⟨-, hplan, hwiring⟩ := wire_eq_ok hw
  have hdraft := Wiring.ofPlan_sketch (σ := StepMemory) {} r.settings r.graph plan {} r.net
    (by simp [h.links]) (by simp [h.wakeups])
  rw [hwiring] at hdraft
  rw [hregistry] at hplan
  unfold Graph.sketch
  rw [hplan]
  cases hd : Wiring.ofPlan (σ := StepMemory) {} r.graph plan {} with
  | error e => simp [hd, Except.map] at hdraft
  | ok d =>
    simp only [hd, Except.map, Except.ok.injEq] at hdraft
    simp only [bind, Except.bind, Except.mapError, hd]
    exact congrArg Except.ok hdraft

theorem drawn_prepared {plan : Plan} {w : Wiring StepMemory} {units : List (RunUnit StepMemory)}
    {calls : List Event} (h : r.Blank) (hregistry : r.registry = Catalog.builtins)
    (hw : r.wire = .ok (plan, w))
    (hinit : List.Forall₂ (RunUnit.Initiated r.registry) w.units units) :
    Drawn { r with
      phase := .prepared, plan := some plan, units, wires := w.wires, net := w.net, calls } w.sketch := by
  have hstations : units.map (·.station.plain) = w.units.map (·.station.plain) := by
    generalize w.units = fresh at hinit
    induction hinit with
    | nil => rfl
    | cons hu _ ih =>
      obtain ⟨t, m, -, -, rfl⟩ := hu
      simp only [List.map_cons, ih]
      rfl
  constructor
  · exact h.sketch hregistry hw
  · simpa [Run.stations, h.producers, Wiring.sketch, Function.comp_def] using hstations
  · simp [h.producers, Wiring.sketch]
  · simp [h.producers]

theorem drawn_conveys (r : Run StepMemory) (hregistry : r.registry = Catalog.builtins) (d : Deed) :
    Conveys r d (fun r => ∃ s, r.Drawn s) (fun r => ∃ s, r.Drawn s) := by
  refine conveys_layout (fun h ha => ?_) (fun ho phase wired initiated => ?_)
    (fun h slot _ _ => ?_) d
  · obtain ⟨s, hs⟩ := h
    exact ⟨s, hs.alike ha⟩
  · exact ⟨_, drawn_prepared (ho.blank phase) hregistry wired initiated⟩
  · obtain ⟨s, hs⟩ := h
    exact ⟨s, hs.fed slot⟩

theorem drawn_carries (r : Run StepMemory) (d : Deed) :
    Carries r d (fun r => ∃ s, r.Drawn s) (fun r => ∃ s, r.Drawn s) :=
  carries_of_conveys fun hregistry => drawn_conveys r hregistry d

end Run

end Sluice
