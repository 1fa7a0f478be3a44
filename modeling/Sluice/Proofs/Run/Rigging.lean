import Sluice.Proofs.Run.Begun
import Sluice.Proofs.Run.Layout

/-!
How a run is rigged: it has a channel for each lane of its graph and one for each producer, and
every unit has its ends of them in the order of the hops. Nothing that a run does once it is
prepared changes that, except that one more producer brings one more channel.
-/

namespace Sluice

variable {σ : Type}

namespace Run

/-- The channels that lead into a unit from outside. -/
def injected (r : Run σ) (id : UnitId) : List Nat :=
  (r.feeds.filter fun feed => feed.1 = id).map (·.2)

end Run

namespace RunUnit

/-- The inputs of a unit come hop by hop and then copy by copy, those from outside last; its output
hops come in the order of the hops, each with a channel to every copy it feeds, in their order. -/
structure Wired (u : RunUnit σ) (g : Graph) (injected : List Nat) : Prop where
  inputs : (u.border.inputs.map fun inlet => (inlet.source, inlet.channel)) =
    (g.feeders u.id).map (fun s => (s, g.channelOf ⟨s, u.id⟩)) ++
      injected.mapIdx fun k c => (⟨Run.outside, k⟩, c)
  inputSteps : u.setup.inputSteps = (g.feeders u.id).map (·.step)
  outputs : (u.border.outputs.map fun o => (o.target, o.channels)) =
    (g.outputHops u.id.step).map fun h =>
      (h.target, (g.fed h u.id).map fun t => g.channelOf ⟨u.id, t⟩)
  outputSteps : u.setup.outputSteps = (g.outputHops u.id.step).map (·.target)

def inject (channel : Nat) (u : RunUnit σ) : RunUnit σ :=
  { u with border := u.border.addInput ⟨Run.outside, u.border.inputs.length⟩ channel }

variable {u v : RunUnit σ} {g : Graph} {injected : List Nat}

theorem Wired.congr (h : u.Wired g injected) (hr : v.rig = u.rig) : v.Wired g injected := by
  obtain ⟨hstation, hsources, htargets⟩ : v.station = u.station ∧
      v.border.inputs.map (·.source) = u.border.inputs.map (·.source) ∧
      v.border.outputs.map (·.target) = u.border.outputs.map (·.target) := by
    simpa [RunUnit.rig, Border.hops] using hr
  have hsetup : v.setup = u.setup := congrArg Station.setup hstation
  have hid : v.id = u.id := congrArg (fun s : Station => s.place.unit) hstation
  have hins : v.border.inputs.map (·.channel) = u.border.inputs.map (·.channel) :=
    congrArg (fun s : Station => s.place.ins) hstation
  have houts : v.border.outputs.map (·.channels) = u.border.outputs.map (·.channels) :=
    congrArg (fun s : Station => s.place.outs) hstation
  refine ⟨?_, ?_, ?_, ?_⟩
  · rw [hid, ← h.inputs, ← List.zip_map', ← List.zip_map', hsources, hins]
  · rw [hid, hsetup, h.inputSteps]
  · rw [hid, ← h.outputs, ← List.zip_map', ← List.zip_map', htargets, houts]
  · rw [hid, hsetup, h.outputSteps]

theorem Initiated.rigs {registry : Registry σ} {units units' : List (RunUnit σ)}
    (h : List.Forall₂ (RunUnit.Initiated registry) units units') :
    units'.map RunUnit.rig = units.map RunUnit.rig := by
  induction h with
  | nil => rfl
  | cons hu _ ih =>
    obtain ⟨t, m, -, -, rfl⟩ := hu
    simp only [List.map_cons, ih]
    rfl

theorem Strung.wired (h : u.Strung g g.lanes g.bundles) (hf : u.Fitted g)
    (hu : u.id ∈ g.copies u.id.step) : u.Wired g [] := by
  have hinputs := h.inputs
  rw [Graph.lanes_into, List.map_map] at hinputs
  have houtputs := h.outputs
  rw [Graph.bundles_from hu, List.map_map] at houtputs
  refine ⟨by simpa [Function.comp_def] using hinputs, ?_, ?_, ?_⟩
  · rw [h.inputSteps]
    simpa [Function.comp_def] using congrArg (List.map fun p : UnitId × Nat => p.1.step) hinputs
  · simpa [Graph.bundle, Bundle.lanes, Function.comp_def] using houtputs
  · rw [hf.targets]
    simpa [Graph.bundle, Function.comp_def] using congrArg (List.map Prod.fst) houtputs

theorem Wired.mem_outputs (h : u.Wired g injected) (hu : u.id ∈ g.copies u.id.step) {c : Nat} :
    c ∈ u.border.outputChannels ↔ ∃ t, ⟨u.id, t⟩ ∈ g.lanes ∧ g.channelOf ⟨u.id, t⟩ = c := by
  have houts := congrArg (List.flatMap Prod.snd) h.outputs
  rw [List.flatMap_map, List.flatMap_map] at houts
  rw [Border.outputChannels, houts]
  simp only [List.mem_flatMap, List.mem_map, Graph.outputHops, List.mem_filter, beq_iff_eq,
    Graph.mem_lanes_iff]
  constructor
  · rintro ⟨h, ⟨hh, hstep⟩, t, ht, rfl⟩
    exact ⟨t, ⟨h, hh, hstep ▸ hu, ht⟩, rfl⟩
  · rintro ⟨t, ⟨h, hh, hs, ht⟩, rfl⟩
    exact ⟨h, ⟨hh, (Graph.mem_copies.mp hs).1.symm⟩, t, ht, rfl⟩

theorem Wired.mem_inputs (h : u.Wired g injected) {c : Nat} : c ∈ u.border.inputChannels ↔
    (∃ s, ⟨s, u.id⟩ ∈ g.lanes ∧ g.channelOf ⟨s, u.id⟩ = c) ∨ c ∈ injected := by
  have hins := congrArg (List.map Prod.snd) h.inputs
  have hlanes (s : UnitId) : s ∈ g.feeders u.id ↔ ⟨s, u.id⟩ ∈ g.lanes := by
    have hmem : (⟨s, u.id⟩ : Lane) ∈ (g.lanes.filter fun l => l.target = u.id) ↔
        ⟨s, u.id⟩ ∈ g.lanes := by simp
    rw [← hmem, Graph.lanes_into]
    simp
  simp only [List.map_map, List.map_append, Function.comp_def] at hins
  rw [Border.inputChannels, hins]
  simp [hlanes, List.mem_iff_getElem (l := injected)]

end RunUnit

namespace Run

variable {r r' : Run σ} {d : Deed}

/-- The units of a run are those of its graph, and its channels the lanes of its graph and what
its producers write to. -/
structure Rigged (r : Run σ) : Prop where
  listed : r.graph.Listed (r.units.map (·.id))
  links : r.net.links.length = r.graph.lanes.length + r.producers.length
  feeds : r.producers.map (·.channel) = List.range' r.graph.lanes.length r.producers.length
  wires : r.wires = r.graph.lanes.map r.graph.wire ++ r.feeds.map fun (id, c) => ⟨c, outside, id⟩
  unfed : ∀ p ∈ r.producers, r.graph.inputHops p.unit.step = []
  units : ∀ u ∈ r.units, u.Wired r.graph (r.injected u.id)

theorem Rigged.alike (h : r.Rigged) (ha : r.Alike r') : r'.Rigged := by
  obtain ⟨hgraph, hunits, hlinks, hwires, hfeeds⟩ := ha
  have hids : r'.units.map (·.id) = r.units.map (·.id) := by
    simpa [RunUnit.rig, RunUnit.station, Border.place, RunUnit.id, Function.comp_def] using
      congrArg (List.map fun rig => rig.1.place.unit) hunits
  have hlength : r'.producers.length = r.producers.length := by
    simpa [Run.feeds] using congrArg List.length hfeeds
  have hchannels : r'.producers.map (·.channel) = r.producers.map (·.channel) := by
    simpa [Run.feeds, Function.comp_def] using congrArg (List.map Prod.snd) hfeeds
  have htargets : r'.producers.map (·.unit) = r.producers.map (·.unit) := by
    simpa [Run.feeds, Function.comp_def] using congrArg (List.map Prod.fst) hfeeds
  refine ⟨by rw [hgraph, hids]; exact h.listed, by rw [hgraph, hlinks, hlength]; exact h.links,
    by rw [hgraph, hchannels, hlength]; exact h.feeds,
    by rw [hgraph, hwires, hfeeds]; exact h.wires, fun p hp => ?_, fun v hv => ?_⟩
  · obtain ⟨q, hq, hunit⟩ :=
      List.mem_map.mp (htargets ▸ List.mem_map_of_mem (f := Producer.unit) hp)
    rw [hgraph, ← hunit]
    exact h.unfed q hq
  · obtain ⟨u, hu, hrig⟩ := List.mem_map.mp (hunits ▸ List.mem_map_of_mem (f := RunUnit.rig) hv)
    have hid : v.id = u.id := congrArg (fun rig => rig.1.place.unit) hrig.symm
    rw [hgraph, injected, hfeeds, hid]
    exact (h.units u hu).congr hrig.symm

theorem Rigged.fed (h : r.Rigged) {i : Nat} {u : RunUnit σ} (hu : r.units[i]? = some u)
    (unfed : r.graph.inputHops u.id.step = []) : (r.attachProducer i u.id).Rigged := by
  have hunits : (r.attachProducer i u.id).units =
    r.units.modify i (RunUnit.inject r.net.links.length) := rfl
  have hids : (r.attachProducer i u.id).units.map (·.id) = r.units.map (·.id) :=
    hunits ▸ List.map_modify_of_eq (f := RunUnit.id) (g := RunUnit.inject r.net.links.length)
      (fun _ => rfl) r.units i
  have hfeeds : (r.attachProducer i u.id).feeds = r.feeds ++ [(u.id, r.net.links.length)] := by
    simp [Run.feeds, attachProducer, Net.addLink]
  refine ⟨hids ▸ h.listed, ?_, ?_, ?_, ?_, fun v hv => ?_⟩
  · simp [attachProducer, Net.addLink, h.links, Nat.add_assoc]
  · simp [attachProducer, Net.addLink, h.feeds, h.links, List.range'_concat]
  · rw [hfeeds]
    simp [attachProducer, Net.addLink, h.wires]
  · refine List.forall_mem_append.mpr ⟨h.unfed, fun p hp => ?_⟩
    rw [List.mem_singleton.mp hp]
    exact unfed
  · have hinjected (id : UnitId) : (r.attachProducer i u.id).injected id =
        r.injected id ++ if u.id = id then [r.net.links.length] else [] := by
      rw [injected, hfeeds, List.filter_append, List.map_append, injected]
      split <;> simp [*]
    rw [hinjected]
    obtain rfl | ⟨hv, hne⟩ := List.mem_modify_of_nodup h.listed.nodup hu hv
    · -- no hop leads into the unit, so all of its inputs are from outside
      have hold := h.units u (List.mem_of_getElem? hu)
      have hnone : r.graph.feeders u.id = [] := by simp [Graph.feeders, unfed]
      have hins := hold.inputs
      rw [hnone, List.map_nil, List.nil_append] at hins
      have hcount : u.border.inputs.length = (r.injected u.id).length := by
        simpa using congrArg List.length hins
      refine ⟨?_, hold.inputSteps, hold.outputs, hold.outputSteps⟩
      change (u.border.inputs ++ [_]).map _ = (r.graph.feeders u.id).map _ ++
        (r.injected u.id ++ if u.id = u.id then [r.net.links.length] else []).mapIdx _
      rw [if_pos rfl, hnone, List.mapIdx_concat, ← hins, ← hcount]
      simp
    · rw [if_neg (Ne.symm hne), List.append_nil]
      exact h.units v hv

/-- A blank run is wired once its settings and its graph pass. -/
theorem Blank.wire_total (h : r.Blank) (hs : r.settings.check = .ok ()) {plan : Plan}
    (hp : Plan.ofGraph r.registry r.graph = .ok plan) : ∃ w, r.wire = .ok (plan, w) ∧
      plan.Valid r.registry r.graph ∧
      w.Strung r.graph (plan.topology.order.flatMap r.graph.copies) r.graph.lanes
        r.graph.bundles := by
  have hvalid := Plan.ofGraph_valid hp
  obtain ⟨w, hw, hstrung⟩ := Wiring.ofPlan_strung hvalid r.settings h.links h.wakeups
  refine ⟨w, ?_, hvalid, hstrung⟩
  unfold wire
  rw [hs, hp]
  exact Except.bind_eq_ok.mpr ⟨(), rfl, Except.bind_eq_ok.mpr ⟨plan, rfl,
    Except.bind_eq_ok.mpr ⟨w, hw, rfl⟩⟩⟩

theorem rigged_of_strung {w : Wiring σ} {ids : List UnitId}
    (h : w.Strung r.graph ids r.graph.lanes r.graph.bundles) (hg : r.graph.Listed ids)
    (hunits : r.units.map RunUnit.rig = w.units.map RunUnit.rig) (hnet : r.net = w.net)
    (hwires : r.wires = w.wires) (hproducers : r.producers = []) : r.Rigged := by
  have hids : r.units.map (·.id) = w.ids := by
    simpa [RunUnit.rig, RunUnit.station, Border.place, RunUnit.id, Function.comp_def, Wiring.ids]
      using congrArg (List.map fun rig => rig.1.place.unit) hunits
  refine ⟨by rw [hids, h.ids_eq]; exact hg, by simp [hnet, hproducers, h.links],
    by simp [hproducers], by simp [hwires, Run.feeds, hproducers, h.wires], by simp [hproducers],
    fun v hv => ?_⟩
  obtain ⟨u, hu, hrig⟩ := List.mem_map.mp (hunits ▸ List.mem_map_of_mem (f := RunUnit.rig) hv)
  have hmem : u.id ∈ r.graph.copies u.id.step :=
    (hg.mem u.id).mp (h.ids_eq ▸ List.mem_map_of_mem hu)
  have hnone : r.injected v.id = [] := by simp [injected, Run.feeds, hproducers]
  rw [hnone]
  exact ((h.units u hu).wired (h.laid.fitted u hu) hmem).congr hrig.symm

theorem Blank.strung (h : r.Blank) {plan : Plan} {w : Wiring σ} (hw : r.wire = .ok (plan, w)) :
    r.graph.Listed (plan.topology.order.flatMap r.graph.copies) ∧
      w.Strung r.graph (plan.topology.order.flatMap r.graph.copies) r.graph.lanes
        r.graph.bundles := by
  obtain ⟨hsettings, hplan, -⟩ := wire_eq_ok hw
  obtain ⟨w', hw', hvalid, hstrung⟩ := h.wire_total hsettings hplan
  rw [hw, Except.ok.injEq, Prod.mk.injEq] at hw'
  exact ⟨Wiring.listed_of_valid hvalid, hw'.2 ▸ hstrung⟩

theorem rigged_conveys (r : Run σ) (d : Deed) : Conveys r d Rigged Rigged := by
  refine conveys_layout (fun h ha => h.alike ha) (fun ho phase wired initiated => ?_)
    (fun h _ at_i unfed => h.fed at_i unfed) d
  obtain ⟨hg, hstrung⟩ := (ho.blank phase).strung wired
  exact rigged_of_strung hstrung hg (RunUnit.Initiated.rigs initiated) rfl rfl
    (ho.blank phase).producers

end Run

end Sluice
