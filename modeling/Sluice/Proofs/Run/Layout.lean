import Sluice.Proofs.Run.Lanes

/-!
How a valid plan is wired: nothing that is looked up on the way is missing, and each unit gets the
ends of its lanes in the order of the hops.
-/

namespace Sluice

variable {σ : Type} {g : Graph} {ls : List Lane} {bs : List Bundle}

/-- A unit has its ends of these lanes and of these bundles, and its step was told so. -/
structure RunUnit.Strung (u : RunUnit σ) (g : Graph) (ls : List Lane) (bs : List Bundle) :
    Prop where
  inputs : (u.border.inputs.map fun inlet => (inlet.source, inlet.channel)) =
    (ls.filter fun l => l.target = u.id).map fun l => (l.source, g.channelOf l)
  outputs : (u.border.outputs.map fun o => (o.target, o.channels)) =
    (bs.filter fun b => b.source = u.id).map fun b => (b.target, b.lanes.map g.channelOf)
  inputSteps : u.setup.inputSteps = u.border.inputs.map (·.source.step)

/-- The units of a graph, listed in some order, and its lanes, none of them twice. -/
structure Graph.Listed (g : Graph) (ids : List UnitId) : Prop where
  nodup : ids.Nodup
  mem : ∀ u, u ∈ ids ↔ u ∈ g.copies u.step
  lanes : g.lanes.Nodup

def Graph.wire (g : Graph) (l : Lane) : Wire :=
  ⟨g.channelOf l, l.source.format, l.target⟩

namespace Wiring

/-- A wiring under way: it has these lanes and, at the units that write to them, these bundles. -/
structure Strung (w : Wiring σ) (g : Graph) (ids : List UnitId) (ls : List Lane)
    (bs : List Bundle) : Prop where
  laid : w.Laid g
  ids_eq : w.ids = ids
  links : w.net.links.length = ls.length
  wires : w.wires = ls.map g.wire
  units : ∀ u ∈ w.units, u.Strung g ls bs

variable {ids : List UnitId} {w w' : Wiring σ}

theorem slot_of_mem {id : UnitId} (h : id ∈ w.ids) : ∃ i, w.slot id = .ok i := by
  obtain ⟨u, hu, hid⟩ := List.mem_map.mp h
  have hsome : (Run.indexOf? w.units id).isSome = true := by
    rw [Run.indexOf?, List.findIdx?_isSome]
    exact List.any_eq_true.mpr ⟨u, hu, by simp [hid]⟩
  obtain ⟨i, hi⟩ := Option.isSome_iff_exists.mp hsome
  exact ⟨i, by simp [slot, hi]⟩

theorem Strung.connect (h : w.Strung g ids ls bs) (hg : g.Listed ids) {source target : UnitId}
    (hl : ls ++ [⟨source, target⟩] <+: g.lanes) (capacity : Nat) :
    ∃ w', connect capacity w source target = .ok (g.channelOf ⟨source, target⟩, w') ∧
      w'.Strung g ids (ls ++ [⟨source, target⟩]) bs := by
  -- the lanes so far begin the list of all, so the next channel has the number of its lane
  have hnumber := Graph.channelOf_next hg.lanes hl
  obtain ⟨⟨hop, hhop, -, htarget⟩, -, htlt, -⟩ :=
    Graph.mem_lanes.mp (hl.subset (List.mem_append_right _ List.mem_cons_self))
  have hin : target ∈ w.ids := by
    rw [h.ids_eq, hg.mem]
    exact Graph.mem_copies.mpr ⟨rfl, htlt⟩
  obtain ⟨t, ht⟩ := slot_of_mem hin
  have hok : ∃ w', Wiring.connect capacity w source target = .ok (w.net.links.length, w') :=
    ⟨_, Except.bind_eq_ok.mpr ⟨t, ht, rfl⟩⟩
  obtain ⟨w', hw'⟩ := hok
  rw [h.links, ← hnumber] at hw'
  obtain ⟨hlaid, hids⟩ := h.laid.connect hw' (List.ne_nil_of_mem
    (List.mem_filter.mpr ⟨hhop, by simp [htarget]⟩))
  obtain ⟨t, u, hu, rfl, -, rfl⟩ := connect_eq_ok hw'
  refine ⟨_, hw', hlaid, hids.trans h.ids_eq, ?_, ?_, fun v hv => ?_⟩
  · simp [Net.addLink, h.links]
  · simp [h.wires, Graph.wire]
  · -- no other unit has the name of the target, so all others stay as they are
    have hkeys : w.ids.Nodup := h.ids_eq ▸ hg.nodup
    obtain rfl | ⟨hv, hne⟩ := List.mem_modify_of_nodup hkeys hu hv
    · have hold := h.units u (List.mem_of_getElem? hu)
      refine ⟨?_, hold.outputs, ?_⟩
      · change (u.border.inputs ++ [_]).map _ =
          ((ls ++ [_]).filter fun l : Lane => l.target = u.id).map _
        simp [hold.inputs]
      · simp [attachInput, Border.addInput, hold.inputSteps]
    · have hold := h.units v hv
      refine ⟨?_, hold.outputs, hold.inputSteps⟩
      simpa [List.filter_append, Ne.symm hne] using hold.inputs

theorem Strung.attachOutput (h : w.Strung g ids ls bs) (hg : g.Listed ids) {b : Bundle} {s : Nat}
    {u : RunUnit σ} (hu : w.units[s]? = some u) (hid : u.id = b.source) (hne : b.lanes ≠ []) :
    Strung { w with
      units := w.units.modify s (Wiring.attachOutput b.target (b.lanes.map g.channelOf)) }
      g ids ls (bs ++ [b]) := by
  have hchannels : b.lanes.map g.channelOf ≠ [] := by simpa using hne
  obtain ⟨hlaid, hids⟩ := h.laid.attachOutput s b.target hchannels
  refine ⟨hlaid, hids.trans h.ids_eq, h.links, h.wires, fun v hv => ?_⟩
  have hkeys : w.ids.Nodup := h.ids_eq ▸ hg.nodup
  obtain rfl | ⟨hv, hne⟩ := List.mem_modify_of_nodup hkeys hu hv
  · have hold := h.units u (List.mem_of_getElem? hu)
    refine ⟨hold.inputs, ?_, hold.inputSteps⟩
    change (u.border.outputs ++ [_]).map _ = ((bs ++ [b]).filter fun b => b.source = u.id).map _
    simp [hold.outputs, hid]
  · have hold := h.units v hv
    refine ⟨hold.inputs, ?_, hold.inputSteps⟩
    have hother : b.source ≠ v.id := fun heq => hne (heq.symm.trans hid.symm)
    simpa [List.filter_append, hother] using hold.outputs

theorem fed_eq_targets {hop : Hop} {source target : StepSpec} (hs : g.step hop.source = .ok source)
    (ht : g.step hop.target = .ok target) (copy : Nat) :
    g.fed hop ⟨hop.source, copy⟩ = (targets source target copy).map (UnitId.mk hop.target) := by
  simp only [Graph.fed, Graph.copyCount, Graph.copies_of_step hs, Graph.copies_of_step ht,
    List.length_map, List.length_range, targets]
  split <;> rfl

theorem Strung.connectAll (h : w.Strung g ids ls bs) (hg : g.Listed ids) {source : UnitId}
    {target : String} {copies : List Nat}
    (hl : ls ++ copies.map (fun j => Lane.mk source ⟨target, j⟩) <+: g.lanes) (capacity : Nat) :
    ∃ w', copies.foldlM (fun (p : List Nat × Wiring σ) j => do
        let (channel, w) ← Wiring.connect capacity p.2 source ⟨target, j⟩
        return (p.1 ++ [channel], w)) ([], w) =
          .ok (copies.map fun j => g.channelOf ⟨source, ⟨target, j⟩⟩, w') ∧
      w'.Strung g ids (ls ++ copies.map fun j => ⟨source, ⟨target, j⟩⟩) bs := by
  have hfold := Except.foldlM_total (f := fun (p : List Nat × Wiring σ) j => do
      let (channel, w) ← Wiring.connect capacity p.2 source ⟨target, j⟩
      return (p.1 ++ [channel], w))
    (fun done (p : List Nat × Wiring σ) =>
      p.1 = done.map (fun j => g.channelOf ⟨source, ⟨target, j⟩⟩) ∧
        p.2.Strung g ids (ls ++ done.map fun j => ⟨source, ⟨target, j⟩⟩) bs)
    (l := copies) (b := ([], w)) ⟨rfl, by simpa using h⟩ ?_
  · obtain ⟨⟨-, w'⟩, hfold, rfl, hw'⟩ := hfold
    exact ⟨w', hfold, hw'⟩
  · rintro done j hdone ⟨-, w₁⟩ ⟨rfl, hw₁⟩
    have hnext := ((List.prefix_append_right_inj ls).mpr
      (hdone.map fun j => Lane.mk source ⟨target, j⟩)).trans hl
    rw [List.map_append, ← List.append_assoc] at hnext
    obtain ⟨w₂, hw₂, hstrung⟩ := hw₁.connect hg hnext capacity
    refine ⟨_, Except.bind_eq_ok.mpr ⟨_, hw₂, rfl⟩, by simp, ?_⟩
    simpa using hstrung

theorem Strung.connectCopy (h : w.Strung g ids (bs.flatMap Bundle.lanes) bs) (hg : g.Listed ids)
    {hop : Hop} {source target : StepSpec} (hs : g.step hop.source = .ok source)
    (ht : g.step hop.target = .ok target) (hcopies : target.copies ≠ 0) {copy : Nat}
    (hcopy : copy < source.copies)
    (hb : bs ++ [g.bundle hop ⟨hop.source, copy⟩] <+: g.bundles) (capacity : Nat) :
    let bs' := bs ++ [g.bundle hop ⟨hop.source, copy⟩]
    ∃ w', connectCopy capacity source target w copy = .ok w' ∧
      w'.Strung g ids (bs'.flatMap Bundle.lanes) bs' := by
  obtain ⟨-, hsname⟩ := Graph.step_eq_ok hs
  obtain ⟨-, htname⟩ := Graph.step_eq_ok ht
  have hlanes : ((targets source target copy).map fun j =>
      Lane.mk ⟨hop.source, copy⟩ ⟨hop.target, j⟩) = (g.bundle hop ⟨hop.source, copy⟩).lanes := by
    simp [Bundle.lanes, Graph.bundle, fed_eq_targets hs ht]
  have hne : (g.bundle hop ⟨hop.source, copy⟩).lanes ≠ [] := by
    simpa [← hlanes] using targets_ne_nil source hcopies copy
  have hall := hb.flatMap Bundle.lanes
  rw [List.flatMap_append, List.flatMap_singleton, ← hlanes] at hall
  obtain ⟨w₁, hfold, hw₁⟩ := h.connectAll hg hall capacity
  have hin : ⟨hop.source, copy⟩ ∈ w₁.ids := by
    rw [hw₁.ids_eq, hg.mem, Graph.copies_of_step hs]
    exact List.mem_map_of_mem (List.mem_range.mpr hcopy)
  obtain ⟨s, hslot⟩ := slot_of_mem hin
  obtain ⟨u, hu, hid⟩ := slot_eq_ok hslot
  have hattached := hw₁.attachOutput hg (b := g.bundle hop ⟨hop.source, copy⟩) hu hid hne
  rw [← hlanes, List.map_map] at hattached
  refine ⟨_, ?_, by rwa [List.flatMap_append, List.flatMap_singleton, ← hlanes]⟩
  unfold Wiring.connectCopy
  rw [hsname, htname]
  exact Except.bind_eq_ok.mpr ⟨_, hfold, Except.bind_eq_ok.mpr ⟨s, hslot, rfl⟩⟩

theorem Strung.connectHop (h : w.Strung g ids (bs.flatMap Bundle.lanes) bs) (hg : g.Listed ids)
    {hop : Hop} {source target : StepSpec} (hs : g.step hop.source = .ok source)
    (ht : g.step hop.target = .ok target) (hcopies : target.copies ≠ 0)
    (hb : bs ++ g.hopBundles hop <+: g.bundles) (capacity : Nat) :
    let bs' := bs ++ g.hopBundles hop
    ∃ w', connectHop capacity g w hop = .ok w' ∧
      w'.Strung g ids (bs'.flatMap Bundle.lanes) bs' := by
  have hbundles : g.hopBundles hop =
      (List.range source.copies).map fun copy => g.bundle hop ⟨hop.source, copy⟩ := by
    rw [Graph.hopBundles, Graph.copies_of_step hs, List.map_map]
    rfl
  have hfold : ∃ w', (List.range source.copies).foldlM
      (Wiring.connectCopy capacity source target) w = .ok w' ∧
        w'.Strung g ids ((bs ++ g.hopBundles hop).flatMap Bundle.lanes) (bs ++ g.hopBundles hop) := by
    rw [hbundles] at hb ⊢
    refine Except.foldlM_total (fun done (w : Wiring σ) =>
      let bs' := bs ++ done.map fun copy => g.bundle hop ⟨hop.source, copy⟩
      w.Strung g ids (bs'.flatMap Bundle.lanes) bs') (by simpa using h) ?_
    intro done copy hdone w₁ hw₁
    have hnext := ((List.prefix_append_right_inj bs).mpr
      (hdone.map fun copy => g.bundle hop ⟨hop.source, copy⟩)).trans hb
    rw [List.map_append, ← List.append_assoc] at hnext
    have hcopy : copy < source.copies :=
      List.mem_range.mp (hdone.subset (List.mem_append_right _ List.mem_cons_self))
    obtain ⟨w₂, hw₂, hstrung⟩ := hw₁.connectCopy hg hs ht hcopies hcopy hnext capacity
    refine ⟨w₂, hw₂, ?_⟩
    simpa using hstrung
  obtain ⟨w', hw', hstrung⟩ := hfold
  refine ⟨w', ?_, hstrung⟩
  unfold Wiring.connectHop
  rw [hs, ht]
  exact hw'

theorem listed_of_valid {registry : Registry σ} {plan : Plan} (h : plan.Valid registry g) :
    g.Listed (plan.topology.order.flatMap g.copies) := by
  refine ⟨nodup_copies h.ordered.1, fun u => ?_, Graph.nodup_lanes h.distinct⟩
  rw [List.mem_flatMap]
  constructor
  · rintro ⟨name, -, hu⟩
    rwa [copies_step hu]
  · intro hu
    have hname := Graph.mem_stepNames_of_mem_copies hu
    exact ⟨u.step, (Topology.ofGraph_perm h.names h.topology).mem_iff.mpr hname, hu⟩

/-- A valid plan is wired without fail, and has the lanes of its graph. -/
theorem ofPlan_strung {registry : Registry σ} {plan : Plan} (h : plan.Valid registry g)
    (settings : Settings) {net : Net} (hlinks : net.links = []) (hwakeups : net.wakeups = []) :
    ∃ w, ofPlan (σ := σ) settings g plan net = .ok w ∧
      w.Strung g (plan.topology.order.flatMap g.copies) g.lanes g.bundles := by
  have hg := listed_of_valid h
  obtain ⟨w₁, hunits, -⟩ := Except.foldlM_total (f := addStep (σ := σ) settings g)
    (fun _ _ => True) (l := plan.topology.order) (b := { net }) trivial
    fun done name hdone w _ => by
      have hname := (Topology.ofGraph_perm h.names h.topology).mem_iff.mp
        (hdone.subset (List.mem_append_right _ List.mem_cons_self))
      obtain ⟨spec, hspec⟩ := Graph.step_of_mem hname
      exact ⟨_, by simp [addStep, hspec, Except.mapError, bind, Except.bind]; rfl, trivial⟩
  obtain ⟨hlaid, hids, hlinks₁, hbare⟩ :=
    addSteps_eq_ok hunits (Laid.empty g hlinks hwakeups) hlinks (by simp)
  have hstart : w₁.Strung g (plan.topology.order.flatMap g.copies) [] [] := by
    refine ⟨hlaid, by simpa [ids] using hids, by simp [hlinks₁], ?_, fun u hu => ?_⟩
    · simpa [hlinks₁] using hlaid.wires
    · obtain ⟨hin, hout, hsteps⟩ := hbare u hu
      exact ⟨by simp [hin], by simp [hout], by simp [hin, hsteps]⟩
  obtain ⟨w, hhops, hstrung⟩ := Except.foldlM_total (f := connectHop settings.channelCapacity g)
    (fun done w => w.Strung g (plan.topology.order.flatMap g.copies)
      ((done.flatMap g.hopBundles).flatMap Bundle.lanes) (done.flatMap g.hopBundles))
    (l := g.enabledHops) hstart fun done hop hdone w hw => by
      have hmem := hdone.subset (List.mem_append_right _ List.mem_cons_self)
      obtain ⟨hsource, htarget⟩ := Topology.edges_known (h.hops hop hmem)
      obtain ⟨source, hs⟩ := Graph.step_of_mem hsource
      obtain ⟨target, ht⟩ := Graph.step_of_mem htarget
      have hnext : done.flatMap g.hopBundles ++ g.hopBundles hop <+: g.bundles := by
        simpa [Graph.bundles] using hdone.flatMap g.hopBundles
      obtain ⟨w', hw', hstrung⟩ := hw.connectHop hg hs ht
        (h.copies target (Graph.step_eq_ok ht).1) hnext settings.channelCapacity
      exact ⟨w', hw', by simpa using hstrung⟩
  exact ⟨w, Except.bind_eq_ok.mpr ⟨w₁, hunits, hhops⟩, hstrung⟩

end Wiring

end Sluice
