import Sluice.Proofs.Graph.Validity
import Sluice.Proofs.Prelude
import Sluice.Proofs.Run.Chart

/-!
What wiring a plan gives: fresh units in the order of the plan, fresh channels, and a sound chart.
-/

namespace Sluice

structure Channel.Fresh {α : Type} (ch : Channel α) : Prop where
  queue : ch.queue = []
  closed : ch.closed = false
  aborted : ch.aborted = false
  rowsPut : ch.rowsPut = 0
  rowsTaken : ch.rowsTaken = 0

theorem Channel.new_fresh {α : Type} (capacity : Nat) : (Channel.new (α := α) capacity).Fresh :=
  ⟨rfl, rfl, rfl, rfl, rfl⟩

variable {σ : Type}

structure RunUnit.Fresh (u : RunUnit σ) : Prop where
  stage : u.stage = .unstarted
  life : u.life = {}
  step : u.step = none
  counters : u.border.counters = {}
  inputs : ∀ inlet ∈ u.border.inputs, inlet.finished = false
  outputs : ∀ o ∈ u.border.outputs, o.next = 0
  nextOutput : u.border.nextOutput = 0
  listeners : u.border.listeners = #[]

/-- The hops of a unit are those that its step was told of, and each has a channel. -/
structure RunUnit.Fitted (u : RunUnit σ) (g : Graph) : Prop where
  outlets : ∀ o ∈ u.border.outputs, o.channels ≠ []
  targets : u.setup.outputSteps = u.border.outputs.map (·.target)
  sources : g.inputHops u.setup.spec.name ≠ [] →
    u.setup.inputSteps = u.border.inputs.map (·.source.step)

structure RunUnit.Bare (u : RunUnit σ) : Prop where
  inputs : u.border.inputs = []
  outputs : u.border.outputs = []
  inputSteps : u.setup.inputSteps = []

theorem Run.indexOf?_eq_some {units : List (RunUnit σ)} {id : UnitId} {i : Nat}
    (h : Run.indexOf? units id = some i) : ∃ u, units[i]? = some u ∧ u.id = id := by
  obtain ⟨hi, hid, -⟩ := List.findIdx?_eq_some_iff_getElem.mp h
  exact ⟨units[i], List.getElem?_eq_getElem hi, by simpa using hid⟩

theorem Graph.step_eq_ok {g : Graph} {name : String} {spec : StepSpec}
    (h : g.step name = .ok spec) : spec ∈ g.steps ∧ spec.name = name := by
  unfold Graph.step Graph.step? at h
  split at h
  · rename_i s hs
    cases h
    exact ⟨List.mem_of_find?_eq_some hs, by simpa using List.find?_some hs⟩
  · cases h

theorem Graph.step_of_mem {g : Graph} {name : String} (h : name ∈ g.stepNames) :
    ∃ spec, g.step name = .ok spec := by
  obtain ⟨s, hs, hname⟩ := List.mem_map.mp h
  have hsome : (g.step? name).isSome = true :=
    List.find?_isSome.mpr ⟨s, hs, by simp [hname]⟩
  obtain ⟨spec, hspec⟩ := Option.isSome_iff_exists.mp hsome
  exact ⟨spec, by simp [Graph.step, hspec]⟩

/-- The units of a step. -/
def Graph.copies (g : Graph) (name : String) : List UnitId :=
  (List.range (((g.step? name).map (·.copies)).getD 0)).map (UnitId.mk name)

theorem Graph.copies_nodup (g : Graph) (name : String) : (g.copies name).Nodup :=
  List.nodup_range.map_on fun _ _ _ _ hab => (UnitId.mk.inj hab).2

theorem Graph.copies_of_step {g : Graph} {name : String} {spec : StepSpec}
    (h : g.step name = .ok spec) :
    g.copies name = (List.range spec.copies).map (UnitId.mk name) := by
  unfold Graph.step at h
  split at h
  · rename_i s hs
    cases h
    simp [Graph.copies, hs]
  · cases h

theorem Graph.mem_stepNames_of_mem_copies {g : Graph} {name : String} {u : UnitId}
    (h : u ∈ g.copies name) : name ∈ g.stepNames := by
  cases hs : g.step? name with
  | none => simp [Graph.copies, hs] at h
  | some s =>
    have hname : s.name = name := by simpa using List.find?_some hs
    exact hname ▸ List.mem_map_of_mem (List.mem_of_find?_eq_some hs)

namespace Wiring

/-- What every wiring keeps while it grows. -/
structure Laid (g : Graph) (w : Wiring σ) : Prop where
  fresh : ∀ u ∈ w.units, u.Fresh
  channels : ∀ c ch, w.net.channel? c = some ch → ch.Fresh
  wakeup : ∀ (i : Nat) (u : RunUnit σ), w.units[i]? = some u → u.border.wakeup = i
  wakeups : w.net.wakeups.length = w.units.length
  named : ∀ u ∈ w.units, u.setup.spec ∈ g.steps ∧ u.id.step = u.setup.spec.name
  fed : ∀ u ∈ w.units, u.border.inputs ≠ [] → g.inputHops u.setup.spec.name ≠ []
  fitted : ∀ u ∈ w.units, u.Fitted g
  wires : w.wires.map (·.channel) = List.range w.net.links.length

def ids (w : Wiring σ) : List UnitId := w.units.map (·.id)

variable {g : Graph} {w w' : Wiring σ}

theorem ids_modify {f : RunUnit σ → RunUnit σ} (hid : ∀ u, (f u).id = u.id) (i : Nat) (net : Net)
    (wires : List Wire) : ({ units := w.units.modify i f, net, wires } : Wiring σ).ids = w.ids :=
  List.map_modify_of_eq hid w.units i

theorem slot_eq_ok {id : UnitId} {i : Nat} (h : w.slot id = .ok i) :
    ∃ u, w.units[i]? = some u ∧ u.id = id := by
  unfold slot at h
  split at h
  · rename_i hi
    cases h
    exact Run.indexOf?_eq_some hi
  · cases h

theorem channel?_addLink {net : Net} {capacity : Nat} {reader : Option Nat} {c : Nat}
    {ch : Channel Row} (h : (net.addLink capacity reader).2.channel? c = some ch) :
    net.channel? c = some ch ∨ c = net.links.length ∧ ch = .new capacity := by
  simp only [Net.addLink, Net.channel?, List.getElem?_append] at h
  split at h
  · exact .inl h
  · rcases hc : c - net.links.length with _ | n
    · exact .inr ⟨by omega, by simpa [hc] using h.symm⟩
    · simp [hc] at h

theorem Laid.empty (g : Graph) {net : Net} (hl : net.links = []) (hw : net.wakeups = []) :
    Laid g ({ net } : Wiring σ) := by
  constructor <;> simp [hl, hw, Net.channel?]

theorem Laid.addUnit (h : w.Laid g) (settings : Settings) {spec : StepSpec}
    (hspec : spec ∈ g.steps) (copy : Nat) : (w.addUnit settings spec copy).Laid g := by
  have hmem {P : RunUnit σ → Prop} {new : RunUnit σ} (hold : ∀ u ∈ w.units, P u) (hnew : P new) :
      ∀ u ∈ w.units ++ [new], P u := by
    intro u hu
    rcases List.mem_append.mp hu with hu | hu
    · exact hold u hu
    · exact List.mem_singleton.mp hu ▸ hnew
  refine ⟨hmem h.fresh ?_, h.channels, fun i u hu => ?_, ?_, hmem h.named ⟨hspec, rfl⟩,
    hmem h.fed (by simp), hmem h.fitted ⟨by simp, rfl, fun _ => rfl⟩, h.wires⟩
  · exact ⟨rfl, rfl, rfl, rfl, by simp, by simp, rfl, rfl⟩
  · simp only [Wiring.addUnit, Net.addWakeup, List.getElem?_append] at hu
    split at hu
    · exact h.wakeup i u hu
    · rcases hi : i - w.units.length with _ | n
      · simp only [hi, List.getElem?_cons_zero, Option.some.injEq] at hu
        subst hu
        have := h.wakeups
        dsimp only
        omega
      · simp [hi] at hu
  · simp [Wiring.addUnit, Net.addWakeup, h.wakeups]

def attachInput (source : UnitId) (channel : Nat) (u : RunUnit σ) : RunUnit σ :=
  { u with
    border := u.border.addInput source channel
    setup := { u.setup with inputSteps := u.setup.inputSteps ++ [source.step] } }

def attachOutput (target : String) (channels : List Nat) (u : RunUnit σ) : RunUnit σ :=
  { u with
    border := u.border.addOutput target channels
    setup := { u.setup with outputSteps := u.setup.outputSteps ++ [target] } }

theorem connect_eq_ok {capacity c : Nat} {source target : UnitId}
    (h : connect capacity w source target = .ok (c, w')) :
    ∃ t u, w.units[t]? = some u ∧ u.id = target ∧ c = w.net.links.length ∧
      w' = { units := w.units.modify t (attachInput source c)
             net := (w.net.addLink capacity (some u.border.wakeup)).2
             wires := w.wires ++ [⟨c, source.format, target⟩] } := by
  unfold connect at h
  obtain ⟨t, ht, h⟩ := Except.bind_eq_ok.mp h
  obtain ⟨u, hu, hid⟩ := slot_eq_ok ht
  simp only [pure, Except.pure, Except.ok.injEq, Prod.mk.injEq, hu, Option.map_some] at h
  obtain ⟨rfl, rfl⟩ := h
  exact ⟨t, u, hu, hid, rfl, rfl⟩

theorem connectCopy_eq_ok {capacity copy : Nat} {source target : StepSpec}
    (h : connectCopy capacity source target w copy = .ok w') :
    ∃ channels w₁ s u,
      (targets source target copy).foldlM (fun (p : List Nat × Wiring σ) j => do
        let (channel, w) ← connect capacity p.2 ⟨source.name, copy⟩ ⟨target.name, j⟩
        return (p.1 ++ [channel], w)) ([], w) = .ok (channels, w₁) ∧
      w₁.units[s]? = some u ∧ u.id = ⟨source.name, copy⟩ ∧
      w' = { w₁ with units := w₁.units.modify s (attachOutput target.name channels) } := by
  unfold connectCopy at h
  obtain ⟨⟨channels, w₁⟩, hfold, h⟩ := Except.bind_eq_ok.mp h
  obtain ⟨s, hs, h⟩ := Except.bind_eq_ok.mp h
  obtain ⟨u, hu, hid⟩ := slot_eq_ok hs
  simp only [pure, Except.pure, Except.ok.injEq] at h
  exact ⟨channels, w₁, s, u, hfold, hu, hid, h.symm⟩

theorem Laid.modify (h : w.Laid g) {i : Nat} {f : RunUnit σ → RunUnit σ} {net : Net}
    {wires : List Wire} (hchannels : ∀ c ch, net.channel? c = some ch → ch.Fresh)
    (hwakeups : net.wakeups.length = w.net.wakeups.length)
    (hfresh : ∀ u ∈ w.units, u.Fresh → (f u).Fresh)
    (hwakeup : ∀ u, (f u).border.wakeup = u.border.wakeup)
    (hspec : ∀ u, (f u).setup.spec = u.setup.spec) (hid : ∀ u, (f u).id = u.id)
    (hfed : ∀ u, w.units[i]? = some u → (f u).border.inputs ≠ [] →
      g.inputHops u.setup.spec.name ≠ [])
    (hfitted : ∀ u, u.Fitted g → (f u).Fitted g)
    (hwires : wires.map (·.channel) = List.range net.links.length) :
    Laid g { units := w.units.modify i f, net, wires } := by
  refine ⟨fun u hu => ?_, hchannels, fun j u hu => ?_, ?_, fun u hu => ?_, fun u hu hin => ?_,
    fun u hu => ?_, hwires⟩
  · obtain hu | ⟨v, hv, rfl⟩ := List.mem_modify hu
    · exact h.fresh u hu
    · exact hfresh v (List.mem_of_getElem? hv) (h.fresh v (List.mem_of_getElem? hv))
  · simp only [List.getElem?_modify] at hu
    rcases hv : w.units[j]? with _ | v
    · simp [hv] at hu
    · rw [← h.wakeup j v hv]
      by_cases hij : i = j
      · simp only [hv, hij, if_true, Option.map_eq_map, Option.map_some, Option.some.injEq] at hu
        rw [← hu, hwakeup]
      · simp only [hv, hij, if_false, Option.map_eq_map, Option.map_some, Option.some.injEq] at hu
        rw [← hu]
  · simp [hwakeups, h.wakeups]
  · obtain hu | ⟨v, hv, rfl⟩ := List.mem_modify hu
    · exact h.named u hu
    · rw [hspec, hid]
      exact h.named v (List.mem_of_getElem? hv)
  · obtain hu | ⟨v, hv, rfl⟩ := List.mem_modify hu
    · exact h.fed u hu hin
    · rw [hspec]
      exact hfed v hv hin
  · obtain hu | ⟨v, hv, rfl⟩ := List.mem_modify hu
    · exact h.fitted u hu
    · exact hfitted v (h.fitted v (List.mem_of_getElem? hv))

theorem Laid.connect (h : w.Laid g) {capacity c : Nat} {source target : UnitId}
    (hc : connect capacity w source target = .ok (c, w')) (hop : g.inputHops target.step ≠ []) :
    w'.Laid g ∧ w'.ids = w.ids := by
  obtain ⟨t, u, hu, hid, hnumber, rfl⟩ := connect_eq_ok hc
  refine ⟨h.modify (fun c ch hch => ?_) rfl (fun v _ hv => ?_) (fun _ => rfl) (fun _ => rfl)
    (fun _ => rfl) (fun v hv _ => ?_) (fun v hv => ⟨hv.outlets, hv.targets, fun hop => ?_⟩) ?_, ?_⟩
  · obtain hch | ⟨-, rfl⟩ := channel?_addLink hch
    · exact h.channels c ch hch
    · exact Channel.new_fresh capacity
  · refine ⟨hv.stage, hv.life, hv.step, hv.counters, fun inlet hi => ?_, hv.outputs, hv.nextOutput,
      hv.listeners⟩
    rcases List.mem_append.mp hi with hi | hi
    · exact hv.inputs inlet hi
    · rw [List.mem_singleton.mp hi]
  · rw [hu, Option.some.injEq] at hv
    subst hv
    rw [← (h.named u (List.mem_of_getElem? hu)).2, hid]
    exact hop
  · simp [attachInput, Border.addInput, hv.sources hop]
  · simp [Net.addLink, h.wires, List.range_succ, hnumber]
  · exact ids_modify (f := attachInput source c) (fun _ => rfl) t _ _

theorem Laid.attachOutput (h : w.Laid g) (s : Nat) (target : String) {channels : List Nat}
    (hne : channels ≠ []) :
    let w' := { w with units := w.units.modify s (Wiring.attachOutput target channels) }
    w'.Laid g ∧ w'.ids = w.ids := by
  refine ⟨h.modify h.channels rfl (fun v _ hv => ?_) (fun _ => rfl) (fun _ => rfl) (fun _ => rfl)
    (fun v hv hin => h.fed v (List.mem_of_getElem? hv) hin) (fun v hv => ⟨fun o ho => ?_, ?_, hv.sources⟩)
    h.wires, ?_⟩
  · refine ⟨hv.stage, hv.life, hv.step, hv.counters, hv.inputs, fun o ho => ?_, hv.nextOutput,
      hv.listeners⟩
    rcases List.mem_append.mp ho with ho | ho
    · exact hv.outputs o ho
    · rw [List.mem_singleton.mp ho]
  · rcases List.mem_append.mp ho with ho | ho
    · exact hv.outlets o ho
    · rw [List.mem_singleton.mp ho]
      exact hne
  · simp [Wiring.attachOutput, Border.addOutput, hv.targets]
  · exact ids_modify (f := Wiring.attachOutput target channels) (fun _ => rfl) s _ _

theorem chartOf_modify_ins {units : List (RunUnit σ)} {net net' : Net} {feeds : List Nat}
    {t c : Nat} {f : RunUnit σ → RunUnit σ} (ht : t < units.length)
    (hlinks : net'.links.map (·.reader) = net.links.map (·.reader) ++ [some t])
    (hc : c = net.links.length)
    (hins : ∀ u, (f u).border.inputChannels = u.border.inputChannels ++ [c])
    (houts : ∀ u, (f u).border.outputChannels = u.border.outputChannels) :
    chartOf (units.modify t f) net' feeds = (chartOf units net feeds).addReader t := by
  simp only [chartOf, Chart.addReader, List.length_modify, hlinks, Chart.mk.injEq, true_and,
    and_true]
  refine ⟨funext fun i => ?_, funext fun i => ?_⟩
  · rw [List.getElem?_modify, Function.update_apply]
    by_cases hi : i = t
    · subst hi
      simp [List.getElem?_eq_getElem ht, hins, hc, Chart.channels]
    · cases units[i]? <;> simp [hi, Ne.symm hi]
  · rw [List.getElem?_modify]
    cases hu : units[i]? with
    | none => simp
    | some u => by_cases hi : t = i <;> simp [hi, houts]

theorem chartOf_modify_outs {units : List (RunUnit σ)} {net : Net} {feeds cs : List Nat} {s : Nat}
    {f : RunUnit σ → RunUnit σ} (hs : s < units.length)
    (hins : ∀ u, (f u).border.inputChannels = u.border.inputChannels)
    (houts : ∀ u, (f u).border.outputChannels = u.border.outputChannels ++ cs) :
    chartOf (units.modify s f) net feeds = (chartOf units net feeds).addWriter s cs := by
  simp only [chartOf, Chart.addWriter, List.length_modify, Chart.mk.injEq, true_and, and_true]
  refine ⟨funext fun i => ?_, funext fun i => ?_⟩
  · rw [List.getElem?_modify]
    cases hu : units[i]? with
    | none => simp
    | some u => by_cases hi : s = i <;> simp [hi, hins]
  · rw [List.getElem?_modify, Function.update_apply]
    by_cases hi : i = s
    · subst hi
      simp [List.getElem?_eq_getElem hs, houts]
    · cases units[i]? <;> simp [hi, Ne.symm hi]

theorem Laid.chart_connect (h : w.Laid g) {capacity c : Nat} {source target : UnitId}
    (hc : Wiring.connect capacity w source target = .ok (c, w')) :
    ∃ t, w.ids[t]? = some target ∧ c = w.chart.channels ∧ w'.chart = w.chart.addReader t := by
  obtain ⟨t, u, hu, hid, rfl, rfl⟩ := connect_eq_ok hc
  refine ⟨t, by simp [ids, hu, hid], by simp [Wiring.chart, chartOf, Chart.channels], ?_⟩
  refine chartOf_modify_ins (List.getElem?_eq_some_iff.mp hu).1 ?_ rfl (fun _ => ?_) fun _ => rfl
  · simp [Net.addLink, h.wakeup t u hu]
  · simp [attachInput, Border.addInput, Border.inputChannels]

theorem chart_attachOutput {s : Nat} (hs : s < w.units.length) (target : String)
    (channels : List Nat) :
    Wiring.chart { w with units := w.units.modify s (Wiring.attachOutput target channels) } =
      w.chart.addWriter s channels :=
  chartOf_modify_outs hs (fun _ => rfl) fun _ => by
    simp [Wiring.attachOutput, Border.addOutput, Border.outputChannels]

/-- In the order of a plan: nothing feeds itself, and nothing later feeds anything earlier. -/
structure Ordered (g : Graph) (ids : List UnitId) : Prop where
  irrefl : ∀ x ∈ ids, (x.step, x.step) ∉ Topology.edges g
  pairwise : ids.Pairwise fun x y => (y.step, x.step) ∉ Topology.edges g

theorem Ordered.lt {ids : List UnitId} (h : Ordered g ids) {s t : Nat} {x y : UnitId}
    (hs : ids[s]? = some x) (ht : ids[t]? = some y) (he : (x.step, y.step) ∈ Topology.edges g) :
    s < t := by
  obtain ⟨hs', rfl⟩ := List.getElem?_eq_some_iff.mp hs
  obtain ⟨ht', rfl⟩ := List.getElem?_eq_some_iff.mp ht
  rcases Nat.lt_trichotomy s t with hlt | rfl | hgt
  · exact hlt
  · exact absurd he (h.irrefl _ (List.getElem_mem hs'))
  · exact absurd he (List.pairwise_iff_getElem.mp h.pairwise t s ht' hs' hgt)

/-- A wiring of a graph under way, with a sound chart. -/
structure Charted (g : Graph) (w : Wiring σ) : Prop where
  laid : w.Laid g
  ordered : Ordered g w.ids
  sound : ∃ writer, w.chart.Sound writer

theorem targets_ne_nil (source : StepSpec) {target : StepSpec} (h : target.copies ≠ 0) (copy : Nat) :
    targets source target copy ≠ [] := by
  unfold targets
  split
  · simp
  · simpa using h

/-- The hop of one copy: the channels first become inputs, and last of all an output hop. -/
theorem Charted.connectCopy (h : w.Charted g) {capacity copy : Nat} {source target : StepSpec}
    (hc : Wiring.connectCopy capacity source target w copy = .ok w')
    (he : (source.name, target.name) ∈ Topology.edges g)
    (hop : g.inputHops target.name ≠ []) (hcopies : target.copies ≠ 0) :
    w'.Charted g ∧ w'.ids = w.ids := by
  obtain ⟨channels, w₁, s, u, hfold, hu, hid, rfl⟩ := connectCopy_eq_ok hc
  have hne : channels ≠ [] := by
    obtain ⟨j, rest, hcons⟩ := List.exists_cons_of_ne_nil (targets_ne_nil source hcopies copy)
    rw [hcons, List.foldlM_cons] at hfold
    obtain ⟨⟨cs, w₂⟩, hfirst, hfold⟩ := Except.bind_eq_ok.mp hfold
    have hgrown {p : List Nat × Wiring σ} {j : Nat} {cs : List Nat} {w : Wiring σ}
        (hstep : (do
          let (channel, w) ← Wiring.connect capacity p.2 ⟨source.name, copy⟩ ⟨target.name, j⟩
          return (p.1 ++ [channel], w)) = Except.ok (cs, w)) : cs ≠ [] := by
      obtain ⟨⟨c, w₄⟩, -, hstep⟩ := Except.bind_eq_ok.mp hstep
      simp only [pure, Except.pure, Except.ok.injEq, Prod.mk.injEq] at hstep
      simp [← hstep.1]
    exact Except.foldlM_induction (fun p => p.1 ≠ []) (fun j _ p p' _ hstep => hgrown hstep)
      (hgrown hfirst) hfold
  have hkept : w₁.Laid g ∧ w₁.ids = w.ids := by
    refine Except.foldlM_induction (fun p => p.2.Laid g ∧ p.2.ids = w.ids) ?_ ⟨h.laid, rfl⟩ hfold
    rintro j - ⟨cs, w₂⟩ ⟨cs', w₃⟩ ⟨hl, hids⟩ hstep
    obtain ⟨⟨c, w₄⟩, hcon, hstep⟩ := Except.bind_eq_ok.mp hstep
    obtain ⟨hl', hids'⟩ := hl.connect hcon hop
    simp only [pure, Except.pure, Except.ok.injEq, Prod.mk.injEq] at hstep
    obtain ⟨-, rfl⟩ := hstep
    exact ⟨hl', hids'.trans hids⟩
  have hs : w.ids[s]? = some ⟨source.name, copy⟩ := by
    rw [← hkept.2]
    simp [ids, hu, hid]
  have hchart : ∃ writer, (w₁.chart.addWriter s channels).Sound writer := by
    refine (Except.foldlM_induction (fun p => p.2.Laid g ∧ p.2.ids = w.ids ∧
      ∃ writer, (p.2.chart.addWriter s p.1).Sound writer) ?_ ⟨h.laid, rfl, ?_⟩ hfold).2.2
    · rintro j - ⟨cs, w₂⟩ ⟨cs', w₃⟩ ⟨hl, hids, writer, hsound⟩ hstep
      obtain ⟨⟨c, w₄⟩, hcon, hstep⟩ := Except.bind_eq_ok.mp hstep
      obtain ⟨hl', hids'⟩ := hl.connect hcon hop
      obtain ⟨t, ht, rfl, hch⟩ := hl.chart_connect hcon
      simp only [pure, Except.pure, Except.ok.injEq, Prod.mk.injEq] at hstep
      obtain ⟨rfl, rfl⟩ := hstep
      have hlt : t < w₂.units.length := by
        have := (List.getElem?_eq_some_iff.mp ht).1
        simpa [ids] using this
      rw [hids] at ht
      have hlink := hsound.link (h.ordered.lt hs ht he) hlt
      rw [Chart.link, Chart.addReader_addWriter, Chart.addWriter_append, ← hch] at hlink
      exact ⟨hl', hids'.trans hids, _, hlink⟩
    · simpa only [Chart.addWriter_nil] using h.sound
  obtain ⟨hl, hids⟩ := hkept.1.attachOutput s target.name hne
  refine ⟨⟨hl, by rw [hids, hkept.2]; exact h.ordered, ?_⟩, hids.trans hkept.2⟩
  rwa [chart_attachOutput (List.getElem?_eq_some_iff.mp hu).1]

theorem Charted.connectHop (h : w.Charted g) {capacity : Nat} {hop : Hop}
    (hc : Wiring.connectHop capacity g w hop = .ok w') (hmem : hop ∈ g.enabledHops)
    (he : (hop.source, hop.target) ∈ Topology.edges g) (hcopies : ∀ s ∈ g.steps, s.copies ≠ 0) :
    w'.Charted g ∧ w'.ids = w.ids := by
  unfold Wiring.connectHop at hc
  obtain ⟨source, hs, hc⟩ := Except.bind_eq_ok.mp hc
  obtain ⟨target, ht, hc⟩ := Except.bind_eq_ok.mp hc
  obtain ⟨-, hsource⟩ := Graph.step_eq_ok (Except.mapError_eq_ok.mp hs)
  obtain ⟨htarget_mem, htarget⟩ := Graph.step_eq_ok (Except.mapError_eq_ok.mp ht)
  rw [← hsource, ← htarget] at he
  have hinto : g.inputHops target.name ≠ [] :=
    List.ne_nil_of_mem (List.mem_filter.mpr ⟨hmem, by simp [htarget]⟩)
  refine Except.foldlM_induction (fun w' => w'.Charted g ∧ w'.ids = w.ids) ?_ ⟨h, rfl⟩ hc
  rintro copy - w₁ w₂ ⟨hw, hids⟩ hstep
  obtain ⟨hw', hids'⟩ := hw.connectCopy hstep he hinto (hcopies target htarget_mem)
  exact ⟨hw', hids'.trans hids⟩

theorem addStep_eq_ok {settings : Settings} {name : String}
    (h : addStep settings g w name = .ok w') (hl : w.Laid g) :
    w'.Laid g ∧ w'.ids = w.ids ++ g.copies name ∧ w'.net.links = w.net.links ∧
      ((∀ u ∈ w.units, u.Bare) → ∀ u ∈ w'.units, u.Bare) := by
  unfold addStep at h
  replace h := Except.bind_eq_ok.mp h
  obtain ⟨spec, hs, h⟩ := h
  have hs := Except.mapError_eq_ok.mp hs
  obtain ⟨hmem, hname⟩ := Graph.step_eq_ok hs
  simp only [pure, Except.pure, Except.ok.injEq] at h
  subst h
  rw [Graph.copies_of_step hs]
  generalize List.range spec.copies = copies
  induction copies generalizing w with
  | nil => exact ⟨hl, by simp, rfl, id⟩
  | cons copy rest ih =>
    obtain ⟨hl', hids, hlinks, hbare⟩ := ih (hl.addUnit settings hmem copy)
    refine ⟨hl', ?_, hlinks, fun hall => hbare fun u hu => ?_⟩
    · rw [List.foldl_cons, hids]
      simp [ids, addUnit, RunUnit.id, hname]
    · rcases List.mem_append.mp hu with hu | hu
      · exact hall u hu
      · rw [List.mem_singleton.mp hu]
        exact ⟨rfl, rfl, rfl⟩

theorem addSteps_eq_ok {settings : Settings} {order : List String}
    (h : order.foldlM (addStep settings g) w = .ok w') (hl : w.Laid g) (hlinks : w.net.links = [])
    (hbare : ∀ u ∈ w.units, u.Bare) :
    w'.Laid g ∧ w'.ids = w.ids ++ order.flatMap g.copies ∧ w'.net.links = [] ∧
      ∀ u ∈ w'.units, u.Bare := by
  induction order generalizing w with
  | nil =>
    simp only [List.foldlM_nil, pure, Except.pure, Except.ok.injEq] at h
    subst h
    exact ⟨hl, by simp, hlinks, hbare⟩
  | cons name rest ih =>
    rw [List.foldlM_cons, Except.bind_eq_ok] at h
    obtain ⟨w₁, hstep, h⟩ := h
    obtain ⟨hl', hids, hlinks', hbare'⟩ := addStep_eq_ok hstep hl
    obtain ⟨hl'', hids', hlinks'', hbare''⟩ := ih h hl' (hlinks'.trans hlinks) (hbare' hbare)
    exact ⟨hl'', by rw [hids', hids]; simp, hlinks'', hbare''⟩

theorem copies_step {name : String} {x : UnitId} (h : x ∈ g.copies name) : x.step = name := by
  obtain ⟨copy, -, rfl⟩ := List.mem_map.mp h
  rfl

theorem nodup_copies {order : List String} (hn : order.Nodup) : (order.flatMap g.copies).Nodup := by
  refine List.nodup_flatMap.mpr ⟨fun name _ => g.copies_nodup name, hn.imp fun hne x hx hy => ?_⟩
  exact hne ((copies_step hx).symm.trans (copies_step hy))

theorem ordered_copies {order : List String} (hn : order.Nodup)
    (h : Topology.Legal (Topology.edges g) order.reverse) :
    Ordered g (order.flatMap g.copies) := by
  have hir (v : String) (hv : v ∈ order) : (v, v) ∉ Topology.edges g := fun he =>
    h.acyclic (List.nodup_reverse.mpr hn) (List.mem_reverse.mpr hv) (.single he)
  refine ⟨fun x hx => ?_, ?_⟩
  · obtain ⟨v, hv, hx⟩ := List.mem_flatMap.mp hx
    rw [copies_step hx]
    exact hir v hv
  · rw [List.pairwise_flatMap]
    refine ⟨fun v hv => ?_, (Topology.Legal.pairwise hn h).imp fun hab x hx y hy => ?_⟩
    · refine List.pairwise_of_forall_mem_list fun x hx y hy => ?_
      rw [copies_step hx, copies_step hy]
      exact hir v hv
    · rw [copies_step hx, copies_step hy]
      exact hab

/-- All units in the order of the plan, each with its ends of the channels. -/
theorem ofPlan_charted {settings : Settings} {plan : Plan} {net : Net}
    (hlinks : net.links = []) (hwakeups : net.wakeups = [])
    (hn : plan.topology.order.Nodup)
    (hlegal : Topology.Legal (Topology.edges g) plan.topology.order.reverse)
    (hhops : ∀ h ∈ g.enabledHops, (h.source, h.target) ∈ Topology.edges g)
    (hcopies : ∀ s ∈ g.steps, s.copies ≠ 0)
    (h : ofPlan (σ := σ) settings g plan net = .ok w) :
    w.Charted g ∧ w.ids = plan.topology.order.flatMap g.copies := by
  unfold ofPlan at h
  obtain ⟨w₁, hunits, h⟩ := Except.bind_eq_ok.mp h
  obtain ⟨hl, hids, hlinks₁, hbare⟩ :=
    addSteps_eq_ok hunits (Laid.empty g hlinks hwakeups) hlinks (by simp)
  have hids : w₁.ids = plan.topology.order.flatMap g.copies := by simpa [ids] using hids
  have hstart : w₁.Charted g := by
    refine ⟨hl, hids ▸ ordered_copies hn hlegal, fun _ => none, ?_⟩
    have hin (i : Nat) : w₁.chart.ins i = [] ∧ w₁.chart.outs i = [] := by
      simp only [chart, chartOf]
      cases hu : w₁.units[i]? with
      | none => simp
      | some u =>
        obtain ⟨h1, h2, -⟩ := hbare u (List.mem_of_getElem? hu)
        simp [Border.inputChannels, Border.outputChannels, h1, h2]
    have hreaders : w₁.chart.readers = [] := by simp [chart, chartOf, hlinks₁]
    have hfeeds : w₁.chart.feeds = [] := rfl
    constructor <;> simp [hin, hreaders, hfeeds, Chart.channels]
  rw [← hids]
  refine Except.foldlM_induction (fun w => w.Charted g ∧ w.ids = w₁.ids) ?_ ⟨hstart, rfl⟩ h
  rintro hop hmem w₂ w₃ ⟨hw, hids'⟩ hstep
  obtain ⟨hw', hids''⟩ := hw.connectHop hstep hmem (hhops hop hmem) hcopies
  exact ⟨hw', hids''.trans hids'⟩

/-- What holds at first and is kept by each unit, each channel and each output hop that is added. -/
theorem ofPlan_induction (P : Wiring σ → Prop) {settings : Settings} {plan : Plan} {net : Net}
    (hunit : ∀ w spec copy, P w → P (w.addUnit settings spec copy))
    (hlink : ∀ (w w' : Wiring σ) c source target, P w →
      connect settings.channelCapacity w source target = .ok (c, w') → P w')
    (houtput : ∀ (w : Wiring σ) s target channels, P w →
      P { w with units := w.units.modify s (attachOutput target channels) })
    (hstart : P { net }) (h : ofPlan settings g plan net = .ok w) : P w := by
  unfold ofPlan at h
  obtain ⟨w₁, hunits, h⟩ := Except.bind_eq_ok.mp h
  refine Except.foldlM_induction P (fun hop _ w w' hw hstep => ?_) ?_ h
  · obtain ⟨source, -, hstep⟩ := Except.bind_eq_ok.mp hstep
    obtain ⟨target, -, hstep⟩ := Except.bind_eq_ok.mp hstep
    refine Except.foldlM_induction P (fun copy _ w w' hw hstep => ?_) hw hstep
    obtain ⟨channels, w₂, s, u, hfold, -, -, rfl⟩ := connectCopy_eq_ok hstep
    refine houtput w₂ s target.name channels ?_
    refine Except.foldlM_induction (fun p => P p.2) ?_ hw hfold
    rintro j - ⟨cs, w₂⟩ ⟨cs', w₃⟩ hw hstep
    obtain ⟨⟨c, w₄⟩, hcon, hstep⟩ := Except.bind_eq_ok.mp hstep
    simp only [pure, Except.pure, Except.ok.injEq, Prod.mk.injEq] at hstep
    obtain ⟨-, rfl⟩ := hstep
    exact hlink w₂ w₄ c _ _ hw hcon
  · refine Except.foldlM_induction P (fun name _ w w' hw hstep => ?_) hstart hunits
    replace hstep := Except.bind_eq_ok.mp hstep
    obtain ⟨spec, -, hstep⟩ := hstep
    simp only [pure, Except.pure, Except.ok.injEq] at hstep
    subst hstep
    generalize List.range spec.copies = copies
    induction copies generalizing w with
    | nil => exact hw
    | cons copy rest ih => exact ih _ (hunit w spec copy hw)

theorem ofPlan_stopping {settings : Settings} {plan : Plan} {net : Net}
    (h : ofPlan (σ := σ) settings g plan net = .ok w) : w.net.stopping = net.stopping := by
  refine ofPlan_induction (fun w => w.net.stopping = net.stopping) (fun _ _ _ hw => hw) ?_
    (fun _ _ _ _ hw => hw) rfl h
  intro w w' c source target hw hcon
  obtain ⟨t, u, -, -, -, rfl⟩ := connect_eq_ok hcon
  exact hw

end Wiring

/-- What a graph with a plan is known to be. -/
structure Plan.Valid (registry : Registry σ) (g : Graph) (plan : Plan) : Prop where
  names : g.stepNames.Nodup
  copies : ∀ s ∈ g.steps, s.copies ≠ 0
  types : ∀ s ∈ g.steps, registry.contains s.type = true
  hops : ∀ h ∈ g.enabledHops, (h.source, h.target) ∈ Topology.edges g
  distinct : (g.enabledHops.map fun h => (h.source, h.target)).Nodup
  inputs : ∀ s ∈ g.steps, Plan.checkInputs registry g s = .ok ()
  topology : Topology.ofGraph g = .ok plan.topology

theorem Plan.ofGraph_valid {registry : Registry σ} {g : Graph} {plan : Plan}
    (h : Plan.ofGraph registry g = .ok plan) : plan.Valid registry g := by
  have fit := Plan.ofGraph_ok_iff.mp ⟨plan, h⟩
  obtain ⟨-, -, -, hinputs, t, ht, rfl⟩ := Plan.ofGraph_eq_ok.mp h
  exact ⟨fit.names, fun s hs => Nat.one_le_iff_ne_zero.mp (fit.copies s hs), fit.types,
    fun hop hm => Topology.mem_edges.mpr (Graph.feeds_of_mem (fit.ends hop hm) hm), fit.hops,
    hinputs, ht⟩

theorem Plan.Valid.ordered {registry : Registry σ} {g : Graph} {plan : Plan}
    (h : plan.Valid registry g) :
    plan.topology.order.Nodup ∧
      Topology.Legal (Topology.edges g) plan.topology.order.reverse :=
  Topology.ofGraph_legal h.names h.topology

end Sluice
