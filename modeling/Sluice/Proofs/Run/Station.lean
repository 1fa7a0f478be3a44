import Sluice.Proofs.Prelude
import Sluice.Proofs.Run.Chart
import Sluice.Proofs.Run.Steps

/-!
Stations: what of a unit is fixed as soon as the run is set up. No step of a party changes it, so
the chart of a run stays what it is.
-/

namespace Sluice

/-- What of a border no call across it changes. -/
structure Place where
  unit : UnitId
  wakeup : Nat
  ins : List Nat
  /-- The channels of each output hop. -/
  outs : List (List Nat)
  policy : DataErrorPolicy
  distribute : Bool

structure Station where
  setup : Setup
  place : Place

def Border.place (p : Border) : Place :=
  ⟨p.unit, p.wakeup, p.inputChannels, p.outputs.map (·.channels), p.policy, p.distribute⟩

def RunUnit.station {σ : Type} (u : RunUnit σ) : Station :=
  ⟨u.setup, u.border.place⟩

namespace Border

variable {p p' : Border} {net : Net} {t : Touch}

theorem place_inputs (h : p'.place = p.place) : p'.inputChannels = p.inputChannels :=
  congrArg Place.ins h

theorem place_inputs_length (h : p'.place = p.place) : p'.inputs.length = p.inputs.length := by
  simpa [inputChannels] using congrArg List.length (place_inputs h)

theorem place_outputs (h : p'.place = p.place) : p'.outputChannels = p.outputChannels := by
  have houts : p'.outputs.map (·.channels) = p.outputs.map (·.channels) := congrArg Place.outs h
  simp only [outputChannels, List.flatMap_def, houts]

theorem place_outputs_length (h : p'.place = p.place) : p'.outputs.length = p.outputs.length := by
  simpa [place] using congrArg (fun q => q.outs.length) h

theorem place_finishInput (p : Border) (i : Nat) : (p.finishInput i).place = p.place := by
  have : (p.finishInput i).inputChannels = p.inputChannels := by
    refine List.ext_getElem? fun k => ?_
    simp only [inputChannels, finishInput, List.getElem?_map, List.getElem?_modify]
    cases p.inputs[k]? <;> simp
    split <;> rfl
  simp only [place, this]
  rfl

theorem place_setOutlet {hop : Nat} {o o' : Outlet} (ho : p.outputs[hop]? = some o)
    (he : o'.channels = o.channels) :
    Border.place { p with outputs := p.outputs.set hop o' } = p.place := by
  have houts : (p.outputs.set hop o').map (·.channels) = p.outputs.map (·.channels) :=
    List.map_set_of_eq ho he
  simp only [place, houts]
  rfl

theorem ReadStep.place {call : Reading} {onward : Onward Reading (Except StepError (Option Row))}
    (h : p.ReadStep net t call p' onward) : p'.place = p.place := by
  cases h with
  | scan_ended => exact place_finishInput p _
  | received_end => exact place_finishInput p _
  | _ => rfl

theorem WriteStep.place {call : Writing} {onward : Onward Writing (Except StepError Unit)}
    (h : p.WriteStep net t call p' onward) : p'.place = p.place := by
  cases h with
  | choose turn =>
    obtain ⟨o, ho, -, rfl⟩ := takeTurn_some turn
    exact place_setOutlet ho rfl
  | _ => rfl

def hops (p : Border) : List UnitId × List String :=
  (p.inputs.map (·.source), p.outputs.map (·.target))

theorem hops_finishInput (p : Border) (i : Nat) : (p.finishInput i).hops = p.hops :=
  Prod.ext (List.map_modify_of_eq (f := Inlet.source) (g := fun inlet => { inlet with finished := true })
    (fun _ => rfl) p.inputs i) rfl

theorem ReadStep.hops {call : Reading} {onward : Onward Reading (Except StepError (Option Row))}
    (h : p.ReadStep net t call p' onward) : p'.hops = p.hops := by
  cases h with
  | scan_ended => exact hops_finishInput p _
  | received_end => exact hops_finishInput p _
  | _ => rfl

theorem WriteStep.hops {call : Writing} {onward : Onward Writing (Except StepError Unit)}
    (h : p.WriteStep net t call p' onward) : p'.hops = p.hops := by
  cases h with
  | choose turn =>
    obtain ⟨o, ho, -, rfl⟩ := takeTurn_some turn
    exact Prod.ext rfl (List.map_set_of_eq ho rfl)
  | _ => rfl

end Border

namespace RunUnit

variable {σ : Type} {u u' : RunUnit σ} {net : Net} {armed : List String} {t : Touch}

theorem station_eq (hs : u'.setup = u.setup) (hp : u'.border.place = u.border.place) :
    u'.station = u.station := by
  simp only [station, hs, hp]

theorem Judged.station {r : Except Halt BatchOutcome} (h : u.Judged r u') :
    u'.station = u.station := by
  cases h <;> rfl

theorem station_disposeStep (u : RunUnit σ) : u.disposeStep.1.station = u.station := by
  unfold disposeStep
  split
  · rfl
  · dsimp only
    split <;> rfl

theorem Moved.station (h : u.Moved net armed t u') : u'.station = u.station := by
  cases h with
  | batch_over _ judged => exact judged.station
  | read_on _ step => exact station_eq rfl step.place
  | read_done _ step => exact station_eq rfl step.place
  | write_on _ step => exact station_eq rfl step.place
  | write_done _ step => exact station_eq rfl step.place
  | disposed => exact station_disposeStep u
  | _ => rfl

theorem Moved.id (h : u.Moved net armed t u') : u'.id = u.id :=
  congrArg (fun s : Station => s.place.unit) h.station

theorem Moved.outputs (h : u.Moved net armed t u') :
    u'.border.outputChannels = u.border.outputChannels :=
  Border.place_outputs (congrArg Station.place h.station)

theorem Moved.hops (h : u.Moved net armed t u') : u'.border.hops = u.border.hops := by
  cases h with
  | batch_over _ judged => cases judged <;> rfl
  | read_on _ step => exact step.hops
  | read_done _ step => exact step.hops
  | write_on _ step => exact step.hops
  | write_done _ step => exact step.hops
  | disposed =>
    unfold disposeStep
    split
    · rfl
    · dsimp only
      split <;> rfl
  | _ => rfl

/-- What of a unit its wiring fixes. -/
def rig (u : RunUnit σ) : Station × List UnitId × List String :=
  (u.station, u.border.hops)

theorem Moved.rig (h : u.Moved net armed t u') : u'.rig = u.rig :=
  Prod.ext h.station h.hops

end RunUnit

section

variable {σ : Type}

/-- The channels from outside, with the units they lead to. -/
def Run.feeds (r : Run σ) : List (UnitId × Nat) :=
  r.producers.map fun p => (p.unit, p.channel)

theorem chartOf_congr {units units' : List (RunUnit σ)} {net net' : Net} {feeds : List Nat}
    (hu : units'.map (·.station) = units.map (·.station))
    (hr : net'.links.map (·.reader) = net.links.map (·.reader)) :
    chartOf units' net' feeds = chartOf units net feeds := by
  have hat (i : Nat) : (units'[i]?).map (·.station) = (units[i]?).map (·.station) := by
    rw [← List.getElem?_map, ← List.getElem?_map, hu]
  have hlen : units'.length = units.length := by
    simpa using congrArg List.length hu
  simp only [chartOf, hr, hlen, Chart.mk.injEq, true_and, and_true]
  refine ⟨funext fun i => ?_, funext fun i => ?_⟩ <;>
  · have := hat i
    cases h' : units'[i]? <;> cases h : units[i]? <;> simp [h', h] at this ⊢
    have := congrArg Station.place this
    first | exact Border.place_inputs this | exact Border.place_outputs this

theorem Run.chart_set {r : Run σ} {i : Nat} {u u' : RunUnit σ} {net' : Net} {t : Touch}
    (hu : r.units[i]? = some u) (hm : u.Moved r.net r.armed t u') (ht : r.net.Touched t net') :
    chartOf (r.units.set i u') net' (r.producers.map (·.channel)) = r.chart :=
  chartOf_congr (List.map_set_of_eq hu hm.station) ht.readers

def Run.stations (r : Run σ) : List Station :=
  r.units.map (·.station)

end

end Sluice
