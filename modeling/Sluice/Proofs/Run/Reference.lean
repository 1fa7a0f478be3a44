import Sluice.Proofs.Run.Closing

/-!
A whole run without threads: the units are visited once, in the order of the plan, and each applies
the list function of its step to the complete streams of its inputs and splits what it sends out
among its output hops and channels. Where every unit of a run finished, the rows that each channel
carried and the reports of the units are those of this evaluation.
-/

namespace Sluice

structure Evaluation where
  /-- All rows that go through each channel. -/
  streams : Nat → List Row
  reports : List UnitReport := []

namespace Place

def shares (p : Place) : Bool :=
  p.distribute && decide (1 < p.outs.length)

/-- The rows for one of the channels that a unit writes. -/
def share (p : Place) (out : List Emission) (c : Nat) : Option (List Row) :=
  p.outs.zipIdx.findSome? fun (channels, hop) => (channels.idxOf? c).map fun i =>
    deal channels.length i 0 (hopRows p.shares p.outs.length hop 0 out)

theorem share_eq {p : Place} {out : List Emission} {put : Nat → List Row}
    (h : ∀ (hop i c : Nat) (channels : List Nat), p.outs[hop]? = some channels →
      channels[i]? = some c →
      put c = deal channels.length i 0 (hopRows p.shares p.outs.length hop 0 out)) (c : Nat) :
    p.share out c = if c ∈ p.outs.flatten then some (put c) else none := by
  rcases hs : p.share out c with _ | rows
  · rw [if_neg]
    intro hc
    obtain ⟨channels, hmem, hc⟩ := List.mem_flatten.mp hc
    obtain ⟨hop, hhop⟩ := List.getElem?_of_mem hmem
    have hnone := List.findSome?_eq_none_iff.mp hs (channels, hop)
      (List.mem_zipIdx_iff_getElem?.mpr hhop)
    simp [hc] at hnone
  · obtain ⟨⟨channels, hop⟩, hmem, hsome⟩ := List.exists_of_findSome?_eq_some hs
    obtain ⟨i, hi, rfl⟩ := Option.map_eq_some_iff.mp hsome
    have hhop := List.mem_zipIdx_iff_getElem?.mp hmem
    obtain ⟨hlt, hc, -⟩ := List.findIdx?_eq_some_iff_getElem.mp hi
    have hat : channels[i]? = some c := by
      rw [List.getElem?_eq_getElem hlt]
      simpa using hc
    rw [if_pos, h hop i c channels hhop hat]
    exact List.mem_flatten.mpr ⟨channels, List.mem_of_getElem? hhop, List.mem_of_getElem? hat⟩

end Place

namespace Station

def emissions (s : Station) (inputs : List (List Row)) : Option (List Emission) := do
  let type ← Catalog.builtins.find? s.setup.spec.type
  let memory ← (type.behaviour.init s.setup).toOption
  memory.emissions s.place.policy inputs

def report (s : Station) (inputs : List (List Row)) (out : List Emission) : UnitReport where
  unit := s.place.unit
  state := .finished
  linesRead := inputs.flatten.length
  linesWritten := (out.filterMap (·.row?)).length
  errors := (out.filterMap (·.fault?)).length
  messages := out.filterMap (·.fault?)

/-- The streams of all channels agree with what the step of a unit makes of its inputs. -/
def Settled (s : Station) (put : Nat → List Row) (report : UnitReport) : Prop :=
  ∃ out, s.emissions (s.place.ins.map put) = some out ∧
    (∀ c, s.place.share out c = if c ∈ s.place.outs.flatten then some (put c) else none) ∧
    report = s.report (s.place.ins.map put) out

end Station

namespace Evaluation

def visit (e : Evaluation) (s : Station) : Option Evaluation := do
  let inputs := s.place.ins.map e.streams
  let out ← s.emissions inputs
  return {
    streams := fun c => (s.place.share out c).getD (e.streams c)
    reports := e.reports ++ [s.report inputs out] }

/-- All units in turn. The streams are those from outside at first. -/
def ofStations (stations : List Station) (feeds : Nat → List Row) : Option Evaluation :=
  stations.foldlM visit { streams := feeds }

theorem ofStations_append (stations : List Station) (s : Station) (feeds : Nat → List Row) :
    ofStations (stations ++ [s]) feeds = (ofStations stations feeds).bind (visit · s) := by
  simp [ofStations, List.foldlM_append]

/-- The equations of all units have one solution, which is found in any order in which the inputs of
a unit come from outside or from units before it. -/
theorem ofStations_settled {α : Type} {units : List α} {station : α → Station}
    {report : α → UnitReport} {feeds put : Nat → List Row}
    (settled : ∀ u ∈ units, (station u).Settled put (report u))
    (ready : ∀ (i : Nat) (u : α), units[i]? = some u → ∀ c ∈ (station u).place.ins,
      feeds c = put c ∨ ∃ j < i, ∃ v, units[j]? = some v ∧ c ∈ (station v).place.outs.flatten) :
    ∃ e, ofStations (units.map station) feeds = some e ∧ e.reports = units.map report ∧
      ∀ c, e.streams c =
        if c ∈ units.flatMap fun u => (station u).place.outs.flatten then put c else feeds c := by
  induction units using List.reverseRecOn with
  | nil => exact ⟨_, rfl, rfl, fun c => by simp⟩
  | append_singleton units u ih =>
    have hbefore {j : Nat} (hj : j < units.length) : (units ++ [u])[j]? = units[j]? :=
      List.getElem?_append_left hj
    obtain ⟨e, he, hreports, hstreams⟩ := ih
      (fun v hv => settled v (List.mem_append_left _ hv)) fun i v hi c hc => by
        have hlt := (List.getElem?_eq_some_iff.mp hi).1
        obtain hfed | ⟨j, hj, w, hw, hout⟩ := ready i v ((hbefore hlt).trans hi) c hc
        · exact .inl hfed
        · exact .inr ⟨j, hj, w, (hbefore (by omega)).symm.trans hw, hout⟩
    have hinputs : (station u).place.ins.map e.streams = (station u).place.ins.map put := by
      refine List.map_congr_left fun c hc => ?_
      rw [hstreams]
      obtain hfed | ⟨j, hj, v, hv, hout⟩ := ready units.length u (by simp) c hc
      · rw [hfed, ite_self]
      · exact if_pos (List.mem_flatMap.mpr
          ⟨v, List.mem_of_getElem? ((hbefore hj).symm.trans hv), hout⟩)
    obtain ⟨out, hout, hshare, hreport⟩ := settled u (by simp)
    obtain ⟨e', he', hreports', hstreams'⟩ : ∃ e', visit e (station u) = some e' ∧
        e'.reports = e.reports ++ [report u] ∧
        ∀ c, e'.streams c = ((station u).place.share out c).getD (e.streams c) := by
      simp [visit, hinputs, hout, hreport]
    refine ⟨e', ?_, ?_, fun c => ?_⟩
    · rw [List.map_append, List.map_singleton, ofStations_append, he]
      exact he'
    · simp [hreports', hreports]
    · simp only [hstreams', hshare, hstreams, List.flatMap_append, List.mem_append,
        List.flatMap_singleton]
      by_cases hc : c ∈ (station u).place.outs.flatten <;> simp [hc]

end Evaluation

theorem Border.AtRest.carried {p : Border} {out : List Emission} {put : Nat → List Row}
    (h : p.AtRest out put) {hop i c : Nat} {channels : List Nat}
    (hhop : p.place.outs[hop]? = some channels) (hi : channels[i]? = some c) :
    put c = deal channels.length i 0 (hopRows p.place.shares p.place.outs.length hop 0 out) := by
  simp only [place, List.getElem?_map, Option.map_eq_some_iff] at hhop
  obtain ⟨o, ho, rfl⟩ := hhop
  have hsent := (h.hops hop o ho).put i c hi
  simpa [rowsTo, shares, Place.shares, place] using hsent

namespace Run

variable {r : Run StepMemory} {l : Ledger}

/-- A unit that finished has read all that its input channels carried, and has sent out and reported
what its step makes of that. -/
theorem Live.settled (h : r.Live l) (hc : r.Closing) {u : RunUnit StepMemory} (hu : u ∈ r.units)
    (he : u.life.outcome = .finished)
    (hplain : u.border.inputs.length ≤ 1 ∨ u.setup.spec.type = "append") :
    u.station.Settled l.put (unitReport u) := by
  obtain ⟨type, m, j, hstaffed, hj, hrest, hall, hfin⟩ :=
    h.finished_journal hu ((h.lively u hu).outcome rfl he)
  have hinputs : u.station.place.ins.map l.put = (List.range u.border.inputs.length).map j.from :=
    h.inputs_read hc hu hj hall
  have hout := Catalog.finished_emissions hstaffed.found hstaffed.init hplain hj.tags hfin
  refine ⟨j.out, ?_, Place.share_eq fun hop i c channels hhop hi => hrest.carried hhop hi, ?_⟩
  · have htype : u.station.setup = u.setup := rfl
    simp only [Station.emissions, htype, hstaffed.found, hinputs, Option.bind_eq_bind,
      Option.bind_some, hstaffed.init, Except.toOption]
    exact hout
  · rw [hinputs]
    simp [Station.report, unitReport, he, hj.linesRead, hj.linesWritten, hj.errors, hj.messages,
      j.length_from hj.tags]
    rfl

theorem Live.evaluated (h : r.Live l) (hc : r.Closing)
    (finished : ∀ u ∈ r.units, u.life.outcome = .finished)
    (plain : ∀ u ∈ r.units, u.border.inputs.length ≤ 1 ∨ u.setup.spec.type = "append")
    {feeds : Nat → List Row}
    (hfed : ∀ c, c ∈ r.chart.feeds ∨ r.net.links.length ≤ c → feeds c = l.put c) :
    ∃ e, Evaluation.ofStations r.stations feeds = some e ∧ (∀ c, e.streams c = l.put c) ∧
      e.reports = r.units.map unitReport := by
  obtain ⟨writer, hsound⟩ := h.sound
  have hchannels : r.chart.channels = r.net.links.length := by
    simp [chart, chartOf, Chart.channels]
  have houts (u : RunUnit StepMemory) : u.station.place.outs.flatten = u.border.outputChannels := by
    simp [RunUnit.station, Border.place, Border.outputChannels, List.flatMap_def]
  have hwriter (c : Nat) : feeds c = l.put c ∨
      ∃ j, c < r.chart.channels ∧ writer c = some j ∧
        ∃ v, r.units[j]? = some v ∧ c ∈ v.station.place.outs.flatten := by
    by_cases hlt : c < r.chart.channels
    · cases hw : writer c with
      | none => exact .inl (hfed c (.inl ((hsound.fed c).mpr ⟨hlt, hw⟩)))
      | some j =>
        have hj : j < r.units.length := hsound.has_writer c hlt j hw
        have hv := List.getElem?_eq_getElem hj
        refine .inr ⟨j, hlt, rfl, _, hv, ?_⟩
        rw [houts, ← chart_outs hv, hsound.writes]
        exact ⟨hlt, hw⟩
    · exact .inl (hfed c (.inr (by omega)))
  obtain ⟨e, he, hreports, hstreams⟩ := Evaluation.ofStations_settled
    (fun u hu => h.settled hc hu (finished u hu) (plain u hu)) fun i u hi c hin => by
      have hin : c ∈ r.chart.ins i := by rwa [chart_ins hi]
      refine (hwriter c).imp_right ?_
      rintro ⟨j, hlt, hw, v, hv, hout⟩
      exact ⟨j, hsound.forward c hlt j i hw ((hsound.reads i c).mp hin), v, hv, hout⟩
  refine ⟨e, he, fun c => ?_, hreports⟩
  rw [hstreams]
  split
  · rfl
  · rename_i hnot
    refine (hwriter c).resolve_right ?_
    rintro ⟨j, -, -, v, hv, hout⟩
    exact hnot (List.mem_flatMap.mpr ⟨v, List.mem_of_getElem? hv, hout⟩)

end Run

end Sluice
