import Sluice.Proofs.Run.Determinacy
import Sluice.Proofs.Step.Finished

/-!
The books of a run. A report is put together from counters that are kept apart: by the channels, by
the units, and with the messages. Where every unit of a run finished they agree.
-/

namespace Sluice

namespace Net

def rowsPut (net : Net) (c : Nat) : Nat :=
  ((net.channel? c).map (·.rowsPut)).getD 0

def rowsTaken (net : Net) (c : Nat) : Nat :=
  ((net.channel? c).map (·.rowsTaken)).getD 0

end Net

namespace RunUnit

/-- What a unit reports, the counters of its channels and the type of its step agree. -/
structure Balanced (u : RunUnit StepMemory) (net : Net) : Prop where
  read : (Run.unitReport u).linesRead = (u.border.inputChannels.map net.rowsTaken).sum
  /-- A row for no hop in particular goes to every hop. -/
  spread : u.border.shares = false → ¬ u.setup.Routes → ∀ o ∈ u.border.outputs,
    (o.channels.map net.rowsPut).sum = (Run.unitReport u).linesWritten
  /-- Each row goes to one hop. -/
  single : u.border.shares = true ∨ u.setup.Routes →
    (u.border.outputChannels.map net.rowsPut).sum = (Run.unitReport u).linesWritten
  passing : u.setup.spec.type ∈ ["dummy", "injector", "append", "abort"] →
    (Run.unitReport u).linesRead = (Run.unitReport u).linesWritten
  selecting : u.setup.spec.type = "select_values" →
    (Run.unitReport u).linesRead = (Run.unitReport u).linesWritten + (Run.unitReport u).errors
  generating : u.setup.spec.type = "generate_rows" →
    ∃ config, u.setup.config (Generate.record.decode true) {} = .ok config ∧
      config.limit = some (Run.unitReport u).linesWritten

end RunUnit

namespace Run

/-- The report has every channel, every row that was put into one was taken out again, and every
unit is balanced. -/
structure Balanced (r : Run StepMemory) : Prop where
  reported : r.wires.map (fun w =>
      ((r.channelReport w).id.number, (r.channelReport w).rowsPut, (r.channelReport w).rowsTaken)) =
    (List.range r.net.links.length).map fun c => (c, r.net.rowsPut c, r.net.rowsTaken c)
  channels : ∀ c ch, r.net.channel? c = some ch → ch.queue = [] ∧ ch.rowsPut = ch.rowsTaken
  units : ∀ u ∈ r.units, u.Balanced r.net

section

variable {σ : Type} {r r' : Run σ}

theorem Acted.tallied {d : Deed} (ha : r.Acted d r') (ho : r.Orderly)
    (h : ∀ u ∈ r.units, u.Tallied) : ∀ u ∈ r'.units, u.Tallied := by
  have hmodify {i : Nat} {f : RunUnit σ → RunUnit σ} (hf : ∀ u, u.Tallied → (f u).Tallied) :
      ∀ u ∈ r.units.modify i f, u.Tallied := by
    intro v hv
    obtain hv | ⟨u, hu, rfl⟩ := List.mem_modify hv
    · exact h v hv
    · exact hf u (h u (List.mem_of_getElem? hu))
  cases ha with
  | shelved phase wired units_shelved =>
    exact fun u hu => (units_shelved (fun u hu => ((ho.wired phase wired).1 u hu).shelved) u hu).tallied
  | prepared phase wired initiated =>
    intro u hu
    obtain ⟨i, hi⟩ := List.getElem?_of_mem hu
    obtain ⟨v, hv, t, m, -, -, rfl⟩ := List.forall₂_getElem? initiated hi
    exact ((ho.wired phase wired).1 v (List.mem_of_getElem? hv)).tallied
  | fed => exact hmodify fun _ hu => hu
  | observed => exact hmodify fun _ hu => hu
  | started =>
    intro v hv
    obtain ⟨u, hu, rfl⟩ := List.mem_map.mp hv
    have := h u hu
    unfold RunUnit.spawn
    split <;> exact this
  | moved stepped =>
    intro v hv
    obtain ⟨i, u, hu, rfl | hm⟩ := stepped.back hv
    · exact h v (List.mem_of_getElem? hu)
    · exact (h u (List.mem_of_getElem? hu)).moved hm
  | _ => exact h

end

variable {r : Run StepMemory} {l : Ledger}

theorem Live.rowsPut_eq (h : r.Live l) (c : Nat) : r.net.rowsPut c = (l.put c).length := by
  unfold Net.rowsPut
  cases hc : r.net.channel? c with
  | none =>
    have hle : r.net.links.length ≤ c := by
      by_contra hlt
      exact Net.channel?_ne_none (by omega) hc
    simp [(h.beyond c hle).1]
  | some ch => exact (h.fits c ch hc).rowsPut

theorem Live.rowsTaken_eq (h : r.Live l) (c : Nat) : r.net.rowsTaken c = (l.taken c).length := by
  unfold Net.rowsTaken
  cases hc : r.net.channel? c with
  | none =>
    have hle : r.net.links.length ≤ c := by
      by_contra hlt
      exact Net.channel?_ne_none (by omega) hc
    simp [(h.beyond c hle).2]
  | some ch => exact (h.fits c ch hc).rowsTaken

theorem Live.read_total (h : r.Live l) {u : RunUnit StepMemory} {j : Journal}
    (hj : u.border.Journaled j l) :
    (u.border.inputChannels.map r.net.rowsTaken).sum = j.got.length := by
  have hmap : u.border.inputChannels.map r.net.rowsTaken =
      ((List.range u.border.inputs.length).map j.from).map List.length := by
    refine List.ext_getElem (by simp [Border.inputChannels]) fun k hk _ => ?_
    have hlt : k < u.border.inputs.length := by simpa [Border.inputChannels] using hk
    simp [Border.inputChannels, h.rowsTaken_eq, hj.taken k _ (List.getElem?_eq_getElem hlt)]
  rw [hmap, ← List.length_flatten, j.length_from hj.tags]

theorem Live.unit_balanced (h : r.Live l) {u : RunUnit StepMemory} (hu : u ∈ r.units)
    (he : u.life.outcome = .finished) : u.Balanced r.net := by
  obtain ⟨type, m, j, hstaffed, hj, hrest, -, hfin⟩ :=
    h.finished_journal hu ((h.lively u hu).outcome rfl he)
  have hfinished := Catalog.finished hstaffed.found hstaffed.init hfin
  have hfitted := h.fitted u hu
  have hhops : u.setup.outputSteps.length = u.border.outputs.length := by
    simp [hfitted.targets]
  have hput : r.net.rowsPut = fun c => (l.put c).length := funext h.rowsPut_eq
  refine ⟨?_, fun unshared unrouted o ho => ?_, fun single => ?_, fun htype => ?_, fun htype => ?_,
    fun htype => ?_⟩
  · rw [h.read_total hj]
    exact hj.linesRead
  · rw [hput, hrest.total_spread unshared (hfinished.unaimed unrouted) ho (hfitted.outlets o ho)]
    exact hj.linesWritten.symm
  · rw [hput, hrest.total_single hfitted.outlets fun e he => ?_]
    · exact hj.linesWritten.symm
    · by_cases hr : u.setup.Routes
      · exact .inl (hhops ▸ hfinished.aimed hr e he)
      · exact .inr ⟨single.resolve_right hr, hfinished.unaimed hr e he⟩
  · exact hj.linesRead.trans ((hfinished.passes hj.tags htype).symm.trans hj.linesWritten.symm)
  · exact (hj.linesRead.trans (hfinished.selects htype)).trans
      (congrArg₂ (· + ·) hj.linesWritten hj.errors).symm
  · obtain ⟨config, hconfig, hlimit⟩ := hfinished.generates htype
    exact ⟨config, hconfig, hlimit.trans (congrArg some hj.linesWritten.symm)⟩

theorem Live.balanced (h : r.Live l) (hc : r.Closing)
    (finished : ∀ u ∈ r.units, u.life.outcome = .finished) : r.Balanced := by
  obtain ⟨writer, hsound⟩ := h.sound
  refine ⟨?_, fun c ch hch => ?_, fun u hu => h.unit_balanced hu (finished u hu)⟩
  · rw [← h.wires, List.map_map]
    refine List.map_congr_left fun w _ => ?_
    simp only [Function.comp_apply, channelReport, Net.rowsPut, Net.rowsTaken]
    cases r.net.channel? w.channel <;> rfl
  · have hlt : c < r.chart.channels := by
      simpa [chart, chartOf, Chart.channels] using Net.channel?_lt hch
    obtain ⟨i, hi, hreader⟩ := hsound.has_reader c hlt
    have hat : r.units[i]? = some r.units[i] := List.getElem?_eq_getElem hi
    have hu := List.mem_of_getElem? hat
    have hin : c ∈ r.units[i].border.inputChannels := by
      rw [← chart_ins hat, hsound.reads]
      exact hreader
    obtain ⟨inlet, hinlet, hf, rfl⟩ :=
      h.read_all hu ((h.lively _ hu).outcome rfl (finished _ hu)) hin
    obtain ⟨ch', hch', -, hq⟩ := hc.drained _ hu inlet hinlet hf
    rw [hch, Option.some.injEq] at hch'
    subst hch'
    have hm := h.fits _ ch hch
    exact ⟨hq, by rw [hm.rowsPut, hm.rowsTaken, hm.queue, hq, List.append_nil]⟩

/-- A unit has as many errors as messages at any time. Where every unit finished, all that went into
a channel came out, and the counters of the units are the totals of those of their channels. -/
theorem books_balance (settings : Settings) (g : Graph) (armed : List String) (ds : List Deed) :
    let r := (Run.new Catalog.builtins settings g armed).after ds
    (∀ u ∈ r.units, (unitReport u).errors = (unitReport u).messages.length) ∧
      (r.units ≠ [] → (∀ u ∈ r.units, u.life.outcome = .finished) → r.Balanced) := by
  intro r
  refine ⟨fun u hu => ?_, fun hne finished => ?_⟩
  · have htallied := ((orderly_new Catalog.builtins settings g armed).after_keeps
      (P := fun r => ∀ u ∈ r.units, u.Tallied) (by simp [Run.new])
      (fun _ _ _ ho h ha => ha.tallied ho h) ds).2 u hu
    exact htallied.trans (Array.length_toList).symm
  · obtain ⟨ho, l, hs, -⟩ := steady_after (fun _ r => r.Closing) (fun _ d => (closing_conveys _ d).carries) ds
    obtain ⟨u, hu⟩ := List.exists_mem_of_ne_nil _ hne
    obtain ⟨live, holds⟩ := hs.of_unit ho hu fun shelved => by
      simpa [finished u hu, UnitState.isEnd] using shelved.outcome
    exact live.balanced holds finished

theorem takingTurns_balanced :
    let r := (Run.new Catalog.builtins { channelCapacity := 1, batchRows := 1 } diamond []).after
      takingTurns
    r.units ≠ [] ∧ (∀ u ∈ r.units, u.life.outcome = .finished) ∧ r.Balanced := by
  intro r
  obtain ⟨units, finished⟩ : r.units.length ≠ 0 ∧ ∀ u ∈ r.units, u.life.outcome = .finished := by
    decide +kernel
  have hne : r.units ≠ [] := fun h => units (by simp [h])
  exact ⟨hne, finished, (books_balance _ diamond [] takingTurns).2 hne finished⟩

end Run

end Sluice
