import Sluice.Proofs.Run.Todo

/-!
Runs that were prepared, whatever their steps do: each channel has its two ends, each unit a wakeup
of its own, and no unit has begun before the run is started. What holds of such a run and is kept by
every deed holds of it after any history.
-/

namespace Sluice

variable {σ : Type}

theorem RunUnit.Initiated.stations {registry : Registry σ} {units units' : List (RunUnit σ)}
    (h : List.Forall₂ (RunUnit.Initiated registry) units units') :
    units'.map (·.station) = units.map (·.station) := by
  have heq : List.Forall₂ (· = ·) (units.map (·.station)) (units'.map (·.station)) := by
    rw [List.forall₂_map_left_iff, List.forall₂_map_right_iff]
    exact h.imp fun u v h => by
      obtain ⟨t, m, -, -, rfl⟩ := h
      rfl
  rw [List.forall₂_eq_eq_eq] at heq
  exact heq.symm

namespace Run

/-- A run that was prepared. -/
structure Afoot (r : Run σ) : Prop where
  phase : r.phase ≠ .new
  sound : ∃ writer, r.chart.Sound writer
  wakeup : ∀ (i : Nat) (u : RunUnit σ), r.units[i]? = some u → u.border.wakeup = i
  wakeups : r.net.wakeups.length = r.units.length
  unstarted : ∀ u ∈ r.units, u.stage = .unstarted ↔ r.phase = .prepared
  ready : ∀ u ∈ r.units, u.stage = .unstarted → u.step.isSome ∧ u.life = ⟨.initialized, none⟩
  lively : ∀ u ∈ r.units, u.Lively
  calm : r.phase = .prepared → ∀ c, r.net.Closed c → c ∈ r.chart.feeds
  unread : r.phase = .prepared → ∀ u ∈ r.units, ∀ inlet ∈ u.border.inputs, inlet.finished = false

variable {r r' : Run σ} {i : Nat} {u : RunUnit σ}

theorem chart_reader {writer : Nat → Option Nat} (hs : r.chart.Sound writer)
    (hu : r.units[i]? = some u) {c : Nat} (hc : c ∈ u.border.inputChannels) :
    r.net.reader? c = some i := by
  rw [← chart_ins hu, hs.reads] at hc
  simp only [chart, chartOf, List.getElem?_map, Option.map_eq_some_iff] at hc
  obtain ⟨link, hlink, hr⟩ := hc
  simp [Net.reader?, hlink, hr]

theorem Afoot.reader (h : r.Afoot) (hu : r.units[i]? = some u) {c : Nat}
    (hc : c ∈ u.border.inputChannels) : r.net.reader? c = some i := by
  obtain ⟨writer, hs⟩ := h.sound
  exact chart_reader hs hu hc

theorem Afoot.in_lt (h : r.Afoot) (hu : u ∈ r.units) {c : Nat}
    (hc : c ∈ u.border.inputChannels) : c < r.net.links.length := by
  obtain ⟨writer, hsound⟩ := h.sound
  obtain ⟨i, hi⟩ := List.getElem?_of_mem hu
  rw [← chart_ins hi] at hc
  simpa [chart, chartOf, Chart.channels] using hsound.in_lt hc

theorem Afoot.out_lt (h : r.Afoot) (hu : u ∈ r.units) {c : Nat}
    (hc : c ∈ u.border.outputChannels) : c < r.net.links.length := by
  obtain ⟨writer, hsound⟩ := h.sound
  obtain ⟨i, hi⟩ := List.getElem?_of_mem hu
  rw [← chart_outs hi, hsound.writes] at hc
  simpa [chart, chartOf, Chart.channels] using hc.1

/-- Who closes an output channel of a unit is that unit, on its way out. -/
theorem Afoot.closer (h : r.Afoot) (ho : r.Orderly) {party : Party} {c : Nat}
    (hu : r.units[i]? = some u) (hc : c ∈ u.border.outputChannels)
    (hs : r.Stepped party (.close c) r') :
    party = .unit i ∧ ∃ rest e, u.stage = .closing (.close c :: rest) e := by
  obtain ⟨writer, hsound⟩ := h.sound
  rw [← chart_outs hu] at hc
  cases hs with
  | @unit k v v' t net calls at_k moved touched =>
    obtain ⟨hmem, hstage⟩ := (ho.units v (List.mem_of_getElem? at_k)).closes moved
    rw [← chart_outs at_k] at hmem
    obtain rfl := hsound.out_unique hmem hc
    rw [hu, Option.some.injEq] at at_k
    exact ⟨rfl, at_k ▸ hstage⟩
  | producer at_k moved touched =>
    have hmem := List.mem_of_getElem? at_k
    obtain rfl := (ho.producers _ hmem).closes moved
    exact absurd (mem_feeds hmem) (hsound.out_not_fed hc)
  | stop at_k does touched =>
    exact absurd (ho.stops _ (List.mem_of_getElem? at_k)) does.closes_none

theorem Afoot.spawned (h : r.Afoot) (hp : r.phase = .prepared) {v : RunUnit σ}
    (hv : v ∈ r.units.map RunUnit.spawn) : ∃ u ∈ r.units, u.stage = .unstarted ∧
      v = { u with stage := .spawned } := by
  obtain ⟨u, hu, rfl⟩ := List.mem_map.mp hv
  have hs := (h.unstarted u hu).mpr hp
  exact ⟨u, hu, hs, by simp [RunUnit.spawn, (h.ready u hu hs).1]⟩

theorem Afoot.unit_moved (h : r.Afoot) (hu : r.units[i]? = some u) {u' : RunUnit σ} {t : Touch}
    {net' : Net} {calls : List Event} (hm : u.Moved r.net r.armed t u')
    (ht : r.net.Touched t net') :
    Afoot { r with units := r.units.set i u', net := net', calls } := by
  have hmem := List.mem_of_getElem? hu
  have hnot : r.phase ≠ .prepared := fun hp => hm.started ((h.unstarted u hmem).mpr hp)
  have hall {P : RunUnit σ → Prop} (hold : ∀ v ∈ r.units, P v) (hnew : P u') :
      ∀ v ∈ r.units.set i u', P v := fun v hv =>
    (List.mem_or_eq_of_mem_set hv).elim (hold v) fun he => he ▸ hnew
  refine ⟨h.phase, ?_, fun k v hv => ?_, ?_, hall h.unstarted ?_, hall h.ready ?_,
    hall h.lively ((h.lively u hmem).moved hm), fun hp => absurd hp hnot, fun hp => absurd hp hnot⟩
  · rw [chart, chart_set hu hm ht]
    exact h.sound
  · obtain ⟨rfl, rfl⟩ | ⟨-, hv⟩ := List.getElem?_set_cases hv
    · exact (congrArg (fun s : Station => s.place.wakeup) hm.station).trans (h.wakeup k u hu)
    · exact h.wakeup k v hv
  · simpa [ht.wakeups_length] using h.wakeups
  · exact ⟨fun hs => absurd hs hm.step.1, fun hp => absurd hp hnot⟩
  · exact fun hs => absurd hs hm.step.1

theorem Afoot.outside (h : r.Afoot) {t : Touch} {net' : Net} {producers : List Producer}
    {stops : List (List NetAction)} (ht : r.net.Touched t net')
    (hfeeds : producers.map (·.channel) = r.producers.map (·.channel))
    (hclose : ∀ c, t = .close c → c ∈ r.chart.feeds) :
    Afoot { r with producers, stops, net := net' } := by
  have hchart : chart { r with producers, stops, net := net' } = r.chart := by
    rw [chart, hfeeds]
    exact chartOf_congr rfl ht.readers
  refine ⟨h.phase, hchart ▸ h.sound, h.wakeup, ?_, h.unstarted, h.ready, h.lively,
    fun hp c hc => hchart ▸ ?_, h.unread⟩
  · exact ht.wakeups_length.trans h.wakeups
  · exact (ht.closed_inv hc).elim (h.calm hp c) (hclose c)

theorem Afoot.stepped (h : r.Afoot) (ho : r.Orderly) {party : Party} {t : Touch}
    (hs : r.Stepped party t r') : r'.Afoot := by
  cases hs with
  | unit at_i moved touched => exact h.unit_moved at_i moved touched
  | producer at_k moved touched =>
    refine h.outside touched (List.map_set_of_eq at_k (Producer.Moved.touches moved).1) ?_
    rintro c rfl
    have hmem := List.mem_of_getElem? at_k
    exact (ho.producers _ hmem).closes moved ▸ mem_feeds hmem
  | stop at_k does touched =>
    refine h.outside touched rfl ?_
    rintro c rfl
    exact absurd (ho.stops _ (List.mem_of_getElem? at_k)) does.closes_none

theorem Afoot.congr (h : r.Afoot) {phase : Phase} {producers : List Producer}
    {stops : List (List NetAction)} {manifest : Option Manifest} {report : Option RunReport}
    (hphase : phase ≠ .new) (hprepared : phase = .prepared ↔ r.phase = .prepared)
    (hfeeds : producers.map (·.channel) = r.producers.map (·.channel)) :
    Afoot { r with phase, producers, stops, manifest, report } := by
  have hchart : chart { r with phase, producers, stops, manifest, report } = r.chart := by
    rw [chart, hfeeds]
    rfl
  exact ⟨hphase, hchart ▸ h.sound, h.wakeup, h.wakeups,
    fun u hu => (h.unstarted u hu).trans hprepared.symm, h.ready, h.lively,
    fun hp => hchart ▸ h.calm (hprepared.mp hp), fun hp => h.unread (hprepared.mp hp)⟩

theorem Afoot.observed (h : r.Afoot) (i : Nat) :
    Afoot { r with units := r.units.modify i RunUnit.listen } := by
  have hall {P : RunUnit σ → Prop} (hold : ∀ u ∈ r.units, P u) (hnew : ∀ u ∈ r.units, P u.listen) :
      ∀ u ∈ r.units.modify i RunUnit.listen, P u := by
    intro v hv
    obtain hv | ⟨u, hu, rfl⟩ := List.mem_modify hv
    · exact hold v hv
    · exact hnew u (List.mem_of_getElem? hu)
  refine ⟨h.phase, ?_, fun k v hv => ?_, by simpa using h.wakeups, hall h.unstarted h.unstarted,
    hall h.ready h.ready, hall h.lively h.lively, h.calm, fun hp => ?_⟩
  · have hstations := List.map_modify_of_eq (f := RunUnit.station) (g := RunUnit.listen)
      (fun _ => rfl) r.units i
    rw [chart, chartOf_congr hstations rfl]
    exact h.sound
  · obtain ⟨u, hu, rfl | ⟨-, rfl⟩⟩ := List.getElem?_modify_cases hv
    · exact h.wakeup k v hu
    · exact h.wakeup k u hu
  · exact hall (h.unread hp) (h.unread hp)

theorem Afoot.started (h : r.Afoot) {manifest : Option Manifest} (hphase : r.phase = .prepared) :
    Afoot { r with phase := .running, manifest, units := r.units.map RunUnit.spawn } := by
  have hspawn (u : RunUnit σ) (hu : u ∈ r.units) : u.spawn = { u with stage := .spawned } := by
    simp [RunUnit.spawn, (h.ready u hu ((h.unstarted u hu).mpr hphase)).1]
  refine ⟨by simp, ?_, fun k v hv => ?_, by simpa using h.wakeups, fun v hv => ?_, fun v hv => ?_,
    fun v hv => ?_, by simp, by simp⟩
  · have hstations : (r.units.map RunUnit.spawn).map (·.station) = r.units.map (·.station) := by
      rw [List.map_map]
      refine List.map_congr_left fun u hu => ?_
      rw [Function.comp_apply, hspawn u hu]
      rfl
    rw [chart, chartOf_congr hstations rfl]
    exact h.sound
  · rw [List.getElem?_map, Option.map_eq_some_iff] at hv
    obtain ⟨u, hu, rfl⟩ := hv
    rw [hspawn u (List.mem_of_getElem? hu)]
    exact h.wakeup k u hu
  · obtain ⟨u, -, -, rfl⟩ := h.spawned hphase hv
    simp
  · obtain ⟨u, -, -, rfl⟩ := h.spawned hphase hv
    simp
  · obtain ⟨u, hu, hs, rfl⟩ := h.spawned hphase hv
    exact (h.ready u hu hs).2

theorem chart_attachProducer (hu : r.units[i]? = some u) (hw : u.border.wakeup = i) (unit : UnitId) :
    (r.attachProducer i unit).chart = r.chart.feed i := by
  have hreaders : chartOf (r.attachProducer i unit).units (r.attachProducer i unit).net
      (r.producers.map (·.channel)) = r.chart.addReader i :=
    Wiring.chartOf_modify_ins (List.getElem?_eq_some_iff.mp hu).1
      (by simp [attachProducer, Net.addLink, hu, hw]) rfl
      (fun v => by simp [Border.addInput, Border.inputChannels]) fun _ => rfl
  have hfeeds : (r.attachProducer i unit).producers.map (·.channel) =
      r.producers.map (·.channel) ++ [r.chart.channels] := by
    simp [attachProducer, Net.addLink, chart, chartOf, Chart.channels]
  rw [chart, hfeeds, Chart.feed, ← hreaders]
  rfl

theorem Afoot.fed (h : r.Afoot) (hu : r.units[i]? = some u) : (r.attachProducer i u.id).Afoot := by
  obtain ⟨writer, hsound⟩ := h.sound
  have hlt := (List.getElem?_eq_some_iff.mp hu).1
  have hmem := List.mem_of_getElem? hu
  have hall {P : RunUnit σ → Prop} {f : RunUnit σ → RunUnit σ} (hold : ∀ u ∈ r.units, P u)
      (hnew : P (f u)) : ∀ u ∈ r.units.modify i f, P u := by
    intro v hv
    obtain hv | ⟨w, hw, rfl⟩ := List.mem_modify hv
    · exact hold v hv
    · rw [hu, Option.some.injEq] at hw
      exact hw ▸ hnew
  have hchart := chart_attachProducer hu (h.wakeup i u hu) u.id
  refine ⟨h.phase, ⟨_, hchart ▸ hsound.feed (by simpa [chart, chartOf] using hlt)⟩, fun k v hv => ?_,
    by simpa [attachProducer, Net.addLink] using h.wakeups, hall h.unstarted (h.unstarted u hmem),
    hall h.ready (h.ready u hmem), hall h.lively (h.lively u hmem), fun hp c hc => hchart ▸ ?_,
    fun hp => hall (h.unread hp) fun inlet hi => ?_⟩
  · obtain ⟨w, hw, rfl | ⟨-, rfl⟩⟩ := List.getElem?_modify_cases hv
    · exact h.wakeup k v hw
    · exact h.wakeup k w hw
  · obtain ⟨ch, hch, hcl⟩ := hc
    obtain hch | ⟨-, rfl⟩ := Wiring.channel?_addLink hch
    · exact List.mem_append_left _ (h.calm hp c ⟨ch, hch, hcl⟩)
    · simp [(Channel.new_fresh _).closed] at hcl
  · rcases List.mem_append.mp hi with hi | hi
    · exact h.unread hp u hmem inlet hi
    · rw [List.mem_singleton.mp hi]

theorem Blank.afoot (hb : r.Blank) {plan : Plan} {w : Wiring σ} {units : List (RunUnit σ)}
    {calls : List Event} (hw : r.wire = .ok (plan, w))
    (initiated : List.Forall₂ (RunUnit.Initiated r.registry) w.units units) :
    Afoot { r with
      phase := .prepared, plan := some plan, units, wires := w.wires, net := w.net, calls } := by
  obtain ⟨-, hcharted, -, -⟩ := hb.wired hw
  have hlaid := hcharted.laid
  have hof {v : RunUnit σ} (hv : v ∈ units) : ∃ u ∈ w.units, RunUnit.Initiated r.registry u v := by
    obtain ⟨i, hi⟩ := List.getElem?_of_mem hv
    obtain ⟨u, hu, h⟩ := List.forall₂_getElem? initiated hi
    exact ⟨u, List.mem_of_getElem? hu, h⟩
  refine ⟨by simp, ?_, fun i v hv => ?_, ?_, fun v hv => ?_, fun v hv _ => ?_, fun v hv => ?_,
    fun _ c hc => ?_, fun _ v hv => ?_⟩
  · rw [chart, hb.producers, List.map_nil, chartOf_congr (RunUnit.Initiated.stations initiated) rfl]
    exact hcharted.sound
  · obtain ⟨u, hu, t, m, -, -, rfl⟩ := List.forall₂_getElem? initiated hv
    exact hlaid.wakeup i u hu
  · exact hlaid.wakeups.trans initiated.length_eq
  · obtain ⟨u, hu, t, m, -, -, rfl⟩ := hof hv
    simpa using (hlaid.fresh u hu).stage
  · obtain ⟨u, hu, t, m, -, -, rfl⟩ := hof hv
    simp [(hlaid.fresh u hu).life, Lifecycle.advance, Lifecycle.advance?, UnitState.canMoveTo,
      UnitState.isEnd]
  · obtain ⟨u, hu, t, m, -, -, rfl⟩ := hof hv
    have hfresh := hlaid.fresh u hu
    simp [RunUnit.Lively, hfresh.stage, hfresh.life, Lifecycle.advance, Lifecycle.advance?,
      UnitState.canMoveTo, UnitState.isEnd]
  · obtain ⟨ch, hch, hcl⟩ := hc
    simp [(hlaid.channels c ch hch).closed] at hcl
  · obtain ⟨u, hu, t, m, -, -, rfl⟩ := hof hv
    exact (hlaid.fresh u hu).inputs

end Run

end Sluice
