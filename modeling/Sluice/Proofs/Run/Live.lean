import Sluice.Proofs.Run.Afoot
import Sluice.Proofs.Run.Staffed

/-!
What is known of a run of catalog steps after any history: each unit keeps the contract of its step,
and a ledger tells what went in and what came out.
-/

namespace Sluice

theorem Border.Journaled.attach {p : Border} {l : Ledger} {c : Nat} (h : p.Journaled {} l)
    (source : UnitId) (hc : l.taken c = []) : (p.addInput source c).Journaled {} l := by
  refine ⟨fun k hk => ?_, by simp, fun k inlet hk => ?_, h.linesRead, h.linesWritten, h.errors,
    h.messages, h.heard⟩
  · simp only [addInput, List.length_append, List.length_singleton] at hk
    simp only [inputFinished, addInput]
    by_cases hlt : k < p.inputs.length
    · rw [List.getElem?_append_left hlt]
      exact h.ended k hlt
    · obtain rfl : k = p.inputs.length := by omega
      simp
  · simp only [addInput] at hk
    by_cases hlt : k < p.inputs.length
    · rw [List.getElem?_append_left hlt] at hk
      exact h.taken k inlet hk
    · rw [List.getElem?_append_right (by omega)] at hk
      obtain rfl : inlet = { source, channel := c } := by
        rcases hn : k - p.inputs.length with _ | n
        · simpa [hn] using hk.symm
        · simp [hn] at hk
      simpa [Journal.from] using hc

theorem Border.Journaled.listen {p : Border} {l : Ledger} (h : p.Journaled {} l) :
    p.addListener.Journaled {} l := by
  refine ⟨h.ended, h.tags, h.taken, h.linesRead, h.linesWritten, h.errors, h.messages,
    fun log hlog => ?_⟩
  rcases Array.mem_push.mp hlog with hlog | rfl
  · exact h.heard log hlog
  · exact ⟨rfl, rfl⟩

theorem Ledger.put_after_entered {net net' : Net} {t : Touch} (ht : net.Touched t net') (l : Ledger)
    (c : Nat) : (l.after t).put c = l.put c ++ net.entered net' c := by
  rw [ht.entered]
  cases ht with
  | @put i ch row =>
    by_cases hi : i = c
    · subst hi
      simp [Ledger.after]
    · simp [Ledger.after, hi, Function.update_of_ne (Ne.symm hi)]
  | _ => simp [Ledger.after]

namespace Run

structure Live (r : Run StepMemory) (l : Ledger) : Prop extends Afoot r where
  registry : r.registry = Catalog.builtins
  names : r.graph.stepNames.Nodup
  staffed : ∀ u ∈ r.units, ∃ t m, u.Staffed r.graph t m ∧
    u.Tracked u.site (m.contract u.site) l (r.net.stopping = true)
  fits : l.Fits r.net
  beyond : ∀ c, r.net.links.length ≤ c → l.put c = [] ∧ l.taken c = []
  fitted : ∀ u ∈ r.units, u.Fitted r.graph
  wires : r.wires.map (·.channel) = List.range r.net.links.length
  checked : ∀ s ∈ r.graph.steps, Plan.checkInputs r.registry r.graph s = .ok ()

variable {r r' : Run StepMemory} {l : Ledger} {i : Nat} {u : RunUnit StepMemory}

theorem beyond_after {net net' : Net} {t : Touch} (ht : net.Touched t net')
    (h : ∀ c, net.links.length ≤ c → l.put c = [] ∧ l.taken c = []) (c : Nat)
    (hc : net'.links.length ≤ c) : (l.after t).put c = [] ∧ (l.after t).taken c = [] := by
  rw [ht.links_length] at hc
  rw [Ledger.put_after_of_ne, Ledger.taken_after_of_ne]
  · exact h c hc
  · rintro row rfl
    cases ht with
    | take hc' => exact absurd (Net.channel?_lt hc') (by omega)
  · rintro row rfl
    cases ht with
    | put hc' => exact absurd (Net.channel?_lt hc') (by omega)

theorem Live.others (h : r.Live l) {t : Touch} {net' : Net} (ht : r.net.Touched t net')
    (hu : u ∈ r.units) (htake : ∀ c ∈ u.border.inputChannels, ∀ row, t ≠ .take c row)
    (hput : ∀ c ∈ u.border.outputChannels, ∀ row, t ≠ .put c row) :
    ∃ type m, u.Staffed r.graph type m ∧
      u.Tracked u.site (m.contract u.site) (l.after t) (net'.stopping = true) := by
  obtain ⟨type, m, hs, htr⟩ := h.staffed u hu
  exact ⟨type, m, hs, htr.congr (fun c hc => Ledger.taken_after_of_ne (htake c hc))
    (fun c hc => Ledger.put_after_of_ne (hput c hc)) ht.stopping⟩

theorem Live.unit_moved (h : r.Live l) (ho : r.Orderly) (hu : r.units[i]? = some u)
    {u' : RunUnit StepMemory} {t : Touch} {net' : Net} {calls : List Event}
    (hm : u.Moved r.net r.armed t u') (ht : r.net.Touched t net') :
    Live { r with units := r.units.set i u', net := net', calls } (l.after t) := by
  have hmem := List.mem_of_getElem? hu
  obtain ⟨writer, hsound⟩ := h.sound
  have hplace : u'.border.place = u.border.place := congrArg Station.place hm.station
  obtain ⟨type, m, hstaffed, htracked⟩ := h.staffed u hmem
  have hne (v : RunUnit StepMemory) {k : Nat} (hv : r.units[k]? = some v) (hk : k ≠ i) :
      ∃ type m, v.Staffed r.graph type m ∧
        v.Tracked v.site (m.contract v.site) (l.after t) (net'.stopping = true) := by
    refine h.others ht (List.mem_of_getElem? hv) ?_ ?_
    · rintro c hc row rfl
      refine hk (hsound.in_unique (c := c) ?_ ?_)
      · rwa [chart_ins hv]
      · rw [chart_ins hu]
        exact hm.takes_own
    · rintro c hc row rfl
      refine hk (hsound.out_unique (c := c) ?_ ?_)
      · rwa [chart_outs hv]
      · rw [chart_outs hu]
        exact htracked.puts_own hm
  refine ⟨h.toAfoot.unit_moved hu hm ht, h.registry, h.names, fun v hv => ?_, h.fits.touched ht,
    beyond_after ht h.beyond, fun v hv => ?_, by rw [ht.links_length]; exact h.wires, h.checked⟩
  · obtain ⟨k, hk⟩ := List.getElem?_of_mem hv
    obtain ⟨rfl, rfl⟩ | ⟨hki, hv⟩ := List.getElem?_set_cases hk
    · have hsite : v.site = u.site := by
        simp only [RunUnit.site, Border.place_inputs_length hplace]
        rw [show v.border.policy = u.border.policy from congrArg Place.policy hplace,
          show v.setup = u.setup from congrArg Station.setup hm.station]
      refine ⟨type, m, hstaffed.moved hm, ?_⟩
      rw [hsite]
      refine (htracked.moved hm (h.lively u hmem) hstaffed.keeps rfl rfl ?_ ?_ ho.aborts).congr
        (fun _ _ => rfl) (fun _ _ => rfl) ht.stopping
      · rw [← chart_ins hu]
        exact hsound.reads_once k
      · rw [← chart_outs hu]
        exact hsound.writes_once k
    · exact hne v hv hki
  · rcases List.mem_or_eq_of_mem_set hv with hv | rfl
    · exact h.fitted v hv
    · exact hm.fitted (h.fitted u hmem)

theorem Live.outside (h : r.Live l) {t : Touch} {net' : Net} {producers : List Producer}
    {stops : List (List NetAction)} (ht : r.net.Touched t net')
    (hfeeds : producers.map (·.channel) = r.producers.map (·.channel))
    (htake : ∀ c row, t ≠ .take c row) (hput : ∀ c row, t = .put c row → c ∈ r.chart.feeds)
    (hclose : ∀ c, t = .close c → c ∈ r.chart.feeds) :
    Live { r with producers, stops, net := net' } (l.after t) := by
  obtain ⟨writer, hsound⟩ := h.sound
  refine ⟨h.toAfoot.outside ht hfeeds hclose, h.registry, h.names, fun u hu => ?_,
    h.fits.touched ht, beyond_after ht h.beyond, h.fitted, by rw [ht.links_length]; exact h.wires,
    h.checked⟩
  obtain ⟨k, hk⟩ := List.getElem?_of_mem hu
  refine h.others ht hu (fun c _ row => htake c row) ?_
  rintro c hc row rfl
  rw [← chart_outs hk] at hc
  exact hsound.out_not_fed hc (hput c row rfl)

theorem Live.stepped (h : r.Live l) (ho : r.Orderly) {party : Party} {t : Touch}
    (hs : r.Stepped party t r') :
    r'.Live (l.after t) := by
  cases hs with
  | unit at_i moved touched => exact h.unit_moved ho at_i moved touched
  | producer at_k moved touched =>
    obtain ⟨hchannel, htake, hput⟩ := Producer.Moved.touches moved
    have hmem := List.mem_of_getElem? at_k
    refine h.outside touched (List.map_set_of_eq at_k hchannel) htake (fun c row ht => ?_) ?_
    · rw [hput c row ht]
      exact mem_feeds hmem
    · rintro c rfl
      rw [(ho.producers _ hmem).closes moved]
      exact mem_feeds hmem
  | stop at_k does touched =>
    refine h.outside touched rfl ?_ ?_ ?_
    · rintro c row rfl
      cases does
    · rintro c row rfl
      cases does
    · rintro c rfl
      exact absurd (ho.stops _ (List.mem_of_getElem? at_k)) does.closes_none

theorem Live.congr (h : r.Live l) {phase : Phase} {producers : List Producer}
    {stops : List (List NetAction)} {manifest : Option Manifest} {report : Option RunReport}
    (hphase : phase ≠ .new) (hprepared : phase = .prepared ↔ r.phase = .prepared)
    (hfeeds : producers.map (·.channel) = r.producers.map (·.channel)) :
    Live { r with phase, producers, stops, manifest, report } l :=
  ⟨h.toAfoot.congr hphase hprepared hfeeds, h.registry, h.names, h.staffed, h.fits, h.beyond,
    h.fitted, h.wires, h.checked⟩

theorem Live.observed (h : r.Live l) (i : Nat) (hphase : r.phase = .prepared) :
    Live { r with units := r.units.modify i RunUnit.listen } l := by
  have hmem {P : RunUnit StepMemory → Prop} (hold : ∀ u ∈ r.units, P u)
      (hnew : ∀ u ∈ r.units, P u.listen) : ∀ u ∈ r.units.modify i RunUnit.listen, P u := by
    intro v hv
    obtain hv | ⟨u, hu, rfl⟩ := List.mem_modify hv
    · exact hold v hv
    · exact hnew u (List.mem_of_getElem? hu)
  refine ⟨h.toAfoot.observed i, h.registry, h.names, hmem h.staffed fun u hu => ?_, h.fits,
    h.beyond, hmem h.fitted fun u hu => ?_, h.wires, h.checked⟩
  · obtain ⟨type, m, hs, ht⟩ := h.staffed u hu
    refine ⟨type, m, ⟨hs.spec, hs.named, hs.found, hs.init, hs.inputs, hs.step, hs.unstarted⟩, ?_⟩
    have hstage := (h.unstarted u hu).mpr hphase
    simp only [RunUnit.Tracked, RunUnit.listen, hstage] at ht ⊢
    exact ⟨ht.1.listen, ht.2.turn, ht.2.hops⟩
  · have hf := h.fitted u hu
    exact ⟨hf.outlets, hf.targets, hf.sources⟩

theorem Live.started (h : r.Live l) {manifest : Option Manifest} (hphase : r.phase = .prepared) :
    Live { r with phase := .running, manifest, units := r.units.map RunUnit.spawn } l := by
  refine ⟨h.toAfoot.started hphase, h.registry, h.names, fun v hv => ?_, h.fits, h.beyond,
    fun v hv => ?_, h.wires, h.checked⟩
  · obtain ⟨u, hu, hs, rfl⟩ := h.spawned hphase hv
    obtain ⟨type, m, hstaffed, ht⟩ := h.staffed u hu
    obtain ⟨hstep, -⟩ := hstaffed.unstarted hs
    refine ⟨type, m, ⟨hstaffed.spec, hstaffed.named, hstaffed.found, hstaffed.init, hstaffed.inputs,
      hstaffed.step, by simp⟩, ?_⟩
    simp only [RunUnit.Tracked, hs] at ht ⊢
    exact ⟨{}, _, _, hstep, ht.1, False.elim, ht.2,
      (Catalog.keeps hstaffed.found hstaffed.init hstaffed.suits).2⟩
  · obtain ⟨u, hu, -, rfl⟩ := h.spawned hphase hv
    have hf := h.fitted u hu
    exact ⟨hf.outlets, hf.targets, hf.sources⟩

theorem step_unique {g : Graph} (hn : g.stepNames.Nodup) {a b : StepSpec} (ha : a ∈ g.steps)
    (hb : b ∈ g.steps) (hname : a.name = b.name) : a = b :=
  List.inj_on_of_nodup_map hn ha hb hname

theorem Live.fed (h : r.Live l) (hphase : r.phase = .prepared) (hu : r.units[i]? = some u)
    (unfed : r.graph.inputHops u.id.step = []) {spec : StepSpec}
    (known : r.graph.step u.id.step = .ok spec)
    (takes : (r.registry.find? spec.type).bind (·.maxInputs) ≠ some 0) :
    (r.attachProducer i u.id).Live l := by
  obtain ⟨hput, htaken⟩ := h.beyond r.net.links.length le_rfl
  have hmem {P : RunUnit StepMemory → Prop} {f : RunUnit StepMemory → RunUnit StepMemory}
      (hold : ∀ u ∈ r.units, P u) (hnew : P (f u)) : ∀ u ∈ r.units.modify i f, P u := by
    intro v hv
    obtain hv | ⟨w, hw, rfl⟩ := List.mem_modify hv
    · exact hold v hv
    · rw [hu, Option.some.injEq] at hw
      exact hw ▸ hnew
  have humem := List.mem_of_getElem? hu
  refine ⟨h.toAfoot.fed hu, h.registry, h.names, hmem h.staffed ?_, fun c ch hc => ?_,
    fun c hc => h.beyond c ?_, hmem h.fitted ?_, ?_, h.checked⟩
  · obtain ⟨type, m, hs, ht⟩ := h.staffed u humem
    have hspec : u.setup.spec = spec := by
      obtain ⟨hmem, hname⟩ := Graph.step_eq_ok known
      exact step_unique h.names hs.spec hmem (hs.named.symm.trans hname.symm)
    refine ⟨type, m, ⟨hs.spec, hs.named, hs.found, hs.init, fun hmax => ?_, hs.step, hs.unstarted⟩, ?_⟩
    · rw [h.registry, ← hspec, hs.found] at takes
      exact absurd hmax takes
    · have hstage := (h.unstarted u humem).mpr hphase
      simp only [RunUnit.Tracked, hstage] at ht ⊢
      exact ⟨ht.1.attach _ htaken, ht.2.turn, ht.2.hops⟩
  · obtain hc | ⟨rfl, rfl⟩ := Wiring.channel?_addLink hc
    · exact h.fits c ch hc
    · constructor <;> simp [hput, htaken, (Channel.new_fresh _).queue, (Channel.new_fresh _).rowsPut,
        (Channel.new_fresh _).rowsTaken]
  · have : (r.attachProducer i u.id).net.links.length = r.net.links.length + 1 := by
      simp [attachProducer, Net.addLink]
    omega
  · obtain ⟨type, m, hs, -⟩ := h.staffed u humem
    have hf := h.fitted u humem
    exact ⟨hf.outlets, hf.targets, fun hop => absurd (hs.named ▸ unfed) hop⟩
  · simp [attachProducer, Net.addLink, h.wires, List.range_succ]

theorem RunUnit.Fresh.journaled {σ : Type} {u : RunUnit σ} (h : u.Fresh) :
    u.border.Journaled {} {} ∧ u.border.AtRest [] fun _ => [] := by
  refine ⟨⟨fun k hk => ?_, by simp, fun k inlet _ => rfl, ?_, ?_, ?_, ?_, ?_⟩, fun _ => ?_,
    fun g o ho => ⟨fun _ => ?_, fun _ _ _ => rfl⟩⟩
  · simp [Border.inputFinished, List.getElem?_eq_getElem hk, h.inputs _ (List.getElem_mem hk)]
  · simp [h.counters]
  · simp [h.counters]
  · simp [h.counters]
  · simp [h.counters]
  · simp [h.listeners]
  · simp [h.nextOutput]
  · simp [h.outputs o (List.mem_of_getElem? ho), Border.rowsTo, hopRows]

theorem Blank.live (hb : r.Blank) (hr : r.registry = Catalog.builtins) {plan : Plan}
    {w : Wiring StepMemory} {units : List (RunUnit StepMemory)} {calls : List Event}
    (hw : r.wire = .ok (plan, w))
    (initiated : List.Forall₂ (RunUnit.Initiated r.registry) w.units units) :
    Live { r with phase := .prepared, plan := some plan, units, wires := w.wires, net := w.net, calls }
      {} := by
  obtain ⟨hvalid, hcharted, -, -⟩ := hb.wired hw
  have hlaid := hcharted.laid
  have hof {v : RunUnit StepMemory} (hv : v ∈ units) :
      ∃ u ∈ w.units, RunUnit.Initiated r.registry u v := by
    obtain ⟨i, hi⟩ := List.getElem?_of_mem hv
    obtain ⟨u, hu, h⟩ := List.forall₂_getElem? initiated hi
    exact ⟨u, List.mem_of_getElem? hu, h⟩
  refine ⟨hb.afoot hw initiated, hr, hvalid.names, fun v hv => ?_, fun c ch hc => ?_,
    fun _ _ => ⟨rfl, rfl⟩, fun v hv => ?_, hlaid.wires, hr ▸ hvalid.inputs⟩
  · obtain ⟨u, hu, t, m, ht, hm, rfl⟩ := hof hv
    have hfresh := hlaid.fresh u hu
    obtain ⟨hspec, hname⟩ := hlaid.named u hu
    rw [hr] at ht
    refine ⟨t, m, ⟨hspec, hname, ht, hm, fun hmax => ?_, fun b m' hs => ?_, fun _ => ⟨rfl, ?_⟩⟩, ?_⟩
    · by_contra hne
      have hin := hvalid.inputs u.setup.spec hspec
      have hhops := hlaid.fed u hu hne
      rw [Plan.checkInputs, hr, ht] at hin
      simp only [hmax] at hin
      split at hin
      · cases hin
      · simp [hhops] at hin
    · simp only [Option.some.injEq, Prod.mk.injEq] at hs
      exact hs.1.symm
    · simp [hfresh.life, Lifecycle.advance, Lifecycle.advance?, UnitState.canMoveTo, UnitState.isEnd]
    · simp only [RunUnit.Tracked, hfresh.stage]
      exact RunUnit.Fresh.journaled hfresh
  · have hfresh := hlaid.channels c ch hc
    constructor <;> simp [hfresh.queue, hfresh.rowsPut, hfresh.rowsTaken]
  · obtain ⟨u, hu, t, m, -, -, rfl⟩ := hof hv
    have hf := hlaid.fitted u hu
    exact ⟨hf.outlets, hf.targets, hf.sources⟩

end Run

end Sluice
