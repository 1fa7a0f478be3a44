import Sluice.Proofs.Border.Totals
import Sluice.Proofs.Run.Determinacy
import Sluice.Proofs.Run.Rigging
import Sluice.Proofs.Step.Rowwise

/-!
Confluence: where no rows are dealt out in turn, two runs of a graph on the same rows that both
finish carry the same rows through each channel, each in an order of its own. Which input a unit
reads from next depends on timing, but no step of the catalog makes anything else of its rows when
they come in another order.
-/

namespace Sluice

/-- No rows are dealt out in turn: each hop has one channel from every copy of its source, and with
several output hops a step sends its rows to all of them. -/
structure Graph.Unsplit (g : Graph) : Prop where
  hops : ∀ h ∈ g.enabledHops,
    g.copyCount h.source = g.copyCount h.target ∨ g.copyCount h.target = 1
  steps : ∀ s ∈ g.steps, 2 ≤ (g.outputHops s.name).length → s.distribute = false

structure Place.Unsplit (p : Place) : Prop where
  shares : p.shares = false
  single : ∀ channels ∈ p.outs, channels.length = 1

structure UnitReport.Alike (a b : UnitReport) : Prop where
  unit : b.unit = a.unit
  state : b.state = a.state
  linesRead : b.linesRead = a.linesRead
  linesWritten : b.linesWritten = a.linesWritten
  errors : b.errors = a.errors
  messages : a.messages.Perm b.messages

theorem Graph.Unsplit.length_fed {g : Graph} (h : g.Unsplit) {hop : Hop} (hh : hop ∈ g.enabledHops)
    (source : UnitId) : (g.fed hop source).length = 1 := by
  unfold fed
  split
  · rfl
  · exact (h.hops hop hh).resolve_left ‹_›

/-- A unit shares rows out if its step says so. -/
def Station.Declared (s : Station) : Prop :=
  s.place.distribute = s.setup.spec.distribute

section

variable {σ : Type}

theorem RunUnit.Wired.unsplit {u : RunUnit σ} {g : Graph} {injected : List Nat}
    (h : u.Wired g injected) (hg : g.Unsplit) (hd : u.station.Declared)
    (hspec : u.setup.spec ∈ g.steps) (hname : u.id.step = u.setup.spec.name) :
    u.station.place.Unsplit := by
  have houts : u.station.place.outs = (g.outputHops u.id.step).map fun hop =>
      (g.fed hop u.id).map fun t => g.channelOf ⟨u.id, t⟩ := by
    simpa [RunUnit.station, Border.place, Function.comp_def] using
      congrArg (List.map Prod.snd) h.outputs
  refine ⟨?_, fun channels hc => ?_⟩
  · by_cases hlen : 2 ≤ (g.outputHops u.id.step).length
    · have hdistribute : u.station.place.distribute = false :=
        hd.trans (hg.steps _ hspec (hname ▸ hlen))
      simp [Place.shares, hdistribute]
    · have hfew : ¬ 1 < u.station.place.outs.length := by simpa [houts] using hlen
      simp [Place.shares, hfew]
  · rw [houts] at hc
    obtain ⟨hop, hhop, rfl⟩ := List.mem_map.mp hc
    rw [List.length_map]
    exact hg.length_fed (List.mem_filter.mp hhop).1 u.id

end

theorem SameRows.refl (rows : List Row) : SameRows rows rows :=
  List.Perm.refl _

theorem SameRows.of_emissions {out out' : List Emission} (hops hop turn : Nat)
    (h : (out.map Emission.bare).Perm (out'.map Emission.bare)) :
    SameRows (hopRows false hops hop turn out) (hopRows false hops hop turn out') := by
  have hbare (out : List Emission) : (hopRows false hops hop turn out).map Row.bare =
      (out.map Emission.bare).filterMap fun e =>
        if e.isFor false hops 0 hop then e.row? else none := by
    rw [hopRows_unshared, List.map_filterMap, List.filterMap_map]
    refine List.filterMap_congr fun e _ => ?_
    simp only [Function.comp_apply, Emission.isFor_bare, Emission.row?_bare]
    split <;> rfl
  rw [SameRows, hbare, hbare]
  exact h.filterMap _

theorem Border.AtRest.sameRows {p p' : Border} {out out' : List Emission}
    {put put' : Nat → List Row} (h : p.AtRest out put) (h' : p'.AtRest out' put')
    (hplace : p'.place = p.place) (hunsplit : p.place.Unsplit)
    (hout : (out.map Emission.bare).Perm (out'.map Emission.bare)) {c : Nat}
    (hc : c ∈ p.outputChannels) : SameRows (put c) (put' c) := by
  have houts : p.outputChannels = p.place.outs.flatten := by
    simp [place, outputChannels, List.flatMap_def]
  rw [houts] at hc
  obtain ⟨channels, hmem, hc⟩ := List.mem_flatten.mp hc
  obtain ⟨hop, hhop⟩ := List.getElem?_of_mem hmem
  obtain ⟨i, hi⟩ := List.getElem?_of_mem hc
  have hone := hunsplit.single channels hmem
  obtain rfl : i = 0 := by
    have := (List.getElem?_eq_some_iff.mp hi).1
    omega
  rw [h.carried hhop hi, h'.carried (hplace ▸ hhop) hi, hplace, hone, deal_one, deal_one,
    hunsplit.shares]
  exact .of_emissions _ hop 0 hout

namespace Run

variable {r r' : Run StepMemory} {l l' : Ledger} {u u' : RunUnit StepMemory}

structure Done (r : Run StepMemory) (l : Ledger) : Prop extends Live r l where
  closing : r.Closing
  finished : ∀ u ∈ r.units, u.life.outcome = .finished

theorem Done.input_read (h : r.Done l) (hu : u ∈ r.units) {j : Journal}
    (hj : u.border.Journaled j l) (hall : j.AllEnded u.site) {k c : Nat}
    (hk : u.border.inputChannels[k]? = some c) : l.put c = j.from k := by
  have hread := congrArg (fun rows => rows[k]?) (h.inputs_read h.closing hu hj hall)
  have hlt : k < u.border.inputs.length := by
    simpa [Border.inputChannels] using (List.getElem?_eq_some_iff.mp hk).1
  simpa [hk, hlt] using hread

theorem Done.journals_alike (h : r.Done l) (h' : r'.Done l') (hu : u ∈ r.units)
    (hu' : u' ∈ r'.units) (hplain : u'.station.plain = u.station.plain)
    (hin : ∀ c ∈ u.border.inputChannels, SameRows (l.put c) (l'.put c)) :
    ∃ j j', (u.border.Journaled j l ∧ u.border.AtRest j.out l.put) ∧
      (u'.border.Journaled j' l' ∧ u'.border.AtRest j'.out l'.put) ∧
      SameRows (j.got.map (·.2)) (j'.got.map (·.2)) ∧
      (j.out.map Emission.bare).Perm (j'.out.map Emission.bare) := by
  obtain ⟨t, m, j, hst, hj, hrest, hall, hfin⟩ :=
    h.finished_journal hu ((h.lively u hu).outcome rfl (h.finished u hu))
  obtain ⟨t', m', j', hst', hj', hrest', hall', hfin'⟩ :=
    h'.finished_journal hu' ((h'.lively u' hu').outcome rfl (h'.finished u' hu'))
  have hplace : u'.border.place = u.border.place := congrArg Station.place hplain
  have hsetup : { u'.setup with settings := {} } = { u.setup with settings := {} } :=
    congrArg Station.setup hplain
  have hspec : u'.setup.spec = u.setup.spec :=
    congrArg (fun s : Station => s.setup.spec) hplain
  have hinputs : u'.site.inputs = u.site.inputs := Border.place_inputs_length hplace
  have hpolicy : u'.site.policy = u.site.policy := congrArg Place.policy hplace
  obtain rfl : t = t' := Option.some.inj (hst.found.symm.trans (hspec ▸ hst'.found))
  obtain rfl : m = m' := by
    have hinit := Catalog.init_settings hst.found u.setup {}
    rw [← hsetup, Catalog.init_settings hst.found u'.setup {}, hst.init, hst'.init] at hinit
    exact (Except.ok.inj hinit).symm
  have hread : j.Alike j' u.site.inputs := fun k hk => by
    have hlt : k < u.border.inputChannels.length := by
      simpa [RunUnit.site, Border.inputChannels] using hk
    have hat := List.getElem?_eq_getElem hlt
    have hat' := (congrArg (fun ins => ins[k]?) (Border.place_inputs hplace)).trans hat
    rw [← h.input_read hu hj hall hat, ← h'.input_read hu' hj' hall' hat']
    exact hin _ (List.getElem_mem hlt)
  exact ⟨j, j', ⟨hj, hrest⟩, ⟨hj', hrest'⟩, hread.got hj.tags (hinputs ▸ hj'.tags),
    Catalog.finished_perm hst.found hst.init hinputs hpolicy hfin hfin' hj.tags hj'.tags hread⟩

theorem Done.unit_alike (h : r.Done l) (h' : r'.Done l') (hu : u ∈ r.units) (hu' : u' ∈ r'.units)
    (hplain : u'.station.plain = u.station.plain) (hunsplit : u.station.place.Unsplit)
    (hin : ∀ c ∈ u.border.inputChannels, SameRows (l.put c) (l'.put c)) :
    (∀ c ∈ u.border.outputChannels, SameRows (l.put c) (l'.put c)) ∧
      (unitReport u).Alike (unitReport u') := by
  obtain ⟨j, j', ⟨hj, hrest⟩, ⟨hj', hrest'⟩, hgot, hout⟩ :=
    h.journals_alike h' hu hu' hplain hin
  have hplace : u'.border.place = u.border.place := congrArg Station.place hplain
  have hrows : ((j.out.filterMap (·.row?)).map Row.bare).Perm
      ((j'.out.filterMap (·.row?)).map Row.bare) := by
    simpa [List.map_filterMap, List.filterMap_map, Function.comp_def] using
      hout.filterMap (·.row?)
  have hfaults : (j.out.filterMap (·.fault?)).Perm (j'.out.filterMap (·.fault?)) := by
    simpa [List.filterMap_map, Function.comp_def] using hout.filterMap (·.fault?)
  refine ⟨fun c => hrest.sameRows hrest' hplace hunsplit hout, congrArg Place.unit hplace,
    (h'.finished u' hu').trans (h.finished u hu).symm, ?_, ?_, ?_, ?_⟩
  · simpa [unitReport, hj.linesRead, hj'.linesRead] using hgot.length_eq.symm
  · simpa [unitReport, hj.linesWritten, hj'.linesWritten] using hrows.length_eq.symm
  · simpa [unitReport, hj.errors, hj'.errors] using hfaults.length_eq.symm
  · simpa [unitReport, hj.messages, hj'.messages] using hfaults

/-- Where runs with the same stations carried the same rows in from outside, they carried the same
rows through every channel. -/
theorem Done.carried_alike (h : r.Done l) (h' : r'.Done l')
    (hmates : List.Forall₂ (fun u u' => u'.station.plain = u.station.plain) r.units r'.units)
    (hunsplit : ∀ u ∈ r.units, u.station.place.Unsplit)
    (hlinks : r'.net.links.length = r.net.links.length)
    (hfed : ∀ c ∈ r.chart.feeds, SameRows (l.put c) (l'.put c)) (c : Nat) :
    SameRows (l.put c) (l'.put c) := by
  obtain ⟨writer, hsound⟩ := h.sound
  have hwritten (i : Nat) : ∀ c < r.chart.channels, writer c = some i →
      SameRows (l.put c) (l'.put c) := by
    -- what a unit reads was written by units before it
    induction i using Nat.strong_induction_on with
    | _ i ih =>
      intro c hlt hw
      have hi := List.getElem?_eq_getElem (l := r.units) (hsound.has_writer c hlt i hw)
      obtain ⟨u', hi', hplain⟩ := List.forall₂_getElem? hmates.flip hi
      have hu := List.mem_of_getElem? hi
      have hu' := List.mem_of_getElem? hi'
      refine (h.unit_alike h' hu hu' hplain (hunsplit _ hu) fun d hd => ?_).1 c ?_
      · rw [← chart_ins hi] at hd
        have hdlt := hsound.in_lt hd
        cases hwd : writer d with
        | none => exact hfed d ((hsound.fed d).mpr ⟨hdlt, hwd⟩)
        | some k =>
          exact ih k (hsound.forward d hdlt k i hwd ((hsound.reads i d).mp hd)) d hdlt hwd
      · rw [← chart_outs hi, hsound.writes]
        exact ⟨hlt, hw⟩
  by_cases hlt : c < r.chart.channels
  · cases hw : writer c with
    | none => exact hfed c ((hsound.fed c).mpr ⟨hlt, hw⟩)
    | some i => exact hwritten i c hlt hw
  · have hout : r.net.links.length ≤ c := by
      simpa [chart, chartOf, Chart.channels] using hlt
    rw [(h.beyond c hout).1, (h'.beyond c (hlinks.trans_le hout)).1]
    exact .refl []

theorem Done.reports_alike (h : r.Done l) (h' : r'.Done l')
    (hmates : List.Forall₂ (fun u u' => u'.station.plain = u.station.plain) r.units r'.units)
    (hunsplit : ∀ u ∈ r.units, u.station.place.Unsplit)
    (hput : ∀ c, SameRows (l.put c) (l'.put c)) :
    List.Forall₂ UnitReport.Alike (r.units.map unitReport) (r'.units.map unitReport) := by
  rw [List.forall₂_map_left_iff, List.forall₂_map_right_iff]
  obtain ⟨hlength, hpairs⟩ := List.forall₂_iff_zip.mp hmates
  refine List.forall₂_iff_zip.mpr ⟨hlength, fun {u u'} hpair => ?_⟩
  obtain ⟨hu, hu'⟩ := List.of_mem_zip hpair
  exact (h.unit_alike h' hu hu' (hpairs hpair) (hunsplit u hu) fun c _ => hput c).2

theorem Drawn.agree {s s' : Sketch} (h : r.Drawn s) (h' : r'.Drawn s') (hg : r'.graph = r.graph)
    (hunits : r'.producers.map (·.unit) = r.producers.map (·.unit)) :
    List.Forall₂ (fun u u' => u'.station.plain = u.station.plain) r.units r'.units ∧
      r'.net.links.length = r.net.links.length ∧ r'.feeds = r.feeds := by
  obtain rfl : s = s' := by
    have := h'.graph
    rw [hg, h.graph] at this
    exact Except.ok.inj this
  have hlength : r'.producers.length = r.producers.length := by
    simpa using congrArg List.length hunits
  have hchannels : r'.producers.map (·.channel) = r.producers.map (·.channel) := by
    rw [h.feeds, h'.feeds, hlength]
  have hstations : r.units.map (·.station.plain) = r'.units.map (·.station.plain) := by
    have := h'.stations
    rw [hunits, ← h.stations] at this
    simpa [Run.stations, Function.comp_def] using this.symm
  refine ⟨?_, by rw [h.links, h'.links, hlength], ?_⟩
  · rw [← List.forall₂_eq_eq_eq, List.forall₂_map_left_iff, List.forall₂_map_right_iff] at hstations
    exact hstations.imp fun _ _ heq => heq.symm
  · rw [Run.feeds, Run.feeds, ← List.zip_map', ← List.zip_map', hunits, hchannels]

theorem declared_conveys {σ : Type} (r : Run σ) (d : Deed) :
    Conveys r d (fun r => ∀ u ∈ r.units, u.station.Declared)
      (fun r => ∀ u ∈ r.units, u.station.Declared) := by
  have hrigs {units units' : List (RunUnit σ)} (h : ∀ u ∈ units, u.station.Declared)
      (hsame : units'.map RunUnit.rig = units.map RunUnit.rig) :
      ∀ u ∈ units', u.station.Declared := fun v hv => by
    obtain ⟨u, hu, hrig⟩ := List.mem_map.mp (hsame ▸ List.mem_map_of_mem (f := RunUnit.rig) hv)
    have hstation : u.station = v.station := congrArg Prod.fst hrig
    exact hstation ▸ h u hu
  refine conveys_layout (fun h ha => hrigs h ha.rigs) (fun _ _ wired initiated => ?_)
    (fun {i u} h _ _ _ v hv => ?_) d
  · refine hrigs ?_ (RunUnit.Initiated.rigs initiated)
    obtain ⟨-, -, hwiring⟩ := wire_eq_ok wired
    refine Wiring.ofPlan_induction (fun w => ∀ u ∈ w.units, u.station.Declared)
      (fun w spec copy h => ?_) (fun w w' c source target h hlink u hu => ?_)
      (fun w s target channels h u hu => ?_) (by simp) hwiring
    · refine List.forall_mem_append.mpr ⟨h, ?_⟩
      simp [Station.Declared, RunUnit.station, Border.place]
    · obtain ⟨t, v, -, -, -, rfl⟩ := Wiring.connect_eq_ok hlink
      obtain hu | ⟨v, hv, rfl⟩ := List.mem_modify hu
      · exact h u hu
      · exact h v (List.mem_of_getElem? hv)
    · obtain hu | ⟨v, hv, rfl⟩ := List.mem_modify hu
      · exact h u hu
      · exact h v (List.mem_of_getElem? hv)
  · obtain hv | ⟨u, hu, rfl⟩ := List.mem_modify hv
    · exact h v hv
    · exact h u (List.mem_of_getElem? hu)

/-- A history in which every unit finished and the producers put in these rows. -/
structure Finishes (start : Run StepMemory) (ds : List Deed) (feeds : List (UnitId × List Row)) :
    Prop where
  units : (start.after ds).units ≠ []
  finished : ∀ u ∈ (start.after ds).units, u.life.outcome = .finished
  feeds : (start.after ds).producers.map (fun p => (p.unit, start.carried p.channel ds)) = feeds

theorem Finishes.done {settings : Settings} {g : Graph} {armed : List String} {ds : List Deed}
    {feeds : List (UnitId × List Row)} :
    let start := Run.new Catalog.builtins settings g armed
    start.Finishes ds feeds → ∃ l s, (start.after ds).Done l ∧ (start.after ds).Drawn s ∧
      (start.after ds).Rigged ∧
      (∀ u ∈ (start.after ds).units, u.station.Declared) ∧ l.put = fun c => start.carried c ds := by
  intro start h
  obtain ⟨ho, l, hs, hput⟩ := steady_after
    (fun _ r => (r.Closing ∧ ∃ s, r.Drawn s) ∧ r.Rigged ∧ ∀ u ∈ r.units, u.station.Declared)
    (fun _ d => ((closing_conveys _ d).carries.and (drawn_carries _ d)).and
      ((rigged_conveys _ d).carries.and (declared_conveys _ d).carries)) ds
  obtain ⟨u, hu⟩ := List.exists_mem_of_ne_nil _ h.units
  have started : ¬ u.Shelved := fun shelved => by
    have hout := shelved.outcome
    simp [h.finished u hu, UnitState.isEnd] at hout
  obtain ⟨live, ⟨hclosing, s, hs⟩, hrigged, hdeclared⟩ := hs.of_unit ho hu started
  exact ⟨l, s, ⟨live, hclosing, h.finished⟩, hs, hrigged, hdeclared, funext hput⟩

/-- Where no rows are dealt out in turn, any two runs of a graph that finish on the same rows have
the same channels, carry the same rows through each, and report the same for each unit. Neither the
order in which the parties moved nor the settings have a say in that. -/
theorem finishing_confluent (g : Graph) (unsplit : g.Unsplit) (settings settings' : Settings)
    (armed armed' : List String) (ds ds' : List Deed) (feeds : List (UnitId × List Row)) :
    let start := Run.new Catalog.builtins settings g armed
    let start' := Run.new Catalog.builtins settings' g armed'
    start.Finishes ds feeds → start'.Finishes ds' feeds →
      (start'.after ds').wires = (start.after ds).wires ∧
      (∀ c, SameRows (start.carried c ds) (start'.carried c ds')) ∧
      List.Forall₂ UnitReport.Alike ((start.after ds).units.map unitReport)
        ((start'.after ds').units.map unitReport) := by
  intro start start' h h'
  obtain ⟨l, s, done, drawn, rigged, declared, hput⟩ := h.done
  obtain ⟨l', s', done', drawn', rigged', -, hput'⟩ := h'.done
  have hgraph : (start.after ds).graph = g := graph_after _ ds
  have hgraph' : (start'.after ds').graph = g := graph_after _ ds'
  have hunits : (start'.after ds').producers.map (·.unit) =
      (start.after ds).producers.map (·.unit) := by
    simpa [Function.comp_def] using congrArg (List.map Prod.fst) (h'.feeds.trans h.feeds.symm)
  obtain ⟨hmates, hlinks, hfeeds⟩ := drawn.agree drawn' (hgraph'.trans hgraph.symm) hunits
  have hunsplit : ∀ u ∈ (start.after ds).units, u.station.place.Unsplit := fun u hu => by
    obtain ⟨t, m, hstaffed, -⟩ := done.staffed u hu
    have hg : (start.after ds).graph.Unsplit := by rwa [hgraph]
    exact (rigged.units u hu).unsplit hg (declared u hu) hstaffed.spec hstaffed.named
  have hfed : ∀ c ∈ (start.after ds).chart.feeds, SameRows (l.put c) (l'.put c) := fun c hc => by
    have hsame : (start.after ds).feeds.map (Prod.map id l.put) =
        (start.after ds).feeds.map (Prod.map id l'.put) := by
      conv_rhs => rw [← hfeeds]
      simpa [Run.feeds, Function.comp_def, hput, hput'] using h.feeds.trans h'.feeds.symm
    obtain ⟨p, hp, rfl⟩ := List.mem_map.mp hc
    have hfeed : (p.unit, p.channel) ∈ (start.after ds).feeds := List.mem_map.mpr ⟨p, hp, rfl⟩
    have heq : l.put p.channel = l'.put p.channel :=
      congrArg Prod.snd (List.map_inj_left.mp hsame _ hfeed)
    exact heq ▸ .refl _
  have hrows := done.carried_alike done' hmates hunsplit hlinks hfed
  refine ⟨?_, fun c => ?_, done.reports_alike done' hmates hunsplit hrows⟩
  · rw [rigged.wires, rigged'.wires, hfeeds, hgraph, hgraph']
  · simpa [hput, hput'] using hrows c

/-- Two units that are fed from outside, a third one that takes the rows of both as they come, and
one after it. -/
def merging : Graph where
  name := "merging"
  steps := [{ name := "a", type := "injector" }, { name := "b", type := "injector" },
    { name := "t", type := "dummy" }, { name := "z", type := "dummy" }]
  hops := [{ source := "a", target := "t" }, { source := "b", target := "t" },
    { source := "t", target := "z" }]

/-- One producer after another puts in all of its rows, in this order. -/
def served (order : List Nat) : List Deed :=
  [.prepare, .addProducer ⟨"a", 0⟩, .addProducer ⟨"b", 0⟩, .start [] 0,
    .offer 0 [.ok (word "p"), .ok (word "q")], .finish 0, .offer 1 [.ok (word "r")], .finish 1] ++
  order.flatMap fun k => (List.replicate 40 [.move (.producer k), .move (.unit 0), .move (.unit 1),
    .move (.unit 2), .move (.unit 3)]).flatten

theorem eitherFirst_confluent :
    let start := Run.new Catalog.builtins { channelCapacity := 1, batchRows := 1 } merging []
    let start' := Run.new Catalog.builtins {} merging []
    let feeds := [(⟨"a", 0⟩, [word "p", word "q"]), (⟨"b", 0⟩, [word "r"])]
    merging.Unsplit ∧ start.Finishes (served [0, 1]) feeds ∧ start'.Finishes (served [1, 0]) feeds ∧
      start.carried 2 (served [0, 1]) ≠ start'.carried 2 (served [1, 0]) ∧
      (start'.after (served [1, 0])).wires = (start.after (served [0, 1])).wires ∧
      (∀ c, SameRows (start.carried c (served [0, 1])) (start'.carried c (served [1, 0]))) ∧
      List.Forall₂ UnitReport.Alike ((start.after (served [0, 1])).units.map unitReport)
        ((start'.after (served [1, 0])).units.map unitReport) := by
  intro start start' feeds
  have unsplit : merging.Unsplit := ⟨by decide +kernel, by decide +kernel⟩
  obtain ⟨units, finished, fed⟩ : (start.after (served [0, 1])).units.length ≠ 0 ∧
      (∀ u ∈ (start.after (served [0, 1])).units, u.life.outcome = .finished) ∧
      (start.after (served [0, 1])).producers.map
        (fun p => (p.unit, start.carried p.channel (served [0, 1]))) = feeds := by
    decide +kernel
  obtain ⟨units', finished', fed'⟩ : (start'.after (served [1, 0])).units.length ≠ 0 ∧
      (∀ u ∈ (start'.after (served [1, 0])).units, u.life.outcome = .finished) ∧
      (start'.after (served [1, 0])).producers.map
        (fun p => (p.unit, start'.carried p.channel (served [1, 0]))) = feeds := by
    decide +kernel
  have differs : start.carried 2 (served [0, 1]) ≠ start'.carried 2 (served [1, 0]) := by
    decide +kernel
  have finishes : start.Finishes (served [0, 1]) feeds :=
    ⟨fun h => units (by simp [h]), finished, fed⟩
  have finishes' : start'.Finishes (served [1, 0]) feeds :=
    ⟨fun h => units' (by simp [h]), finished', fed'⟩
  exact ⟨unsplit, finishes, finishes', differs, finishing_confluent merging unsplit
    { channelCapacity := 1, batchRows := 1 } {} [] [] (served [0, 1]) (served [1, 0]) feeds
    finishes finishes'⟩

end Run

end Sluice
