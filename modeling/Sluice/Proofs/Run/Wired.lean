import Sluice.Proofs.Run.Installing
import Sluice.Proofs.Run.Rigging
import Sluice.Step.Catalog

/-!
The channels of a run that was prepared: one for each pair of units that a hop joins, each with one
reader and one writer, all of them in reach of a stop. What keeps a run from being prepared is never
that something looked up on the way is missing.
-/

namespace Sluice

variable {σ : Type}

namespace Run

variable {r r' : Run σ}

/-- The channels of a run that was prepared. Each lane of the graph is one channel, and each channel
has one reader, whose wakeup it carries, and one writer: a unit, in one of its output hops, or a
producer. Stopping the run reaches all of them. -/
structure Wired (r : Run σ) : Prop extends Rigged r where
  reads : (r.units.flatMap (·.border.inputChannels)).Perm (List.range r.net.links.length)
  writes : (r.units.flatMap (·.border.outputChannels)).Perm (List.range r.graph.lanes.length)
  /-- Two units that a hop joins have one channel between them; other two have none. -/
  joined : ∀ a ∈ r.units, ∀ b ∈ r.units, r.graph.Joins ⟨a.id, b.id⟩ →
    (a.border.outputChannels.filter (· ∈ b.border.inputChannels)) = [r.graph.channelOf ⟨a.id, b.id⟩]
  apart : ∀ a ∈ r.units, ∀ b ∈ r.units, ¬ r.graph.Joins ⟨a.id, b.id⟩ →
    (a.border.outputChannels.filter (· ∈ b.border.inputChannels)) = []
  numbered : r.wires.map (·.channel) = List.range r.net.links.length
  wakeups : r.units.map (·.border.wakeup) = List.range r.net.wakeups.length
  readers : ∀ u ∈ r.units, ∀ c ∈ u.border.inputChannels, r.net.reader? c = some u.border.wakeup
  registered : ∀ c < r.net.links.length, r.net.stop.Aborted c

theorem Rigged.between (h : r.Rigged) {a b : RunUnit σ} (ha : a ∈ r.units) (hb : b ∈ r.units)
    {c : Nat} : c ∈ a.border.outputChannels ∧ c ∈ b.border.inputChannels ↔
      r.graph.Joins ⟨a.id, b.id⟩ ∧ c = r.graph.channelOf ⟨a.id, b.id⟩ := by
  have hcopy : a.id ∈ r.graph.copies a.id.step :=
    (h.listed.mem a.id).mp (List.mem_map_of_mem ha)
  rw [(h.units a ha).mem_outputs hcopy, (h.units b hb).mem_inputs, ← Graph.mem_lanes]
  constructor
  · rintro ⟨⟨t, ht, rfl⟩, ⟨s, hs, heq⟩ | hin⟩
    · obtain ⟨rfl, rfl⟩ := Lane.mk.inj ((List.idxOf_inj hs).mp heq)
      exact ⟨ht, rfl⟩
    · obtain ⟨feed, hfeed, heq⟩ := List.mem_map.mp hin
      obtain ⟨p, hp, rfl⟩ := List.mem_map.mp (List.mem_filter.mp hfeed).1
      have hmem : p.channel ∈ r.producers.map (·.channel) := List.mem_map_of_mem hp
      -- what a producer writes to comes after all lanes
      rw [h.feeds, List.mem_range'_1] at hmem
      have hlt := Graph.channelOf_lt ht
      exact absurd hmem.1 (by simp only at heq; omega)
  · rintro ⟨hlane, rfl⟩
    exact ⟨⟨b.id, hlane, rfl⟩, .inl ⟨a.id, hlane, rfl⟩⟩

section

variable {writer : Nat → Option Nat}

theorem chart_channels (r : Run σ) : r.chart.channels = r.net.links.length := by
  simp [chart, chartOf, Chart.channels]

theorem outputs_nodup (hs : r.chart.Sound writer) {u : RunUnit σ} (hu : u ∈ r.units) :
    u.border.outputChannels.Nodup := by
  obtain ⟨i, hi⟩ := List.getElem?_of_mem hu
  exact chart_outs hi ▸ hs.writes_once i

theorem reads_perm (hs : r.chart.Sound writer) :
    (r.units.flatMap (·.border.inputChannels)).Perm (List.range r.net.links.length) := by
  refine List.flatMap_perm_range (fun u hu => ?_) (fun i j u v c hu hv hc hc' => ?_) fun c => ?_
  · obtain ⟨i, hi⟩ := List.getElem?_of_mem hu
    exact chart_ins hi ▸ hs.reads_once i
  · exact hs.in_unique (chart_ins hu ▸ hc) (chart_ins hv ▸ hc')
  · rw [← chart_channels]
    constructor
    · rintro ⟨u, hu, hc⟩
      obtain ⟨i, hi⟩ := List.getElem?_of_mem hu
      exact hs.in_lt (chart_ins hi ▸ hc)
    · intro hc
      obtain ⟨i, hi, hreader⟩ := hs.has_reader c hc
      exact ⟨_, List.getElem_mem hi,
        chart_ins (List.getElem?_eq_getElem hi) ▸ (hs.reads i c).mpr hreader⟩

theorem Rigged.writes_perm (h : r.Rigged) (hs : r.chart.Sound writer) :
    (r.units.flatMap (·.border.outputChannels)).Perm (List.range r.graph.lanes.length) := by
  have hlane (c : Nat) : c < r.graph.lanes.length ↔ c < r.chart.channels ∧ c ∉ r.chart.feeds := by
    change _ ↔ _ ∧ c ∉ r.producers.map (·.channel)
    rw [chart_channels, h.feeds, h.links, List.mem_range'_1]
    omega
  refine List.flatMap_perm_range (fun u hu => outputs_nodup hs hu)
    (fun i j u v c hu hv hc hc' => ?_) fun c => ?_
  · exact hs.out_unique (chart_outs hu ▸ hc) (chart_outs hv ▸ hc')
  · rw [hlane, hs.fed]
    constructor
    · rintro ⟨u, hu, hc⟩
      obtain ⟨i, hi⟩ := List.getElem?_of_mem hu
      obtain ⟨hlt, hwriter⟩ := (hs.writes i c).mp (chart_outs hi ▸ hc)
      exact ⟨hlt, by simp [hwriter]⟩
    · rintro ⟨hlt, hfed⟩
      obtain ⟨i, hwriter⟩ := Option.ne_none_iff_exists'.mp fun hnone => hfed ⟨hlt, hnone⟩
      have hi := hs.has_writer c hlt i hwriter
      exact ⟨_, List.getElem_mem hi,
        chart_outs (List.getElem?_eq_getElem hi) ▸ (hs.writes i c).mpr ⟨hlt, hwriter⟩⟩

theorem Rigged.wired (h : r.Rigged) (hs : r.chart.Sound writer)
    (hw : ∀ (i : Nat) (u : RunUnit σ), r.units[i]? = some u → u.border.wakeup = i)
    (hn : r.net.wakeups.length = r.units.length) : r.Wired where
  toRigged := h
  reads := reads_perm hs
  writes := h.writes_perm hs
  joined a ha b hb hj := by
    have hmem (c : Nat) : c ∈ a.border.outputChannels.filter (· ∈ b.border.inputChannels) ↔
        c ∈ [r.graph.channelOf ⟨a.id, b.id⟩] := by
      rw [List.mem_filter, decide_eq_true_iff, h.between ha hb]
      simp [hj]
    exact List.perm_singleton.mp ((List.perm_ext_iff_of_nodup ((outputs_nodup hs ha).filter _)
      (List.nodup_singleton _)).mpr hmem)
  apart a ha b hb hj := by
    rw [List.filter_eq_nil_iff]
    exact fun c hc hc' => hj ((h.between ha hb).mp ⟨hc, of_decide_eq_true hc'⟩).1
  numbered := by
    have hchannels : (r.graph.lanes.map r.graph.wire).map (·.channel) =
        List.range r.graph.lanes.length := by
      rw [← Graph.map_channelOf h.listed.lanes, List.map_map]
      rfl
    have hfeeds : (r.feeds.map fun feed => Wire.mk feed.2 outside feed.1).map (·.channel) =
        r.producers.map (·.channel) := by simp [Run.feeds]
    rw [h.wires, List.map_append, hchannels, h.links]
    refine (congrArg _ (hfeeds.trans h.feeds)).trans ?_
    have happend := List.range'_append_1 (s := 0) (m := r.graph.lanes.length)
      (n := r.producers.length)
    rwa [Nat.zero_add, ← List.range_eq_range', ← List.range_eq_range'] at happend
  wakeups := by
    refine List.ext_getElem (by simp [hn]) fun i hi _ => ?_
    simpa using hw i _ (List.getElem?_eq_getElem (by simpa using hi))
  readers u hu c hc := by
    obtain ⟨i, hi⟩ := List.getElem?_of_mem hu
    rw [hw i u hi, chart_reader hs hi hc]
  registered c := Net.stop_aborts

end

/-- With a wiring whose units are not set up yet. -/
def lay (r : Run σ) (w : Wiring σ) : Run σ :=
  { r with units := w.units, wires := w.wires, net := w.net }

theorem Blank.laid (h : r.Blank) {plan : Plan} {w : Wiring σ} (hw : r.wire = .ok (plan, w)) :
    (r.lay w).Wired := by
  obtain ⟨hg, hstrung⟩ := h.strung hw
  obtain ⟨-, ⟨-, -, writer, hs⟩, -⟩ := h.wired hw
  have hr : (r.lay w).Rigged :=
    rigged_of_strung (r := r.lay w) hstrung hg rfl rfl rfl h.producers
  have hchart : (r.lay w).chart = w.chart := by simp [chart, lay, Wiring.chart, h.producers]
  exact hr.wired (hchart ▸ hs) hstrung.laid.wakeup hstrung.laid.wakeups

/-- What can keep a run from being prepared: its settings, its graph, or a step of a unit that it
has. -/
inductive Unprepared (r : Run σ) : RunError → Prop
  | settings {e : Error} (invalid : r.settings.check = .error e) : Unprepared r (.core e)
  | graph {fault : GraphFault} (valid : r.settings.check = .ok ())
      (invalid : Plan.ofGraph r.registry r.graph = .error fault) : Unprepared r (.graph fault)
  | init {plan : Plan} {unit : UnitId} {e : StepError} (valid : r.settings.check = .ok ())
      (planned : Plan.ofGraph r.registry r.graph = .ok plan)
      (known : unit ∈ r.graph.copies unit.step) : Unprepared r (.init unit e)
  | panicked {plan : Plan} {type : StepType σ} {setup : Setup} {payload : Option String}
      (valid : r.settings.check = .ok ()) (planned : Plan.ofGraph r.registry r.graph = .ok plan)
      (listed : setup.spec ∈ r.graph.steps)
      (known : r.registry.find? setup.spec.type = some type)
      (panics : type.behaviour.init setup = .error (.panic payload) ∨
        ∃ m, type.behaviour.init setup = .ok m ∧ type.behaviour.dispose m = .error payload) :
      Unprepared r (.panicked payload)

theorem Blank.prepare_cases (h : r.Blank) (hp : r.phase = .new) :
    (∃ e, r.settings.check = .error e ∧
      r.prepare = (.error (.core e), { r with phase := .finished })) ∨
    (∃ fault, r.settings.check = .ok () ∧ Plan.ofGraph r.registry r.graph = .error fault ∧
      r.prepare = (.error (.graph fault), { r with phase := .finished })) ∨
    ∃ plan w, r.wire = .ok (plan, w) ∧ r.prepare = r.setUp plan w := by
  unfold prepare expect
  rw [if_pos hp]
  cases hs : r.settings.check with
  | error e => exact .inl ⟨e, rfl, by simp [wire, hs, Except.mapError, bind, Except.bind]⟩
  | ok =>
    cases hplan : Plan.ofGraph r.registry r.graph with
    | error fault =>
      exact .inr (.inl ⟨fault, rfl, rfl, by
        simp [wire, hs, hplan, Except.mapError, bind, Except.bind]⟩)
    | ok plan =>
      obtain ⟨w, hw, -⟩ := h.wire_total hs hplan
      exact .inr (.inr ⟨plan, w, hw, by simp [hw]⟩)

/-- Nothing that is looked up on the way is missing. -/
theorem Blank.unprepared (h : r.Blank) (hp : r.phase = .new) {e : RunError}
    (he : r.prepare.1 = .error e) : r.Unprepared e := by
  obtain ⟨f, hs, heq⟩ | ⟨fault, hs, hplan, heq⟩ | ⟨plan, w, hw, heq⟩ := h.prepare_cases hp
  · rw [heq] at he
    exact Except.error.inj he ▸ .settings hs
  · rw [heq] at he
    exact Except.error.inj he ▸ .graph hs hplan
  · obtain ⟨hs, hplan, -⟩ := wire_eq_ok hw
    obtain ⟨hvalid, hcharted, hids, -⟩ := h.wired hw
    have hnamed := hcharted.laid.named
    have hset := r.setUp_installed plan hcharted.laid.fresh fun u hu => hvalid.types _ (hnamed u hu).1
    rw [heq] at he
    generalize r.setUp plan w = outcome at hset he
    cases hset with
    | all => cases he
    | @back _ _ _ failed _ split =>
      have hmem : failed ∈ w.units := by simp [split]
      have hknown := ((Wiring.listed_of_valid hvalid).mem failed.id).mp
        (hids ▸ List.mem_map_of_mem hmem)
      exact Except.error.inj he ▸ .init hs hplan hknown
    | panicked split _ unable =>
      obtain ⟨t, ht, hm⟩ := unable
      exact Except.error.inj he ▸ .panicked hs hplan (hnamed _ (by simp [split])).1 ht (.inl hm)
    | unwound split _ _ breaks =>
      obtain ⟨t, m, ht, hm, hd⟩ := breaks
      exact Except.error.inj he ▸
        .panicked hs hplan (hnamed _ (by simp [split])).1 ht (.inr ⟨m, hm, hd⟩)

/-- One unit has one more input, from a new producer; nothing else about the wiring is new. -/
structure Gained (r : Run σ) (unit : UnitId) (r' : Run σ) : Prop where
  known : unit ∈ r.units.map (·.id)
  units : List.Forall₂ (fun u v => v.id = u.id ∧ v.setup = u.setup ∧
    v.border.outputs = u.border.outputs ∧ v.border.inputs = u.border.inputs ++
      if u.id = unit then [⟨⟨outside, u.border.inputs.length⟩, r.net.links.length, false⟩] else [])
    r.units r'.units
  links : r'.net.links.length = r.net.links.length + 1
  producers : r'.producers = r.producers ++ [{ unit, channel := r.net.links.length }]

theorem Rigged.gained (h : r.Rigged) {i : Nat} {u : RunUnit σ} (hu : r.units[i]? = some u) :
    r.Gained u.id (r.attachProducer i u.id) := by
  refine ⟨List.mem_map_of_mem (List.mem_of_getElem? hu), ?_, ?_, rfl⟩
  · have hunits : (r.attachProducer i u.id).units =
      r.units.modify i (RunUnit.inject r.net.links.length) := rfl
    rw [hunits]
    refine List.forall₂_iff_get.mpr ⟨by simp, fun k hk hk' => ?_⟩
    simp only [List.get_eq_getElem, List.getElem_modify]
    have hat := List.getElem?_eq_getElem (l := r.units) hk
    split
    · subst i
      obtain rfl : r.units[k] = u := Option.some.inj (hat.symm.trans hu)
      exact ⟨rfl, rfl, rfl, by simp [RunUnit.inject, Border.addInput]⟩
    · rename_i hne
      have hother : r.units[k].id ≠ u.id := fun heq =>
        hne (List.eq_of_key_eq h.listed.nodup hu hat heq.symm)
      exact ⟨rfl, rfl, rfl, by simp [hother]⟩
  · simp [attachProducer, Net.addLink]

theorem Rigged.checkInjection_known (h : r.phase = .prepared → r.Rigged) {unit : UnitId}
    {e : RunError} (he : r.checkInjection unit = .error e) (c : Error) : e ≠ .core c := by
  rintro rfl
  unfold checkInjection expect at he
  by_cases hp : r.phase = .prepared
  · rw [if_pos hp] at he
    cases hi : indexOf? r.units unit with
    | none =>
      simp only [hi, bind, Except.bind, throw, throwThe, MonadExceptOf.throw] at he
      cases he
    | some i =>
      obtain ⟨u, hu, rfl⟩ := indexOf?_eq_some hi
      have hmem := ((h hp).listed.mem u.id).mp (List.mem_map_of_mem (List.mem_of_getElem? hu))
      obtain ⟨spec, hspec⟩ := Graph.step_of_mem (Graph.mem_stepNames_of_mem_copies hmem)
      simp only [hi, hspec, Except.mapError, pure, Except.pure, bind, Except.bind, throw, throwThe,
        MonadExceptOf.throw] at he
      split at he
      · cases he
      · split at he <;> cases he
  · rw [if_neg hp] at he
    cases he

theorem prepare_phase (h : r.prepare.1 = .ok ()) : r.prepare.2.phase = .prepared := by
  unfold prepare at h ⊢
  cases hexp : r.expect .prepare .new with
  | error e => simp [hexp] at h
  | ok =>
    simp only [hexp] at h ⊢
    cases hw : r.wire with
    | error e => simp [hw] at h
    | ok p =>
      simp only [hw] at h ⊢
      have hset := r.setUp_cases p.1 p.2
      generalize r.setUp p.1 p.2 = outcome at hset h
      cases hset with
      | done => rfl
      | panicked | failed | unwound => cases h

theorem wired_after (registry : Registry σ) (settings : Settings) (g : Graph) (armed : List String)
    (ds : List Deed) :
    let r := (Run.new registry settings g armed).after ds
    r.phase = .prepared ∨ r.phase = .running → r.Wired := by
  intro r hphase
  have hconveyed : r.Orderly ∧ r.Begun Rigged :=
    conveyed_after (fun _ => Rigged) (fun _ d => rigged_conveys _ d) ds
  obtain ⟨-, hb⟩ := hconveyed
  cases hb with
  | blank phase => rcases hphase with h | h <;> exact absurd (phase.symm.trans h) (by decide)
  | shelved phase => rcases hphase with h | h <;> exact absurd (phase.symm.trans h) (by decide)
  | afoot afoot holds =>
    obtain ⟨writer, hs⟩ := afoot.sound
    exact holds.wired hs afoot.wakeup afoot.wakeups

/-- A graph that passes gives a run the channels it calls for, whether or not its steps can be set
up after that. Another producer brings one more channel and one more input. Nothing but the
settings, the graph and the steps can keep a run from being prepared. -/
theorem wired_as_declared (registry : Registry σ) (settings : Settings) (g : Graph)
    (armed : List String) (ds : List Deed) :
    let r := (Run.new registry settings g armed).after ds
    (r.phase = .new → settings.check = .ok () → ∀ plan, Plan.ofGraph registry g = .ok plan →
      ∃ w, r.wire = .ok (plan, w) ∧ (r.lay w).Wired) ∧
    (r.phase = .prepared ∨ r.phase = .running → r.Wired) ∧
    (match r.prepare with
      | (.ok (), r') => r'.Wired
      | (.error e, _) => r.phase = .new → r.Unprepared e) ∧
    ∀ unit, match r.addProducer unit with
      | (.ok k, r') => k = r.producers.length ∧ r.Gained unit r' ∧ r'.Wired
      | (.error e, r') => r' = r ∧ ∀ c, e ≠ .core c := by
  intro r
  have hwired (d : Deed) : (r.act d).phase = .prepared → (r.act d).Wired := fun hp => by
    have h := wired_after registry settings g armed (ds ++ [d])
    rw [after_append] at h
    exact h (.inl hp)
  obtain ⟨hgraph, hsettings, hregistry, -⟩ : r.graph = g ∧ r.settings = settings ∧
    r.registry = registry ∧ r.armed = armed := given_after (Run.new registry settings g armed) ds
  have hnow := wired_after registry settings g armed ds
  have hblank : r.phase = .new → r.Blank := (begun_always registry settings g armed ds).1.blank
  refine ⟨fun hp hs plan hplan => ?_, hnow, ?_, fun unit => ?_⟩
  · obtain ⟨w, hw, -⟩ := (hblank hp).wire_total (by rw [hsettings, hs])
      (by rw [hregistry, hgraph, hplan])
    exact ⟨w, hw, (hblank hp).laid hw⟩
  · split
    · rename_i r' h
      have hprepared := hwired .prepare
      have hphase := prepare_phase (congrArg Prod.fst h)
      simp only [act, h] at hprepared hphase
      exact hprepared hphase
    · rename_i e r' h
      exact fun hp => (hblank hp).unprepared hp (by rw [h])
  · cases h : r.checkInjection unit with
    | error e =>
      simp only [addProducer, h]
      exact ⟨trivial, Rigged.checkInjection_known (fun hp => (hnow (.inl hp)).toRigged) h⟩
    | ok i =>
      obtain ⟨hp, hi, -⟩ := checkInjection_eq_ok h
      obtain ⟨u, hu, rfl⟩ := indexOf?_eq_some hi
      have hadded := hwired (.addProducer u.id)
      simp only [act, addProducer, h] at hadded ⊢
      exact ⟨trivial, (hnow (.inl hp)).gained hu, hadded hp⟩

/-- Two copies paired with two, and those two joined in one. -/
def funnel : Graph where
  name := "funnel"
  steps := [{ name := "a", type := "dummy", copies := 2 },
    { name := "b", type := "dummy", copies := 2 }, { name := "c", type := "dummy" }]
  hops := [⟨"a", "b", true⟩, ⟨"b", "c", true⟩]

theorem funnel_wired :
    let r := (Run.new Catalog.builtins {} funnel []).after [.prepare, .addProducer ⟨"a", 1⟩]
    r.Wired ∧ r.wires.map (fun w => (w.source, w.target.format)) =
      [("a.0", "b.0"), ("a.1", "b.1"), ("b.0", "c.0"), ("b.1", "c.0"), ("producer", "a.1")] := by
  intro r
  obtain ⟨hphase, hwires⟩ : r.phase = .prepared ∧
      r.wires.map (fun w => (w.source, w.target.format)) =
        [("a.0", "b.0"), ("a.1", "b.1"), ("b.0", "c.0"), ("b.1", "c.0"), ("producer", "a.1")] := by
    decide +kernel
  exact ⟨(wired_as_declared Catalog.builtins {} funnel [] _).2.1 (.inl hphase), hwires⟩

end Run

end Sluice
