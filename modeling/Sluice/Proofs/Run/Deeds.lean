import Sluice.Proofs.Net.Ledger
import Sluice.Proofs.Run.Ending
import Sluice.Proofs.Run.Tally
import Sluice.Proofs.Run.Wiring

/-!
All that one deed can do to a run. What holds at first and is kept by every deed holds after any
history.
-/

namespace Sluice

variable {σ : Type}

/-- No step of these types panics when it is disposed of. -/
def Registry.Calm (registry : Registry σ) : Prop :=
  ∀ t ∈ registry.types, ∀ m, t.behaviour.dispose m = .ok ()

/-- Nor when it is set up. -/
structure Registry.Composed (registry : Registry σ) : Prop where
  init : ∀ t ∈ registry.types, ∀ setup payload, t.behaviour.init setup ≠ .error (.panic payload)
  calm : registry.Calm

namespace RunUnit

/-- Never started, and not to be started any more. -/
structure Shelved (u : RunUnit σ) : Prop where
  stage : u.stage = .unstarted
  life : u.life.ended = none ∧ u.life.state.isEnd = false
  inputs : ∀ inlet ∈ u.border.inputs, inlet.finished = false
  tallied : u.Tallied

theorem Shelved.outcome {u : RunUnit σ} (h : u.Shelved) : u.life.outcome.isEnd = false := by
  simpa [Lifecycle.outcome, h.life.1] using h.life.2

theorem Fresh.tallied {u : RunUnit σ} (h : u.Fresh) : u.Tallied := by
  simp [Tallied, Counters.Tallied, h.counters]

theorem Fresh.shelved {u : RunUnit σ} (h : u.Fresh) : u.Shelved :=
  ⟨h.stage, by simp [h.life, UnitState.isEnd], h.inputs, h.tallied⟩

def Initiated (registry : Registry σ) (u u' : RunUnit σ) : Prop :=
  ∃ t m, registry.find? u.setup.spec.type = some t ∧ t.behaviour.init u.setup = .ok m ∧
    u' = { u with life := u.life.advance .initialized, step := some (t.behaviour, m) }

def listen (u : RunUnit σ) : RunUnit σ :=
  { u with border := u.border.addListener }

theorem advance_unended {l : Lifecycle} (h : l.ended = none ∧ l.state.isEnd = false)
    {s : UnitState} (hs : s.isEnd = false) :
    (l.advance s).ended = none ∧ (l.advance s).state.isEnd = false := by
  obtain ⟨state, ended⟩ := l
  obtain rfl : ended = none := h.1
  cases hc : state.canMoveTo s with
  | false => simpa [Lifecycle.advance, Lifecycle.advance?, hc] using h.2
  | true => simp [Lifecycle.advance, Lifecycle.advance?, hc, hs]

variable {u : RunUnit σ}

theorem Shelved.record (h : u.Shelved) (message : String) : (RunUnit.record u message).Shelved :=
  ⟨h.stage, h.life, h.inputs, h.tallied.record message⟩

theorem Shelved.emptied (h : u.Shelved) : Shelved { u with step := none } :=
  ⟨h.stage, h.life, h.inputs, h.tallied⟩

theorem Shelved.advance (h : u.Shelved) {s : UnitState} (hs : s.isEnd = false) :
    Shelved { u with life := u.life.advance s } :=
  ⟨h.stage, advance_unended h.life hs, h.inputs, h.tallied⟩

end RunUnit

namespace Initiation

variable {registry : Registry σ} {units : List (RunUnit σ)}

theorem ofUnits_initiated (h : (ofUnits registry units).failure = none) :
    List.Forall₂ (RunUnit.Initiated registry) units (ofUnits registry units).units := by
  induction units with
  | nil => exact .nil
  | cons u rest ih =>
    unfold ofUnits at h ⊢
    cases ht : registry.find? u.setup.spec.type with
    | none => simp [ht] at h
    | some t =>
      cases hm : t.behaviour.init u.setup with
      | error halt => cases halt <;> simp [ht, hm] at h
      | ok m =>
        simp only [ht, hm] at h ⊢
        exact .cons ⟨t, m, ht, hm, rfl⟩ (ih h)

theorem ofUnits_shelved (h : ∀ u ∈ units, u.Shelved) :
    ∀ u ∈ (ofUnits registry units).units, u.Shelved := by
  induction units with
  | nil => simp [ofUnits]
  | cons u rest ih =>
    obtain ⟨hu, hrest⟩ := List.forall_mem_cons.mp h
    unfold ofUnits
    split
    · exact h
    · split
      · exact List.forall_mem_cons.mpr ⟨hu.record _, hrest⟩
      · exact h
      · exact List.forall_mem_cons.mpr
          ⟨⟨hu.stage, RunUnit.advance_unended hu.life rfl, hu.inputs, hu.tallied⟩, ih hrest⟩

end Initiation

theorem Disposal.ofUnits_shelved {units : List (RunUnit σ)} (h : ∀ u ∈ units, u.Shelved) :
    ∀ u ∈ (ofUnits units).units, u.Shelved := by
  induction units with
  | nil => simp [ofUnits]
  | cons u rest ih =>
    obtain ⟨hu, hrest⟩ := List.forall_mem_cons.mp h
    unfold ofUnits
    split
    · exact List.forall_mem_cons.mpr ⟨hu, ih hrest⟩
    · dsimp only
      split
      · exact List.forall_mem_cons.mpr ⟨hu.emptied, hrest⟩
      · exact List.forall_mem_cons.mpr ⟨hu.emptied.advance rfl, ih hrest⟩

namespace Run

/-- All that a deed can come to. -/
inductive Acted (r : Run σ) : Deed → Run σ → Prop
  | idle {d : Deed} : Acted r d r
  | spoiled (phase : r.phase = .new) : Acted r .prepare { r with phase := .finished }
  /-- A step panicked, and preparing the run did not get to an end. -/
  | unwound {calls : List Event} (phase : r.phase = .new) : Acted r .prepare { r with calls }
  | shelved {plan : Plan} {w : Wiring σ} {units : List (RunUnit σ)} {calls : List Event}
      (phase : r.phase = .new) (wired : r.wire = .ok (plan, w))
      (units_shelved : (∀ u ∈ w.units, u.Shelved) → ∀ u ∈ units, u.Shelved) :
      Acted r .prepare { r with phase := .finished, units, net := w.net, calls }
  | prepared {plan : Plan} {w : Wiring σ} {units : List (RunUnit σ)} {calls : List Event}
      (phase : r.phase = .new) (wired : r.wire = .ok (plan, w))
      (initiated : List.Forall₂ (RunUnit.Initiated r.registry) w.units units) :
      Acted r .prepare { r with
        phase := .prepared, plan := some plan, units, wires := w.wires, net := w.net, calls }
  | fed {i : Nat} {u : RunUnit σ} {spec : StepSpec} (phase : r.phase = .prepared)
      (slot : indexOf? r.units u.id = some i) (at_i : r.units[i]? = some u)
      (unfed : r.graph.inputHops u.id.step = [])
      (known : r.graph.step u.id.step = .ok spec)
      (takes : (r.registry.find? spec.type).bind (·.maxInputs) ≠ some 0) :
      Acted r (.addProducer u.id) (r.attachProducer i u.id)
  | observed {i : Nat} {unit : UnitId} (phase : r.phase = .prepared) :
      Acted r (.addObserver unit) { r with units := r.units.modify i RunUnit.listen }
  | started {id : List UInt8} {now : Nat} {manifest : Option Manifest}
      (phase : r.phase = .prepared) :
      Acted r (.start id now)
        { r with phase := .running, manifest, units := r.units.map RunUnit.spawn }
  | offered {k : Nat} {rows : List (Except Error Row)} : Acted r (.offer k rows) (r.offer k rows)
  | finishing {k : Nat} : Acted r (.finish k) (r.finishProducer k)
  | stopped : Acted r .stop r.requestStop
  | waited {now : Nat} (phase : r.phase = .running) (idle : r.unitsIdle = true) :
      Acted r (.wait now)
        { r with phase := .finished, report := some (r.summarize now), manifest := none }
  | moved {party : Party} {t : Touch} {r' : Run σ} (stepped : r.Stepped party t r') :
      Acted r (.move party) r'

variable {r : Run σ}

/-- Before it is prepared a run has neither units nor channels. -/
structure Blank (r : Run σ) : Prop where
  units : r.units = []
  producers : r.producers = []
  links : r.net.links = []
  wakeups : r.net.wakeups = []

theorem wire_eq_ok {plan : Plan} {w : Wiring σ} (h : r.wire = .ok (plan, w)) :
    r.settings.check = .ok () ∧ Plan.ofGraph r.registry r.graph = .ok plan ∧
      Wiring.ofPlan r.settings r.graph plan r.net = .ok w := by
  unfold wire at h
  obtain ⟨⟨⟩, hsettings, h⟩ := Except.bind_eq_ok.mp h
  replace h := Except.bind_eq_ok.mp h
  obtain ⟨plan', hplan, h⟩ := h
  replace h := Except.bind_eq_ok.mp h
  obtain ⟨w', hwiring, h⟩ := h
  obtain ⟨rfl, rfl⟩ := Prod.mk.inj (Except.ok.inj h)
  exact ⟨Except.mapError_eq_ok.mp hsettings, Except.mapError_eq_ok.mp hplan, hwiring⟩

theorem Blank.wired {plan : Plan} {w : Wiring σ} (h : r.Blank) (hw : r.wire = .ok (plan, w)) :
    plan.Valid r.registry r.graph ∧ w.Charted r.graph ∧
      w.ids = plan.topology.order.flatMap r.graph.copies ∧ w.net.stopping = r.net.stopping := by
  obtain ⟨-, hplan, hwiring⟩ := wire_eq_ok hw
  have hvalid := Plan.ofGraph_valid hplan
  obtain ⟨hn, hlegal⟩ := hvalid.ordered
  obtain ⟨hcharted, hids⟩ :=
    Wiring.ofPlan_charted h.links h.wakeups hn hlegal hvalid.hops hvalid.copies hwiring
  exact ⟨hvalid, hcharted, hids, Wiring.ofPlan_stopping hwiring⟩

theorem expect_eq_ok {op : Operation} {phase : Phase} (h : r.expect op phase = .ok ()) :
    r.phase = phase := by
  unfold expect at h
  split at h
  · assumption
  · cases h

inductive SettingUp (r : Run σ) (plan : Plan) (w : Wiring σ) : Except RunError Unit × Run σ → Prop
  | done {units : List (RunUnit σ)} {made : List Event}
      (initiation : Initiation.ofUnits r.registry w.units = ⟨units, none, made⟩) :
      SettingUp r plan w (.ok (), { r with
        phase := .prepared
        plan := some plan
        units
        wires := w.wires
        net := w.net
        calls := made.reverse ++ r.calls })
  | panicked {units : List (RunUnit σ)} {made : List Event} {payload : Option String}
      (initiation : Initiation.ofUnits r.registry w.units = ⟨units, some (.panicked payload), made⟩) :
      SettingUp r plan w (.error (.panicked payload), { r with calls := made.reverse ++ r.calls })
  | failed {units units' : List (RunUnit σ)} {made gone : List Event} {e : RunError}
      (initiation : Initiation.ofUnits r.registry w.units = ⟨units, some e, made⟩)
      (no_panic : ∀ payload, e ≠ .panicked payload)
      (disposal : Disposal.ofUnits units = ⟨units', gone, none⟩) :
      SettingUp r plan w (.error e, { r with
        phase := .finished
        units := units'
        net := w.net
        calls := gone.reverse ++ (made.reverse ++ r.calls) })
  | unwound {units units' : List (RunUnit σ)} {made gone : List Event} {e : RunError}
      {payload : Option String}
      (initiation : Initiation.ofUnits r.registry w.units = ⟨units, some e, made⟩)
      (no_panic : ∀ payload, e ≠ .panicked payload)
      (disposal : Disposal.ofUnits units = ⟨units', gone, some payload⟩) :
      SettingUp r plan w
        (.error (.panicked payload), { r with calls := gone.reverse ++ (made.reverse ++ r.calls) })

theorem setUp_cases (r : Run σ) (plan : Plan) (w : Wiring σ) :
    r.SettingUp plan w (r.setUp plan w) := by
  unfold setUp
  rcases hi : Initiation.ofUnits r.registry w.units with ⟨units, failure, made⟩
  rcases hd : Disposal.ofUnits units with ⟨units', gone, panic⟩
  dsimp only
  split
  · exact .done hi
  · exact .panicked hi
  · rename_i hno
    rw [hd]
    cases panic with
    | none => exact .failed hi hno hd
    | some payload => exact .unwound hi hno hd

theorem prepare_acted (r : Run σ) : r.Acted .prepare r.prepare.2 := by
  unfold prepare
  split
  · exact .idle
  · rename_i hphase
    have hphase := expect_eq_ok hphase
    split
    · exact .spoiled hphase
    · rename_i plan w hw
      have hset := r.setUp_cases plan w
      generalize r.setUp plan w = outcome at hset
      cases hset with
      | done initiation =>
        have hunits := Initiation.ofUnits_initiated (congrArg Initiation.failure initiation)
        exact .prepared hphase hw (by simpa only [initiation] using hunits)
      | failed initiation _ disposal =>
        refine .shelved hphase hw fun h => ?_
        have hshelved : ∀ u ∈ (Initiation.ofUnits r.registry w.units).units, u.Shelved :=
          Initiation.ofUnits_shelved h
        simpa only [initiation, disposal] using Disposal.ofUnits_shelved hshelved
      | panicked | unwound => exact .unwound hphase

theorem checkInjection_eq_ok {unit : UnitId} {i : Nat} (h : r.checkInjection unit = .ok i) :
    r.phase = .prepared ∧ indexOf? r.units unit = some i ∧ r.graph.inputHops unit.step = [] ∧
      ∃ spec, r.graph.step unit.step = .ok spec ∧
        (r.registry.find? spec.type).bind (·.maxInputs) ≠ some 0 := by
  unfold checkInjection at h
  replace h := Except.bind_eq_ok.mp h
  obtain ⟨⟨⟩, hphase, h⟩ := h
  replace hphase := expect_eq_ok hphase
  cases hi : indexOf? r.units unit with
  | none => simp [hi, throw, throwThe, MonadExceptOf.throw] at h
  | some i' =>
    simp only [hi, pure, Except.pure, bind, Except.bind, throw, throwThe, MonadExceptOf.throw] at h
    split at h
    · cases h
    rename_i hfed
    cases hs : r.graph.step unit.step with
    | error e => simp [hs, Except.mapError] at h
    | ok spec =>
      simp only [hs, Except.mapError] at h
      split at h
      · cases h
      rename_i htakes
      cases h
      exact ⟨hphase, rfl, by simpa using hfed, spec, rfl, htakes⟩

theorem addProducer_acted (r : Run σ) (unit : UnitId) :
    r.Acted (.addProducer unit) (r.addProducer unit).2 := by
  unfold addProducer
  cases h : r.checkInjection unit with
  | error e => exact .idle
  | ok i =>
    obtain ⟨hphase, hi, hfed, spec, hs, htakes⟩ := checkInjection_eq_ok h
    obtain ⟨u, hu, rfl⟩ := indexOf?_eq_some hi
    exact .fed hphase hi hu hfed hs htakes

theorem addObserver_acted (r : Run σ) (unit : UnitId) :
    r.Acted (.addObserver unit) (r.addObserver unit).2 := by
  unfold addObserver
  split
  · exact .idle
  · rename_i hphase
    split
    · exact .idle
    · exact .observed (expect_eq_ok hphase)

theorem start_eq (r : Run σ) (id : List UInt8) (now : Nat) : r.start id now =
    match r.expect .start .prepared with
    | .error e => (.error e, r)
    | .ok () => (.ok (), { r with
        phase := .running
        manifest := some { Manifest.new id r.graph.name r.graph.digest now with
          units := r.units.length, channels := r.wires.length }
        units := r.units.map RunUnit.spawn }) := by
  have hgranted (u : RunUnit σ) : u.refusal (fun _ => none) = none := by simp [RunUnit.refusal]
  unfold start launch
  cases r.expect .start .prepared with
  | error e => rfl
  | ok => simp [RunUnit.launch, hgranted, List.filterMap_map, Function.comp_def]

theorem start_acted (r : Run σ) (id : List UInt8) (now : Nat) :
    r.Acted (.start id now) (r.start id now).2 := by
  rw [start_eq]
  split
  · exact .idle
  · rename_i hphase
    exact .started (expect_eq_ok hphase)

theorem wait_acted (r : Run σ) (now : Nat) :
    r.Acted (.wait now) (((r.wait now).map (·.2)).getD r) := by
  unfold wait
  split
  · rename_i hphase
    split
    · exact .waited hphase ‹_›
    · exact .idle
  · split <;> exact .idle
  · exact .idle

theorem act_acted (r : Run σ) (d : Deed) : r.Acted d (r.act d) := by
  cases d with
  | prepare => exact r.prepare_acted
  | addProducer unit => exact r.addProducer_acted unit
  | addObserver unit => exact r.addObserver_acted unit
  | start id now => exact r.start_acted id now
  | offer k rows => exact .offered
  | finish k => exact .finishing
  | stop => exact .stopped
  | wait now => exact r.wait_acted now
  | move party =>
    cases h : r.move party with
    | none =>
      rw [act, h]
      exact .idle
    | some r' =>
      obtain ⟨t, ht⟩ := move_stepped h
      rw [act, h]
      exact .moved ht

theorem after_append (r : Run σ) (ds es : List Deed) : r.after (ds ++ es) = (r.after ds).after es :=
  List.foldl_append

theorem Acted.given {r r' : Run σ} {d : Deed} (h : r.Acted d r') : r'.graph = r.graph ∧
    r'.settings = r.settings ∧ r'.registry = r.registry ∧ r'.armed = r.armed := by
  cases h with
  | moved stepped => cases stepped <;> exact ⟨rfl, rfl, rfl, rfl⟩
  | _ => exact ⟨rfl, rfl, rfl, rfl⟩

theorem given_after (r : Run σ) (ds : List Deed) : (r.after ds).graph = r.graph ∧
    (r.after ds).settings = r.settings ∧ (r.after ds).registry = r.registry ∧
      (r.after ds).armed = r.armed := by
  induction ds generalizing r with
  | nil => exact ⟨rfl, rfl, rfl, rfl⟩
  | cons d ds ih =>
    obtain ⟨hgraph, hsettings, hregistry, harmed⟩ := ih (r.act d)
    obtain ⟨hg, hs, hr, ha⟩ := (r.act_acted d).given
    exact ⟨hgraph.trans hg, hsettings.trans hs, hregistry.trans hr, harmed.trans ha⟩

theorem graph_after (r : Run σ) (ds : List Deed) : (r.after ds).graph = r.graph :=
  (r.given_after ds).1

theorem Acted.new {r r' : Run σ} {d : Deed} (h : r.Acted d r') (hp : r'.phase = .new) :
    r.phase = .new := by
  cases h with
  | moved stepped => cases stepped <;> exact hp
  | fed phase => exact absurd (phase.symm.trans hp) (by simp)
  | observed phase => exact absurd (phase.symm.trans hp) (by simp)
  | idle | unwound | offered | finishing | stopped => exact hp
  | spoiled | shelved | prepared | started | waited => cases hp

theorem carried_append (r : Run σ) (c : Nat) (ds es : List Deed) :
    r.carried c (ds ++ es) = r.carried c ds ++ (r.after ds).carried c es := by
  induction ds generalizing r with
  | nil => rfl
  | cons d ds ih =>
    rw [List.cons_append, carried, carried, ih, List.append_assoc]
    rfl

end Run

end Sluice
