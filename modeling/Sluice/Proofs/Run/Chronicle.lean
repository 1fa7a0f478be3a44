import Sluice.Proofs.Run.Installing
import Sluice.Proofs.Step.Catalog

/-!
The calls of the steps of a run, whatever happens to it. A step is set up once; if that succeeds
batches follow, and after the last one it is disposed of once. One that cannot be set up, or is not
tried, is not disposed of.
-/

namespace Sluice

variable {σ : Type}

/-- With the step disposed of and end states to take. -/
def Stage.left : Stage σ → Bool
  | .leaving _ | .ended => true
  | _ => false

namespace RunUnit

/-- The unit has its step, which is of a registered type. -/
def Holds (u : RunUnit σ) (registry : Registry σ) : Prop :=
  ∃ t ∈ registry.types, ∃ m, u.step = some (t.behaviour, m)

theorem Holds.isSome {u : RunUnit σ} {registry : Registry σ} (h : u.Holds registry) :
    u.step.isSome := by
  obtain ⟨t, -, m, hs⟩ := h
  simp [hs]

theorem Holds.same {u v : RunUnit σ} {registry : Registry σ} (h : u.Holds registry)
    (hv : v.step.map (·.1) = u.step.map (·.1)) : v.Holds registry := by
  obtain ⟨t, ht, m, hs⟩ := h
  rw [hs, Option.map_some, Option.map_eq_some_iff] at hv
  obtain ⟨⟨_, m'⟩, hs', rfl⟩ := hv
  exact ⟨t, ht, m', hs'⟩

/-- The calls so far, by how far the unit is with its step. -/
inductive Chronicled (u : RunUnit σ) (registry : Registry σ) : List Event → Prop
  | uncalled (step : u.step = none) (stage : u.stage = .unstarted) : Chronicled u registry []
  | refused (step : u.step = none) (stage : u.stage = .unstarted) (unable : ¬ u.Able registry) :
      Chronicled u registry [.init u.id]
  | held (n : Nat) (step : u.Holds registry) (stage : u.stage.left = false)
      (able : u.Able registry) : Chronicled u registry (.init u.id :: List.replicate n (.batch u.id))
  | disposed (n : Nat) (step : u.step = none)
      (stage : u.stage = .unstarted ∨ u.stage.left = true) (able : u.Able registry) :
      Chronicled u registry (.init u.id :: (List.replicate n (.batch u.id) ++ [.dispose u.id]))

/-- As far with its step as before. -/
structure Even (u v : RunUnit σ) : Prop where
  id : v.id = u.id
  setup : v.setup = u.setup
  stage : v.stage = u.stage
  step : v.step = u.step

theorem even_self (u : RunUnit σ) : u.Even u :=
  ⟨rfl, rfl, rfl, rfl⟩

theorem Chronicled.even {u v : RunUnit σ} {registry : Registry σ} {calls : List Event}
    (h : u.Chronicled registry calls) (he : u.Even v) : v.Chronicled registry calls := by
  have hable : v.Able registry ↔ u.Able registry := by rw [Able, Able, he.setup]
  cases h with
  | uncalled step stage => exact .uncalled (he.step ▸ step) (he.stage ▸ stage)
  | refused step stage unable =>
    rw [← he.id]
    exact .refused (he.step ▸ step) (he.stage ▸ stage) (mt hable.mp unable)
  | held n step stage able =>
    rw [← he.id]
    exact .held n (step.same (by rw [he.step])) (he.stage ▸ stage) (hable.mpr able)
  | disposed n step stage able =>
    rw [← he.id]
    exact .disposed n (he.step ▸ step) (he.stage ▸ stage) (hable.mpr able)

variable {u : RunUnit σ} {m : UnitMove σ} {net : Net} {armed : List String}

theorem Judged.held {v : RunUnit σ} {r : Except Halt BatchOutcome} (h : u.Judged r v) :
    v.step = u.step ∧ v.stage.left = false := by
  cases h <;> exact ⟨rfl, rfl⟩

theorem check_calls (u : RunUnit σ) (net : Net) (armed : List String) :
    (u.check net armed).unit.step = u.step ∧ (u.check net armed).unit.stage.left = false ∧
      ((u.check net armed).event = none ∨ (u.check net armed).event = some (.batch u.id)) := by
  unfold check
  split
  · exact ⟨rfl, rfl, .inl rfl⟩
  · split
    · exact ⟨rfl, rfl, .inl rfl⟩
    · split
      · exact ⟨rfl, rfl, .inl rfl⟩
      · exact ⟨rfl, rfl, .inr rfl⟩

theorem work_held (u : RunUnit σ) (net : Net) (task : BatchTask σ) :
    (u.work net task).step.map (·.1) = u.step.map (·.1) ∧ (u.work net task).stage.left = false := by
  cases task with
  | done a =>
    obtain ⟨hstep, hstage⟩ :=
      (afterBatch_judged { u with step := u.step.map fun s => (s.1, a.2) } a.1).held
    exact ⟨by rw [work, hstep, Option.map_map]; rfl, hstage⟩
  | read | write | stopping => exact ⟨rfl, rfl⟩
  | report fault next => exact ⟨rfl, rfl⟩

theorem disposeStep_calls (hstep : u.step.isSome) :
    u.disposeStep.1.step = none ∧ u.disposeStep.2 = some (.dispose u.id) := by
  obtain ⟨⟨b, memory⟩, hs⟩ := Option.isSome_iff_exists.mp hstep
  simp only [disposeStep, hs]
  split <;> exact ⟨rfl, rfl⟩

/-- While a unit holds its step it runs batches, until it disposes of the step and leaves. -/
theorem move_calls (h : u.move net armed = some m) (hstep : u.step.isSome)
    (hstage : u.stage.left = false) :
    m.unit.step.map (·.1) = u.step.map (·.1) ∧ m.unit.stage.left = false ∧
        (m.event = none ∨ m.event = some (.batch u.id)) ∨
      m.unit.step = none ∧ m.unit.stage.left = true ∧ m.event = some (.dispose u.id) := by
  have hquiet {v : RunUnit σ} {net' : Net} (hv : m = ⟨v, net', none⟩)
      (hsame : v.step.map (·.1) = u.step.map (·.1)) (hleft : v.stage.left = false) :
      m.unit.step.map (·.1) = u.step.map (·.1) ∧ m.unit.stage.left = false ∧
        (m.event = none ∨ m.event = some (.batch u.id)) := by
    subst hv
    exact ⟨hsame, hleft, .inl rfl⟩
  cases hs : u.stage with
  | unstarted | ended => simp [move, hs] at h
  | leaving states => simp [Stage.left, hs] at hstage
  | spawned =>
    cases hl : u.life.advance? .running <;> simp only [move, hs, hl, Option.some.injEq] at h
    · exact .inl (hquiet h.symm rfl rfl)
    · exact .inl (hquiet h.symm rfl rfl)
  | checking =>
    simp only [move, hs, Option.some.injEq] at h
    obtain ⟨hsame, hleft, hevent⟩ := u.check_calls net armed
    exact .inl (h ▸ ⟨congrArg _ hsame, hleft, hevent⟩)
  | working task =>
    simp only [move, hs, Option.some.injEq] at h
    obtain ⟨hsame, hleft⟩ := u.work_held net task
    exact .inl (hquiet h.symm hsame hleft)
  | reading call next =>
    cases hr : u.border.advanceRead net call <;> simp only [move, hs, hr, Option.some.injEq] at h
    · cases h
    · exact .inl (hquiet h.symm rfl rfl)
    · exact .inl (hquiet h.symm rfl rfl)
  | writing call next =>
    cases hr : u.border.advanceWrite net call <;> simp only [move, hs, hr, Option.some.injEq] at h
    · cases h
    · exact .inl (hquiet h.symm rfl rfl)
    · exact .inl (hquiet h.symm rfl rfl)
  | failing todo =>
    cases todo <;> simp only [move, hs, Option.some.injEq] at h
    · exact .inl (hquiet h.symm rfl rfl)
    · exact .inl (hquiet h.symm rfl rfl)
  | closing todo ending =>
    cases todo <;> simp only [move, hs, Option.some.injEq] at h
    · exact .inl (hquiet h.symm rfl rfl)
    · exact .inl (hquiet h.symm rfl rfl)
  | disposing ending =>
    simp only [move, hs, Option.some.injEq] at h
    obtain ⟨hnone, hevent⟩ := disposeStep_calls hstep
    exact .inr (h ▸ ⟨hnone, rfl, hevent⟩)

theorem move_left (h : u.move net armed = some m)
    (hstage : u.stage = .unstarted ∨ u.stage.left = true) :
    m.unit.step = u.step ∧ m.unit.stage.left = true ∧ m.event = none := by
  cases hs : u.stage with
  | unstarted | ended => simp [move, hs] at h
  | leaving states =>
    cases states <;> simp only [move, hs, Option.some.injEq] at h <;> exact h ▸ ⟨rfl, rfl, rfl⟩
  | _ => simp [hs, Stage.left] at hstage

theorem Chronicled.moved {registry : Registry σ} {calls : List Event}
    (hc : u.Chronicled registry calls) (h : u.move net armed = some m) :
    m.unit.Chronicled registry (calls ++ m.event.toList) ∧ ∀ e ∈ m.event, e.unit = u.id := by
  obtain ⟨t, hm, -⟩ := move_moved h
  have hid : m.unit.id = u.id := hm.ages.id
  have hsetup : m.unit.setup = u.setup := congrArg Station.setup hm.station
  have hable : m.unit.Able registry ↔ u.Able registry := by rw [Able, Able, hsetup]
  cases hc with
  | uncalled _ stage => simp [move, stage] at h
  | refused _ stage => simp [move, stage] at h
  | held n step stage able =>
    replace able := hable.mpr able
    obtain ⟨hsame, hleft, he | he⟩ | ⟨hnone, hleft, he⟩ := move_calls h step.isSome stage
    · rw [he, ← hid]
      exact ⟨by simpa using .held n (step.same hsame) hleft able, by simp⟩
    · rw [he, ← hid]
      refine ⟨?_, by simp [Event.unit]⟩
      simpa [List.replicate_succ'] using Chronicled.held (n + 1) (step.same hsame) hleft able
    · rw [he, ← hid]
      exact ⟨by simpa using .disposed n hnone (.inr hleft) able, by simp [Event.unit]⟩
  | disposed n step stage able =>
    obtain ⟨hsame, hleft, he⟩ := move_left h stage
    rw [he, ← hid]
    refine ⟨?_, by simp⟩
    simpa using Chronicled.disposed n (hsame.trans step) (.inr hleft) (hable.mpr able)

end RunUnit

section

variable {registry : Registry σ} {units units' : List (RunUnit σ)} {calls : List Event}

theorem filter_unit_self {events : List Event} {id : UnitId} (h : ∀ e ∈ events, e.unit = id) :
    events.filter (·.unit == id) = events :=
  List.filter_eq_self.mpr (by simpa using h)

theorem filter_unit_nil {events : List Event} {id : UnitId} (h : ∀ e ∈ events, e.unit ≠ id) :
    events.filter (·.unit == id) = [] :=
  List.filter_eq_nil_iff.mpr (by simpa using h)

/-- The calls of several units, the first one first. -/
structure Roll (registry : Registry σ) (units : List (RunUnit σ)) (calls : List Event) : Prop where
  ids : (units.map (·.id)).Nodup
  each : ∀ u ∈ units, u.Chronicled registry (calls.filter (·.unit == u.id))
  owned : ∀ e ∈ calls, e.unit ∈ units.map (·.id)

theorem Roll.uncalled (hids : (units.map (·.id)).Nodup)
    (h : ∀ u ∈ units, u.step = none ∧ u.stage = .unstarted) : Roll registry units [] :=
  ⟨hids, fun u hu => .uncalled (h u hu).1 (h u hu).2, by simp⟩

theorem Roll.cons (h : Roll registry units calls) {u : RunUnit σ} (hu : u.id ∉ units.map (·.id))
    {own : List Event} (hown : ∀ e ∈ own, e.unit = u.id) (hc : u.Chronicled registry own) :
    Roll registry (u :: units) (own ++ calls) := by
  have hothers : ∀ e ∈ calls, e.unit ≠ u.id := fun e he heq => hu (heq ▸ h.owned e he)
  refine ⟨List.nodup_cons.mpr ⟨hu, h.ids⟩, fun v hv => ?_, fun e he => ?_⟩
  · rw [List.filter_append]
    rcases List.mem_cons.mp hv with rfl | hv
    · rw [filter_unit_self hown, filter_unit_nil hothers, List.append_nil]
      exact hc
    · have hne : u.id ≠ v.id := fun heq => hu (heq ▸ List.mem_map_of_mem hv)
      rw [filter_unit_nil fun e he => hown e he ▸ hne]
      exact h.each v hv
  · rcases List.mem_append.mp he with he | he
    · simp [hown e he]
    · exact List.mem_cons_of_mem _ (h.owned e he)

theorem Roll.congr (h : Roll registry units calls)
    (hu : List.Forall₂ (fun u v : RunUnit σ =>
      v.id = u.id ∧ ∀ cs, u.Chronicled registry cs → v.Chronicled registry cs) units units') :
    Roll registry units' calls := by
  have hids : units'.map (·.id) = units.map (·.id) := by
    refine List.ext_getElem (by simpa using hu.length_eq.symm) fun k hk hk' => ?_
    simpa using (hu.get (by simpa using hk') (by simpa using hk)).1
  refine ⟨hids ▸ h.ids, fun v hv => ?_, hids ▸ h.owned⟩
  obtain ⟨i, hi⟩ := List.getElem?_of_mem hv
  obtain ⟨u, hi', hid, hc⟩ := List.forall₂_getElem? hu hi
  exact hid ▸ hc _ (h.each u (List.mem_of_getElem? hi'))

theorem Roll.moved (h : Roll registry units calls) {i : Nat} {u : RunUnit σ} {m : UnitMove σ}
    {net : Net} {armed : List String} (hi : units[i]? = some u) (hm : u.move net armed = some m) :
    Roll registry (units.set i m.unit) (calls ++ m.event.toList) := by
  have hu := List.mem_of_getElem? hi
  obtain ⟨hc, hown⟩ := (h.each u hu).moved hm
  replace hown : ∀ e ∈ m.event.toList, e.unit = u.id := by simpa using hown
  obtain ⟨t, hmoved, -⟩ := RunUnit.move_moved hm
  have hid := hmoved.ages.id
  have hids : (units.set i m.unit).map (·.id) = units.map (·.id) := List.map_set_of_eq hi hid
  refine ⟨hids ▸ h.ids, fun v hv => ?_, fun e he => ?_⟩
  · rw [List.filter_append]
    rcases List.mem_set_cases hv with rfl | ⟨k, hki, hk⟩
    · rw [hid, filter_unit_self hown]
      exact hc
    · have hne : u.id ≠ v.id := fun heq => hki (List.eq_of_key_eq h.ids hi hk heq).symm
      have hnone : m.event.toList.filter (·.unit == v.id) = [] :=
        filter_unit_nil fun e he => hown e he ▸ hne
      rw [hnone, List.append_nil]
      exact h.each v (List.mem_of_getElem? hk)
  · rw [hids]
    rcases List.mem_append.mp he with he | he
    · exact h.owned e he
    · exact hown e he ▸ List.mem_map_of_mem hu

theorem Initiation.ofUnits_composed (h : registry.Composed) {payload : Option String} :
    (ofUnits registry units).failure ≠ some (.panicked payload) := by
  induction units with
  | nil => simp [ofUnits]
  | cons u rest ih =>
    unfold ofUnits
    cases ht : registry.find? u.setup.spec.type with
    | none => simp
    | some t =>
      have hno := h.init t (List.mem_of_find?_eq_some ht) u.setup
      cases hm : t.behaviour.init u.setup with
      | error halt =>
        cases halt with
        | error e => simp [hm]
        | panic p => exact absurd hm (hno p)
      | ok m => simpa [hm] using ih

/-- Setting units up calls each step at most once, and no other after one that fails. -/
theorem Initiation.ofUnits_roll (hids : (units.map (·.id)).Nodup)
    (hunits : ∀ u ∈ units, u.step = none ∧ u.stage = .unstarted) :
    Roll registry (ofUnits registry units).units (ofUnits registry units).calls ∧
      (ofUnits registry units).units.map (·.id) = units.map (·.id) ∧
        ∀ u ∈ (ofUnits registry units).units, u.stage = .unstarted := by
  induction units with
  | nil => exact ⟨Roll.uncalled hids hunits, rfl, fun u hu => (hunits u hu).2⟩
  | cons u rest ih =>
    obtain ⟨⟨hstep, hstage⟩, hrest⟩ := List.forall_mem_cons.mp hunits
    obtain ⟨hnot, hids'⟩ := List.nodup_cons.mp hids
    unfold ofUnits
    cases ht : registry.find? u.setup.spec.type with
    | none => exact ⟨.uncalled hids hunits, rfl, fun v hv => (hunits v hv).2⟩
    | some t =>
      cases hm : t.behaviour.init u.setup with
      | error halt =>
        have hunable : ¬ u.Able registry := by
          rintro ⟨t', m, ht', hm'⟩
          rw [ht, Option.some.injEq] at ht'
          subst ht'
          simp [hm] at hm'
        have hstages : ∀ v ∈ rest, v.stage = .unstarted := fun v hv => (hrest v hv).2
        have hothers : Roll registry rest [] := .uncalled hids' hrest
        cases halt with
        | error e =>
          have hc : (u.record e.message).Chronicled registry [.init u.id] :=
            .refused hstep hstage hunable
          simp only [hm]
          exact ⟨hothers.cons (u := u.record e.message) hnot (by simp [Event.unit, RunUnit.id,
            RunUnit.record, Border.recordError]) hc, rfl, List.forall_mem_cons.mpr ⟨hstage, hstages⟩⟩
        | panic payload =>
          simp only [hm]
          exact ⟨hothers.cons hnot (by simp [Event.unit]) (.refused hstep hstage hunable), trivial,
            List.forall_mem_cons.mpr ⟨hstage, hstages⟩⟩
      | ok m =>
        obtain ⟨hroll, hsame, hstages⟩ := ih hids' hrest
        have hc : ({ u with life := u.life.advance .initialized, step := some (t.behaviour, m) } :
            RunUnit σ).Chronicled registry [.init u.id] :=
          .held 0 ⟨t, List.mem_of_find?_eq_some ht, m, rfl⟩ (by simp [Stage.left, hstage])
            ⟨t, m, ht, hm⟩
        simp only [hm]
        exact ⟨Roll.cons hroll (hsame ▸ hnot) (by simp [Event.unit, RunUnit.id]) hc,
          congrArg (u.id :: ·) hsame, List.forall_mem_cons.mpr ⟨hstage, hstages⟩⟩

theorem RunUnit.Chronicled.shelve {u : RunUnit σ} (h : u.Chronicled registry calls)
    (hstage : u.stage = .unstarted) :
    u.shelve.Chronicled registry (calls ++ u.disposal) ∧ ∀ e ∈ u.disposal, e.unit = u.id := by
  obtain ⟨hid, hstage', hsetup⟩ := u.shelve_same
  rcases hs : u.step with _ | s
  · simpa [RunUnit.shelve, RunUnit.disposal, hs] using h
  · have hstep : u.step.isSome := by simp [hs]
    have hable : u.shelve.Able registry ↔ u.Able registry := by
      rw [RunUnit.Able, RunUnit.Able, hsetup]
    rw [RunUnit.disposal, if_pos hstep]
    refine ⟨?_, by simp [Event.unit]⟩
    cases h with
    | uncalled step => simp [step] at hstep
    | refused step => simp [step] at hstep
    | disposed _ step => simp [step] at hstep
    | held n step stage able =>
      rw [← hid]
      exact .disposed n u.shelve_step (.inl (hstage'.trans hstage)) (hable.mpr able)

theorem Roll.yields (h : Roll registry units calls) (hcalm : registry.Calm) :
    ∀ u ∈ units, u.Yields := by
  intro u hu b m hs
  have hc := h.each u hu
  generalize calls.filter (·.unit == u.id) = own at hc
  cases hc with
  | uncalled step => simp [step] at hs
  | refused step => simp [step] at hs
  | disposed _ step => simp [step] at hs
  | held _ step =>
    obtain ⟨t, ht, m', hs'⟩ := step
    obtain ⟨rfl, -⟩ := Prod.mk.inj (Option.some.inj (hs'.symm.trans hs))
    exact hcalm t ht m

theorem filter_flatMap_own {f : RunUnit σ → List Event} (hids : (units.map (·.id)).Nodup)
    (hown : ∀ u ∈ units, ∀ e ∈ f u, e.unit = u.id) {u : RunUnit σ} (hu : u ∈ units) :
    (units.flatMap f).filter (·.unit == u.id) = f u := by
  induction units with
  | nil => cases hu
  | cons v rest ih =>
    obtain ⟨hnot, hids⟩ := List.nodup_cons.mp hids
    obtain ⟨hv, hrest⟩ := List.forall_mem_cons.mp hown
    rw [List.flatMap_cons, List.filter_append]
    rcases List.mem_cons.mp hu with rfl | hu
    · have hnone : (rest.flatMap f).filter (·.unit == u.id) = [] := filter_unit_nil fun e he heq => by
        obtain ⟨w, hw, he⟩ := List.mem_flatMap.mp he
        have hwu : w.id = u.id := (hrest w hw e he).symm.trans heq
        exact hnot (List.mem_map.mpr ⟨w, hw, hwu⟩)
      rw [filter_unit_self hv, hnone, List.append_nil]
    · have hne : v.id ≠ u.id := fun heq => hnot (List.mem_map.mpr ⟨u, hu, heq.symm⟩)
      have hnone : (f v).filter (·.unit == u.id) = [] := filter_unit_nil fun e he => hv e he ▸ hne
      rw [hnone, List.nil_append]
      exact ih hids hrest hu

theorem Roll.shelved (h : Roll registry units calls) (hstage : ∀ u ∈ units, u.stage = .unstarted) :
    Roll registry (units.map RunUnit.shelve) (calls ++ units.flatMap RunUnit.disposal) := by
  have hids : (units.map RunUnit.shelve).map (·.id) = units.map (·.id) := by
    simp [RunUnit.shelve_same]
  have hown : ∀ u ∈ units, ∀ e ∈ u.disposal, e.unit = u.id := fun u hu =>
    ((h.each u hu).shelve (hstage u hu)).2
  refine ⟨hids ▸ h.ids, fun v hv => ?_, fun e he => ?_⟩
  · obtain ⟨u, hu, rfl⟩ := List.mem_map.mp hv
    rw [List.filter_append, u.shelve_same.1, filter_flatMap_own h.ids hown hu]
    exact ((h.each u hu).shelve (hstage u hu)).1
  · rw [hids]
    rcases List.mem_append.mp he with he | he
    · exact h.owned e he
    · obtain ⟨u, hu, he⟩ := List.mem_flatMap.mp he
      exact hown u hu e he ▸ List.mem_map_of_mem hu

end

theorem Catalog.builtins_composed : builtins.Composed := by
  have hinit {σ : Type} (init : Except StepError σ) (wrap : σ → StepMemory) (payload : Option String) :
      (init.mapError Halt.error).map wrap ≠ .error (.panic payload) := by
    cases init <;> simp [Except.map, Except.mapError]
  constructor
  · intro t ht setup payload
    rw [builtins_types] at ht
    fin_cases ht
    · exact hinit (Abort.init setup) _ payload
    · exact hinit (Append.init setup) _ payload
    · exact nofun
    · exact hinit (Filter.init setup) _ payload
    · exact hinit (Generate.init setup) _ payload
    · exact nofun
    · exact hinit (Select.init setup) _ payload
  · intro t ht m
    rw [builtins_types] at ht
    fin_cases ht <;> rfl

namespace Run

variable {r r' : Run σ} {owned : Prop} {d : Deed}

/-- What is kept of the calls of a run, whether it still has an owner or not. -/
structure Chronicle (r : Run σ) (owned : Prop) : Prop where
  blank : r.phase = .new → r.units = [] ∧ r.calls = []
  roll : Roll r.registry r.units r.calls.reverse
  unstarted : r.phase = .prepared → ∀ u ∈ r.units, u.stage = .unstarted
  /-- Only a run that can be started has steps that wait for a thread. -/
  waiting : ∀ u ∈ r.units, u.stage = .unstarted → u.step.isSome → owned ∧ r.phase = .prepared

theorem chronicle_new (registry : Registry σ) (settings : Settings) (g : Graph)
    (armed : List String) : (Run.new registry settings g armed).Chronicle True :=
  ⟨fun _ => ⟨rfl, rfl⟩, .uncalled List.nodup_nil (by simp [Run.new]), by simp [Run.new],
    by simp [Run.new]⟩

/-- Preparing a run sets its units up, and disposes of them again when that fails. -/
theorem Chronicle.prepared (h : r.Chronicle owned) (hcomposed : r.registry.Composed)
    (horderly : r.Orderly) (ho : owned) : r.prepare.2.Chronicle owned := by
  unfold prepare
  split
  · exact h
  rename_i hphase
  replace hphase := expect_eq_ok hphase
  have hblank := horderly.blank hphase
  obtain ⟨hunits, hcalls⟩ := h.blank hphase
  split
  · exact ⟨by simp, h.roll, by simp, by simp [hunits]⟩
  rename_i plan w hw
  obtain ⟨hvalid, hcharted, hids, -⟩ := hblank.wired hw
  have hfresh := hcharted.laid.fresh
  have hnodup : (w.units.map (·.id)).Nodup := by
    rw [show w.units.map (·.id) = w.ids from rfl, hids]
    exact Wiring.nodup_copies hvalid.ordered.1
  obtain ⟨hroll, -, hstage⟩ := Initiation.ofUnits_roll hnodup
    fun u hu => ⟨(hfresh u hu).step, (hfresh u hu).stage⟩
  have hset := r.setUp_cases plan w
  generalize r.setUp plan w = outcome at hset
  cases hset with
  | done initiation =>
    rw [initiation] at hroll hstage
    exact ⟨by simp, by simpa [hcalls] using hroll, fun _ => hstage, fun _ _ _ _ => ⟨ho, rfl⟩⟩
  | panicked initiation =>
    exact absurd (congrArg Initiation.failure initiation) (Initiation.ofUnits_composed hcomposed)
  | failed initiation _ disposal =>
    rw [initiation] at hroll hstage
    rw [Disposal.ofUnits_yielding (hroll.yields hcomposed.calm)] at disposal
    obtain ⟨rfl, rfl, -⟩ := Disposal.mk.inj disposal
    refine ⟨by simp, ?_, by simp, fun v hv _ hstep => ?_⟩
    · simpa [hcalls] using hroll.shelved hstage
    · obtain ⟨u, -, rfl⟩ := List.mem_map.mp hv
      simp [u.shelve_step] at hstep
  | unwound initiation _ disposal =>
    rw [initiation] at hroll
    rw [Disposal.ofUnits_yielding (hroll.yields hcomposed.calm)] at disposal
    exact nomatch congrArg Disposal.panic disposal

theorem Chronicle.unit_moved (h : r.Chronicle owned) {i : Nat} (hm : r.moveUnit i = some r') :
    r'.Chronicle owned := by
  unfold moveUnit at hm
  obtain ⟨u, hu, hm⟩ := Option.bind_eq_some_iff.mp hm
  replace hm := Option.bind_eq_some_iff.mp hm
  obtain ⟨m, hmove, hm⟩ := hm
  simp only [Option.pure_def, Option.some.injEq] at hm
  obtain ⟨t, hmoved, -⟩ := RunUnit.move_moved hmove
  have hstarted : r.phase ≠ .prepared := fun hp =>
    hmoved.started (h.unstarted hp u (List.mem_of_getElem? hu))
  have hcalls : r'.calls = m.event.toList ++ r.calls := by
    subst hm
    cases m.event <;> rfl
  obtain ⟨hunits, hregistry, hphase⟩ : r'.units = r.units.set i m.unit ∧
      r'.registry = r.registry ∧ r'.phase = r.phase := by
    subst hm
    cases m.event <;> exact ⟨rfl, rfl, rfl⟩
  have hroll := h.roll.moved hu hmove
  refine ⟨fun hp => ?_, ?_, fun hp => absurd (hphase ▸ hp) hstarted, fun v hv hstage hstep => ?_⟩
  · simp [(h.blank (hphase ▸ hp)).1] at hu
  · rw [hunits, hregistry, hcalls, List.reverse_append]
    cases he : m.event <;> simpa [he] using hroll
  · rw [hunits] at hv
    rcases List.mem_or_eq_of_mem_set hv with hv | rfl
    · exact hphase ▸ h.waiting v hv hstage hstep
    · exact absurd hstage hmoved.step.1

theorem Chronicle.moved (h : r.Chronicle owned) {party : Party} (hm : r.move party = some r') :
    r'.Chronicle owned := by
  cases party with
  | unit i => exact h.unit_moved hm
  | producer k =>
    obtain ⟨t, stepped⟩ := move_stepped hm
    cases stepped
    exact ⟨h.blank, h.roll, h.unstarted, h.waiting⟩
  | stop k =>
    obtain ⟨t, stepped⟩ := move_stepped hm
    cases stepped
    exact ⟨h.blank, h.roll, h.unstarted, h.waiting⟩

theorem Chronicle.even (h : r.Chronicle owned) (hunits : List.Forall₂ RunUnit.Even r.units r'.units)
    (hregistry : r'.registry = r.registry) (hcalls : r'.calls = r.calls)
    (hphase : r'.phase = r.phase) : r'.Chronicle owned := by
  have hof {v : RunUnit σ} (hv : v ∈ r'.units) : ∃ u ∈ r.units, u.Even v := by
    obtain ⟨i, hi⟩ := List.getElem?_of_mem hv
    obtain ⟨u, hu, he⟩ := List.forall₂_getElem? hunits hi
    exact ⟨u, List.mem_of_getElem? hu, he⟩
  refine ⟨fun hp => ?_, ?_, fun hp v hv => ?_, fun v hv hstage hstep => ?_⟩
  · obtain ⟨hnone, hno⟩ := h.blank (hphase ▸ hp)
    rw [hnone] at hunits
    exact ⟨List.forall₂_nil_left_iff.mp hunits, hcalls.trans hno⟩
  · rw [hregistry, hcalls]
    exact h.roll.congr (hunits.imp fun u v he => ⟨he.id, fun _ hc => hc.even he⟩)
  · obtain ⟨u, hu, he⟩ := hof hv
    exact he.stage.trans (h.unstarted (hphase ▸ hp) u hu)
  · obtain ⟨u, hu, he⟩ := hof hv
    rw [hphase]
    exact h.waiting u hu (he.stage ▸ hstage) (he.step ▸ hstep)

theorem Chronicle.started (h : r.Chronicle owned) {manifest : Option Manifest} :
    Chronicle { r with phase := .running, manifest, units := r.units.map RunUnit.spawn } owned := by
  have hunits : List.Forall₂ (fun u v : RunUnit σ =>
      v.id = u.id ∧ ∀ cs, u.Chronicled r.registry cs → v.Chronicled r.registry cs)
      r.units (r.units.map RunUnit.spawn) := by
    refine List.forall₂_map_right_iff.mpr (List.forall₂_same.mpr fun u hu => ?_)
    unfold RunUnit.spawn
    split
    · rename_i hstep
      refine ⟨rfl, fun cs hc => ?_⟩
      cases hc with
      | uncalled step => simp [step] at hstep
      | refused step => simp [step] at hstep
      | disposed _ step => simp [step] at hstep
      | held n step stage able =>
        exact .held (u := { u with stage := .spawned }) n (step.same rfl) rfl able
    · exact ⟨rfl, fun _ hc => hc⟩
  refine ⟨by simp, h.roll.congr hunits, by simp, fun v hv hstage hstep => ?_⟩
  obtain ⟨u, hu, rfl⟩ := List.mem_map.mp hv
  unfold RunUnit.spawn at hstage hstep
  split at hstage
  · cases hstage
  · simp_all

theorem Chronicle.acted (h : r.Chronicle owned) (hcomposed : r.registry.Composed)
    (horderly : owned → r.Orderly) (hd : owned ∨ d.outlives = true) : (r.act d).Chronicle owned := by
  have hself : List.Forall₂ RunUnit.Even r.units r.units :=
    List.forall₂_same.mpr fun u _ => u.even_self
  have hmodify {f : RunUnit σ → RunUnit σ} (hf : ∀ u : RunUnit σ, u.Even (f u)) (i : Nat) :
      List.Forall₂ RunUnit.Even r.units (r.units.modify i f) :=
    List.forall₂_modify (fun u _ => u.even_self) (fun u _ => hf u) i
  cases d with
  | prepare =>
    have ho : owned := hd.resolve_right (by simp [Deed.outlives])
    exact h.prepared hcomposed (horderly ho) ho
  | move party =>
    rw [act]
    cases hm : r.move party with
    | none => exact h
    | some r' => exact h.moved hm
  | addProducer unit =>
    have ha := r.act_acted (.addProducer unit)
    generalize r.act (.addProducer unit) = r' at ha ⊢
    cases ha with
    | idle => exact h
    | fed =>
      refine h.even (hmodify (fun _ => ?_) _) rfl rfl rfl
      exact ⟨rfl, rfl, rfl, rfl⟩
  | addObserver unit =>
    have ha := r.act_acted (.addObserver unit)
    generalize r.act (.addObserver unit) = r' at ha ⊢
    cases ha with
    | idle => exact h
    | observed =>
      refine h.even (hmodify (fun _ => ?_) _) rfl rfl rfl
      exact ⟨rfl, rfl, rfl, rfl⟩
  | start id now =>
    have ha := r.act_acted (.start id now)
    generalize r.act (.start id now) = r' at ha ⊢
    cases ha with
    | idle => exact h
    | started => exact h.started
  | wait now =>
    have ha := r.act_acted (.wait now)
    generalize r.act (.wait now) = r' at ha ⊢
    cases ha with
    | idle => exact h
    | waited phase =>
      refine ⟨by simp, h.roll, by simp, fun u hu hstage hstep => ?_⟩
      simpa [phase] using (h.waiting u hu hstage hstep).2
  | offer k rows => exact h.even hself rfl rfl rfl
  | finish k => exact h.even hself rfl rfl rfl
  | stop => exact h.even hself rfl rfl rfl

theorem Chronicle.abandoned (h : r.Chronicle owned) (hcalm : r.registry.Calm) :
    r.abandon.Chronicle False := by
  obtain ⟨hunits, hcalls, hphase, hregistry⟩ := r.abandon_same
  by_cases hp : r.phase = .prepared
  · rw [unload, if_pos hp, Disposal.ofUnits_yielding (h.roll.yields hcalm)] at hunits hcalls
    refine ⟨by simp [hphase, hp], ?_, fun _ v hv => ?_, fun v hv _ hstep => ?_⟩
    · rw [hunits, hcalls, hregistry]
      simpa using h.roll.shelved (h.unstarted hp)
    · obtain ⟨u, hu, rfl⟩ := List.mem_map.mp (hunits ▸ hv)
      exact u.shelve_same.2.1.trans (h.unstarted hp u hu)
    · obtain ⟨u, -, rfl⟩ := List.mem_map.mp (hunits ▸ hv)
      simp [u.shelve_step] at hstep
  · rw [unload, if_neg hp] at hunits hcalls
    refine ⟨fun hn => ?_, ?_, by simp [hphase, hp], fun v hv hstage hstep => ?_⟩
    · rw [hunits, hcalls]
      exact h.blank (hphase.symm.trans hn)
    · rw [hunits, hcalls, hregistry]
      exact h.roll
    · rw [hunits] at hv
      exact absurd (h.waiting v hv hstage hstep).2 hp

end Run

namespace Happening

theorem possible_append {hs : List Happening} {h : Happening} (hp : possible (hs ++ [h]) = true) :
    possible hs = true ∧ (.abandon ∈ hs → h.outlives = true) := by
  induction hs with
  | nil => simp [possible]
  | cons x hs ih =>
    cases x with
    | deed d => simpa [possible] using ih hp
    | abandon =>
      simp only [List.cons_append, possible, List.all_append, List.all_cons, List.all_nil,
        Bool.and_true, Bool.and_eq_true] at hp
      exact ⟨hp.1, fun _ => hp.2⟩

end Happening

namespace Run

variable {r : Run σ} {owned : Prop}

theorem through_append (r : Run σ) (hs : List Happening) (h : Happening) :
    r.through (hs ++ [h]) = (r.through hs).undergo h := by
  simp [through]

theorem registry_undergo (r : Run σ) (h : Happening) : (r.undergo h).registry = r.registry := by
  cases h with
  | deed d => exact (r.act_acted d).given.2.2.1
  | abandon => exact r.abandon_same.2.2.2

/-- Whatever has happened, the calls of all steps are in order. -/
theorem chronicle_through {registry : Registry σ} (hcomposed : registry.Composed)
    (settings : Settings) (g : Graph) (armed : List String) {hs : List Happening}
    (hp : Happening.possible hs = true) :
    let r := (Run.new registry settings g armed).through hs
    r.registry = registry ∧ (.abandon ∉ hs → r.Orderly) ∧ r.Chronicle (.abandon ∉ hs) := by
  induction hs using List.reverseRecOn with
  | nil =>
    exact ⟨rfl, fun _ => orderly_new _ _ _ _,
      by simpa [through] using chronicle_new registry settings g armed⟩
  | append_singleton hs h ih =>
    obtain ⟨hp, hlate⟩ := Happening.possible_append hp
    obtain ⟨hregistry, horderly, hc⟩ := ih hp
    rw [← hregistry] at hcomposed
    rw [through_append]
    refine ⟨(registry_undergo _ h).trans hregistry, ?_⟩
    cases h with
    | deed d =>
      have howned : .abandon ∉ hs ++ [.deed d] ↔ .abandon ∉ hs := by simp
      rw [howned]
      refine ⟨fun ho => (horderly ho).acted (act_acted _ d), hc.acted hcomposed horderly ?_⟩
      exact (Classical.em (.abandon ∈ hs)).elim (fun ha => .inr (hlate ha)) .inl
    | abandon =>
      have hgone : .abandon ∉ hs ++ [.abandon] ↔ False := by simp
      rw [hgone]
      exact ⟨False.elim, hc.abandoned hcomposed.calm⟩

/-- The step of a unit was to be set up, and that succeeded. -/
def SetUp (r : Run σ) (u : RunUnit σ) : Prop :=
  .init u.id ∈ r.calls ∧ u.Able r.registry

/-- Nobody asks the run for anything any more, and no thread of it goes on. -/
def Over (r : Run σ) (hs : List Happening) : Prop :=
  (.abandon ∈ hs ∨ r.phase = .finished) ∧ r.unitsIdle = true

theorem mem_callsOf {r : Run σ} {e : Event} {id : UnitId} :
    e ∈ r.callsOf id ↔ e ∈ r.calls ∧ e.unit = id := by
  simp [callsOf]

theorem Chronicle.each (h : r.Chronicle owned) {u : RunUnit σ} (hu : u ∈ r.units) :
    u.Chronicled r.registry (r.callsOf u.id) := by
  simpa [callsOf, List.filter_reverse] using h.roll.each u hu

theorem Chronicle.none_held {hs : List Happening} (h : r.Chronicle (.abandon ∉ hs))
    (hover : r.Over hs) {u : RunUnit σ} (hu : u ∈ r.units) (hstage : u.stage.left = false) :
    u.step = none := by
  by_contra hne
  have hidle := List.all_eq_true.mp hover.2 u hu
  unfold RunUnit.isIdle at hidle
  split at hidle
  · rename_i hs'
    obtain ⟨howned, hp⟩ := h.waiting u hu hs' (Option.isSome_iff_ne_none.mpr hne)
    exact hover.1.elim howned fun hfinished => by simp [hp] at hfinished
  · rename_i hs'
    simp [hs', Stage.left] at hstage
  · cases hidle

/-- Whatever happens to a run, its steps panicking in their batches at most, the step of a unit is
set up, then called for batches, then disposed of: once, only if it could be set up, and before the
run is over. Who looks at the unit sees it go one way through life. -/
theorem disposed_exactly_once (registry : Registry σ) (settings : Settings) (g : Graph)
    (armed : List String) (composed : registry.Composed) (hs : List Happening)
    (possible : Happening.possible hs = true) :
    let start := Run.new registry settings g armed
    let r := start.through hs
    (∀ e ∈ r.calls, ∃ u ∈ r.units, u.id = e.unit) ∧
      (∀ u ∈ r.units, r.SetUp u → ∃ n,
        r.callsOf u.id = .init u.id :: .replicate n (.batch u.id) ∨
        r.callsOf u.id = .init u.id :: (.replicate n (.batch u.id) ++ [.dispose u.id])) ∧
      (r.Over hs → ∀ u ∈ r.units, r.SetUp u → .dispose u.id ∈ r.calls) ∧
      (∀ u ∈ r.units, ¬ r.SetUp u → r.callsOf u.id = [] ∨ r.callsOf u.id = [.init u.id]) ∧
      ∀ id, ∃ way, UnitState.Ways way ∧ (start.states id hs).destutter (· ≠ ·) <:+: way ∧
        ∀ seen : List UnitState, seen.Sublist (start.states id hs) →
          (seen.destutter (· ≠ ·)).Sublist way := by
  intro start r
  obtain ⟨-, -, hc⟩ := chronicle_through composed settings g armed possible
  refine ⟨fun e he => ?_, fun u hu hset => ?_, fun hover u hu hset => ?_, fun u hu hset => ?_,
    fun id => Unbuilt.lives (r := start) (fun _ => rfl) id hs⟩
  · simpa using hc.roll.owned e (by simpa using he)
  all_goals
    have hinit : .init u.id ∈ r.callsOf u.id ↔ .init u.id ∈ r.calls := by
      simp [mem_callsOf, Event.unit]
    have hcalls := hc.each hu
    generalize hcs : r.callsOf u.id = calls at hcalls hinit
  · cases hcalls with
    | uncalled => simpa using hinit.mpr hset.1
    | refused _ _ unable => exact absurd hset.2 unable
    | held n => exact ⟨n, .inl rfl⟩
    | disposed n => exact ⟨n, .inr rfl⟩
  · cases hcalls with
    | uncalled => simpa using hinit.mpr hset.1
    | refused _ _ unable => exact absurd hset.2 unable
    | held n step stage =>
      have hsome := step.isSome
      simp [hc.none_held hover hu stage] at hsome
    | disposed n => exact (mem_callsOf.mp (hcs ▸ by simp : Event.dispose u.id ∈ r.callsOf u.id)).1
  · cases hcalls with
    | uncalled => exact .inl rfl
    | refused => exact .inr rfl
    | held n _ _ able => exact absurd ⟨hinit.mp (by simp), able⟩ hset
    | disposed n _ _ able => exact absurd ⟨hinit.mp (by simp), able⟩ hset

def lone : Graph where
  name := "lone"
  steps := [{ name := "a", type := "dummy" }]

/-- The unit waits within a batch when the run is given up. -/
def givenUp : List Happening :=
  [.deed .prepare, .deed (.addProducer ⟨"a", 0⟩), .deed (.start [] 0)] ++
    .replicate 4 (.deed (.move (.unit 0))) ++ [.abandon] ++ .replicate 8 (.deed (.move (.unit 0)))

theorem givenUp_disposed :
    let r := (Run.new Catalog.builtins {} lone []).through givenUp
    r.Over givenUp ∧ ∃ u ∈ r.units, r.SetUp u ∧ .dispose u.id ∈ r.calls := by
  intro r
  obtain ⟨hids, hidle, hcalls⟩ : r.units.map (·.id) = [⟨"a", 0⟩] ∧ r.unitsIdle = true ∧
      (r.callsOf ⟨"a", 0⟩).length = 3 := by decide +kernel
  have hover : r.Over givenUp := ⟨.inl (by simp [givenUp]), hidle⟩
  obtain ⟨-, -, hdisposed, hnot, -⟩ :=
    disposed_exactly_once Catalog.builtins {} lone [] Catalog.builtins_composed givenUp (by decide)
  obtain ⟨u, _, hunits, hid, -⟩ := List.map_eq_cons_iff.mp hids
  have hu : u ∈ r.units := by simp [hunits]
  have hset : r.SetUp u := by
    by_contra hset
    rw [← hid] at hcalls
    obtain hnone | hone := hnot u hu hset
    · rw [hnone] at hcalls
      simp at hcalls
    · rw [hone] at hcalls
      simp at hcalls
  exact ⟨hover, u, hu, hset, hdisposed hover u hu hset⟩

end Run

end Sluice
