import Sluice.Proofs.Step.Sources

/-!
What the steps of the catalog keep from batch to batch, and what they make of complete inputs.
-/

namespace Sluice

namespace Catalog

theorem builtins_types : builtins.types =
    [abort, append, dummy, filterRows, generateRows, injector, selectValues] := rfl

theorem find?_cases {type : String} {t : StepType StepMemory} (h : builtins.find? type = some t) :
    t.id = type ∧ (t = abort ∨ t = append ∨ t = dummy ∨ t = filterRows ∨ t = generateRows ∨
      t = injector ∨ t = selectValues) := by
  unfold Registry.find? at h
  refine ⟨by simpa using List.find?_some h, ?_⟩
  have := List.mem_of_find?_eq_some h
  rw [builtins_types] at this
  simpa using this

end Catalog

namespace StepMemory

/-- All that a step sends out for complete inputs, from the memory that it is set up with. -/
def emissions (policy : DataErrorPolicy) (inputs : List (List Row)) :
    StepMemory → Option (List Emission)
  | .none => (respondAll passing.respond () inputs.flatten).map (·.2)
  | .abort m => (respondAll (Abort.handling m.threshold).respond 0 inputs.flatten).map (·.2)
  | .append m =>
    let rows := (Append.cover inputs.length m.order).flatMap fun k => (inputs[k]?).getD []
    some (rows.map (.row .none))
  | .filter m => do
    let condition ← m.condition
    let h := Filter.handling policy condition m.trueTo m.falseTo
    (respondAll h.respond () inputs.flatten).map (·.2)
  | .generate m => do
    let row ← m.row
    let limit ← m.limit
    return List.replicate limit (.row .none row)
  | .select m => (respondAll (Select.handling policy m).respond .none inputs.flatten).map (·.2)
  | .script _ => .none

def contract (site : Site) : StepMemory → Contract StepMemory
  | .none => ⟨fun _ => (passing.contract ()).loop (), (passing.contract ()).finished⟩
  | .abort m =>
    let c := (Abort.handling m.threshold).contract 0
    ⟨fun m => c.loop m.asAbort, c.finished⟩
  | .append m =>
    let c := Append.contract site.inputs m.order
    ⟨fun m => c.loop m.asAppend, c.finished⟩
  | .filter m =>
    match m.condition with
    | some condition =>
      let c := (Filter.handling site.policy condition m.trueTo m.falseTo).contract ()
      ⟨fun m => c.loop m.asFilter, c.finished⟩
    | .none => ⟨fun _ _ => False, fun _ => False⟩
  | .generate m =>
    match m.row with
    | some row =>
      let c := Generate.contract row m.limit
      ⟨fun m => c.loop m.asGenerate, c.finished⟩
    | .none => ⟨fun _ _ => False, fun _ => False⟩
  | .select m =>
    let c := (Select.handling site.policy m).contract .none
    ⟨fun m => c.loop m.asSelect, c.finished⟩
  | .script _ => ⟨fun _ _ => False, fun _ => False⟩

end StepMemory

/-- What a step with so many inputs asks for: one that concatenates asks for the input whose turn it
is, any other takes a row from whichever input has one. -/
def Setup.asks (s : Setup) (inputs : Nat) (input : Option Nat) (j : Journal) : Prop :=
  if s.spec.type = "append" then
    ∃ i, input = some i ∧ ∀ m, Append.init s = .ok m → Append.Turn (Append.cover inputs m.order) i j
  else input = none

theorem Setup.asks_some {s : Setup} {inputs i : Nat} {j : Journal} (h : s.asks inputs (some i) j) :
    s.spec.type = "append" := by
  by_contra hne
  simp [asks, hne] at h

theorem Setup.asks_turn {s : Setup} {inputs : Nat} {input : Option Nat} {j : Journal}
    (h : s.asks inputs input j) (htype : s.spec.type = "append") {m : Append.Memory}
    (hinit : Append.init s = .ok m) :
    ∃ i, input = some i ∧ Append.Turn (Append.cover inputs m.order) i j := by
  rw [asks, if_pos htype] at h
  obtain ⟨i, hi, hturn⟩ := h
  exact ⟨i, hi, hturn m hinit⟩

/-- A place where a step of this type can be: one that takes no input has none. -/
structure StepType.Suits {σ : Type} (t : StepType σ) (setup : Setup) (site : Site) : Prop where
  inputs : t.maxInputs = some 0 → site.inputs = 0
  asks : site.asks = setup.asks site.inputs

namespace Catalog

variable {site : Site} {type : String} {t : StepType StepMemory} {setup : Setup} {m : StepMemory}

theorem within_eq_ok {σ : Type} {init : Except StepError σ} {wrap : σ → StepMemory}
    (h : (init.mapError Halt.error).map wrap = .ok m) : ∃ inner, init = .ok inner ∧ m = wrap inner := by
  rcases init with e | inner
  · cases h
  · exact ⟨inner, rfl, by simpa [Except.map, Except.mapError] using h.symm⟩

theorem asks_any (hsite : t.Suits setup site) (hne : setup.spec.type ≠ "append") (j : Journal) :
    site.asks none j := by
  simp [hsite.asks, Setup.asks, hne]

theorem passThrough_keeps (hasks : ∀ j, site.asks none j) :
    (passThrough.within (fun _ => StepMemory.none) fun _ => ()).Keeps site
      (StepMemory.none.contract site) :=
  (Handling.keeps passing_fits hasks () rfl).within fun _ => rfl

theorem keeps (ht : builtins.find? setup.spec.type = some t)
    (hinit : t.behaviour.init setup = .ok m) (hsite : t.Suits setup site) :
    t.behaviour.Keeps site (m.contract site) ∧ (m.contract site).loop m {} := by
  obtain ⟨htype, rfl | rfl | rfl | rfl | rfl | rfl | rfl⟩ := find?_cases ht
  · have hasks := asks_any hsite (by simp [← htype, abort])
    obtain ⟨m, hm, rfl⟩ := within_eq_ok hinit
    refine ⟨(Handling.keeps (Abort.handling_fits m.threshold) hasks 0 rfl).within fun _ => rfl, rfl, ?_⟩
    obtain ⟨config, -, hm⟩ := Except.bind_eq_ok.mp hm
    simp only [pure, Except.pure, Except.ok.injEq] at hm
    subst hm
    rfl
  · obtain ⟨m, hm, rfl⟩ := within_eq_ok hinit
    have hperm := Append.init_perm hm
    obtain ⟨config, -, -, rfl⟩ := Append.init_eq_ok.mp hm
    refine ⟨(Append.behaviour_keeps (fun i j hturn => ?_) hperm).within fun _ => rfl, rfl, ?_⟩
    · simp only [hsite.asks, Setup.asks, ← htype, append, if_true]
      refine ⟨i, rfl, fun m hm' => ?_⟩
      obtain rfl := Except.ok.inj (hm.symm.trans hm')
      exact hturn
    · exact ⟨Nat.zero_le _, fun k hk => by simp [StepMemory.asAppend] at hk,
        by simp [Journal.from], fun _ _ => rfl, rfl⟩
  · obtain rfl : StepMemory.none = m := by
      simpa [dummy, Behaviour.within, passThrough, Except.map] using hinit
    exact ⟨passThrough_keeps (asks_any hsite (by simp [← htype, dummy])), trivial, rfl⟩
  · have hasks := asks_any hsite (by simp [← htype, filterRows])
    obtain ⟨m, hm, rfl⟩ := within_eq_ok hinit
    obtain ⟨config, -, hm⟩ := Except.bind_eq_ok.mp hm
    cases hc : Condition.parse config.condition with
    | none => simp [hc] at hm
    | some condition =>
      simp only [hc] at hm
      obtain ⟨trueTo, -, hm⟩ := Except.bind_eq_ok.mp hm
      obtain ⟨falseTo, -, hm⟩ := Except.bind_eq_ok.mp hm
      simp only [pure, Except.pure, Except.ok.injEq] at hm
      subst hm
      exact ⟨(Handling.keeps Filter.handling_fits hasks () rfl).within fun _ => rfl,
        ⟨rfl, rfl, rfl, fun _ _ h => by cases h⟩, rfl⟩
  · obtain ⟨m, hm, rfl⟩ := within_eq_ok hinit
    obtain ⟨config, -, hm⟩ := Except.bind_eq_ok.mp hm
    obtain ⟨fields, -, hm⟩ := Except.bind_eq_ok.mp hm
    simp only [pure, Except.pure, Except.ok.injEq] at hm
    subst hm
    exact ⟨(Generate.behaviour_keeps (hsite.inputs rfl) _ _).within fun _ => rfl, rfl, rfl, rfl, rfl,
      fun l _ => Nat.zero_le l⟩
  · obtain rfl : StepMemory.none = m := by
      simpa [injector, Behaviour.within, passThrough, Except.map] using hinit
    exact ⟨passThrough_keeps (asks_any hsite (by simp [← htype, injector])), trivial, rfl⟩
  · have hasks := asks_any hsite (by simp [← htype, selectValues])
    obtain ⟨m, hm, rfl⟩ := within_eq_ok hinit
    obtain ⟨config, -, hm⟩ := Except.bind_eq_ok.mp hm
    obtain ⟨convert, -, hm⟩ := Except.bind_eq_ok.mp hm
    simp only [pure, Except.pure, Except.ok.injEq] at hm
    subst hm
    exact ⟨(Handling.keeps (Select.handling_fits _) hasks none rfl).within fun _ => rfl, rfl, rfl⟩

/-- A finished step has sent out what its complete inputs ask for. -/
theorem finished_emissions {j : Journal} (ht : builtins.find? type = some t)
    (hinit : t.behaviour.init setup = .ok m)
    (hplain : site.inputs ≤ 1 ∨ type = "append") (hgot : ∀ p ∈ j.got, p.1 < site.inputs)
    (h : (m.contract site).finished j) :
    m.emissions site.policy ((List.range site.inputs).map j.from) = some j.out := by
  have hflat (hle : site.inputs ≤ 1) :
      ((List.range site.inputs).map j.from).flatten = j.got.map (·.2) := by
    have hzero (p) (hp : p ∈ j.got) : p.1 = 0 := by
      have := hgot p hp
      omega
    rcases Nat.le_one_iff_eq_zero_or_eq_one.mp hle with h0 | h1
    · have : j.got = [] := List.eq_nil_iff_forall_not_mem.mpr fun p hp => by
        have := hgot p hp
        omega
      simp [h0, this]
    · have : j.got.filter (·.1 = 0) = j.got := List.filter_eq_self.mpr fun p hp => by
        simp [hzero p hp]
      simp [h1, Journal.from, this]
  have hrows {ρ σ : Type} {hd : Handling σ ρ} {start : ρ} (hle : site.inputs ≤ 1)
      (h : (hd.contract start).finished j) :
      (respondAll hd.respond start ((List.range site.inputs).map j.from).flatten).map (·.2) =
        some j.out := by
    obtain ⟨s, hs⟩ := h
    rw [hflat hle, hs]
    rfl
  have hle (hne : t.id ≠ "append") : site.inputs ≤ 1 := hplain.resolve_right fun he =>
    hne ((find?_cases ht).1.trans he)
  obtain ⟨-, rfl | rfl | rfl | rfl | rfl | rfl | rfl⟩ := find?_cases ht
  · obtain ⟨m, -, rfl⟩ := within_eq_ok hinit
    exact hrows (hle (by simp [abort])) h
  · obtain ⟨m, -, rfl⟩ := within_eq_ok hinit
    have h : j.out = ((Append.cover site.inputs m.order).flatMap j.from).map (.row none) := h
    have hin : (Append.cover site.inputs m.order).flatMap
        (fun k => (((List.range site.inputs).map j.from)[k]?).getD []) =
        (Append.cover site.inputs m.order).flatMap j.from := by
      refine List.flatMap_congr fun k hk => ?_
      simp [Append.lt_of_mem_cover hk]
    simp only [StepMemory.emissions, List.length_map, List.length_range, hin, h]
  · obtain rfl : StepMemory.none = m := by
      simpa [dummy, Behaviour.within, passThrough, Except.map] using hinit
    exact hrows (hle (by simp [dummy])) h
  · obtain ⟨m, -, rfl⟩ := within_eq_ok hinit
    rcases hc : m.condition with _ | condition
    · simp [StepMemory.contract, hc] at h
    · simp only [StepMemory.contract, hc] at h
      simp only [StepMemory.emissions, hc, Option.bind_eq_bind, Option.bind_some]
      exact hrows (hle (by simp [filterRows])) h
  · obtain ⟨m, -, rfl⟩ := within_eq_ok hinit
    rcases hr : m.row with _ | row
    · simp [StepMemory.contract, hr] at h
    · simp only [StepMemory.contract, hr] at h
      obtain ⟨l, hl, -, hout⟩ := h
      simp [StepMemory.emissions, hr, hl, hout]
  · obtain rfl : StepMemory.none = m := by
      simpa [injector, Behaviour.within, passThrough, Except.map] using hinit
    exact hrows (hle (by simp [injector])) h
  · obtain ⟨m, -, rfl⟩ := within_eq_ok hinit
    exact hrows (hle (by simp [selectValues])) h

end Catalog

end Sluice
