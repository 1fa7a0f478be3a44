import Sluice.Graph.Plan
import Sluice.Proofs.Graph.Cycles
import Sluice.Proofs.Prelude

/-!
Which graphs have a plan. What a check lets pass is in order, and what it reports is there; as no
fault can be found in a graph that is in order, exactly those graphs have a plan.
-/

namespace Sluice

open Relation

variable {σ : Type} {registry : Registry σ} {g : Graph}

/-- Everything about the graph is in order. -/
structure Graph.Fit (registry : Registry σ) (g : Graph) : Prop where
  inhabited : g.steps ≠ []
  named : ∀ s ∈ g.steps, Text.trimChars s.name.toList ≠ []
  names : g.stepNames.Nodup
  types : ∀ s ∈ g.steps, registry.contains s.type = true
  copies : ∀ s ∈ g.steps, 1 ≤ s.copies
  ends : ∀ h ∈ g.enabledHops, h.source ∈ g.stepNames ∧ h.target ∈ g.stepNames
  hops : (g.enabledHops.map fun h => (h.source, h.target)).Nodup
  inputs : ∀ s ∈ g.steps, ∀ t, registry.find? s.type = some t →
    t.minInputs ≤ (g.inputHops s.name).length ∧
      ∀ most, t.maxInputs = some most → (g.inputHops s.name).length ≤ most
  acyclic : g.Acyclic

/-- What a fault says of a graph is so. -/
def GraphFault.Present (registry : Registry σ) (g : Graph) : GraphFault → Prop
  | .empty => g.steps = []
  | .emptyName => ∃ s ∈ g.steps, Text.trimChars s.name.toList = []
  | .duplicateStep name => 2 ≤ g.stepNames.count name
  | .unknownType step type =>
    ∃ s ∈ g.steps, s.name = step ∧ s.type = type ∧ registry.contains type = false
  | .unknownStep source target missing =>
    (∃ h ∈ g.enabledHops, h.source = source ∧ h.target = target) ∧
      (missing = source ∨ missing = target) ∧ missing ∉ g.stepNames
  | .duplicateHop source target =>
    2 ≤ (g.enabledHops.map fun h => (h.source, h.target)).count (source, target)
  | .tooFewInputs step type min actual =>
    ∃ s ∈ g.steps, s.name = step ∧ s.type = type ∧
      (∃ t, registry.find? type = some t ∧ t.minInputs = min) ∧
      (g.inputHops step).length = actual ∧ actual < min
  | .tooManyInputs step type max actual =>
    ∃ s ∈ g.steps, s.name = step ∧ s.type = type ∧
      (∃ t, registry.find? type = some t ∧ t.maxInputs = some max) ∧
      (g.inputHops step).length = actual ∧ max < actual
  | .invalidCopies step => ∃ s ∈ g.steps, s.name = step ∧ s.copies = 0
  | .cycle steps => steps.Sublist g.stepNames ∧
    ∃ v ∈ steps, TransGen (fun a b => a ∈ steps ∧ b ∈ steps ∧ g.Feeds a b) v v

namespace Plan

theorem checkStep_eq_ok {before : List String} {s : StepSpec} :
    checkStep registry before s = .ok () ↔ Text.trimChars s.name.toList ≠ [] ∧ s.name ∉ before ∧
      registry.contains s.type = true ∧ 1 ≤ s.copies := by
  unfold checkStep
  by_cases hblank : Text.trimChars s.name.toList = []
  · simp [hblank]
  by_cases hbefore : s.name ∈ before
  · simp [hblank, hbefore]
  by_cases htype : registry.contains s.type = true
  · by_cases hcopies : s.copies = 0
    · simp [hblank, hbefore, htype, hcopies]
    · simp [hblank, hbefore, htype, hcopies, Nat.one_le_iff_ne_zero]
  · simp [hblank, hbefore, htype]

theorem checkHop_eq_ok {names : List String} {before : List (String × String)} {h : Hop} :
    checkHop names before h = .ok () ↔
      (h.source ∈ names ∧ h.target ∈ names) ∧ (h.source, h.target) ∉ before := by
  unfold checkHop
  by_cases hsource : h.source ∈ names
  · by_cases htarget : h.target ∈ names
    · by_cases hbefore : (h.source, h.target) ∈ before <;> simp [hsource, htarget, hbefore]
    · simp [hsource, htarget]
  · simp [hsource]

theorem checkInputs_eq_ok {s : StepSpec} :
    checkInputs registry g s = .ok () ↔ ∀ t, registry.find? s.type = some t →
      t.minInputs ≤ (g.inputHops s.name).length ∧
        ∀ most, t.maxInputs = some most → (g.inputHops s.name).length ≤ most := by
  unfold checkInputs
  cases ht : registry.find? s.type with
  | none => simp
  | some t =>
    by_cases hmin : (g.inputHops s.name).length < t.minInputs
    · simp [hmin]
    · cases hmax : t.maxInputs with
      | none => simp [hmin, hmax, Nat.le_of_not_lt hmin]
      | some most =>
        by_cases hmany : most < (g.inputHops s.name).length
        · simp [hmin, hmany, hmax]
        · simp [hmin, hmany, hmax, Nat.le_of_not_lt hmin, Nat.le_of_not_lt hmany]

theorem checkSteps_eq_ok {before : List String} {steps : List StepSpec} :
    checkSteps registry before steps = .ok () ↔
      (∀ s ∈ steps, Text.trimChars s.name.toList ≠ [] ∧ registry.contains s.type = true ∧
        1 ≤ s.copies) ∧
      (steps.map (·.name)).Nodup ∧ ∀ s ∈ steps, s.name ∉ before := by
  induction steps generalizing before with
  | nil => simp [checkSteps]
  | cons s rest ih =>
    unfold checkSteps
    rw [Except.andThen_eq_ok, checkStep_eq_ok, ih, List.forall_mem_cons, List.forall_mem_cons,
      List.map_cons, List.nodup_cons]
    simp only [List.mem_map, List.mem_cons, not_or]
    constructor
    · rintro ⟨⟨hblank, hbefore, htype, hcopies⟩, heach, hnodup, hnew⟩
      exact ⟨⟨⟨hblank, htype, hcopies⟩, heach⟩,
        ⟨fun ⟨t, ht, hname⟩ => (hnew t ht).1 hname, hnodup⟩, hbefore, fun t ht => (hnew t ht).2⟩
    · rintro ⟨⟨⟨hblank, htype, hcopies⟩, heach⟩, ⟨hnot, hnodup⟩, hbefore, hnew⟩
      exact ⟨⟨hblank, hbefore, htype, hcopies⟩, heach, hnodup,
        fun t ht => ⟨fun hname => hnot ⟨t, ht, hname⟩, hnew t ht⟩⟩

theorem checkHops_eq_ok {names : List String} {before : List (String × String)} {hops : List Hop} :
    checkHops names before hops = .ok () ↔
      (∀ h ∈ hops, h.source ∈ names ∧ h.target ∈ names) ∧
      (hops.map fun h => (h.source, h.target)).Nodup ∧
      ∀ h ∈ hops, (h.source, h.target) ∉ before := by
  induction hops generalizing before with
  | nil => simp [checkHops]
  | cons h rest ih =>
    unfold checkHops
    rw [Except.andThen_eq_ok, checkHop_eq_ok, ih, List.forall_mem_cons, List.forall_mem_cons,
      List.map_cons, List.nodup_cons]
    simp only [List.mem_map, List.mem_cons, not_or]
    constructor
    · rintro ⟨⟨hends, hbefore⟩, heach, hnodup, hnew⟩
      exact ⟨⟨hends, heach⟩, ⟨fun ⟨x, hx, hpair⟩ => (hnew x hx).1 hpair, hnodup⟩, hbefore,
        fun x hx => (hnew x hx).2⟩
    · rintro ⟨⟨hends, heach⟩, ⟨hnot, hnodup⟩, hbefore, hnew⟩
      exact ⟨⟨hends, hbefore⟩, heach, hnodup,
        fun x hx => ⟨fun hpair => hnot ⟨x, hx, hpair⟩, hnew x hx⟩⟩

theorem ofGraph_eq_ok {plan : Plan} : ofGraph registry g = .ok plan ↔
    g.steps ≠ [] ∧ checkSteps registry [] g.steps = .ok () ∧
      checkHops g.stepNames [] g.enabledHops = .ok () ∧
      (∀ s ∈ g.steps, checkInputs registry g s = .ok ()) ∧
      ∃ t, Topology.ofGraph g = .ok t ∧ ⟨t, sourcesOf g, sinksOf g⟩ = plan := by
  unfold ofGraph
  cases hsteps : g.steps with
  | nil =>
    simp only [List.isEmpty_nil, if_true]
    exact ⟨fun h => (nomatch h), fun h => absurd rfl h.1⟩
  | cons s rest =>
    rw [← hsteps]
    have hsome : g.steps ≠ [] := by simp [hsteps]
    have hfull : g.steps.isEmpty = false := by simp [hsteps]
    simp only [hfull, Bool.false_eq_true, if_false, hsome, ne_eq, not_false_eq_true, true_and]
    change (checkSteps registry [] g.steps >>= fun _ => _) = _ ↔ _
    rw [Except.andThen_eq_ok, Except.andThen_eq_ok, Except.andThen_eq_ok, Except.forM_eq_ok]
    simp only [Except.bind_eq_ok, Except.mapError_eq_ok, pure, Except.pure, Except.ok.injEq]

theorem checkStep_present {before : List String} {s : StepSpec} {fault : GraphFault}
    (h : checkStep registry before s = .error fault) (hs : s ∈ g.steps)
    (hbefore : s.name ∈ before → 2 ≤ g.stepNames.count s.name) : fault.Present registry g := by
  unfold checkStep at h
  split at h
  · rename_i hblank
    obtain rfl := Except.error.inj h
    exact ⟨s, hs, List.isEmpty_iff.mp hblank⟩
  split at h
  · rename_i hmem
    obtain rfl := Except.error.inj h
    exact hbefore (List.contains_iff_mem.mp hmem)
  split at h
  · rename_i htype
    obtain rfl := Except.error.inj h
    exact ⟨s, hs, rfl, rfl, by simpa using htype⟩
  split at h
  · rename_i hcopies
    obtain rfl := Except.error.inj h
    exact ⟨s, hs, rfl, hcopies⟩
  · cases h

theorem two_le_count {α : Type} [BEq α] [LawfulBEq α] {before rest all : List α} {a : α}
    (hall : (before ++ a :: rest).Perm all) (ha : a ∈ before) : 2 ≤ all.count a := by
  have hbefore := List.count_pos_iff.mpr ha
  rw [← hall.count_eq, List.count_append, List.count_cons_self]
  omega

theorem checkSteps_present {before : List String} {steps : List StepSpec} {fault : GraphFault}
    (h : checkSteps registry before steps = .error fault) (hsub : ∀ s ∈ steps, s ∈ g.steps)
    (hall : (before ++ steps.map (·.name)).Perm g.stepNames) : fault.Present registry g := by
  induction steps generalizing before with
  | nil => cases h
  | cons s rest ih =>
    obtain ⟨hs, hrest⟩ := List.forall_mem_cons.mp hsub
    unfold checkSteps at h
    rcases Except.bind_eq_error.mp h with h | ⟨⟨⟩, -, h⟩
    · exact checkStep_present h hs (two_le_count hall)
    · exact ih h hrest (List.perm_middle.symm.trans hall)

theorem checkHop_present {before : List (String × String)} {h : Hop} {fault : GraphFault}
    (hfault : checkHop g.stepNames before h = .error fault) (hh : h ∈ g.enabledHops)
    (hbefore : (h.source, h.target) ∈ before →
      2 ≤ (g.enabledHops.map fun h => (h.source, h.target)).count (h.source, h.target)) :
    fault.Present registry g := by
  unfold checkHop at hfault
  split at hfault
  · rename_i hsource
    obtain rfl := Except.error.inj hfault
    exact ⟨⟨h, hh, rfl, rfl⟩, .inl rfl, by simpa using hsource⟩
  split at hfault
  · rename_i htarget
    obtain rfl := Except.error.inj hfault
    exact ⟨⟨h, hh, rfl, rfl⟩, .inr rfl, by simpa using htarget⟩
  split at hfault
  · rename_i hmem
    obtain rfl := Except.error.inj hfault
    exact hbefore (List.contains_iff_mem.mp hmem)
  · cases hfault

theorem checkHops_present {before : List (String × String)} {hops : List Hop} {fault : GraphFault}
    (h : checkHops g.stepNames before hops = .error fault) (hsub : ∀ h ∈ hops, h ∈ g.enabledHops)
    (hall : (before ++ hops.map fun h => (h.source, h.target)).Perm
      (g.enabledHops.map fun h => (h.source, h.target))) : fault.Present registry g := by
  induction hops generalizing before with
  | nil => cases h
  | cons hop rest ih =>
    obtain ⟨hhop, hrest⟩ := List.forall_mem_cons.mp hsub
    unfold checkHops at h
    rcases Except.bind_eq_error.mp h with h | ⟨⟨⟩, -, h⟩
    · exact checkHop_present h hhop (two_le_count hall)
    · exact ih h hrest (List.perm_middle.symm.trans hall)

theorem checkInputs_present {s : StepSpec} {fault : GraphFault}
    (h : checkInputs registry g s = .error fault) (hs : s ∈ g.steps) :
    fault.Present registry g := by
  unfold checkInputs at h
  split at h
  · cases h
  rename_i t ht
  dsimp only at h
  split at h
  · rename_i hfew
    obtain rfl := Except.error.inj h
    exact ⟨s, hs, rfl, rfl, ⟨t, ht, rfl⟩, rfl, hfew⟩
  split at h
  · cases h
  rename_i most hmost
  split at h
  · rename_i hmany
    obtain rfl := Except.error.inj h
    exact ⟨s, hs, rfl, rfl, ⟨t, ht, hmost⟩, rfl, hmany⟩
  · cases h

theorem stuck_present {stuck : List String} (hn : g.stepNames.Nodup)
    (h : Topology.ofGraph g = .error stuck) :
    (GraphFault.cycle stuck).Present registry g := by
  have hmem := Topology.mem_stuck_iff hn h
  have hcyclic := Topology.cyclic_of_stuck hn h
  simp only [Graph.Acyclic, not_forall, not_not] at hcyclic
  obtain ⟨v, hcycle⟩ := hcyclic
  obtain ⟨w, hvw, -⟩ := TransGen.head'_iff.mp hcycle
  have hv : v ∈ stuck := (hmem v).mpr ⟨hvw.1, v, hcycle, .refl⟩
  have hfeeds {a b : String} (ha : a ∈ stuck) (hab : g.Feeds a b) : b ∈ stuck := by
    obtain ⟨-, u, hu, hua⟩ := (hmem a).mp ha
    exact (hmem b).mpr ⟨hab.2.1, u, hu, hua.tail hab⟩
  refine ⟨Topology.stuck_eq h ▸ List.filter_sublist, v, hv, ?_⟩
  have hwithin {b : String} (hvb : TransGen g.Feeds v b) :
      b ∈ stuck ∧ TransGen (fun a b => a ∈ stuck ∧ b ∈ stuck ∧ g.Feeds a b) v b := by
    induction hvb with
    | single hab => exact ⟨hfeeds hv hab, .single ⟨hv, hfeeds hv hab, hab⟩⟩
    | tail _ hbc ih => exact ⟨hfeeds ih.1 hbc, ih.2.tail ⟨ih.1, hfeeds ih.1 hbc, hbc⟩⟩
  exact (hwithin hcycle).2

theorem ofGraph_present {fault : GraphFault} (h : ofGraph registry g = .error fault) :
    fault.Present registry g := by
  unfold ofGraph at h
  dsimp only at h
  split at h
  · rename_i hempty
    obtain rfl := Except.error.inj h
    exact List.isEmpty_iff.mp hempty
  rcases Except.bind_eq_error.mp h with h | ⟨⟨⟩, hsteps, h⟩
  · exact checkSteps_present h (fun s hs => hs) (.refl _)
  rcases Except.bind_eq_error.mp h with h | ⟨⟨⟩, -, h⟩
  · exact checkHops_present h (fun h hh => hh) (.refl _)
  rcases Except.bind_eq_error.mp h with h | ⟨⟨⟩, -, h⟩
  · obtain ⟨s, hs, h⟩ := Except.forM_eq_error h
    exact checkInputs_present h hs
  rcases Except.bind_eq_error.mp h with h | ⟨t, -, h⟩
  · obtain ⟨stuck, hstuck, rfl⟩ := Except.mapError_eq_error.mp h
    exact stuck_present (checkSteps_eq_ok.mp hsteps).2.1 hstuck
  · cases h

theorem ofGraph_ok_iff : (∃ plan, ofGraph registry g = .ok plan) ↔ g.Fit registry := by
  simp only [ofGraph_eq_ok, checkSteps_eq_ok, checkHops_eq_ok, checkInputs_eq_ok]
  constructor
  · rintro ⟨plan, hsome, ⟨heach, hnames, -⟩, ⟨hends, hhops, -⟩, hinputs, t, ht, -⟩
    exact ⟨hsome, fun s hs => (heach s hs).1, hnames, fun s hs => (heach s hs).2.1,
      fun s hs => (heach s hs).2.2, hends, hhops, hinputs, Topology.acyclic_of_ordered hnames ht⟩
  · intro fit
    obtain ⟨t, ht⟩ : ∃ t, Topology.ofGraph g = .ok t := by
      cases ht : Topology.ofGraph g with
      | ok t => exact ⟨t, rfl⟩
      | error stuck => exact absurd fit.acyclic (Topology.cyclic_of_stuck fit.names ht)
    exact ⟨_, fit.inhabited, ⟨fun s hs => ⟨fit.named s hs, fit.types s hs, fit.copies s hs⟩,
      fit.names, fun _ _ => List.not_mem_nil⟩, ⟨fit.ends, fit.hops, fun _ _ => List.not_mem_nil⟩,
      fit.inputs, t, ht, rfl⟩

end Plan

theorem Graph.feeds_of_mem {h : Hop} (hends : h.source ∈ g.stepNames ∧ h.target ∈ g.stepNames)
    (hh : h ∈ g.enabledHops) : g.Feeds h.source h.target := by
  obtain ⟨hm, henabled⟩ := List.mem_filter.mp hh
  obtain ⟨source, target, enabled⟩ := h
  obtain rfl : enabled = true := henabled
  exact ⟨hends.1, hends.2, hm⟩

namespace Plan

theorem sourcesOf_eq (g : Graph) :
    sourcesOf g = g.stepNames.filter fun v => ∀ h ∈ g.enabledHops, h.target ≠ v := by
  simp only [sourcesOf, Graph.stepNames, List.filter_map, Graph.inputHops]
  congr 1
  refine List.filter_congr fun s _ => ?_
  rw [Bool.eq_iff_iff]
  simp

theorem sinksOf_eq (g : Graph) :
    sinksOf g = g.stepNames.filter fun v => ∀ h ∈ g.enabledHops, h.source ≠ v := by
  simp only [sinksOf, Graph.stepNames, List.filter_map, Graph.outputHops]
  congr 1
  refine List.filter_congr fun s _ => ?_
  rw [Bool.eq_iff_iff]
  simp

theorem sourcesOf_ne_nil (fit : g.Fit registry) : sourcesOf g ≠ [] := by
  intro hnone
  rw [sourcesOf_eq, List.filter_eq_nil_iff] at hnone
  have hfed : ∀ v ∈ g.stepNames, ∃ u ∈ g.stepNames, g.Feeds u v := by
    intro v hv
    obtain ⟨h, hh, rfl⟩ : ∃ h ∈ g.enabledHops, h.target = v := by simpa using hnone v hv
    exact ⟨h.source, (fit.ends h hh).1, Graph.feeds_of_mem (fit.ends h hh) hh⟩
  obtain ⟨s, hs⟩ := List.exists_mem_of_ne_nil _ fit.inhabited
  obtain ⟨v, -, hcycle, -⟩ := exists_cycle hfed (List.mem_map_of_mem hs)
  exact fit.acyclic v hcycle

theorem sinksOf_ne_nil (fit : g.Fit registry) : sinksOf g ≠ [] := by
  intro hnone
  rw [sinksOf_eq, List.filter_eq_nil_iff] at hnone
  have hfeeds : ∀ v ∈ g.stepNames, ∃ u ∈ g.stepNames, Function.swap g.Feeds u v := by
    intro v hv
    obtain ⟨h, hh, rfl⟩ : ∃ h ∈ g.enabledHops, h.source = v := by simpa using hnone v hv
    exact ⟨h.target, (fit.ends h hh).2, Graph.feeds_of_mem (fit.ends h hh) hh⟩
  obtain ⟨s, hs⟩ := List.exists_mem_of_ne_nil _ fit.inhabited
  obtain ⟨v, -, hcycle, -⟩ := exists_cycle hfeeds (List.mem_map_of_mem hs)
  exact fit.acyclic v (transGen_swap.mp hcycle)

/-- Exactly the graphs in which everything is in order have a plan. The plan begins and ends with the
steps, as declared, that no enabled hop leads into or out of, and there are such; where there is no
plan, the graph has the fault that is reported. -/
theorem ofGraph_judges (registry : Registry σ) (g : Graph) :
    ((∃ plan, ofGraph registry g = .ok plan) ↔ g.Fit registry) ∧
    match ofGraph registry g with
    | .ok plan =>
      plan.sources = g.stepNames.filter (fun v => ∀ h ∈ g.enabledHops, h.target ≠ v) ∧
      plan.sinks = g.stepNames.filter (fun v => ∀ h ∈ g.enabledHops, h.source ≠ v) ∧
      plan.sources ≠ [] ∧ plan.sinks ≠ []
    | .error fault => fault.Present registry g := by
  refine ⟨ofGraph_ok_iff, ?_⟩
  cases hplan : ofGraph registry g with
  | ok plan =>
    have fit : g.Fit registry := ofGraph_ok_iff.mp ⟨plan, hplan⟩
    obtain ⟨-, -, -, -, t, -, rfl⟩ := ofGraph_eq_ok.mp hplan
    exact ⟨sourcesOf_eq g, sinksOf_eq g, sourcesOf_ne_nil fit, sinksOf_ne_nil fit⟩
  | error fault => exact ofGraph_present hplan

end Plan

end Sluice
