import Sluice.Proofs.Border.Totals
import Sluice.Proofs.Step.Catalog

/-!
What a step of the catalog has sent out when it is finished: how many rows and faults, and whether
its rows were for one hop alone.
-/

namespace Sluice

section

variable {ρ : Type} {respond : ρ → Row → Option (ρ × List Emission)} {s s' : ρ} {rows : List Row}
  {out : List Emission}

theorem respondAll_forall {P : Emission → Prop}
    (h : ∀ s row s' es, respond s row = some (s', es) → ∀ e ∈ es, P e)
    (hall : respondAll respond s rows = some (s', out)) : ∀ e ∈ out, P e := by
  induction rows generalizing s out with
  | nil =>
    obtain ⟨-, rfl⟩ := respondAll_nil_eq_some.mp hall
    simp
  | cons row rows ih =>
    obtain ⟨s₁, es, rest, hes, hrest, rfl⟩ := respondAll_cons_eq_some.mp hall
    exact List.forall_mem_append.mpr ⟨h _ _ _ _ hes, ih hrest⟩

theorem respondAll_length (h : ∀ s row s' es, respond s row = some (s', es) → es.length = 1)
    (hall : respondAll respond s rows = some (s', out)) : out.length = rows.length := by
  induction rows generalizing s out with
  | nil =>
    obtain ⟨-, rfl⟩ := respondAll_nil_eq_some.mp hall
    simp
  | cons row rows ih =>
    obtain ⟨s₁, es, rest, hes, hrest, rfl⟩ := respondAll_cons_eq_some.mp hall
    rw [List.length_append, h _ _ _ _ hes, ih hrest, List.length_cons, Nat.add_comm]

end

theorem DataErrorPolicy.answer_fault {policy : DataErrorPolicy} {fault : DataFault}
    {es : List Emission} (h : policy.answer fault = some es) : es = [.fault fault.message] := by
  cases policy with
  | skip => simpa [answer] using h.symm
  | abort => simp [answer] at h

/-- The rows of a filter go to one hop each. -/
def Setup.Routes (s : Setup) : Prop :=
  s.spec.type = "filter_rows" ∧ ∃ m, Filter.init s = .ok m ∧ m.routed = true

namespace Filter

theorem outputTo_lt {setup : Setup} {target : Option String} {hop : Option Nat}
    (h : target.mapM setup.outputTo = .ok hop) : ∀ k ∈ hop, k < setup.outputSteps.length := by
  cases target with
  | none =>
    obtain rfl : none = hop := by simpa [pure, Except.pure] using h
    simp
  | some target =>
    obtain ⟨k, hk, hop_eq⟩ := Except.bind_eq_ok.mp h
    obtain rfl : some k = hop := by simpa [pure, Except.pure] using hop_eq
    unfold Setup.outputTo at hk
    split at hk
    · rename_i hfind
      obtain ⟨hlt, -, -⟩ := List.findIdx?_eq_some_iff_getElem.mp hfind
      cases hk
      simpa using hlt
    · cases hk

theorem init_eq_ok {setup : Setup} {m : Memory} (h : init setup = .ok m) :
    ∃ (config : Config) (condition : Condition) (trueTo falseTo : Option Nat),
      Condition.parse config.condition = some condition ∧
      config.trueTo.mapM setup.outputTo = .ok trueTo ∧
      config.falseTo.mapM setup.outputTo = .ok falseTo ∧
      m = { condition := some condition, trueTo, falseTo } := by
  obtain ⟨config, -, h⟩ := Except.bind_eq_ok.mp h
  cases hc : Condition.parse config.condition with
  | none => simp [hc] at h
  | some condition =>
    simp only [hc] at h
    obtain ⟨trueTo, htrue, h⟩ := Except.bind_eq_ok.mp h
    obtain ⟨falseTo, hfalse, h⟩ := Except.bind_eq_ok.mp h
    exact ⟨config, condition, trueTo, falseTo, hc, htrue, hfalse, (Except.ok.inj h).symm⟩

theorem init_targets {setup : Setup} {m : Memory} (h : init setup = .ok m) (keep : Bool) :
    ∀ hop ∈ (if keep then m.trueTo else m.falseTo), hop < setup.outputSteps.length := by
  obtain ⟨config, condition, trueTo, falseTo, -, htrue, hfalse, rfl⟩ := init_eq_ok h
  cases keep with
  | true => exact outputTo_lt htrue
  | false => exact outputTo_lt hfalse

variable {policy : DataErrorPolicy} {condition : Condition} {trueTo falseTo : Option Nat}
  {row : Row} {es : List Emission}

theorem routing_unaimed (hr : (trueTo.isSome || falseTo.isSome) = false) (keep : Bool) :
    ∀ e ∈ routing trueTo falseTo row keep, e.Unaimed := by
  unfold routing
  cases keep <;> simp [hr, Emission.Unaimed, Emission.isSpread]

theorem routing_aimed {hops : Nat} (hr : (trueTo.isSome || falseTo.isSome) = true) (keep : Bool)
    (hlt : ∀ hop ∈ (if keep then trueTo else falseTo), hop < hops) :
    ∀ e ∈ routing trueTo falseTo row keep, e.Aimed hops := by
  unfold routing
  simp only [hr, if_true]
  split
  · rename_i hop hto
    simpa [Emission.Aimed] using hlt hop hto
  · simp

end Filter

theorem passing_respond {s s' : Unit} {row : Row} {es : List Emission}
    (h : passing.respond s row = some (s', es)) : es = [.row none row] := by
  simp only [passing, Option.some.injEq, Prod.mk.injEq] at h
  exact h.2.symm

theorem Abort.respond_eq {threshold s s' : Nat} {row : Row} {es : List Emission}
    (h : (handling threshold).respond s row = some (s', es)) : es = [.row none row] := by
  simp only [handling] at h
  split at h
  · cases h
  · simp only [Option.some.injEq, Prod.mk.injEq] at h
    exact h.2.symm

theorem Select.respond_cases {policy : DataErrorPolicy} {m : Memory} {s s' : Option Layout}
    {row : Row} {es : List Emission} (h : (handling policy m).respond s row = some (s', es)) :
    (∃ message, es = [.fault message]) ∨ ∃ out, es = [.row none out] := by
  obtain ⟨layout, -, h⟩ := Option.bind_eq_some_iff.mp h
  obtain ⟨es', hes, h⟩ := Option.bind_eq_some_iff.mp h
  simp only [Option.pure_def, Option.some.injEq, Prod.mk.injEq] at h
  obtain ⟨-, rfl⟩ := h
  unfold rearrange at hes
  split at hes
  · exact .inl ⟨_, DataErrorPolicy.answer_fault hes⟩
  · obtain ⟨out, -, rfl⟩ := Option.map_eq_some_iff.mp hes
    exact .inr ⟨out, rfl⟩

theorem Filter.respond_cases {policy : DataErrorPolicy} {condition : Condition}
    {trueTo falseTo : Option Nat} {s s' : Unit} {row : Row} {es : List Emission}
    (h : (handling policy condition trueTo falseTo).respond s row = some (s', es)) :
    (∃ message, es = [.fault message]) ∨ ∃ keep, es = routing trueTo falseTo row keep := by
  obtain ⟨es', hes, he⟩ := Option.map_eq_some_iff.mp h
  obtain ⟨-, rfl⟩ := Prod.mk.inj he
  obtain ⟨i, -, hes⟩ := Option.bind_eq_some_iff.mp hes
  split at hes
  · exact .inl ⟨_, DataErrorPolicy.answer_fault hes⟩
  · exact .inr ⟨_, (Option.some.inj hes).symm⟩

namespace Catalog

/-- How a step of the catalog can have finished: what it made of all that it read. -/
inductive Finished (site : Site) (setup : Setup) (j : Journal) : Prop
  | passed (type : setup.spec.type = "dummy" ∨ setup.spec.type = "injector")
      (all : ∃ s, respondAll passing.respond () (j.got.map (·.2)) = some (s, j.out))
  | counted {threshold : Nat} (type : setup.spec.type = "abort")
      (all : ∃ s, respondAll (Abort.handling threshold).respond 0 (j.got.map (·.2)) =
        some (s, j.out))
  | appended {m : Append.Memory} (type : setup.spec.type = "append")
      (init : Append.init setup = .ok m)
      (out : j.out = ((Append.cover site.inputs m.order).flatMap j.from).map (.row none))
  | filtered {m : Filter.Memory} {condition : Condition} (type : setup.spec.type = "filter_rows")
      (init : Filter.init setup = .ok m)
      (all : ∃ s, respondAll (Filter.handling site.policy condition m.trueTo m.falseTo).respond ()
        (j.got.map (·.2)) = some (s, j.out))
  | generated {config : Generate.Config} {limit : Nat} {row : Row}
      (type : setup.spec.type = "generate_rows")
      (config_eq : setup.config (Generate.record.decode true) {} = .ok config)
      (limited : config.limit = some limit) (out : j.out = List.replicate limit (.row none row))
  | selected {m : Select.Memory} (type : setup.spec.type = "select_values")
      (all : ∃ s, respondAll (Select.handling site.policy m).respond none (j.got.map (·.2)) =
        some (s, j.out))

variable {site : Site} {setup : Setup} {t : StepType StepMemory} {m : StepMemory} {j : Journal}

theorem finished (ht : builtins.find? setup.spec.type = some t)
    (hinit : t.behaviour.init setup = .ok m) (h : (m.contract site).finished j) :
    Finished site setup j := by
  obtain ⟨htype, rfl | rfl | rfl | rfl | rfl | rfl | rfl⟩ := find?_cases ht
  · obtain ⟨m, -, rfl⟩ := within_eq_ok hinit
    exact .counted htype.symm h
  · obtain ⟨m, hm, rfl⟩ := within_eq_ok hinit
    exact .appended htype.symm hm h
  · obtain rfl : StepMemory.none = m := by
      simpa [dummy, Behaviour.within, passThrough, Except.map] using hinit
    exact .passed (.inl htype.symm) h
  · obtain ⟨m, hm, rfl⟩ := within_eq_ok hinit
    rcases hc : m.condition with _ | condition
    · simp [StepMemory.contract, hc] at h
    · simp only [StepMemory.contract, hc] at h
      exact .filtered htype.symm hm h
  · obtain ⟨m, hm, rfl⟩ := within_eq_ok hinit
    obtain ⟨config, hconfig, hm⟩ := Except.bind_eq_ok.mp hm
    obtain ⟨fields, -, hm⟩ := Except.bind_eq_ok.mp hm
    simp only [pure, Except.pure, Except.ok.injEq] at hm
    subst hm
    obtain ⟨limit, hlimit, -, hout⟩ := h
    exact .generated htype.symm hconfig hlimit hout
  · obtain rfl : StepMemory.none = m := by
      simpa [injector, Behaviour.within, passThrough, Except.map] using hinit
    exact .passed (.inr htype.symm) h
  · obtain ⟨m, -, rfl⟩ := within_eq_ok hinit
    exact .selected htype.symm h

namespace Finished

theorem unaimed (h : Finished site setup j) (hr : ¬ setup.Routes) : ∀ e ∈ j.out, e.Unaimed := by
  have hspread (row : Row) : ∀ e ∈ [Emission.row none row], e.Unaimed :=
    List.forall_mem_singleton.mpr (.inl rfl)
  have hfault (message : String) : ∀ e ∈ [Emission.fault message], e.Unaimed :=
    List.forall_mem_singleton.mpr (.inr rfl)
  cases h with
  | passed _ all =>
    obtain ⟨s, hs⟩ := all
    exact respondAll_forall (fun _ row _ es hes => passing_respond hes ▸ hspread row) hs
  | counted _ all =>
    obtain ⟨s, hs⟩ := all
    exact respondAll_forall (fun _ row _ es hes => Abort.respond_eq hes ▸ hspread row) hs
  | appended _ _ out =>
    intro e he
    rw [out] at he
    obtain ⟨row, -, rfl⟩ := List.mem_map.mp he
    exact .inl rfl
  | filtered type init all =>
    have hrouted : (_ || _) = false := Bool.eq_false_iff.mpr fun hm => hr ⟨type, _, init, hm⟩
    obtain ⟨s, hs⟩ := all
    refine respondAll_forall (fun _ row _ es hes => ?_) hs
    obtain ⟨message, rfl⟩ | ⟨keep, rfl⟩ := Filter.respond_cases hes
    · exact hfault message
    · exact Filter.routing_unaimed hrouted keep
  | generated _ _ _ out =>
    intro e he
    rw [out] at he
    rw [List.eq_of_mem_replicate he]
    exact .inl rfl
  | selected _ all =>
    obtain ⟨s, hs⟩ := all
    refine respondAll_forall (fun _ row _ es hes => ?_) hs
    obtain ⟨message, rfl⟩ | ⟨out, rfl⟩ := Select.respond_cases hes
    · exact hfault message
    · exact hspread out

theorem aimed (h : Finished site setup j) (hr : setup.Routes) :
    ∀ e ∈ j.out, e.Aimed setup.outputSteps.length := by
  obtain ⟨htype, m, hm, hrouted⟩ := hr
  cases h with
  | filtered _ init all =>
    rw [hm, Except.ok.injEq] at init
    subst init
    obtain ⟨s, hs⟩ := all
    refine respondAll_forall (fun _ row _ es hes => ?_) hs
    obtain ⟨message, rfl⟩ | ⟨keep, rfl⟩ := Filter.respond_cases hes
    · simp [Emission.Aimed]
    · exact Filter.routing_aimed hrouted keep (Filter.init_targets hm keep)
  | passed type => simp [htype] at type
  | counted type | appended type | generated type | selected type => simp [htype] at type

theorem concatenates (h : Finished site setup j) (htype : setup.spec.type = "append")
    {m : Append.Memory} (hinit : Append.init setup = .ok m) :
    j.out = ((Append.cover site.inputs m.order).flatMap j.from).map (.row none) := by
  cases h with
  | appended _ init out =>
    rw [hinit, Except.ok.injEq] at init
    exact init ▸ out
  | passed type => simp [htype] at type
  | counted type | filtered type | generated type | selected type => simp [htype] at type

theorem passes (h : Finished site setup j) (tags : ∀ q ∈ j.got, q.1 < site.inputs)
    (htype : setup.spec.type ∈ ["dummy", "injector", "append", "abort"]) :
    (j.out.filterMap (·.row?)).length = j.got.length := by
  have hone (row : Row) : ∀ e ∈ [Emission.row none row], e.isSpread = true :=
    List.forall_mem_singleton.mpr rfl
  have hrows {ρ σ : Type} {hd : Handling σ ρ} {start : ρ}
      (heq : ∀ s row s' es, hd.respond s row = some (s', es) → es = [.row none row])
      (hall : ∃ s, respondAll hd.respond start (j.got.map (·.2)) = some (s, j.out)) :
      (j.out.filterMap (·.row?)).length = j.got.length := by
    obtain ⟨s, hs⟩ := hall
    rw [Emission.length_rows (respondAll_forall (fun s row s' es h => heq s row s' es h ▸ hone row) hs),
      respondAll_length (fun s row s' es h => by rw [heq s row s' es h]; rfl) hs, List.length_map]
  cases h with
  | passed _ all => exact hrows (fun _ _ _ _ => passing_respond) all
  | counted _ all => exact hrows (fun _ _ _ _ => Abort.respond_eq) all
  | appended _ init out =>
    have perm := Append.cover_perm site.inputs (Append.init_perm init)
    calc (j.out.filterMap (·.row?)).length
        = j.out.length := Emission.length_rows fun e he => by
          obtain ⟨row, -, rfl⟩ := List.mem_map.mp (out ▸ he)
          rfl
      _ = ((List.range site.inputs).map j.from).flatten.length := by
        rw [out, List.length_map, (perm.flatMap_right j.from).length_eq, List.flatMap_def]
      _ = j.got.length := j.length_from tags
  | filtered type | generated type | selected type => simp [type] at htype

theorem selects (h : Finished site setup j) (htype : setup.spec.type = "select_values") :
    j.got.length = (j.out.filterMap (·.row?)).length + (j.out.filterMap (·.fault?)).length := by
  cases h with
  | selected _ all =>
    obtain ⟨s, hs⟩ := all
    rw [Emission.length_rows_faults, respondAll_length (fun _ row _ es hes => ?_) hs,
      List.length_map]
    obtain ⟨message, rfl⟩ | ⟨out, rfl⟩ := Select.respond_cases hes <;> rfl
  | passed type => simp [htype] at type
  | counted type | appended type | generated type | filtered type => simp [htype] at type

theorem generates (h : Finished site setup j) (htype : setup.spec.type = "generate_rows") :
    ∃ config, setup.config (Generate.record.decode true) {} = .ok config ∧
      config.limit = some (j.out.filterMap (·.row?)).length := by
  cases h with
  | @generated config limit row _ config_eq limited out =>
    refine ⟨config, config_eq, ?_⟩
    rw [limited, out, Emission.length_rows, List.length_replicate]
    intro e he
    rw [List.eq_of_mem_replicate he]
    rfl
  | passed type => simp [htype] at type
  | counted type | appended type | selected type | filtered type => simp [htype] at type

end Finished

end Catalog

end Sluice
