import Sluice.Proofs.Run.Wired

/-!
Preparing a run sets its units up in the order of the plan, so that a step is only set up after all
that lead to it. The first unit whose step cannot be set up ends the run: those before it are
disposed of, those after it are left alone, and nothing calls a step of the run any more. A step
that panics on the way, also while it is disposed of, leaves the others as they stand.
-/

namespace Sluice

open Relation

variable {σ : Type}

theorem List.pair_sublist_of_prefix {α : Type} {l front : List α} {a b : α} (hn : l.Nodup)
    (hfront : front <+: l) (hab : [a, b].Sublist l) (hb : b ∈ front) : [a, b].Sublist front := by
  obtain ⟨rest, rfl⟩ := hfront
  have hout : b ∉ rest := fun hrest => (List.nodup_append.mp hn).2.2 b hb b hrest rfl
  obtain ⟨l₁, l₂, heq, h₁, h₂⟩ := List.sublist_append_iff.mp hab
  rcases List.eq_nil_or_concat l₂ with rfl | ⟨m, c, rfl⟩
  · rwa [heq, List.append_nil]
  · have hc : b = c := by simpa using congrArg List.getLast? heq
    exact absurd (h₂.subset (by simp [hc])) hout

namespace RunUnit

structure Quiet (u : RunUnit σ) : Prop where
  errors : u.border.counters.errors = 0
  messages : u.border.counters.messages = #[]

variable {registry : Registry σ} {u v : RunUnit σ}

theorem Fresh.quiet (h : u.Fresh) : u.Quiet :=
  ⟨congrArg Counters.errors h.counters, congrArg Counters.messages h.counters⟩

theorem Initiated.initialized (hf : u.Fresh) (h : u.Initiated registry v) :
    v.life.state = .initialized ∧ v.Quiet := by
  obtain ⟨t, m, -, -, rfl⟩ := h
  refine ⟨?_, hf.quiet.errors, hf.quiet.messages⟩
  change (u.life.advance .initialized).state = _
  rw [hf.life]
  rfl

theorem Initiated.shelved (hf : u.Fresh) (h : u.Initiated registry v) :
    v.shelve.stage = .unstarted ∧ v.shelve.Able registry ∧ v.shelve.life.state = .disposed ∧
      v.shelve.Quiet := by
  obtain ⟨-, hstage, hsetup⟩ := v.shelve_same
  obtain ⟨t, m, ht, hm, rfl⟩ := h
  refine ⟨hstage.trans hf.stage, ?_, ?_, ?_⟩
  · rw [Able, hsetup]
    exact ⟨t, m, ht, hm⟩
  · simp only [shelve, Option.isSome_some, if_true, hf.life]
    rfl
  · simp only [shelve, Option.isSome_some, if_true]
    exact ⟨hf.quiet.errors, hf.quiet.messages⟩

end RunUnit

/-- No step-copy is set up twice, and none before a copy of a step that leads to its own. -/
structure Graph.UpstreamFirst (g : Graph) (made : List Event) : Prop where
  once : ∀ id, made.count (.init id) ≤ 1
  upstream : ∀ a b, a ∈ g.copies a.step → TransGen g.Feeds a.step b.step → .init b ∈ made →
    [.init a, .init b].Sublist made

/-- The calls by which a panic cuts the setting up of these units short. One that is disposed of
panics only after another has failed. -/
inductive CutShort (registry : Registry σ) (units : List (RunUnit σ)) (payload : Option String) :
    List Event → Prop
  | setting {done rest : List (RunUnit σ)} {u : RunUnit σ} (split : units = done ++ u :: rest)
      (able : ∀ v ∈ done, v.Able registry) (panics : u.Unable registry (.panic payload)) :
      CutShort registry units payload ((done ++ [u]).map fun v => .init v.id)
  | disposing {gone others rest : List (RunUnit σ)} {u failed : RunUnit σ} {e : StepError}
      (split : units = gone ++ u :: others ++ failed :: rest)
      (able : ∀ v ∈ gone ++ u :: others, v.Able registry)
      (unable : failed.Unable registry (.error e)) (panics : u.Breaks registry payload) :
      CutShort registry units payload ((gone ++ u :: others ++ [failed]).map (fun v => .init v.id) ++
        (gone ++ [u]).map fun v => .dispose v.id)

theorem Plan.Valid.copies_sublist {registry : Registry σ} {g : Graph} {plan : Plan}
    (hvalid : plan.Valid registry g) {a b : UnitId} (ha : a ∈ g.copies a.step)
    (hab : TransGen g.Feeds a.step b.step) (hb : b ∈ plan.topology.order.flatMap g.copies) :
    [a, b].Sublist (plan.topology.order.flatMap g.copies) := by
  obtain ⟨-, hlegal⟩ := hvalid.ordered
  obtain ⟨v, hv, hb⟩ := List.mem_flatMap.mp hb
  obtain rfl := Wiring.copies_step hb
  rw [← Topology.edges_feed] at hab
  have horder : [a.step, b.step].Sublist plan.topology.order := by
    rw [← List.reverse_sublist]
    exact hlegal.sublist hab (List.mem_reverse.mpr hv)
  refine List.Sublist.trans ?_ (horder.flatMap g.copies)
  simpa using (List.singleton_sublist.mpr ha).append (List.singleton_sublist.mpr hb)

theorem Plan.Valid.upstreamFirst {registry : Registry σ} {g : Graph} {plan : Plan}
    (hvalid : plan.Valid registry g) {tried : List (RunUnit σ)}
    (htried : tried.map (·.id) <+: plan.topology.order.flatMap g.copies)
    (disposed : List (RunUnit σ)) :
    g.UpstreamFirst (tried.map (fun u => .init u.id) ++ disposed.map fun u => .dispose u.id) := by
  have hnodup := Wiring.nodup_copies (g := g) hvalid.ordered.1
  have hinits : tried.map (fun u => Event.init u.id) = (tried.map (·.id)).map .init := by simp
  have hinjective : Function.Injective Event.init := fun _ _ h => Event.init.inj h
  refine ⟨fun id => ?_, fun a b ha hab hb => ?_⟩
  · have hnone : (disposed.map fun u => Event.dispose u.id).count (.init id) = 0 :=
      List.count_eq_zero.mpr (by simp)
    rw [List.count_append, hnone, hinits, List.count_map_of_injective _ _ hinjective]
    exact List.nodup_iff_count_le_one.mp (hnodup.sublist htried.sublist) id
  · have hmem : b ∈ tried.map (·.id) := by simpa using hb
    have hpair := hvalid.copies_sublist ha hab (htried.subset hmem)
    rw [hinits]
    exact ((List.pair_sublist_of_prefix hnodup htried hpair hmem).map Event.init).trans
      (List.sublist_append_left _ _)

theorem prefix_of_split {done rest : List (RunUnit σ)} {u : RunUnit σ} :
    (done ++ [u]).map (·.id) <+: (done ++ u :: rest).map (·.id) :=
  ⟨rest.map (·.id), by simp⟩

theorem CutShort.upstreamFirst {registry : Registry σ} {g : Graph} {plan : Plan}
    {units : List (RunUnit σ)} {payload : Option String} {made : List Event}
    (h : CutShort registry units payload made) (hvalid : plan.Valid registry g)
    (hids : units.map (·.id) = plan.topology.order.flatMap g.copies) : g.UpstreamFirst made := by
  cases h with
  | setting split =>
    have hfirst := hvalid.upstreamFirst (hids ▸ split ▸ prefix_of_split) []
    simpa using hfirst
  | disposing split =>
    exact hvalid.upstreamFirst (hids ▸ split ▸ prefix_of_split) _

theorem CutShort.not_composed {registry : Registry σ} {units : List (RunUnit σ)}
    {payload : Option String} {made : List Event} (h : CutShort registry units payload made) :
    ¬ registry.Composed := by
  intro hcomposed
  cases h with
  | setting _ _ panics =>
    obtain ⟨t, ht, hm⟩ := panics
    exact hcomposed.init t (List.mem_of_find?_eq_some ht) _ _ hm
  | disposing _ _ _ panics =>
    obtain ⟨t, m, ht, -, hd⟩ := panics
    have hok := hcomposed.calm t (List.mem_of_find?_eq_some ht) m
    simp [hd] at hok

namespace Run

variable {r r' : Run σ}

/-- All units were set up, one after another. -/
structure AllSetUp (r : Run σ) (made : List Event) : Prop where
  phase : r.phase = .prepared
  units : ∀ u ∈ r.units, u.Able r.registry ∧ u.life.state = .initialized ∧ u.Quiet
  calls : made = r.units.map fun u => .init u.id

/-- All units before one were set up and disposed of, and none after it was touched. -/
structure SetBack (r : Run σ) (made : List Event) (unit : UnitId) (e : StepError)
    (done : List (RunUnit σ)) (failed : RunUnit σ) (rest : List (RunUnit σ)) : Prop where
  phase : r.phase = .finished
  units : r.units = done ++ failed :: rest
  unstarted : ∀ u ∈ r.units, u.stage = .unstarted
  calls : made = (done ++ [failed]).map (fun u => .init u.id) ++ done.map fun u => .dispose u.id
  before : ∀ u ∈ done, u.Able r.registry ∧ u.life.state = .disposed ∧ u.Quiet
  unit : failed.id = unit ∧ failed.Unable r.registry (.error e)
  created : failed.life.state = .created
  errors : failed.border.counters.errors = 1
  messages : failed.border.counters.messages = #[e.message]
  after : ∀ u ∈ rest, u.life.state = .created ∧ u.Quiet

theorem AllSetUp.of_initiated {fresh units : List (RunUnit σ)} (hfresh : ∀ u ∈ fresh, u.Fresh)
    (h : List.Forall₂ (RunUnit.Initiated r.registry) fresh units) (hphase : r.phase = .prepared)
    (hunits : r.units = units) : r.AllSetUp (fresh.map fun u => .init u.id) := by
  subst hunits
  refine ⟨hphase, fun v hv => ?_, ?_⟩
  · obtain ⟨i, hat⟩ := List.getElem?_of_mem hv
    obtain ⟨u, hu, hinit⟩ := List.forall₂_getElem? h hat
    exact ⟨hinit.able.2, hinit.initialized (hfresh u (List.mem_of_getElem? hu))⟩
  · have hinits := congrArg (List.map Event.init) (RunUnit.Initiated.ids h)
    simpa [Function.comp_def] using hinits.symm

theorem SetBack.of_initiated {done done' rest : List (RunUnit σ)} {failed : RunUnit σ}
    {e : StepError} (hfresh : ∀ u ∈ done ++ failed :: rest, u.Fresh)
    (h : List.Forall₂ (RunUnit.Initiated r.registry) done done')
    (hunable : failed.Unable r.registry (.error e)) (hphase : r.phase = .finished)
    (hunits : r.units = done'.map RunUnit.shelve ++ failed.record e.message :: rest) :
    r.SetBack ((done ++ [failed]).map (fun u => .init u.id) ++ done.map fun u => .dispose u.id)
      failed.id e (done'.map RunUnit.shelve) (failed.record e.message) rest := by
  simp only [List.forall_mem_append, List.forall_mem_cons] at hfresh
  obtain ⟨hdoneFresh, hfailed, hrest⟩ := hfresh
  have hids := RunUnit.Initiated.shelve_ids h
  have hdone : ∀ v ∈ done'.map RunUnit.shelve, v.stage = .unstarted ∧ v.Able r.registry ∧
      v.life.state = .disposed ∧ v.Quiet := by
    intro v hv
    obtain ⟨u', hu', rfl⟩ := List.mem_map.mp hv
    obtain ⟨i, hat⟩ := List.getElem?_of_mem hu'
    obtain ⟨u, hu, hinit⟩ := List.forall₂_getElem? h hat
    exact hinit.shelved (hdoneFresh u (List.mem_of_getElem? hu))
  refine ⟨hphase, hunits, ?_, ?_, fun v hv => (hdone v hv).2, ⟨rfl, hunable⟩,
    congrArg Lifecycle.state hfailed.life, ?_, ?_, fun u hu => ?_⟩
  · rw [hunits]
    exact List.forall_mem_append.mpr ⟨fun v hv => (hdone v hv).1,
      List.forall_mem_cons.mpr ⟨hfailed.stage, fun u hu => (hrest u hu).stage⟩⟩
  · have hinits := congrArg (List.map Event.init) hids
    have hdisposals := congrArg (List.map Event.dispose) hids
    simp only [List.map_map, Function.comp_def] at hinits hdisposals
    simp only [List.map_append, List.map_map, Function.comp_def, hinits, hdisposals]
    rfl
  · simp [RunUnit.record, Border.recordError, Counters.recordError, hfailed.counters]
  · simp [RunUnit.record, Border.recordError, Counters.recordError, hfailed.counters]
  · exact ⟨congrArg Lifecycle.state (hrest u hu).life, (hrest u hu).quiet⟩

/-- Nothing calls a step of a run that is over before any unit was started. -/
theorem undergo_spent (hp : r.phase = .finished) (hu : ∀ u ∈ r.units, u.stage = .unstarted)
    (h : Happening) : (r.undergo h).phase = .finished ∧
      (∀ u ∈ (r.undergo h).units, u.stage = .unstarted) ∧ (r.undergo h).calls = r.calls := by
  cases h with
  | abandon =>
    obtain ⟨hunits, hcalls, hphase, -⟩ := r.abandon_same
    have hunload : r.unload = ⟨r.units, [], none⟩ := if_neg (by simp [hp])
    rw [hunload] at hunits hcalls
    rw [undergo, hunits]
    exact ⟨hphase.trans hp, hu, hcalls⟩
  | deed d => exact (r.act_acted d).spent hp hu

theorem through_spent (hp : r.phase = .finished) (hu : ∀ u ∈ r.units, u.stage = .unstarted)
    (hs : List Happening) : (r.through hs).calls = r.calls := by
  induction hs generalizing r with
  | nil => rfl
  | cons h hs ih =>
    obtain ⟨hp', hu', hcalls⟩ := undergo_spent hp hu h
    exact (ih hp' hu').trans hcalls

theorem SetBack.silent {made : List Event} {unit : UnitId} {e : StepError}
    {done rest : List (RunUnit σ)} {failed : RunUnit σ} (h : r.SetBack made unit e done failed rest) :
    (∃ done failed rest, r.SetBack made unit e done failed rest) ∧
      ∀ later : List Happening, (r.through later).calls = r.calls :=
  ⟨⟨done, failed, rest, h⟩, through_spent h.phase h.unstarted⟩

/-- Whatever was asked of a run before, preparing it sets up every step-copy at most once, and none
before those that lead to it. The first that fails sets the run back for good. A panic leaves the
run new, and what was set up by then is never disposed of, or only in part. -/
theorem prepared_in_order (registry : Registry σ) (settings : Settings) (g : Graph)
    (armed : List String) (before : List Deed) :
    let r := (Run.new registry settings g armed).after before
    let r' := r.prepare.2
    ∃ made, r'.calls.reverse = r.calls.reverse ++ made ∧ g.UpstreamFirst made ∧
      match r.prepare.1 with
      | .ok () => g.Listed (r'.units.map (·.id)) ∧ r'.AllSetUp made
      | .error (.init unit e) => g.Listed (r'.units.map (·.id)) ∧
          (∃ done failed rest, r'.SetBack made unit e done failed rest) ∧
          ∀ later : List Happening, (r'.through later).calls = r'.calls
      | .error (.panicked payload) => ¬ registry.Composed ∧ r.phase = .new ∧
          r' = { r with calls := r'.calls } ∧
          ∃ plan w, r.wire = .ok (plan, w) ∧ CutShort registry w.units payload made
      | .error _ => made = [] ∧ r'.units = r.units ∧ (r.phase = .new →
          settings.check ≠ .ok () ∨ ∀ plan, Plan.ofGraph registry g ≠ .ok plan) := by
  intro r r'
  obtain ⟨hgraph, hsettings, hregistry, -⟩ : r.graph = g ∧ r.settings = settings ∧
    r.registry = registry ∧ r.armed = armed :=
    given_after (Run.new registry settings g armed) before
  have hnothing : g.UpstreamFirst ([] : List Event) := ⟨by simp, by simp⟩
  by_cases hp : r.phase = .new
  swap
  · have hrefused : r.prepare = (.error (.outOfPhase .prepare r.phase), r) := by
      unfold prepare expect
      rw [if_neg hp]
    simp only [r', hrefused]
    exact ⟨[], by simp, hnothing, rfl, trivial, fun hnew => absurd hnew hp⟩
  have hblank : r.Blank := ((orderly_new registry settings g armed).after before).blank hp
  rcases hblank.prepare_cases hp with ⟨e, he, h⟩ | ⟨fault, -, he, h⟩ | ⟨plan, w, hw, h⟩
  · simp only [r', h]
    exact ⟨[], by simp, hnothing, rfl, trivial, fun _ => .inl (by rw [← hsettings, he]; simp)⟩
  · simp only [r', h]
    exact ⟨[], by simp, hnothing, rfl, trivial,
      fun _ => .inr (by rw [← hregistry, ← hgraph, he]; simp)⟩
  obtain ⟨hvalid, hcharted, hids, -⟩ := hblank.wired hw
  have hlisted := Wiring.listed_of_valid hvalid
  have hset := r.setUp_installed plan hcharted.laid.fresh fun u hu =>
    hvalid.types _ (hcharted.laid.named u hu).1
  rw [hgraph] at hvalid hids hlisted
  have hcut {payload : Option String} {made : List Event}
      (hc : CutShort r.registry w.units payload made) : g.UpstreamFirst made ∧
        ¬ registry.Composed ∧ ∃ plan w, r.wire = .ok (plan, w) ∧
          CutShort registry w.units payload made :=
    ⟨hc.upstreamFirst hvalid hids, hregistry ▸ hc.not_composed, plan, w, hw, hregistry ▸ hc⟩
  simp only [r', h]
  generalize r.setUp plan w = outcome at hset
  cases hset with
  | @all units initiated =>
    have hsame : units.map (·.id) = _ := (RunUnit.Initiated.ids initiated).trans hids
    have htried : w.units.map (·.id) <+: plan.topology.order.flatMap g.copies := by
      rw [← hids, Wiring.ids]
    exact ⟨_, by simp, by simpa using hvalid.upstreamFirst htried [], hsame ▸ hlisted,
      .of_initiated hcharted.laid.fresh initiated rfl rfl⟩
  | @back done done' rest failed e split initiated unable =>
    have hsame :
        (done'.map RunUnit.shelve ++ failed.record e.message :: rest).map (·.id) = w.ids := by
      rw [Wiring.ids, split, List.map_append, List.map_append, RunUnit.Initiated.shelve_ids initiated]
      rfl
    have htried : (done ++ [failed]).map (·.id) <+: plan.topology.order.flatMap g.copies := by
      rw [← hids, Wiring.ids, split]
      exact prefix_of_split
    exact ⟨_, by simp, hvalid.upstreamFirst htried _, (hsame.trans hids) ▸ hlisted,
      SetBack.silent (.of_initiated (split ▸ hcharted.laid.fresh) initiated unable rfl rfl)⟩
  | panicked split initiated unable =>
    obtain ⟨hfirst, hcalm, hwired⟩ :=
      hcut (.setting split (RunUnit.Initiated.all_able initiated) unable)
    exact ⟨_, by simp, hfirst, hcalm, hp, rfl, hwired⟩
  | unwound split able unable breaks =>
    obtain ⟨hfirst, hcalm, hwired⟩ := hcut (.disposing split able unable breaks)
    exact ⟨_, by simp, hfirst, hcalm, hp, rfl, hwired⟩

/-- Three steps in a row; the one in the middle has no condition to filter by. -/
def unconditioned : Graph where
  steps := [{ name := "c", type := "dummy" }, { name := "b", type := "filter_rows" },
    { name := "a", type := "injector", copies := 2 }]
  hops := [⟨"a", "b", true⟩, ⟨"b", "c", true⟩]

def unable? : Except RunError Unit → Option UnitId
  | .error (.init unit _) => some unit
  | _ => none

theorem unconditioned_set_back :
    let r := Run.new Catalog.builtins {} unconditioned
    let r' := r.prepare.2
    r'.calls.reverse = [.init ⟨"a", 0⟩, .init ⟨"a", 1⟩, .init ⟨"b", 0⟩, .dispose ⟨"a", 0⟩,
      .dispose ⟨"a", 1⟩] ∧
    (∃ e done failed rest, r'.SetBack r'.calls.reverse ⟨"b", 0⟩ e done failed rest) ∧
      ∀ later : List Happening, (r'.through later).calls = r'.calls := by
  have hcalls : (Run.new Catalog.builtins {} unconditioned).prepare.2.calls.reverse =
      [.init ⟨"a", 0⟩, .init ⟨"a", 1⟩, .init ⟨"b", 0⟩, .dispose ⟨"a", 0⟩, .dispose ⟨"a", 1⟩] := by
    decide +kernel
  have hunable : unable? (Run.new Catalog.builtins {} unconditioned).prepare.1 = some ⟨"b", 0⟩ := by
    decide +kernel
  have hnone : (Run.new Catalog.builtins {} unconditioned).calls = [] := rfl
  have h := prepared_in_order Catalog.builtins {} unconditioned [] []
  simp only [after, List.foldl_nil] at h
  generalize Run.new Catalog.builtins {} unconditioned = r at *
  obtain ⟨made, hmade, -, h⟩ := h
  obtain rfl : r.prepare.2.calls.reverse = made := by simpa [hnone] using hmade
  refine ⟨hcalls, ?_⟩
  rcases hout : r.prepare.1 with e | _ <;> rw [hout] at h hunable
  · cases e with
    | init unit e =>
      obtain rfl : unit = ⟨"b", 0⟩ := Option.some.inj hunable
      exact ⟨h.2.1.elim fun done hback => ⟨e, done, hback⟩, h.2.2⟩
    | _ => cases hunable
  · cases hunable

/-- Three steps in a row. The last cannot be set up; then the first panics as it is disposed of. -/
def brittle : Graph where
  steps := [{ name := "a", type := "probe", config := .obj [("dispose_panic", .str "boom")] },
    { name := "b", type := "probe" },
    { name := "c", type := "probe",
      config := .obj [("init_error", .arr [.str "config", .str "no"])] }]
  hops := [⟨"a", "b", true⟩, ⟨"b", "c", true⟩]

/-- A panic that nobody catches: the step in the middle was set up and is never disposed of, and the
run is not over, so that preparing it once more sets steps up again. -/
theorem brittle_unwinds :
    let r := Run.new ⟨[Catalog.scripted "probe" "" 0 none]⟩ {} brittle
    let r' := r.prepare.2
    unable? r.prepare.1 = none ∧ r'.phase = .new ∧ r'.units.isEmpty ∧
      r'.calls.reverse = [.init ⟨"a", 0⟩, .init ⟨"b", 0⟩, .init ⟨"c", 0⟩, .dispose ⟨"a", 0⟩] ∧
      (r'.through [.deed .prepare]).calls.length = 8 ∧
      (r'.through [.deed .prepare, .abandon]).calls.count (.dispose ⟨"b", 0⟩) = 0 := by
  decide +kernel

end Run

end Sluice
