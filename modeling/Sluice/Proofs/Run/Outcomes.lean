import Sluice.Proofs.Run.Balance
import Sluice.Proofs.Run.Failing
import Sluice.Proofs.Run.Threads

/-!
How runs come out. Whoever waits for a run is told of units that are all disposed of, each in one of
three end states. Where not all of them finished, somebody outside asked the run to stop, or a unit
failed and tells why; so what stopped a unit can be found. Where the system refused a thread, the
unit that was to have it tells that.
-/

namespace Sluice

variable {σ : Type}

namespace RunUnit

variable {u u' : RunUnit σ} {net : Net} {armed : List String} {t : Touch}

/-- Stops the run because of an error of its own, or has done so. -/
def Failing (u : RunUnit σ) : Prop :=
  (∃ todo, u.stage = .failing todo) ∨ u.ending = some .errored

theorem Failing.moved (h : u.Failing) (hl : u.Lively) (hm : u.Moved net armed t u') :
    u'.Failing := by
  obtain ⟨todo, hs⟩ | he := h
  · cases hm with
    | stop_on => exact .inl ⟨_, rfl⟩
    | failed => exact .inr rfl
    | _ => simp_all
  · exact .inr (hl.ending_moved hm he)

/-- Of the units only those that fail raise the flag. -/
theorem Moved.raises {stopping : Prop} (h : u.Moved net armed .raise u') (ho : u.Owing stopping) :
    u'.Failing := by
  obtain ⟨action, rest, owed, does, ⟨-, rfl⟩ | ⟨ending, stage, -⟩⟩ := h.ends (.inl rfl)
  · exact .inl ⟨_, rfl⟩
  · simp only [Owing, stage] at ho
    obtain ⟨c, -, rfl | rfl⟩ := ho _ List.mem_cons_self <;> cases does

end RunUnit

theorem Producer.Moved.raises_not {p p' : Producer} {net : Net} (h : p.Moved net .raise p') :
    ¬ p.Owing := by
  intro ho
  cases h with
  | act todo does =>
    obtain ⟨c, -, rfl | rfl⟩ := ho _ (todo ▸ List.mem_cons_self) <;> cases does

namespace Run

variable {r r' : Run σ} {P : Run σ → Prop} {d : Deed} {asked : Prop}

/-- A run is being stopped because somebody outside asked for it or because a unit failed. -/
structure Caused (r : Run σ) (asked : Prop) : Prop where
  stops : r.stops ≠ [] → asked
  raised : r.net.stopping = true → asked ∨ ∃ u ∈ r.units, u.Failing

theorem Caused.stepped (h : r.Caused asked) (ho : r.Orderly)
    (kept : (∃ u ∈ r.units, u.Failing) → ∃ u ∈ r'.units, u.Failing) {party : Party} {t : Touch}
    (hs : r.Stepped party t r') : r'.Caused asked := by
  have hraised (hnew : t = .raise → asked ∨ ∃ u ∈ r'.units, u.Failing)
      (hstop : r'.net.stopping = true) : asked ∨ ∃ u ∈ r'.units, u.Failing := by
    by_cases ht : t = .raise
    · exact hnew ht
    · rw [hs.touched.stopping_of_ne ht] at hstop
      exact (h.raised hstop).imp_right kept
  cases hs with
  | @unit i u u' t net calls at_i moved touched =>
    refine ⟨h.stops, hraised ?_⟩
    rintro rfl
    exact .inr ⟨u', List.mem_set (List.getElem?_eq_some_iff.mp at_i).1 u',
      moved.raises (ho.units u (List.mem_of_getElem? at_i))⟩
  | producer at_k moved touched =>
    refine ⟨h.stops, hraised ?_⟩
    rintro rfl
    exact absurd (ho.producers _ (List.mem_of_getElem? at_k)) moved.raises_not
  | stop at_k =>
    have hasked := h.stops (List.ne_nil_of_mem (List.mem_of_getElem? at_k))
    exact ⟨fun _ => hasked, hraised fun _ => .inl hasked⟩

theorem Begun.failing_kept (h : r.Begun P) (ho : r.Orderly) (ha : r.Acted d r')
    (hf : ∃ u ∈ r.units, u.Failing) : ∃ u ∈ r'.units, u.Failing := by
  obtain ⟨u, hu, hf⟩ := hf
  have hmodify {k : Nat} {f : RunUnit σ → RunUnit σ} (hkeep : u.Failing → (f u).Failing) :
      ∃ v ∈ r.units.modify k f, v.Failing := by
    obtain ⟨i, hi⟩ := List.getElem?_of_mem hu
    by_cases hk : k = i
    · exact ⟨f u, List.mem_of_getElem? (i := i) (by simp [hi, hk]), hkeep hf⟩
    · exact ⟨u, List.mem_of_getElem? (i := i) (by simp [hi, hk]), hf⟩
  cases ha with
  | idle | offered | finishing | stopped | waited => exact ⟨u, hu, hf⟩
  | spoiled phase | unwound phase | shelved phase | prepared phase =>
    simp [(ho.blank phase).units] at hu
  | fed => exact hmodify fun hf => hf
  | observed => exact hmodify fun hf => hf
  | started phase =>
    obtain ⟨afoot, -⟩ := h.of_unit ho hu fun shelved => by
      simp [RunUnit.Failing, RunUnit.ending, shelved.stage] at hf
    simp [RunUnit.Failing, RunUnit.ending, (afoot.unstarted u hu).mpr phase] at hf
  | moved stepped =>
    obtain ⟨i, hi⟩ := List.getElem?_of_mem hu
    obtain ⟨v, hv, rfl | hm⟩ := stepped.forth hi
    · exact ⟨v, List.mem_of_getElem? hv, hf⟩
    · exact ⟨v, List.mem_of_getElem? hv, hf.moved (h.lively ho u hu) hm⟩

theorem Caused.acted (h : r.Caused asked) (ho : r.Orderly) (hb : r.Begun P) (ha : r.Acted d r') :
    r'.Caused (asked ∨ .stop = d) := by
  have hkept := hb.failing_kept ho ha
  have hwider {r'' : Run σ} (h : r''.Caused asked) : r''.Caused (asked ∨ .stop = d) :=
    ⟨fun hs => .inl (h.stops hs), fun hs => (h.raised hs).imp_left .inl⟩
  have hsame (hstops : r'.stops = r.stops) (hstopping : r'.net.stopping = r.net.stopping) :
      r'.Caused (asked ∨ .stop = d) :=
    hwider ⟨fun hs => h.stops (hstops ▸ hs), fun hs => (h.raised (hstopping ▸ hs)).imp_right hkept⟩
  cases ha with
  | shelved phase wired => exact hsame rfl (ho.wired phase wired).2.2
  | prepared phase wired => exact hsame rfl (ho.wired phase wired).2.2
  | stopped => exact ⟨fun _ => .inr rfl, fun _ => .inl (.inr rfl)⟩
  | moved stepped => exact hwider (h.stepped ho hkept stepped)
  | _ => exact hsame rfl rfl

theorem caused_after (registry : Registry σ) (settings : Settings) (g : Graph)
    (armed : List String) (ds : List Deed) :
    ((Run.new registry settings g armed).after ds).Caused (.stop ∈ ds) := by
  induction ds using List.reverseRecOn with
  | nil => exact ⟨by simp [after, Run.new], by simp [after, Run.new]⟩
  | append_singleton ds d ih =>
    obtain ⟨ho, hb⟩ := begun_always registry settings g armed ds
    rw [after_append, List.mem_append, List.mem_singleton]
    exact ih.acted ho hb (act_acted _ d)

/-- What whoever has waited for a run is told, and can rely on. -/
structure Accounted (r : Run σ) (report : RunReport) (asked : Prop) : Prop where
  units : report.units = r.units.map unitReport
  disposed : ∀ u ∈ r.units, u.life.state = .disposed
  ended : ∀ u ∈ report.units, u.state = .finished ∨ u.state = .stopped ∨ u.state = .errored
  success : report.success = true ↔ ∀ u ∈ report.units, u.state = .finished
  failure : report.success = false → asked ∨
    ∃ u ∈ report.units, u.state = .errored ∧ u.messages ≠ []
  stopped : (∃ u ∈ report.units, u.state = .stopped) → asked ∨
    ∃ u ∈ report.units, u.state = .errored ∧ u.messages ≠ []

/-- The same where the system may have refused some threads. A unit that got none is only disposed
of, and tells why it got none. -/
structure AccountedUnder (r : Run σ) (refuses : UnitId → Option String) (report : RunReport)
    (asked : Prop) : Prop where
  units : report.units = r.units.map unitReport
  disposed : ∀ u ∈ r.units, u.life.state = .disposed
  granted : ∀ u ∈ report.units, refuses u.unit = none →
    u.state = .finished ∨ u.state = .stopped ∨ u.state = .errored
  refused : ∀ u ∈ report.units, ∀ reason, refuses u.unit = some reason →
    u.state = .disposed ∧ "thread spawn failed: " ++ reason ∈ u.messages
  success : report.success = true ↔ ∀ u ∈ report.units, u.state = .finished
  failure : report.success = false → asked ∨
    ∃ u ∈ report.units, (u.state = .errored ∨ (refuses u.unit).isSome) ∧ u.messages ≠ []
  stopped : (∃ u ∈ report.units, u.state = .stopped) → asked ∨
    ∃ u ∈ report.units, (u.state = .errored ∨ (refuses u.unit).isSome) ∧ u.messages ≠ []

variable {refuses : UnitId → Option String} {report : RunReport}

theorem success_iff (report : RunReport) :
    report.success = true ↔ ∀ u ∈ report.units, u.state = .finished := by
  simp [RunReport.success]

theorem Accounted.under (h : r.Accounted report asked) (hg : ∀ u ∈ r.units, refuses u.id = none) :
    r.AccountedUnder refuses report asked := by
  have hcause (hc : asked ∨ ∃ u ∈ report.units, u.state = .errored ∧ u.messages ≠ []) : asked ∨
      ∃ u ∈ report.units, (u.state = .errored ∨ (refuses u.unit).isSome) ∧ u.messages ≠ [] :=
    hc.imp_right fun ⟨u, hu, hs, hm⟩ => ⟨u, hu, .inl hs, hm⟩
  refine ⟨h.units, h.disposed, fun v hv _ => h.ended v hv, fun v hv reason hr => ?_, h.success,
    fun hf => hcause (h.failure hf), fun hs => hcause (h.stopped hs)⟩
  obtain ⟨u, hu, rfl⟩ := List.mem_map.mp (h.units ▸ hv)
  exact absurd (hg u hu) (by rw [show refuses u.id = some reason from hr]; simp)

/-- Of a shorthanded run each unit either ended as it should, or tells that it got no thread. -/
theorem Shorthanded.accounted (h : r.Shorthanded refuses) {now : Nat}
    (waited : r.wait now = some (.ok report, r')) : r'.AccountedUnder refuses report asked := by
  obtain ⟨hidle, hunits, hsame⟩ := h.told waited
  have hof {v : UnitReport} (hv : v ∈ report.units) : ∃ u ∈ r.units, unitReport u = v :=
    List.mem_map.mp (hunits ▸ hv)
  have hends {u : RunUnit σ} (hu : u ∈ r.units) (hg : refuses u.id = none) :
      ∃ e : UnitState, e.isEnd = true ∧ u.life = ⟨.disposed, some e⟩ := by
    obtain ⟨hlively, hstarted⟩ := h.granted u hu hg
    have hi := List.all_eq_true.mp hidle u hu
    unfold RunUnit.isIdle at hi
    split at hi
    · exact absurd ‹_› hstarted
    · rename_i hs
      simpa [RunUnit.Lively, hs] using hlively
    · cases hi
  -- some unit got no thread, and that is cause enough for any other to stop
  have hcause : ∃ v ∈ report.units,
      (v.state = .errored ∨ (refuses v.unit).isSome) ∧ v.messages ≠ [] := by
    obtain ⟨u, hu, hg⟩ := h.short
    obtain ⟨reason, hreason⟩ := Option.isSome_iff_exists.mp hg
    exact ⟨_, hunits ▸ List.mem_map_of_mem hu, .inr hg,
      List.ne_nil_of_mem (h.refused u hu reason hreason).told⟩
  refine ⟨hsame ▸ hunits, fun u hu => ?_, fun v hv hg => ?_, fun v hv reason hg => ?_,
    success_iff report, fun _ => .inr hcause, fun _ => .inr hcause⟩
  · rw [hsame] at hu
    cases hg : refuses u.id with
    | none =>
      obtain ⟨e, -, hlife⟩ := hends hu hg
      rw [hlife]
    | some reason => rw [(h.refused u hu reason hg).life]
  all_goals obtain ⟨u, hu, rfl⟩ := hof hv
  · obtain ⟨e, he, hlife⟩ := hends hu hg
    cases e <;> simp_all [unitReport, Lifecycle.outcome, UnitState.isEnd]
  · have haway := h.refused u hu reason hg
    exact ⟨by simp [unitReport, Lifecycle.outcome, haway.life], haway.told⟩

/-- Where all threads are over and each unit that did not finish has its cause, all is accounted
for. -/
theorem accounted_of_ended (hunits : report.units = r.units.map unitReport)
    (hlively : ∀ u ∈ r.units, u.Lively) (hended : ∀ u ∈ r.units, u.stage = .ended)
    (hcause : ∀ u ∈ r.units, u.ending = some .errored ∨ u.ending = some .stopped →
      asked ∨ ∃ v ∈ report.units, v.state = .errored ∧ v.messages ≠ []) :
    r.Accounted report asked := by
  have hend {v : UnitReport} (hv : v ∈ report.units) :
      ∃ u ∈ r.units, u.ending = some v.state ∧ v.state.isEnd = true := by
    rw [hunits] at hv
    obtain ⟨u, hu, rfl⟩ := List.mem_map.mp hv
    obtain ⟨e, he, hending, houtcome⟩ := (hlively u hu).ended (hended u hu)
    exact ⟨u, hu, by rwa [unitReport, houtcome], by rwa [unitReport, houtcome]⟩
  have hsuccess := success_iff report
  have hthree : ∀ v ∈ report.units, v.state = .finished ∨ v.state = .stopped ∨ v.state = .errored := by
    intro v hv
    obtain ⟨-, -, -, he⟩ := hend hv
    cases hs : v.state <;> simp_all [UnitState.isEnd]
  refine ⟨hunits, fun u hu => ?_, hthree, hsuccess, fun hfails => ?_, ?_⟩
  · have hlife := hlively u hu
    simp only [RunUnit.Lively, hended u hu] at hlife
    obtain ⟨e, -, hlife⟩ := hlife
    rw [hlife]
  · rw [← Bool.not_eq_true, hsuccess] at hfails
    push Not at hfails
    obtain ⟨v, hv, hne⟩ := hfails
    obtain ⟨u, hu, hending, -⟩ := hend hv
    obtain hs | hs := (hthree v hv).resolve_left hne
    · exact hcause u hu (.inr (hs ▸ hending))
    · exact hcause u hu (.inl (hs ▸ hending))
  · rintro ⟨v, hv, hs⟩
    obtain ⟨u, hu, hending, -⟩ := hend hv
    exact hcause u hu (.inr (hs ▸ hending))

theorem told_of_errored {u : RunUnit σ} (hu : u ∈ r.units) {stopping : Prop} (hl : u.Lively)
    (ht : u.Tallied) (hb : u.Blamed stopping) (hs : u.stage = .ended)
    (he : u.ending = some .errored) :
    ∃ v ∈ r.units.map unitReport, v.state = .errored ∧ v.messages ≠ [] := by
  obtain ⟨e, -, he', houtcome⟩ := hl.ended hs
  obtain rfl : .errored = e := Option.some.inj (he.symm.trans he')
  refine ⟨_, List.mem_map_of_mem hu, houtcome, fun hnone => ?_⟩
  have hpos := (hb.errored he).1
  rw [show u.border.counters.errors = u.border.counters.messages.size from ht,
    ← Array.length_toList] at hpos
  exact absurd (List.length_eq_zero_iff.mpr hnone) hpos.ne'

theorem Live.raised {r : Run StepMemory} {l : Ledger} (h : r.Live l) {u : RunUnit StepMemory}
    (hu : u ∈ r.units) (he : u.ending = some .stopped) : r.net.stopping = true := by
  obtain ⟨_, _, -, htracked⟩ := h.staffed u hu
  exact (htracked.concluded he).2 rfl

theorem granted_accounted (settings : Settings) (g : Graph) (armed : List String) (ds : List Deed)
    {now : Nat} {r' : Run StepMemory}
    (waited : ((Run.new Catalog.builtins settings g armed).after ds).wait now =
      some (.ok report, r')) : r'.Accounted report (.stop ∈ ds) := by
  obtain ⟨ho, hb⟩ := answering_after Catalog.builtins settings g armed ds
  obtain ⟨l, hsteady⟩ := steady_always settings g armed ds
  obtain ⟨hended, hunits, hsame⟩ :=
    (reported_after Catalog.builtins settings g armed ds).told hb waited
  have hcaused := caused_after Catalog.builtins settings g armed ds
  have htallied := ((orderly_new Catalog.builtins settings g armed).after_keeps
    (P := fun r => ∀ u ∈ r.units, u.Tallied) (by simp [Run.new])
    (fun _ _ _ ho h ha => ha.tallied ho h) ds).2
  generalize (Run.new Catalog.builtins settings g armed).after ds = r at *
  rw [← hsame] at hunits
  have hlively := hb.lively ho
  have hoff {u : RunUnit StepMemory} (hu : u ∈ r.units) : ¬ u.Shelved := fun hs => by
    simpa [hended u hu] using hs.stage
  have herrored {u : RunUnit StepMemory} (hu : u ∈ r.units) (he : u.ending = some .errored) :
      ∃ v ∈ report.units, v.state = .errored ∧ v.messages ≠ [] := by
    obtain ⟨-, -, -, hanswering⟩ := hb.of_unit ho hu (hoff hu)
    exact hunits ▸ told_of_errored (hsame ▸ hu) (hlively u hu) (htallied u hu)
      (hanswering.blamed u hu) (hended u hu) he
  refine accounted_of_ended hunits (hsame ▸ hlively) (hsame ▸ hended) fun u hu he => ?_
  rw [hsame] at hu
  obtain he | he := he
  · exact .inr (herrored hu he)
  · have hlive := (hsteady.of_unit ho hu (hoff hu)).1
    refine (hcaused.raised (hlive.raised hu he)).imp_right ?_
    rintro ⟨v, hv, ⟨todo, hs⟩ | he⟩
    · simp [hended v hv] at hs
    · exact herrored hv he

/-- The second unit got no thread; the stop ended the work of the first one. -/
example :
    let r := (Run.new Catalog.builtins {} pair).afterUnder
      (fun id => if id.step = "b" then some "no thread" else none)
      ([.prepare, .start [] 0] ++ .replicate 8 (.move (.stop 0)) ++ .replicate 12 (.move (.unit 0)))
    r.unitsIdle = true ∧ r.units.map (fun u => (unitReport u).state) = [.stopped, .disposed] ∧
      r.units.map (fun u => (unitReport u).messages) =
        [[], ["thread spawn failed: no thread"]] := by
  decide +kernel

end Run

end Sluice
