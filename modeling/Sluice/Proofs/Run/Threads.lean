import Sluice.Proofs.Run.Report

/-!
Threads that the system refuses. A unit that gets none is disposed of where it stands and keeps a
message about that, while the others of its run go the way of all units.
-/

namespace Sluice

variable {σ : Type}

namespace RunUnit

variable {u : RunUnit σ} {refuses : UnitId → Option String} {reason : String}

/-- Dropped with the thread it did not get. -/
structure TurnedAway (u : RunUnit σ) (reason : String) : Prop where
  stage : u.stage = .unstarted
  life : u.life = ⟨.disposed, none⟩
  told : "thread spawn failed: " ++ reason ∈ u.border.counters.messages.toList

theorem disposeStep_stage (u : RunUnit σ) : u.disposeStep.1.stage = u.stage := by
  unfold disposeStep
  split
  · rfl
  · dsimp only
    split <;> rfl

theorem turnAway_id (u : RunUnit σ) (reason : String) : (u.turnAway reason).1.id = u.id :=
  congrArg (fun s : Station => s.place.unit) u.station_disposeStep

theorem turnAway_turnedAway (hs : u.stage = .unstarted) (hl : u.life = ⟨.initialized, none⟩)
    (reason : String) : (u.turnAway reason).1.TurnedAway reason := by
  have hlife : (u.disposeStep.1.life.advance .stopped).advance .disposed = ⟨.disposed, none⟩ := by
    rw [disposeStep_life, hl]
    rfl
  exact ⟨u.disposeStep_stage.trans hs, hlife,
    by simp [turnAway, record, Border.recordError, Counters.recordError]⟩

theorem launch_granted (h : refuses u.id = none) : u.launch refuses = (u.spawn, none) := by
  simp [launch, refusal, h]

theorem launch_refused (hstep : u.step.isSome) (h : refuses u.id = some reason) :
    u.launch refuses = u.turnAway reason := by
  simp [launch, refusal, h, hstep]

end RunUnit

namespace Run

variable {r r' : Run σ} {P : Run σ → Prop} {refuses : UnitId → Option String} {d : Deed}

/-- Once a run has been started, no thread was refused it. -/
def Granted (r : Run σ) (refuses : UnitId → Option String) : Prop :=
  r.phase = .running ∨ r.report.isSome → ∀ u ∈ r.units, refuses u.id = none

/-- A run was started, and some of its units got no thread. -/
structure Shorthanded (r : Run σ) (refuses : UnitId → Option String) : Prop where
  phase : r.phase = .running ∨ r.phase = .finished
  short : ∃ u ∈ r.units, (refuses u.id).isSome
  refused : ∀ u ∈ r.units, ∀ reason, refuses u.id = some reason → u.TurnedAway reason
  granted : ∀ u ∈ r.units, refuses u.id = none → u.Lively ∧ u.stage ≠ .unstarted
  reported : ∀ report, r.report = some report →
    r.unitsIdle = true ∧ report.units = r.units.map unitReport

theorem launch_of_granted (h : ∀ u ∈ r.units, refuses u.id = none) (id : List UInt8) (now : Nat) :
    r.launch refuses id now = r.start id now := by
  have hrefusal : ∀ u ∈ r.units, u.refusal refuses = u.refusal fun _ => none := fun u hu => by
    simp [RunUnit.refusal, h u hu]
  have hlaunch : r.units.map (·.launch refuses) = r.units.map (·.launch fun _ => none) :=
    List.map_congr_left fun u hu => by simp [RunUnit.launch, hrefusal u hu]
  have hreasons : (r.units.filterMap fun u => (u.refusal refuses).map fun reason => (u, reason)) =
      r.units.filterMap fun u => (u.refusal fun _ => none).map fun reason => (u, reason) :=
    List.filterMap_congr fun u hu => by rw [hrefusal u hu]
  unfold start launch
  rw [hlaunch, hreasons]

theorem launch_same (refuses : UnitId → Option String) (hp : r.phase = .prepared)
    (id : List UInt8) (now : Nat) :
    (r.launch refuses id now).2.phase = .running ∧
      (r.launch refuses id now).2.units = r.units.map (fun u => (u.launch refuses).1) ∧
        (r.launch refuses id now).2.report = r.report := by
  unfold launch expect
  rw [if_pos hp]
  dsimp only
  split <;> exact ⟨rfl, List.map_map, rfl⟩

theorem Afoot.shorthanded (h : r.Afoot) (hp : r.phase = .prepared) (hr : r.report = none)
    (hshort : ∃ u ∈ r.units, (refuses u.id).isSome) (id : List UInt8) (now : Nat) :
    (r.launch refuses id now).2.Shorthanded refuses := by
  obtain ⟨hphase, hunits, hreport⟩ := launch_same refuses hp id now
  have hready (u : RunUnit σ) (hu : u ∈ r.units) : u.stage = .unstarted ∧ u.step.isSome ∧
      u.life = ⟨.initialized, none⟩ := by
    have hs := (h.unstarted u hu).mpr hp
    exact ⟨hs, h.ready u hu hs⟩
  have hspawn (u : RunUnit σ) (hu : u ∈ r.units) (hg : refuses u.id = none) :
      (u.launch refuses).1 = { u with stage := .spawned } := by
    rw [RunUnit.launch_granted hg, RunUnit.spawn, if_pos (hready u hu).2.1]
  have haway (u : RunUnit σ) (hu : u ∈ r.units) {reason : String} (hg : refuses u.id = some reason) :
      (u.launch refuses).1 = (u.turnAway reason).1 := by
    rw [RunUnit.launch_refused (hready u hu).2.1 hg]
  have hid (u : RunUnit σ) (hu : u ∈ r.units) : (u.launch refuses).1.id = u.id := by
    cases hg : refuses u.id with
    | none =>
      rw [hspawn u hu hg]
      rfl
    | some reason => rw [haway u hu hg, RunUnit.turnAway_id]
  refine ⟨.inl hphase, ?_, fun v hv reason hg => ?_, fun v hv hg => ?_, by simp [hreport, hr]⟩
  · obtain ⟨u, hu, hg⟩ := hshort
    exact ⟨_, hunits ▸ List.mem_map_of_mem hu, by rwa [hid u hu]⟩
  all_goals
    obtain ⟨u, hu, rfl⟩ := List.mem_map.mp (hunits ▸ hv)
    rw [hid u hu] at hg
  · rw [haway u hu hg]
    exact RunUnit.turnAway_turnedAway (hready u hu).1 (hready u hu).2.2 reason
  · rw [hspawn u hu hg]
    exact ⟨(hready u hu).2.2, by simp⟩

/-- Units that were turned away stay so, and the others go on. -/
theorem Shorthanded.stepped (h : r.Shorthanded refuses) {party : Party} {t : Touch}
    (hs : r.Stepped party t r') : r'.Shorthanded refuses := by
  cases hs with
  | @unit i u u' t net calls at_i moved =>
    have hu := List.mem_of_getElem? at_i
    have hid : u'.id = u.id := moved.id
    have hgranted : refuses u.id = none := by
      by_contra hne
      obtain ⟨reason, hreason⟩ := Option.ne_none_iff_exists'.mp hne
      exact absurd (h.refused u hu reason hreason).stage moved.started
    refine ⟨h.phase, ?_, fun v hv reason hg => ?_, fun v hv hg => ?_, fun report hr => ?_⟩
    · obtain ⟨v, hv, hg⟩ := h.short
      obtain ⟨k, hk⟩ := List.getElem?_of_mem hv
      have hne : i ≠ k := by
        rintro rfl
        obtain rfl := Option.some.inj (hk.symm.trans at_i)
        simp [hgranted] at hg
      exact ⟨v, List.mem_of_getElem? (i := k) (by simp [hne, hk]), hg⟩
    · obtain hv | rfl := List.mem_or_eq_of_mem_set hv
      · exact h.refused v hv reason hg
      · simp [hid, hgranted] at hg
    · obtain hv | rfl := List.mem_or_eq_of_mem_set hv
      · exact h.granted v hv hg
      · exact ⟨(h.granted u hu hgranted).1.moved moved, moved.step.1⟩
    · have hidle := List.all_eq_true.mp (h.reported report hr).1 u hu
      simp [moved.not_idle] at hidle
  | producer => exact ⟨h.phase, h.short, h.refused, h.granted, h.reported⟩
  | stop => exact ⟨h.phase, h.short, h.refused, h.granted, h.reported⟩

theorem Shorthanded.acted (h : r.Shorthanded refuses) (ha : r.Acted d r') :
    r'.Shorthanded refuses := by
  cases ha with
  | idle | offered | finishing | stopped =>
    exact ⟨h.phase, h.short, h.refused, h.granted, h.reported⟩
  | spoiled phase | unwound phase | shelved phase | prepared phase | fed phase | observed phase
  | started phase => simpa [phase] using h.phase
  | waited _ idle =>
    refine ⟨.inr rfl, h.short, h.refused, h.granted, fun report hr => ⟨idle, ?_⟩⟩
    obtain rfl := Option.some.inj hr
    rfl
  | moved stepped => exact h.stepped stepped

/-- If the run is started by this deed, no thread is refused it. -/
def Grants (r : Run σ) (refuses : UnitId → Option String) (d : Deed) : Prop :=
  ∀ id now, d = .start id now → r.phase = .prepared → ∀ u ∈ r.units, refuses u.id = none

theorem Grants.act (h : r.Grants refuses d) : r.actUnder refuses d = r.act d := by
  cases d with
  | start id now =>
    by_cases hp : r.phase = .prepared
    · rw [actUnder, launch_of_granted (h id now rfl hp)]
      rfl
    · simp [actUnder, Run.act, start, launch, expect, hp]
  | _ => rfl

theorem afterUnder_granted (r : Run σ) (ds : List Deed) :
    r.afterUnder (fun _ => none) ds = r.after ds := by
  have hact : actUnder (fun _ => none) = act (σ := σ) := by
    funext r d
    exact Grants.act fun _ _ _ _ _ _ => rfl
  rw [afterUnder, hact, after]

theorem Granted.acted (h : r.Granted refuses) (hr : r.Reported) (ha : r.Acted d r')
    (hd : r.Grants refuses d) : r'.Granted refuses := by
  cases ha with
  | idle | offered | finishing | stopped => exact h
  | spoiled phase | unwound phase | shelved phase | prepared phase | fed phase | observed phase =>
    have hnone := hr.early (by simp [phase])
    simp [Granted, attachProducer, phase, hnone]
  | @started id now _ phase =>
    intro _ v hv
    obtain ⟨u, hu, rfl⟩ := List.mem_map.mp hv
    have hid : u.spawn.id = u.id := by
      unfold RunUnit.spawn
      split <;> rfl
    exact hid ▸ hd id now rfl phase u hu
  | waited phase => exact fun _ => h (.inl phase)
  | moved stepped =>
    cases stepped with
    | unit at_i moved =>
      intro hp v hv
      obtain hv | rfl := List.mem_or_eq_of_mem_set hv
      · exact h hp v hv
      · rw [moved.id]
        exact h hp _ (List.mem_of_getElem? at_i)
    | producer => exact h
    | stop => exact h

/-- Whichever threads the system refuses, a run goes on as if it refused none, unless one is refused
it. -/
theorem manned_after (registry : Registry σ) (settings : Settings) (g : Graph)
    (armed : List String) (refuses : UnitId → Option String) (ds : List Deed) :
    let start := Run.new registry settings g armed
    start.afterUnder refuses ds = start.after ds ∧ (start.after ds).Granted refuses ∨
      (start.afterUnder refuses ds).Shorthanded refuses := by
  intro start
  induction ds using List.reverseRecOn with
  | nil => exact .inl ⟨rfl, by simp [Granted, start, after, Run.new]⟩
  | append_singleton ds d ih =>
    have hunder : start.afterUnder refuses (ds ++ [d]) =
        (start.afterUnder refuses ds).actUnder refuses d := by simp [afterUnder]
    rw [hunder, after_append]
    obtain ⟨hsame, hgranted⟩ | hshort := ih
    · have hr : (start.after ds).Reported := reported_after registry settings g armed ds
      obtain ⟨-, hb⟩ := begun_always registry settings g armed ds
      change (start.after ds).Begun _ at hb
      rw [hsame]
      generalize start.after ds = r at *
      by_cases hd : r.Grants refuses d
      · exact .inl ⟨hd.act, hgranted.acted hr (r.act_acted d) hd⟩
      · simp only [Grants] at hd
        push Not at hd
        obtain ⟨id, now, rfl, hp, u, hu, hne⟩ := hd
        have hafoot : r.Afoot := by
          cases hb with
          | blank phase => simp [hp] at phase
          | shelved phase => simp [hp] at phase
          | afoot afoot => exact afoot
        exact .inr (hafoot.shorthanded hp (hr.early (by simp [hp]))
          ⟨u, hu, Option.isSome_iff_ne_none.mpr hne⟩ id now)
    · have hgrants : (start.afterUnder refuses ds).Grants refuses d := fun _ _ _ hp => by
        simpa [hp] using hshort.phase
      rw [hgrants.act]
      exact .inr (hshort.acted (act_acted _ d))

theorem Shorthanded.told (h : r.Shorthanded refuses) {now : Nat} {report : RunReport}
    (hw : r.wait now = some (.ok report, r')) :
    r.unitsIdle = true ∧ report.units = r.units.map unitReport ∧ r'.units = r.units := by
  obtain ⟨hunits, -, ⟨-, hidle, hreport⟩ | ⟨-, hr⟩⟩ := wait_eq_ok hw
  · exact ⟨hidle, hreport, hunits⟩
  · obtain ⟨hidle, hreport⟩ := h.reported _ hr
    exact ⟨hidle, hreport, hunits⟩

end Run

end Sluice
