import Sluice.Proofs.Run.Begun

/-!
Reports. A run that has been waited for keeps a report of its units; their threads are over and they
stay as they are, so whoever waits again is told the same.
-/

namespace Sluice

variable {σ : Type}

theorem RunUnit.Moved.unended {u u' : RunUnit σ} {net : Net} {armed : List String} {t : Touch}
    (h : u.Moved net armed t u') : u.stage ≠ .ended := by
  cases h <;> simp [*]

theorem RunUnit.Moved.not_idle {u u' : RunUnit σ} {net : Net} {armed : List String} {t : Touch}
    (h : u.Moved net armed t u') : u.isIdle = false := by
  unfold isIdle
  split
  · exact absurd ‹_› h.started
  · exact absurd ‹_› h.unended
  · rfl

namespace Run

variable {r r' : Run σ} {P : Run σ → Prop}

theorem Begun.ended (h : r.Begun P) (hp : r.phase = .running) (idle : r.unitsIdle = true) :
    ∀ u ∈ r.units, u.stage = .ended := by
  cases h with
  | blank phase => simp [hp] at phase
  | shelved phase => simp [hp] at phase
  | afoot afoot =>
    intro u hu
    have hidle := List.all_eq_true.mp idle u hu
    have hstarted : u.stage ≠ .unstarted := fun hs => by
      simpa [hp] using (afoot.unstarted u hu).mp hs
    unfold RunUnit.isIdle at hidle
    split at hidle
    · exact absurd ‹_› hstarted
    · assumption
    · cases hidle

structure Reported (r : Run σ) : Prop where
  late : r.report.isSome → r.phase = .finished
  units : ∀ report, r.report = some report →
    (∀ u ∈ r.units, u.stage = .ended) ∧ report.units = r.units.map unitReport

theorem Reported.early (h : r.Reported) (hp : r.phase ≠ .finished) : r.report = none := by
  by_contra hne
  exact hp (h.late (Option.isSome_iff_ne_none.mpr hne))

theorem reported_of_none (h : r.report = none) : r.Reported :=
  ⟨by simp [h], by simp [h]⟩

theorem Reported.acted {d : Deed} (h : r.Reported) (hb : r.Begun P) (ha : r.Acted d r') :
    r'.Reported := by
  cases ha with
  | idle | offered | finishing | stopped => exact ⟨h.late, h.units⟩
  | spoiled phase | unwound phase | shelved phase | prepared phase =>
    exact reported_of_none (h.early (by simp [phase]))
  | fed phase | observed phase | started phase =>
    exact reported_of_none (h.early (by simp [phase]))
  | waited phase idle =>
    refine ⟨fun _ => rfl, fun report hr => ⟨hb.ended phase idle, ?_⟩⟩
    obtain rfl := Option.some.inj hr
    rfl
  | moved stepped =>
    cases stepped with
    | unit at_i moved =>
      refine reported_of_none ?_
      by_contra hne
      obtain ⟨report, hr⟩ := Option.ne_none_iff_exists'.mp hne
      exact moved.unended ((h.units report hr).1 _ (List.mem_of_getElem? at_i))
    | producer => exact ⟨h.late, h.units⟩
    | stop => exact ⟨h.late, h.units⟩

theorem reported_after (registry : Registry σ) (settings : Settings) (g : Graph)
    (armed : List String) (ds : List Deed) :
    ((Run.new registry settings g armed).after ds).Reported := by
  induction ds using List.reverseRecOn with
  | nil => exact reported_of_none rfl
  | append_singleton ds d ih =>
    rw [after_append]
    exact ih.acted (begun_always registry settings g armed ds).2 (act_acted _ d)

theorem wait_eq_ok {now : Nat} {report : RunReport} (hw : r.wait now = some (.ok report, r')) :
    r'.units = r.units ∧ (r'.phase = .finished ∧ r'.report = some report) ∧
      (r.phase = .running ∧ r.unitsIdle = true ∧ report.units = r.units.map unitReport ∨
        r.phase = .finished ∧ r.report = some report) := by
  unfold wait at hw
  split at hw
  · split at hw
    · simp only [Option.some.injEq, Prod.mk.injEq, Except.ok.injEq] at hw
      obtain ⟨rfl, rfl⟩ := hw
      exact ⟨rfl, ⟨rfl, rfl⟩, .inl ⟨‹_›, ‹_›, rfl⟩⟩
    · cases hw
  · split at hw
    · rename_i hp _ _ hr
      simp only [Option.some.injEq, Prod.mk.injEq, Except.ok.injEq] at hw
      obtain ⟨rfl, rfl⟩ := hw
      exact ⟨rfl, ⟨hp, hr⟩, .inr ⟨hp, hr⟩⟩
    · simp at hw
  · simp at hw

/-- What whoever waits is told: how each unit stands, the threads of all of them over by then. -/
theorem Reported.told (h : r.Reported) (hb : r.Begun P) {now : Nat} {report : RunReport}
    (hw : r.wait now = some (.ok report, r')) :
    (∀ u ∈ r.units, u.stage = .ended) ∧ report.units = r.units.map unitReport ∧
      r'.units = r.units := by
  obtain ⟨hunits, -, ⟨hp, hidle, hreport⟩ | ⟨-, hr⟩⟩ := wait_eq_ok hw
  · exact ⟨hb.ended hp hidle, hreport, hunits⟩
  · obtain ⟨hended, hreport⟩ := h.units _ hr
    exact ⟨hended, hreport, hunits⟩

end Run

end Sluice
