import Sluice.Proofs.Border.Journal
import Sluice.Proofs.Run.Ending
import Sluice.Proofs.Step.Catalog

/-!
A unit and the journal of its step: at every stage some journal tells what the unit has read and
written, and the rest of the batch leads where the step's contract says. A unit that is going to end
as finished has read all its inputs to the end and sent out all that they ask for.
-/

namespace Sluice

namespace RunUnit

variable {σ : Type}

def site (u : RunUnit σ) : Site :=
  ⟨u.border.inputs.length, u.border.policy, u.setup.asks u.border.inputs.length⟩

/-- What is known once the end state is settled. -/
def Concluded (u : RunUnit σ) (site : Site) (c : Contract σ) (l : Ledger) (stopping : Prop)
    (e : UnitState) : Prop :=
  (e = .finished → ∃ j, u.border.Journaled j l ∧ u.border.AtRest j.out l.put ∧ j.AllEnded site ∧
    c.finished j) ∧ (e = .stopped → stopping)

/-- What is known at each stage. -/
def Tracked (u : RunUnit σ) (site : Site) (c : Contract σ) (l : Ledger) (stopping : Prop) : Prop :=
  match u.stage with
  | .unstarted => u.border.Journaled {} l ∧ u.border.AtRest [] l.put
  | .spawned | .checking => ∃ j b m, u.step = some (b, m) ∧ u.border.Journaled j l ∧
      (j.stopped → stopping) ∧ u.border.AtRest j.out l.put ∧ c.loop m j
  | .working task => ∃ j, u.step.isSome ∧ u.border.Journaled j l ∧ (j.stopped → stopping) ∧
      task.Meets site (c.After site) j ∧ (u.border.AtRest j.out l.put ∨ Border.Broken task)
  | .reading call next => ∃ j input, u.step.isSome ∧ u.border.Journaled j l ∧
      (j.stopped → stopping) ∧ u.border.AtRest j.out l.put ∧
      u.border.Served site (c.After site) input next j (.goes call)
  | .writing call next => ∃ j hop row, u.step.isSome ∧ u.border.Journaled j l ∧
      (j.stopped → stopping) ∧ (Task.write hop row next).Meets site (c.After site) j ∧
      u.border.Writes j.out (.row hop row) l.put call
  | _ => ∀ e ∈ u.ending, u.Concluded site c l stopping e

variable {u u' : RunUnit σ} {site : Site} {c : Contract σ} {l l' : Ledger} {stopping : Prop}
  {net : Net} {armed : List String} {t : Touch}

/-- What others do to other channels does not matter. -/
theorem Concluded.congr {stopping' : Prop} {e : UnitState}
    (h : u.Concluded site c l stopping e) (hborder : u'.border = u.border)
    (htaken : ∀ c ∈ u.border.inputChannels, l'.taken c = l.taken c)
    (hput : ∀ c ∈ u.border.outputChannels, l'.put c = l.put c) (hs : stopping → stopping') :
    u'.Concluded site c l' stopping' e := by
  refine ⟨fun he => ?_, fun he => hs (h.2 he)⟩
  obtain ⟨j, hj, hrest, hall, hfin⟩ := h.1 he
  rw [hborder]
  exact ⟨j, hj.congr rfl rfl rfl htaken, hrest.congr hput, hall, hfin⟩

theorem Tracked.congr {stopping' : Prop} (h : u.Tracked site c l stopping)
    (htaken : ∀ c ∈ u.border.inputChannels, l'.taken c = l.taken c)
    (hput : ∀ c ∈ u.border.outputChannels, l'.put c = l.put c) (hs : stopping → stopping') :
    u.Tracked site c l' stopping' := by
  unfold Tracked at h ⊢
  cases hstage : u.stage with
  | unstarted =>
    simp only [hstage] at h
    exact ⟨h.1.congr rfl rfl rfl htaken, h.2.congr hput⟩
  | spawned | checking =>
    simp only [hstage] at h
    obtain ⟨j, b, m, hstep, hj, hst, hrest, hl⟩ := h
    exact ⟨j, b, m, hstep, hj.congr rfl rfl rfl htaken, fun h => hs (hst h), hrest.congr hput, hl⟩
  | working task =>
    simp only [hstage] at h
    obtain ⟨j, hstep, hj, hst, hm, hrest⟩ := h
    exact ⟨j, hstep, hj.congr rfl rfl rfl htaken, fun h => hs (hst h), hm,
      hrest.imp_left fun h => h.congr hput⟩
  | reading call next =>
    simp only [hstage] at h
    obtain ⟨j, input, hstep, hj, hst, hrest, hserved⟩ := h
    exact ⟨j, input, hstep, hj.congr rfl rfl rfl htaken, fun h => hs (hst h), hrest.congr hput, hserved⟩
  | writing call next =>
    simp only [hstage] at h
    obtain ⟨j, hop, row, hstep, hj, hst, hm, hw⟩ := h
    exact ⟨j, hop, row, hstep, hj.congr rfl rfl rfl htaken, fun h => hs (hst h), hm, hw.congr hput⟩
  | failing | closing | disposing | leaving | ended =>
    simp only [hstage] at h
    exact fun e he => (h e he).congr rfl htaken hput hs

theorem Tracked.concluded (h : u.Tracked site c l stopping) {e : UnitState}
    (he : u.ending = some e) : u.Concluded site c l stopping e := by
  unfold Tracked at h
  cases hs : u.stage with
  | closing | disposing | leaving | ended =>
    simp only [hs] at h
    exact h e he
  | _ => simp [ending, hs] at he

theorem disposeStep_border (h : ∀ b m, u.step = some (b, m) → b.dispose m = .ok ()) :
    u.disposeStep.1.border = u.border := by
  rcases hs : u.step with _ | ⟨b, m⟩
  · simp [disposeStep, hs]
  · simp [disposeStep, hs, h b m hs]

theorem Tracked.departs (h : u.Tracked site c l stopping) (hl : u.Lively)
    (hm : u.Moved net armed t u') (hborder : u'.border = u.border) (hend : u.ending.isSome) :
    ∀ e ∈ u'.ending, u'.Concluded site c l stopping e := by
  intro e he
  obtain ⟨e', he'⟩ := Option.isSome_iff_exists.mp hend
  rw [hl.ending_moved hm he', Option.mem_some] at he
  subst he
  exact (h.concluded he').congr hborder (fun _ _ => rfl) (fun _ _ => rfl) (fun hs => hs)

/-- Within a batch that was not broken off nothing of the last row is left to write. -/
theorem Tracked.working (h : u.Tracked site c l stopping) {task : BatchTask σ}
    (stage : u.stage = .working task) (on : ∀ e m, task ≠ .done (.error e, m)) :
    ∃ j, u.step.isSome ∧ u.border.Journaled j l ∧ (j.stopped → stopping) ∧
      task.Meets site (c.After site) j ∧ u.border.AtRest j.out l.put := by
  simp only [Tracked, stage] at h
  obtain ⟨j, hstep, hj, hst, hmeets, hrest⟩ := h
  refine ⟨j, hstep, hj, hst, hmeets, hrest.resolve_right ?_⟩
  rintro ⟨e, m, hbroken⟩
  exact on e m hbroken

theorem Tracked.judged (h : u.Tracked site c l stopping) {r : Except Halt BatchOutcome} {m : σ}
    (stage : u.stage = .working (.done (r, m))) (hpolicy : site.policy = u.border.policy)
    (judged : Judged { u with step := u.step.map fun s => (s.1, m) } r u') :
    u'.Tracked site c l stopping := by
  have hworking := h.working stage
  simp only [Tracked, stage] at h
  obtain ⟨j, hstep, hj, hst, hmeets, -⟩ := h
  cases judged with
  | more =>
    obtain ⟨j, hstep, hj, hst, hmeets, hrest⟩ := hworking (by simp)
    obtain ⟨⟨b, m'⟩, hstep⟩ := Option.isSome_iff_exists.mp hstep
    exact ⟨j, b, _, by simp [hstep], hj, hst, hrest, hmeets⟩
  | finished =>
    obtain ⟨j, -, hj, -, hmeets, hrest⟩ := hworking (by simp)
    rintro e he
    obtain rfl : UnitState.finished = e := by simpa [ending, leave] using he
    exact ⟨fun _ => ⟨j, hj, hrest, hmeets.1, hmeets.2⟩, by simp⟩
  | skipped policy =>
    have hmeets : site.policy = .abort := hmeets
    rw [hpolicy] at hmeets
    have policy : u.border.policy = .skip := policy
    simp [policy] at hmeets
  | bad_row => exact fun e he => by simp [ending, fail] at he
  | stopped =>
    rintro e he
    obtain rfl : UnitState.stopped = e := by simpa [ending, leave] using he
    exact ⟨by simp, fun _ => hst hmeets⟩
  | broken => exact fun e he => by simp [ending, fail] at he
  | panicked => exact fun e he => by simp [ending, fail] at he

theorem Tracked.moved (h : u.Tracked site c l (net.stopping = true))
    (hm : u.Moved net armed t u') (hlively : u.Lively)
    (hkeeps : ∀ b m, u.step = some (b, m) → b.Keeps site c ∧ ∀ m, b.dispose m = .ok ())
    (hinputs : site.inputs = u.border.inputs.length) (hpolicy : site.policy = u.border.policy)
    (hin : u.border.inputChannels.Nodup) (hout : u.border.outputChannels.Nodup)
    (hab : ∀ c, net.Aborted c → net.stopping = true) :
    u'.Tracked site c (l.after t) (net.stopping = true) := by
  have hmoved := hm
  cases hm with
  | spawn stage =>
    simp only [Tracked, stage] at h
    exact h
  | misplaced stage advance =>
    simp [Lively, stage] at hlively
    simp [hlively, Lifecycle.advance?, UnitState.canMoveTo] at advance
  | see_stop stage stopping =>
    rintro e he
    obtain rfl : UnitState.stopped = e := by simpa [ending, leave] using he
    exact ⟨by simp, fun _ => stopping⟩
  | trip stage => exact fun e he => by simp [ending, fail] at he
  | no_step stage _ step =>
    simp only [Tracked, stage] at h
    obtain ⟨j, b, m, hstep, -⟩ := h
    simp [step] at hstep
  | batch stage _ step =>
    simp only [Tracked, stage] at h
    obtain ⟨j, b, m, hstep, hj, hst, hrest, hl⟩ := h
    rw [step, Option.some.injEq, Prod.mk.injEq] at hstep
    obtain ⟨rfl, rfl⟩ := hstep
    have hbatch := (hkeeps _ _ step).1.batch u.border.batchRows _ j hl
    rw [hinputs] at hbatch
    exact ⟨j, by simp [step], hj, hst, hbatch, .inl hrest⟩
  | batch_over stage judged => exact h.judged stage hpolicy judged
  | @begin_read input next stage =>
    obtain ⟨j, hstep, hj, hst, hmeets, hrest⟩ := h.working stage (by simp)
    refine ⟨j, input, hstep, hj, hst, hrest, hmeets, ?_⟩
    cases input <;> rfl
  | @begin_write hop row next stage =>
    obtain ⟨j, hstep, hj, hst, hmeets, hrest⟩ := h.working stage (by simp)
    refine ⟨j, hop, row, hstep, hj, hst, hmeets, ?_⟩
    cases hop with
    | none => exact ⟨rfl, hrest⟩
    | some hop => exact ⟨rfl, hrest⟩
  | count_fault stage policy =>
    obtain ⟨j, hstep, hj, hst, hmeets, hrest⟩ := h.working stage (by simp)
    unfold Task.Meets at hmeets
    simp only [hpolicy, policy] at hmeets
    exact ⟨_, hstep, hj.emit_fault _, hst, hmeets, .inl (hrest.emit_fault _)⟩
  | pass_fault stage policy =>
    obtain ⟨j, hstep, hj, hst, hmeets, hrest⟩ := h.working stage (by simp)
    unfold Task.Meets at hmeets
    simp only [hpolicy, policy] at hmeets
    exact ⟨j, hstep, hj, hst, hmeets, .inl hrest⟩
  | ask_stop stage =>
    obtain ⟨j, hstep, hj, hst, hmeets, hrest⟩ := h.working stage (by simp)
    by_cases hs : net.stopping = true
    · refine ⟨_, hstep, hj.told, fun _ => hs, ?_, .inl hrest⟩
      rw [hs]
      exact hmeets.2 _ (Border.grows_told j) trivial
    · refine ⟨j, hstep, hj, hst, ?_, .inl hrest⟩
      rw [Bool.eq_false_iff.mpr hs]
      exact hmeets.1
  | read_on stage step =>
    simp only [Tracked, stage] at h
    obtain ⟨j, input, hstep, hj, hst, hrest, hserved⟩ := h
    obtain ⟨j', hj', hrest', hst', hserved'⟩ :=
      hj.read hrest hinputs hin hserved.2 hserved.1 hst hab step
    exact ⟨j', input, hstep, hj', hst', hrest', hserved'⟩
  | read_done stage step =>
    simp only [Tracked, stage] at h
    obtain ⟨j, input, hstep, hj, hst, hrest, hserved⟩ := h
    obtain ⟨j', hj', hrest', hst', hserved'⟩ :=
      hj.read hrest hinputs hin hserved.2 hserved.1 hst hab step
    exact ⟨j', hstep, hj', hst', hserved', .inl hrest'⟩
  | write_on stage step =>
    simp only [Tracked, stage] at h
    obtain ⟨j, hop, row, hstep, hj, hst, hmeets, hw⟩ := h
    obtain ⟨hj', hw'⟩ := hj.write hw hout hmeets hst hab step
    exact ⟨j, hop, row, hstep, hj', hst, hmeets, hw'⟩
  | write_done stage step =>
    simp only [Tracked, stage] at h
    obtain ⟨j, hop, row, hstep, hj, hst, hmeets, hw⟩ := h
    obtain ⟨j', hj', hst', hmeets', hrest'⟩ := hj.write hw hout hmeets hst hab step
    exact ⟨j', hstep, hj', hst', hmeets', hrest'⟩
  | stop_on stage => exact fun e he => by simp [ending] at he
  | failed stage =>
    rintro e he
    obtain rfl : UnitState.errored = e := by simpa [ending, leave] using he
    exact ⟨by simp, by simp⟩
  | close_on stage does =>
    rw [does.ledger]
    exact h.departs hlively hmoved rfl (by simp [ending, stage])
  | closed stage => exact h.departs hlively hmoved rfl (by simp [ending, stage])
  | disposed stage =>
    have hborder := disposeStep_border fun b m hs => (hkeeps b m hs).2 m
    exact h.departs hlively hmoved hborder (by simp [ending, stage])
  | enter stage => exact h.departs hlively hmoved rfl (hlively.settled stage)
  | exit stage => exact h.departs hlively hmoved rfl (hlively.settled stage)

end RunUnit

end Sluice
