import Sluice.Proofs.Run.Steps

/-!
How units end. The stage of a unit fixes where it is in its life; once it is on its way out, the end
state it is going to take does not change any more.
-/

namespace Sluice.RunUnit

variable {σ : Type} {u u' : RunUnit σ} {net : Net} {armed : List String} {t : Touch}

/-- How the work of a unit ends, or ended, once that is settled. -/
def ending (u : RunUnit σ) : Option UnitState :=
  match u.stage with
  | .closing _ e | .disposing e => some e
  | .leaving (e :: _ :: _) => some e
  | .leaving _ | .ended => u.life.ended
  | _ => none

/-- The life that goes with each stage. -/
def Lively (u : RunUnit σ) : Prop :=
  match u.stage with
  | .unstarted => u.life.ended = none ∧ u.life.state.isEnd = false
  | .spawned => u.life = ⟨.initialized, none⟩
  | .closing _ e | .disposing e => u.life = ⟨.running, none⟩ ∧ e.isEnd = true
  | .leaving states => ∃ e, e.isEnd = true ∧
      (states = [e, .disposed] ∧ u.life = ⟨.running, none⟩ ∨
        states = [.disposed] ∧ u.life = ⟨e, some e⟩ ∨ states = [] ∧ u.life = ⟨.disposed, some e⟩)
  | .ended => ∃ e, e.isEnd = true ∧ u.life = ⟨.disposed, some e⟩
  | _ => u.life = ⟨.running, none⟩

theorem Lively.outcome (h : u.Lively) {e : UnitState} (hend : e.isEnd = true)
    (ho : u.life.outcome = e) : u.ending = some e := by
  have hnot {s : UnitState} (hs : s.isEnd = false) (hso : s = e) : False := by
    simp [hso, hend] at hs
  unfold Lively at h
  unfold ending
  cases hs : u.stage with
  | unstarted =>
    simp only [hs] at h
    exact (hnot h.2 (by simpa [Lifecycle.outcome, h.1] using ho)).elim
  | closing todo e' | disposing e' =>
    simp only [hs] at h
    rw [h.1] at ho
    exact (hnot rfl ho).elim
  | leaving states =>
    simp only [hs] at h
    obtain ⟨e', -, ⟨rfl, hl⟩ | ⟨rfl, hl⟩ | ⟨rfl, hl⟩⟩ := h
    · rw [hl] at ho
      exact (hnot rfl ho).elim
    · simpa [hl, Lifecycle.outcome] using ho
    · simpa [hl, Lifecycle.outcome] using ho
  | ended =>
    simp only [hs] at h
    obtain ⟨e', -, hl⟩ := h
    simpa [hl, Lifecycle.outcome] using ho
  | _ =>
    simp only [hs] at h
    rw [h] at ho
    exact (hnot rfl ho).elim

theorem Lively.ended (h : u.Lively) (hs : u.stage = .ended) :
    ∃ e, e.isEnd = true ∧ u.ending = some e ∧ u.life.outcome = e := by
  simp only [Lively, hs] at h
  obtain ⟨e, he, hl⟩ := h
  exact ⟨e, he, by simp [ending, hs, hl], by simp [hl, Lifecycle.outcome]⟩

theorem Lively.settled {states : List UnitState} (h : u.Lively) (hs : u.stage = .leaving states) :
    u.ending.isSome := by
  simp only [Lively, hs] at h
  obtain ⟨e, -, ⟨rfl, hl⟩ | ⟨rfl, hl⟩ | ⟨rfl, hl⟩⟩ := h <;> simp [ending, hs, hl]

theorem Lively.isEnd (h : u.Lively) {e : UnitState} (he : u.ending = some e) : e.isEnd = true := by
  unfold Lively at h
  unfold ending at he
  cases hs : u.stage with
  | closing todo e' =>
    simp only [hs, Option.some.injEq] at h he
    exact he ▸ h.2
  | disposing e' =>
    simp only [hs, Option.some.injEq] at h he
    exact he ▸ h.2
  | leaving states =>
    simp only [hs] at h
    obtain ⟨e', hend, ⟨rfl, hl⟩ | ⟨rfl, hl⟩ | ⟨rfl, hl⟩⟩ := h
    all_goals
      simp only [hs, hl, Option.some.injEq] at he
      exact he ▸ hend
  | ended =>
    simp only [hs] at h
    obtain ⟨e', hend, hl⟩ := h
    simp only [hs, hl, Option.some.injEq] at he
    exact he ▸ hend
  | _ => simp [hs] at he

theorem advance_ends {e : UnitState} (he : e.isEnd = true) :
    Lifecycle.advance ⟨.running, none⟩ e = ⟨e, some e⟩ ∧
      Lifecycle.advance ⟨e, some e⟩ .disposed = ⟨.disposed, some e⟩ := by
  cases e <;> first | exact ⟨rfl, rfl⟩ | simp [UnitState.isEnd] at he

theorem disposeStep_life (u : RunUnit σ) : u.disposeStep.1.life = u.life := by
  unfold disposeStep
  split
  · rfl
  · dsimp only
    split <;> rfl

theorem Lively.moved (h : u.Lively) (hm : u.Moved net armed t u') : u'.Lively := by
  unfold Lively at h
  cases hm with
  | spawn stage advance =>
    simp only [stage] at h
    rw [h] at advance
    simpa [Lively, Lifecycle.advance?, UnitState.canMoveTo, UnitState.isEnd] using advance.symm
  | misplaced stage advance =>
    simp only [stage] at h
    rw [h] at advance
    simp [Lifecycle.advance?, UnitState.canMoveTo] at advance
  | see_stop stage => simpa [Lively, leave, UnitState.isEnd, stage] using h
  | trip stage => simpa [Lively, fail, record, stage] using h
  | no_step stage => simpa [Lively, leave, UnitState.isEnd, stage] using h
  | batch stage => simpa [Lively, stage] using h
  | batch_over stage judged =>
    simp only [stage] at h
    cases judged with
    | more => exact h
    | finished => exact ⟨h, rfl⟩
    | skipped => exact h
    | bad_row => exact h
    | stopped => exact ⟨h, rfl⟩
    | broken => exact h
    | panicked => exact h
  | failed stage => simpa [Lively, leave, UnitState.isEnd, stage] using h
  | close_on stage => simpa [Lively, stage] using h
  | closed stage => simpa [Lively, stage] using h
  | disposed stage =>
    simp only [stage] at h
    exact ⟨_, h.2, .inl ⟨rfl, (disposeStep_life u).trans h.1⟩⟩
  | enter stage =>
    simp only [stage] at h
    obtain ⟨e, he, ⟨hs, hl⟩ | ⟨hs, hl⟩ | ⟨hs, hl⟩⟩ := h
    · simp only [List.cons.injEq] at hs
      obtain ⟨rfl, rfl⟩ := hs
      exact ⟨_, he, .inr (.inl ⟨rfl, by rw [hl]; exact (advance_ends he).1⟩)⟩
    · simp only [List.cons.injEq] at hs
      obtain ⟨rfl, rfl⟩ := hs
      exact ⟨_, he, .inr (.inr ⟨rfl, by rw [hl]; exact (advance_ends he).2⟩)⟩
    · cases hs
  | exit stage =>
    simp only [stage] at h
    obtain ⟨e, he, ⟨hs, -⟩ | ⟨hs, -⟩ | ⟨-, hl⟩⟩ := h
    · cases hs
    · cases hs
    · exact ⟨e, he, hl⟩
  | begin_read stage | begin_write stage | count_fault stage | pass_fault stage | ask_stop stage
  | read_on stage | read_done stage | write_on stage | write_done stage | stop_on stage =>
    simpa [Lively, stage] using h

/-- What is settled about the end of a unit stays. -/
theorem Lively.ending_moved (h : u.Lively) (hm : u.Moved net armed t u') {e : UnitState}
    (he : u.ending = some e) : u'.ending = some e := by
  unfold Lively at h
  cases hm with
  | close_on stage => simpa [ending, stage] using he
  | closed stage => simpa [ending, stage] using he
  | disposed stage => simpa [ending, stage] using he
  | enter stage =>
    simp only [stage] at h
    obtain ⟨e', hend, ⟨hs, hl⟩ | ⟨hs, hl⟩ | ⟨hs, hl⟩⟩ := h
    · simp only [List.cons.injEq] at hs
      obtain ⟨rfl, rfl⟩ := hs
      simp only [ending, stage, Option.some.injEq] at he
      subst he
      simp [ending, hl, (advance_ends hend).1]
    · simp only [List.cons.injEq] at hs
      obtain ⟨rfl, rfl⟩ := hs
      simp only [ending, stage, hl, Option.some.injEq] at he
      subst he
      simp [ending, hl, (advance_ends hend).2]
    · cases hs
  | exit stage => simpa [ending, stage] using he
  | spawn stage | misplaced stage | see_stop stage | trip stage | no_step stage | batch stage
  | batch_over stage | begin_read stage | begin_write stage | count_fault stage | pass_fault stage
  | ask_stop stage | read_on stage | read_done stage | write_on stage | write_done stage
  | stop_on stage | failed stage => simp [ending, stage] at he

end Sluice.RunUnit
