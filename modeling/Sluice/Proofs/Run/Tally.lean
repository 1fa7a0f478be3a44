import Sluice.Proofs.Run.Steps

/-!
A unit counts an error whenever it keeps a message, and at no other time.
-/

namespace Sluice

def Counters.Tallied (c : Counters) : Prop :=
  c.errors = c.messages.size

theorem Counters.Tallied.recordError {c : Counters} (h : c.Tallied) (message : String) :
    (c.recordError message).Tallied := by
  simpa [Tallied, Counters.recordError] using h

namespace Border

variable {p p' : Border} {net : Net} {t : Touch}

theorem ReadStep.tallied {call : Reading} {onward : Onward Reading (Except StepError (Option Row))}
    (h : p.ReadStep net t call p' onward) (ht : p.counters.Tallied) : p'.counters.Tallied := by
  cases h <;> exact ht

theorem WriteStep.tallied {call : Writing} {onward : Onward Writing (Except StepError Unit)}
    (h : p.WriteStep net t call p' onward) (ht : p.counters.Tallied) : p'.counters.Tallied := by
  cases h with
  | choose turn =>
    obtain ⟨o, -, -, rfl⟩ := takeTurn_some turn
    exact ht
  | _ => exact ht

end Border

namespace RunUnit

variable {σ : Type} {u u' : RunUnit σ} {net : Net} {armed : List String} {t : Touch}

def Tallied (u : RunUnit σ) : Prop :=
  u.border.counters.Tallied

theorem Tallied.record (h : u.Tallied) (message : String) : (u.record message).Tallied :=
  Counters.Tallied.recordError h message

theorem Tallied.disposeStep (h : u.Tallied) : u.disposeStep.1.Tallied := by
  unfold RunUnit.disposeStep
  split
  · exact h
  · dsimp only
    split
    · exact h
    · exact Tallied.record (u := { u with step := none }) h _

theorem Tallied.judged {r : Except Halt BatchOutcome} (h : u.Tallied) (hj : u.Judged r u') :
    u'.Tallied := by
  cases hj with
  | more => exact h
  | finished => exact h
  | stopped => exact h
  | skipped => exact h.record _
  | bad_row => exact h.record _
  | broken => exact h.record _
  | panicked => exact h.record _

theorem Tallied.moved (h : u.Tallied) (hm : u.Moved net armed t u') : u'.Tallied := by
  cases hm with
  | trip => exact h.record _
  | batch_over _ judged =>
    refine Tallied.judged ?_ judged
    exact h
  | count_fault => exact h.record _
  | read_on _ step => exact step.tallied h
  | read_done _ step => exact step.tallied h
  | write_on _ step => exact step.tallied h
  | write_done _ step => exact step.tallied h
  | disposed => exact h.disposeStep
  | _ => exact h

end RunUnit

end Sluice
