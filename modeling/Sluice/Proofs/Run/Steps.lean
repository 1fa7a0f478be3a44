import Sluice.Proofs.Border.Steps
import Sluice.Proofs.Net.Ledger
import Sluice.Run.History

/-!
All that one step of a party can do: what becomes of the unit, the producer or the stop, and how
the net is touched. Later arguments go through these cases and do not look into the steps again.
-/

namespace Sluice

/-- What an action does to the net, and what is owed after it. -/
inductive NetAction.Does (net : Net) : NetAction → Touch → List NetAction → Prop
  | raise : Does net .raise .raise []
  | abortAll : Does net .abortAll .nothing ((List.range net.links.length).map .abort)
  | notifyAll : Does net .notifyAll .nothing ((List.range net.wakeups.length).map .notify)
  | abort {c : Nat} : Does net (.abort c) (.abort c) [.signal c]
  | abort_again {c : Nat} (aborted : net.channel? c = none ∨ net.Aborted c) :
      Does net (.abort c) .nothing []
  | close {c : Nat} : Does net (.close c) (.close c) [.signal c]
  | close_again {c : Nat} (closed : net.channel? c = none ∨ net.Closed c) :
      Does net (.close c) .nothing []
  | signal {c w : Nat} (reader : net.reader? c = some w) : Does net (.signal c) (.notify w) []
  | signal_nobody {c : Nat} (reader : net.reader? c = none) : Does net (.signal c) .nothing []
  | notify {w : Nat} : Does net (.notify w) (.notify w) []

theorem NetAction.perform_does (net : Net) (action : NetAction) :
    ∃ t, action.Does net t (action.perform net).2 ∧ net.Touched t (action.perform net).1 := by
  cases action with
  | raise => exact ⟨_, .raise, .raise⟩
  | abortAll => exact ⟨_, .abortAll, .nothing⟩
  | notifyAll => exact ⟨_, .notifyAll, .nothing⟩
  | abort c =>
    rcases h : net.abort? c with _ | net'
    · simpa [perform, h] using ⟨_, .abort_again (Net.abort_idle h), .nothing⟩
    · simpa [perform, h] using ⟨_, .abort, Net.abort_touched h⟩
  | close c =>
    rcases h : net.close? c with _ | net'
    · simpa [perform, h] using ⟨_, .close_again (Net.close_idle h), .nothing⟩
    · simpa [perform, h] using ⟨_, .close, Net.close_touched h⟩
  | signal c =>
    obtain ⟨w, hw, ht⟩ | ⟨hw, ht⟩ := net.signal_touched c
    · exact ⟨_, .signal hw, ht⟩
    · exact ⟨_, .signal_nobody hw, ht⟩
  | notify w => exact ⟨_, .notify, .notify⟩

/-- Ends the wait of a reader of the channel. -/
def Touch.Disturbs (t : Touch) (c : Nat) : Prop :=
  (∃ row, t = .put c row) ∨ t = .close c ∨ t = .abort c

/-- Stops the run, or ends a stream. -/
def Touch.Ends (t : Touch) : Prop :=
  t = .raise ∨ ∃ c, t = .close c ∨ t = .abort c

namespace NetAction.Does

variable {net : Net} {a : NetAction} {t : Touch} {owed : List NetAction} {c w : Nat}

theorem disturbs (h : a.Does net t owed) (ht : t.Disturbs c) : .signal c ∈ owed := by
  obtain ⟨row, rfl⟩ | rfl | rfl := ht <;> cases h
  · exact List.mem_singleton_self _
  · exact List.mem_singleton_self _

theorem signal_sent (h : NetAction.signal c |>.Does net t owed) (hr : net.reader? c = some w) :
    t = .notify w := by
  cases h with
  | signal reader =>
    rw [hr, Option.some.injEq] at reader
    rw [reader]
  | signal_nobody reader => simp [hr] at reader

theorem notified (h : NetAction.notify w |>.Does net t owed) : t = .notify w := by
  cases h
  rfl

theorem ledger {action : NetAction} (h : action.Does net t owed) (l : Ledger) : l.after t = l := by
  cases h <;> rfl

end NetAction.Does

/-- One step of a producer. A refused row makes it give up. -/
inductive Producer.Moved (p : Producer) (net : Net) : Touch → Producer → Prop
  | act {action : NetAction} {rest owed : List NetAction} {t : Touch} (todo : p.todo = action :: rest)
      (does : action.Does net t owed) : Moved p net t { p with todo := owed ++ rest }
  | give_up {e : RunError} (todo : p.todo = []) :
      Moved p net .nothing { p with offers := [], failure := some e }
  | put {row : Row} {rest : List (Except Error Row)} (todo : p.todo = [])
      (offers : p.offers = .ok row :: rest) :
      Moved p net (.put p.channel row)
        { p with offers := rest, sent := p.sent + 1, todo := [.signal p.channel] }
  | finish (todo : p.todo = []) (offers : p.offers = []) (ends : p.ends = true) :
      Moved p net .nothing { p with ends := false, todo := [.close p.channel] }

theorem Producer.move_moved {p p' : Producer} {net net' : Net} (h : p.move net = some (p', net')) :
    ∃ t, p.Moved net t p' ∧ net.Touched t net' := by
  obtain ⟨unit, channel, offers, ends, todo, sent, failure⟩ := p
  rcases todo with _ | ⟨action, rest⟩
  · rcases offers with _ | ⟨e | row, rest⟩
    · cases ends with
      | false => simp [move] at h
      | true =>
        simp only [move, if_true, Option.some.injEq, Prod.mk.injEq] at h
        obtain ⟨rfl, rfl⟩ := h
        exact ⟨_, .finish rfl rfl rfl, .nothing⟩
    · simp only [move, Option.some.injEq, Prod.mk.injEq] at h
      obtain ⟨rfl, rfl⟩ := h
      exact ⟨_, .give_up rfl, .nothing⟩
    · rcases hp : net.put channel row with _ | ⟨r, net''⟩
      · simp [move, hp] at h
      · obtain ⟨rfl, ht⟩ | ⟨rfl, ⟨rfl, -⟩ | ⟨rfl, -⟩⟩ := Net.put_touched hp
        all_goals
          simp only [move, hp, Option.some.injEq, Prod.mk.injEq] at h
          obtain ⟨rfl, rfl⟩ := h
        · exact ⟨_, .put rfl rfl, ht⟩
        · exact ⟨_, .give_up rfl, .nothing⟩
        · exact ⟨_, .give_up rfl, .nothing⟩
  · obtain ⟨t, hd, ht⟩ := action.perform_does net
    simp only [move, Option.some.injEq, Prod.mk.injEq] at h
    obtain ⟨rfl, rfl⟩ := h
    exact ⟨t, .act rfl hd, ht⟩

theorem Producer.Moved.touches {p p' : Producer} {net : Net} {t : Touch} (h : p.Moved net t p') :
    p'.channel = p.channel ∧ (∀ c row, t ≠ .take c row) ∧ ∀ c row, t = .put c row → c = p.channel := by
  cases h with
  | act _ does => cases does <;> simp
  | give_up => simp
  | put => simp +contextual [eq_comm]
  | finish => simp

theorem Producer.move_none {p : Producer} {net : Net} (h : p.move net = none) :
    p.todo = [] ∧ (p.offers = [] ∧ p.ends = false ∨
      net.channel? p.channel = none ∨ net.Full p.channel) := by
  rcases htodo : p.todo with _ | ⟨action, rest⟩
  · refine ⟨rfl, ?_⟩
    rcases hoffers : p.offers with _ | ⟨e | row, rest⟩
    · cases hends : p.ends with
      | false => exact .inl ⟨rfl, rfl⟩
      | true => simp [move, htodo, hoffers, hends] at h
    · simp [move, htodo, hoffers] at h
    · rcases hp : net.put p.channel row with _ | ⟨r, net'⟩
      · exact .inr (Net.put_blocked hp)
      · rcases r with e | _ <;> simp [move, htodo, hoffers, hp] at h
  · simp [move, htodo] at h

namespace RunUnit

variable {σ : Type}

/-- How a unit leaves its loop, or goes back to the top of it, after a batch. -/
inductive Judged (u : RunUnit σ) : Except Halt BatchOutcome → RunUnit σ → Prop
  | more : Judged u (.ok .more) { u with stage := .checking }
  | finished : Judged u (.ok .finished) (u.leave .finished)
  | skipped {fault : DataFault} (policy : u.border.policy = .skip) :
      Judged u (.error (.error (.data fault))) { u.record fault.message with stage := .checking }
  | bad_row {fault : DataFault} (policy : u.border.policy = .abort) :
      Judged u (.error (.error (.data fault))) (u.record fault.message).fail
  | stopped : Judged u (.error (.error .aborted)) (u.leave .stopped)
  | broken {e : StepError} (stop : e ≠ .aborted) (data : ∀ fault, e ≠ .data fault) :
      Judged u (.error (.error e)) (u.record e.message).fail
  | panicked {payload : Option String} :
      Judged u (.error (.panic payload)) (u.record (panicText "" payload)).fail

theorem afterBatch_judged (u : RunUnit σ) (r : Except Halt BatchOutcome) :
    u.Judged r (u.afterBatch r) := by
  rcases r with (e | payload) | _ | _
  · cases e with
    | config fault => exact .broken (by simp) (by simp)
    | data fault =>
      cases hp : u.border.policy with
      | skip =>
        have hr : (u.record fault.message).border.policy = .skip := hp
        simpa only [afterBatch, hr] using Judged.skipped hp
      | abort =>
        have hr : (u.record fault.message).border.policy = .abort := hp
        simpa only [afterBatch, hr] using Judged.bad_row hp
    | fatal fault => exact .broken (by simp) (by simp)
    | aborted => exact .stopped
  · exact .panicked
  · exact .more
  · exact .finished

inductive Moved (u : RunUnit σ) (net : Net) (armed : List String) : Touch → RunUnit σ → Prop
  | spawn {life : Lifecycle} (stage : u.stage = .spawned)
      (advance : u.life.advance? .running = some life) :
      Moved u net armed .nothing { u with life, stage := .checking }
  | misplaced (stage : u.stage = .spawned) (advance : u.life.advance? .running = none) :
      Moved u net armed .nothing (u.leave .stopped)
  | see_stop (stage : u.stage = .checking) (stopping : net.stopping = true) :
      Moved u net armed .nothing (u.leave .stopped)
  | trip {message : String} (stage : u.stage = .checking) (stopping : net.stopping = false)
      (hit : u.failPoint ∈ armed) :
      Moved u net armed .nothing (u.record message).fail
  | no_step (stage : u.stage = .checking) (stopping : net.stopping = false)
      (step : u.step = none) : Moved u net armed .nothing (u.leave .stopped)
  | batch {b : Behaviour σ} {memory : σ} (stage : u.stage = .checking)
      (stopping : net.stopping = false) (step : u.step = some (b, memory)) :
      Moved u net armed .nothing
        { u with stage := .working ((b.process u.surroundings).start memory) }
  | batch_over {r : Except Halt BatchOutcome} {memory : σ} {u' : RunUnit σ}
      (stage : u.stage = .working (.done (r, memory)))
      (judged : Judged { u with step := u.step.map fun s => (s.1, memory) } r u') :
      Moved u net armed .nothing u'
  | begin_read {input : Option Nat} {next : Except StepError (Option Row) → BatchTask σ}
      (stage : u.stage = .working (.read input next)) :
      Moved u net armed .nothing { u with stage := .reading (Border.readingOf input) next }
  | begin_write {hop : Option Nat} {row : Row} {next : Except StepError Unit → BatchTask σ}
      (stage : u.stage = .working (.write hop row next)) :
      Moved u net armed .nothing { u with stage := .writing (Border.writingOf row hop) next }
  | count_fault {fault : DataFault} {next : Except StepError Unit → BatchTask σ}
      (stage : u.stage = .working (.report fault next)) (policy : u.border.policy = .skip) :
      Moved u net armed .nothing
        { u with border := u.border.recordError fault.message, stage := .working (next (.ok ())) }
  | pass_fault {fault : DataFault} {next : Except StepError Unit → BatchTask σ}
      (stage : u.stage = .working (.report fault next)) (policy : u.border.policy = .abort) :
      Moved u net armed .nothing { u with stage := .working (next (.error (.data fault))) }
  | ask_stop {next : Bool → BatchTask σ} (stage : u.stage = .working (.stopping next)) :
      Moved u net armed .nothing { u with stage := .working (next net.stopping) }
  | read_on {call call' : Reading} {next : Except StepError (Option Row) → BatchTask σ} {t : Touch}
      {border : Border} (stage : u.stage = .reading call next)
      (step : u.border.ReadStep net t call border (.goes call')) :
      Moved u net armed t { u with border, stage := .reading call' next }
  | read_done {call : Reading} {next : Except StepError (Option Row) → BatchTask σ} {t : Touch}
      {border : Border} {r : Except StepError (Option Row)} (stage : u.stage = .reading call next)
      (step : u.border.ReadStep net t call border (.replies r)) :
      Moved u net armed t { u with border, stage := .working (next r) }
  | write_on {call call' : Writing} {next : Except StepError Unit → BatchTask σ} {t : Touch}
      {border : Border} (stage : u.stage = .writing call next)
      (step : u.border.WriteStep net t call border (.goes call')) :
      Moved u net armed t { u with border, stage := .writing call' next }
  | write_done {call : Writing} {next : Except StepError Unit → BatchTask σ} {t : Touch}
      {border : Border} {r : Except StepError Unit} (stage : u.stage = .writing call next)
      (step : u.border.WriteStep net t call border (.replies r)) :
      Moved u net armed t { u with border, stage := .working (next r) }
  | stop_on {action : NetAction} {rest owed : List NetAction} {t : Touch}
      (stage : u.stage = .failing (action :: rest)) (does : action.Does net t owed) :
      Moved u net armed t { u with stage := .failing (owed ++ rest) }
  | failed (stage : u.stage = .failing []) : Moved u net armed .nothing (u.leave .errored)
  | close_on {action : NetAction} {rest owed : List NetAction} {ending : UnitState} {t : Touch}
      (stage : u.stage = .closing (action :: rest) ending) (does : action.Does net t owed) :
      Moved u net armed t { u with stage := .closing (owed ++ rest) ending }
  | closed {ending : UnitState} (stage : u.stage = .closing [] ending) :
      Moved u net armed .nothing { u with stage := .disposing ending }
  | disposed {ending : UnitState} (stage : u.stage = .disposing ending) :
      Moved u net armed .nothing { u.disposeStep.1 with stage := .leaving [ending, .disposed] }
  | enter {state : UnitState} {rest : List UnitState} (stage : u.stage = .leaving (state :: rest)) :
      Moved u net armed .nothing { u with life := u.life.advance state, stage := .leaving rest }
  | exit (stage : u.stage = .leaving []) : Moved u net armed .nothing { u with stage := .ended }

variable {u : RunUnit σ} {net : Net} {armed : List String}

theorem check_moved (net : Net) (armed : List String) (hstage : u.stage = .checking) :
    u.Moved net armed .nothing (u.check net armed).unit ∧ (u.check net armed).net = net := by
  unfold check
  cases hs : net.stopping with
  | true => exact ⟨.see_stop hstage hs, rfl⟩
  | false =>
    by_cases hit : u.failPoint ∈ armed
    · simpa [hit] using Moved.trip hstage hs hit
    · simp only [Bool.false_eq_true, if_false, List.contains_iff_mem, hit]
      split
      · exact ⟨.no_step hstage hs ‹_›, rfl⟩
      · exact ⟨.batch hstage hs ‹_›, rfl⟩

theorem work_moved {task : BatchTask σ} (hstage : u.stage = .working task) :
    u.Moved net armed .nothing (u.work net task) := by
  cases task with
  | done a => exact .batch_over hstage (afterBatch_judged _ _)
  | read input next => exact .begin_read hstage
  | write hop row next => exact .begin_write hstage
  | report fault next =>
    cases hp : u.border.policy with
    | skip => simpa [work, Border.reportData, hp] using Moved.count_fault hstage hp
    | abort => simpa [work, Border.reportData, hp] using Moved.pass_fault hstage hp
  | stopping next => exact .ask_stop hstage

theorem read_moved {m : UnitMove σ} {call : Reading}
    {next : Except StepError (Option Row) → BatchTask σ} (hstage : u.stage = .reading call next)
    (h : u.move net armed = some m) : ∃ t, u.Moved net armed t m.unit ∧ net.Touched t m.net := by
  have ho := u.border.advanceRead_obeys net call
  cases hr : u.border.advanceRead net call with
  | blocked => simp [move, hstage, hr] at h
  | continues call' border net' =>
    rw [hr] at ho
    obtain ⟨t, hs, hn⟩ := ho
    simp only [move, hstage, hr, Option.some.injEq] at h
    subst h
    exact ⟨t, .read_on hstage hs, hn⟩
  | replies r border net' =>
    rw [hr] at ho
    obtain ⟨t, hs, hn⟩ := ho
    simp only [move, hstage, hr, Option.some.injEq] at h
    subst h
    exact ⟨t, .read_done hstage hs, hn⟩

theorem write_moved {m : UnitMove σ} {call : Writing} {next : Except StepError Unit → BatchTask σ}
    (hstage : u.stage = .writing call next) (h : u.move net armed = some m) :
    ∃ t, u.Moved net armed t m.unit ∧ net.Touched t m.net := by
  have ho := u.border.advanceWrite_obeys net call
  cases hr : u.border.advanceWrite net call with
  | blocked => simp [move, hstage, hr] at h
  | continues call' border net' =>
    rw [hr] at ho
    obtain ⟨t, hs, hn⟩ := ho
    simp only [move, hstage, hr, Option.some.injEq] at h
    subst h
    exact ⟨t, .write_on hstage hs, hn⟩
  | replies r border net' =>
    rw [hr] at ho
    obtain ⟨t, hs, hn⟩ := ho
    simp only [move, hstage, hr, Option.some.injEq] at h
    subst h
    exact ⟨t, .write_done hstage hs, hn⟩

theorem move_moved {m : UnitMove σ} (h : u.move net armed = some m) :
    ∃ t, u.Moved net armed t m.unit ∧ net.Touched t m.net := by
  cases hstage : u.stage with
  | unstarted => simp [move, hstage] at h
  | spawned =>
    cases hl : u.life.advance? .running with
    | some life =>
      simp only [move, hstage, hl, Option.some.injEq] at h
      subst h
      exact ⟨_, .spawn hstage hl, .nothing⟩
    | none =>
      simp only [move, hstage, hl, Option.some.injEq] at h
      subst h
      exact ⟨_, .misplaced hstage hl, .nothing⟩
  | checking =>
    simp only [move, hstage, Option.some.injEq] at h
    subst h
    obtain ⟨hm, hn⟩ := check_moved net armed hstage
    exact ⟨_, hm, by rw [hn]; exact .nothing⟩
  | working task =>
    simp only [move, hstage, Option.some.injEq] at h
    subst h
    exact ⟨_, work_moved hstage, .nothing⟩
  | reading call next => exact read_moved hstage h
  | writing call next => exact write_moved hstage h
  | failing todo =>
    rcases todo with _ | ⟨action, rest⟩
    · simp only [move, hstage, Option.some.injEq] at h
      subst h
      exact ⟨_, .failed hstage, .nothing⟩
    · obtain ⟨t, hd, hn⟩ := action.perform_does net
      simp only [move, hstage, Option.some.injEq] at h
      subst h
      exact ⟨t, .stop_on hstage hd, hn⟩
  | closing todo ending =>
    rcases todo with _ | ⟨action, rest⟩
    · simp only [move, hstage, Option.some.injEq] at h
      subst h
      exact ⟨_, .closed hstage, .nothing⟩
    · obtain ⟨t, hd, hn⟩ := action.perform_does net
      simp only [move, hstage, Option.some.injEq] at h
      subst h
      exact ⟨t, .close_on hstage hd, hn⟩
  | disposing ending =>
    simp only [move, hstage, Option.some.injEq] at h
    subst h
    exact ⟨_, .disposed hstage, .nothing⟩
  | leaving states =>
    rcases states with _ | ⟨state, rest⟩
    · simp only [move, hstage, Option.some.injEq] at h
      subst h
      exact ⟨_, .exit hstage, .nothing⟩
    · simp only [move, hstage, Option.some.injEq] at h
      subst h
      exact ⟨_, .enter hstage, .nothing⟩
  | ended => simp [move, hstage] at h

/-- A unit that cannot move and is not idle waits inside a read or a write. -/
theorem move_none (h : u.move net armed = none) (hi : u.isIdle = false) :
    (∃ call next, u.stage = .reading call next ∧ u.border.advanceRead net call = .blocked) ∨
      ∃ call next, u.stage = .writing call next ∧ u.border.advanceWrite net call = .blocked := by
  cases hstage : u.stage with
  | unstarted => simp [isIdle, hstage] at hi
  | ended => simp [isIdle, hstage] at hi
  | reading call next =>
    refine .inl ⟨call, next, rfl, ?_⟩
    cases hr : u.border.advanceRead net call with
    | blocked => rfl
    | continues call' border net' => simp [move, hstage, hr] at h
    | replies r border net' => simp [move, hstage, hr] at h
  | writing call next =>
    refine .inr ⟨call, next, rfl, ?_⟩
    cases hr : u.border.advanceWrite net call with
    | blocked => rfl
    | continues call' border net' => simp [move, hstage, hr] at h
    | replies r border net' => simp [move, hstage, hr] at h
  | spawned => cases hl : u.life.advance? .running <;> simp [move, hstage, hl] at h
  | checking => simp [move, hstage] at h
  | working task => simp [move, hstage] at h
  | failing todo => rcases todo with _ | ⟨action, rest⟩ <;> simp [move, hstage] at h
  | closing todo ending => rcases todo with _ | ⟨action, rest⟩ <;> simp [move, hstage] at h
  | disposing ending => simp [move, hstage] at h
  | leaving states => rcases states with _ | ⟨state, rest⟩ <;> simp [move, hstage] at h

variable {u' : RunUnit σ} {t : Touch} {c : Nat} {row : Row}

theorem Moved.takes (h : u.Moved net armed (.take c row) u') :
    ∃ (call : Reading) (next : Except StepError (Option Row) → BatchTask σ) (border : Border)
      (r : Except StepError (Option Row)), u.stage = .reading call next ∧
      u.border.ReadStep net (.take c row) call border (.replies r) ∧
      u' = { u with border, stage := .working (next r) } := by
  cases h with
  | read_on _ step => cases step
  | read_done stage step => exact ⟨_, _, _, _, stage, step, rfl⟩
  | write_on _ step => cases step
  | write_done _ step => cases step
  | stop_on _ does => cases does
  | close_on _ does => cases does

theorem Moved.puts (h : u.Moved net armed (.put c row) u') :
    ∃ (hops : List Nat) (next : Except StepError Unit → BatchTask σ),
      u.stage = .writing (.deliver c hops row) next ∧
      u' = { u with stage := .writing (.signal c hops row) next } := by
  cases h with
  | read_on _ step => cases step
  | read_done _ step => cases step
  | write_on stage step =>
    cases step with
    | put => exact ⟨_, _, stage, rfl⟩
  | write_done _ step => cases step
  | stop_on _ does => cases does
  | close_on _ does => cases does

/-- The run is stopped, and streams are ended, by what a unit owes on its way out. -/
theorem Moved.ends (h : u.Moved net armed t u') (ht : t.Ends) :
    ∃ (action : NetAction) (rest owed : List NetAction), action.Does net t owed ∧
      ((u.stage = .failing (action :: rest) ∧ u' = { u with stage := .failing (owed ++ rest) }) ∨
        ∃ ending, u.stage = .closing (action :: rest) ending ∧
          u' = { u with stage := .closing (owed ++ rest) ending }) := by
  cases h with
  | stop_on stage does => exact ⟨_, _, _, does, .inl ⟨stage, rfl⟩⟩
  | close_on stage does => exact ⟨_, _, _, does, .inr ⟨_, stage, rfl⟩⟩
  | read_on _ step => cases step <;> simp [Touch.Ends] at ht
  | read_done _ step => cases step <;> simp [Touch.Ends] at ht
  | write_on _ step => cases step <;> simp [Touch.Ends] at ht
  | write_done _ step => cases step <;> simp [Touch.Ends] at ht
  | _ => simp [Touch.Ends] at ht

theorem Moved.step (h : u.Moved net armed t u') :
    u'.stage ≠ .unstarted ∧ ∀ b m, u'.step = some (b, m) → ∃ m', u.step = some (b, m') := by
  cases h with
  | batch_over _ judged =>
    cases judged <;>
    · refine ⟨by simp [leave, fail], fun b m hs => ?_⟩
      obtain ⟨⟨b', m'⟩, hs', he⟩ := Option.map_eq_some_iff.mp hs
      rw [Prod.mk.injEq] at he
      obtain ⟨rfl, -⟩ := he
      exact ⟨m', hs'⟩
  | disposed =>
    refine ⟨by simp, fun b m hs => ?_⟩
    rcases hstep : u.step with _ | ⟨b', m'⟩
    · simp [disposeStep, hstep] at hs
    · simp only [disposeStep, hstep] at hs
      split at hs <;> cases hs
  | _ => exact ⟨by simp [leave, fail], fun b m hs => ⟨m, hs⟩⟩

theorem Moved.started (h : u.Moved net armed t u') :
    u.stage ≠ .unstarted := by
  cases h <;> simp [*]

end RunUnit

namespace Run

variable {σ : Type}

inductive Stepped (r : Run σ) : Party → Touch → Run σ → Prop
  | unit {i : Nat} {u u' : RunUnit σ} {t : Touch} {net : Net} {calls : List Event}
      (at_i : r.units[i]? = some u) (moved : u.Moved r.net r.armed t u')
      (touched : r.net.Touched t net) :
      Stepped r (.unit i) t { r with units := r.units.set i u', net, calls }
  | producer {k : Nat} {p p' : Producer} {t : Touch} {net : Net} (at_k : r.producers[k]? = some p)
      (moved : p.Moved r.net t p') (touched : r.net.Touched t net) :
      Stepped r (.producer k) t { r with producers := r.producers.set k p', net }
  | stop {k : Nat} {action : NetAction} {rest owed : List NetAction} {t : Touch} {net : Net}
      (at_k : r.stops[k]? = some (action :: rest)) (does : action.Does r.net t owed)
      (touched : r.net.Touched t net) :
      Stepped r (.stop k) t { r with stops := r.stops.set k (owed ++ rest), net }

variable {r r' : Run σ}

theorem Stepped.touched {party : Party} {t : Touch} (h : r.Stepped party t r') : r.net.Touched t r'.net := by
  cases h <;> assumption

theorem Stepped.back_at {party : Party} {t : Touch} (h : r.Stepped party t r') {i : Nat}
    {v : RunUnit σ} (hv : r'.units[i]? = some v) :
    ∃ u, r.units[i]? = some u ∧ (v = u ∨ u.Moved r.net r.armed t v) := by
  cases h with
  | @unit k u u' t net calls at_k moved touched =>
    simp only [List.getElem?_set] at hv
    split at hv
    · subst_vars
      split at hv
      · rw [Option.some.injEq] at hv
        exact ⟨u, at_k, .inr (hv ▸ moved)⟩
      · cases hv
    · exact ⟨v, hv, .inl rfl⟩
  | producer => exact ⟨v, hv, .inl rfl⟩
  | stop => exact ⟨v, hv, .inl rfl⟩

theorem Stepped.back {party : Party} {t : Touch} (h : r.Stepped party t r')
    {v : RunUnit σ} (hv : v ∈ r'.units) :
    ∃ (i : Nat) (u : RunUnit σ), r.units[i]? = some u ∧
      (v = u ∨ u.Moved r.net r.armed t v) := by
  obtain ⟨i, hi⟩ := List.getElem?_of_mem hv
  exact ⟨i, h.back_at hi⟩

theorem Stepped.forth {party : Party} {t : Touch} (h : r.Stepped party t r') {i : Nat}
    {u : RunUnit σ} (hu : r.units[i]? = some u) :
    ∃ v, r'.units[i]? = some v ∧ (v = u ∨ u.Moved r.net r.armed t v) := by
  cases h with
  | @unit k w w' t net calls at_k moved touched =>
    by_cases hk : k = i
    · subst hk
      rw [hu, Option.some.injEq] at at_k
      subst at_k
      exact ⟨w', by simp [(List.getElem?_eq_some_iff.mp hu).1], .inr moved⟩
    · exact ⟨u, by simp [hk, hu], .inl rfl⟩
  | producer => exact ⟨u, hu, .inl rfl⟩
  | stop => exact ⟨u, hu, .inl rfl⟩

theorem move_stepped {party : Party} (h : r.move party = some r') : ∃ t, r.Stepped party t r' := by
  cases party with
  | unit i =>
    rcases hu : r.units[i]? with _ | u
    · simp [move, moveUnit, hu] at h
    · rcases hm : u.move r.net r.armed with _ | m
      · simp [move, moveUnit, hu, hm] at h
      · simp only [move, moveUnit, hu, hm, Option.bind_eq_bind, Option.bind_some, Option.pure_def,
          Option.some.injEq] at h
        obtain ⟨t, hmv, hn⟩ := RunUnit.move_moved hm
        rcases he : m.event with _ | e
        · rw [he] at h
          subst h
          exact ⟨t, .unit hu hmv hn⟩
        · rw [he] at h
          subst h
          exact ⟨t, .unit hu hmv hn⟩
  | producer k =>
    rcases hp : r.producers[k]? with _ | p
    · simp [move, moveProducer, hp] at h
    · rcases hm : p.move r.net with _ | ⟨p', net⟩
      · simp [move, moveProducer, hp, hm] at h
      · simp only [move, moveProducer, hp, hm, Option.bind_eq_bind, Option.bind_some,
          Option.pure_def, Option.some.injEq] at h
        obtain ⟨t, hmv, hn⟩ := Producer.move_moved hm
        subst h
        exact ⟨t, .producer hp hmv hn⟩
  | stop k =>
    rcases hk : r.stops[k]? with _ | _ | ⟨action, rest⟩
    · simp [move, moveStop, hk] at h
    · simp [move, moveStop, hk] at h
    · simp only [move, moveStop, hk, Option.some.injEq] at h
      obtain ⟨t, hd, hn⟩ := action.perform_does r.net
      subst h
      exact ⟨t, .stop hk hd hn⟩

theorem unit_waits {i : Nat} {u : RunUnit σ} (hu : r.units[i]? = some u)
    (h : r.move (.unit i) = none) : u.move r.net r.armed = none := by
  rcases hm : u.move r.net r.armed with _ | m
  · rfl
  · simp [move, moveUnit, hu, hm] at h

theorem producer_waits {k : Nat} {p : Producer} (hp : r.producers[k]? = some p)
    (h : r.move (.producer k) = none) : p.move r.net = none := by
  rcases hm : p.move r.net with _ | m
  · rfl
  · simp [move, moveProducer, hp, hm] at h

theorem stop_waits {k : Nat} {todo : List NetAction} (hk : r.stops[k]? = some todo)
    (h : r.move (.stop k) = none) : todo = [] := by
  rcases todo with _ | ⟨action, rest⟩
  · rfl
  · simp [move, moveStop, hk] at h

end Run

end Sluice
