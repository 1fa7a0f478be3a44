import Sluice.Proofs.Run.Begun

/-!
The faults of a unit. What a step lets go wrong shows where it reports a bad row and where a batch
comes to its result; the log of a unit lists these one after the other. Each is counted once, with
its text, and the last one of a log, and no other, takes the unit out of its loop.
-/

namespace Sluice

/-- What the loop of a unit hears of its step, or finds at its top. -/
inductive Incident where
  /-- The step reported a row that it cannot process. -/
  | reported (fault : DataFault)
  /-- A batch came to its result. -/
  | returned (result : Except Halt BatchOutcome)
  /-- The run was being stopped. -/
  | halted
  /-- The point at the top of the loop was armed. -/
  | tripped (point : String)

namespace Incident

/-- What is recorded for it. -/
def messages (policy : DataErrorPolicy) : Incident → List String
  | .reported fault => if policy = .skip then [fault.message] else []
  | .returned (.ok _) | .returned (.error (.error .aborted)) | .halted => []
  | .returned (.error (.error (.data fault))) => [fault.message]
  | .returned (.error (.error e)) => [e.message]
  | .returned (.error (.panic payload)) => [RunUnit.panicText "" payload]
  | .tripped point => [RunUnit.panicText "" (some ("failpoint triggered: " ++ point))]

/-- How it ends the loop, if it does. -/
def ending (policy : DataErrorPolicy) : Incident → Option UnitState
  | .reported _ | .returned (.ok .more) => none
  | .returned (.ok .finished) => some .finished
  | .returned (.error (.error .aborted)) | .halted => some .stopped
  | .returned (.error (.error (.data _))) => if policy = .skip then none else some .errored
  | .returned (.error _) | .tripped _ => some .errored

def isReport : Incident → Bool
  | .reported _ => true
  | _ => false

def isBadRow : Incident → Bool
  | .returned (.error (.error (.data _))) => true
  | _ => false

/-- The step cannot go on: its configuration is wrong, it failed for good, or it panicked. -/
def isBreak : Incident → Bool
  | .returned (.error (.error (.config _))) | .returned (.error (.error (.fatal _)))
  | .returned (.error (.panic _)) | .tripped _ => true
  | _ => false

variable {policy : DataErrorPolicy} {x : Incident}

theorem length_messages (policy : DataErrorPolicy) (x : Incident) :
    (x.messages policy).length = (if policy = .skip ∧ x.isReport = true then 1 else 0) +
      (if x.isBadRow = true then 1 else 0) + if x.isBreak = true then 1 else 0 := by
  rcases x with fault | ((e | payload) | result) | _ | point
  · cases policy <;> rfl
  · cases e <;> simp [messages, isReport, isBadRow, isBreak]
  · simp [messages, isReport, isBadRow, isBreak]
  · simp [messages, isReport, isBadRow, isBreak]
  · simp [messages, isReport, isBadRow, isBreak]
  · simp [messages, isReport, isBadRow, isBreak]

theorem isBreak_of_going_on (h : x.ending policy = none) : x.isBreak = false := by
  rcases x with fault | ((e | payload) | result) | _ | point
  · rfl
  · cases e <;> first | rfl | cases h
  · cases h
  · rfl
  · rfl
  · cases h

theorem ending_of_isBadRow (h : x.isBadRow = true) :
    x.ending policy = if policy = .skip then none else some .errored := by
  rcases x with fault | ((e | payload) | result) | _ | point
  · cases h
  · cases e <;> first | rfl | cases h
  · cases h
  · cases h
  · cases h
  · cases h

theorem messages_of_well (h : x.ending policy = some .finished ∨ x.ending policy = some .stopped) :
    x.messages policy = [] := by
  rcases x with fault | ((e | payload) | result) | _ | point
  · simp [ending] at h
  · cases e <;> first | rfl | (cases policy <;> simp [ending] at h)
  · simp [ending] at h
  · rfl
  · rfl
  · simp [ending] at h

theorem length_recorded (policy : DataErrorPolicy) (log : List Incident) :
    (log.flatMap (·.messages policy)).length =
      (if policy = .skip then log.countP (·.isReport) else 0) + log.countP (·.isBadRow) +
        log.countP (·.isBreak) := by
  induction log with
  | nil => cases policy <;> rfl
  | cons x log ih =>
    rw [List.flatMap_cons, List.length_append, ih, length_messages]
    simp only [List.countP_cons]
    by_cases hp : policy = .skip
    · simp only [hp, if_true, true_and]
      omega
    · simp only [hp, if_false, false_and]
      omega

end Incident

variable {σ : Type}

namespace RunUnit

def incident (u : RunUnit σ) (net : Net) (armed : List String) : Option Incident :=
  match u.stage with
  | .checking =>
    if net.stopping then some .halted
    else if armed.contains u.failPoint then some (.tripped u.failPoint)
    else none
  | .working (.report fault _) => some (.reported fault)
  | .working (.done (result, _)) => some (.returned result)
  | _ => none

/-- How the unit is going to end, once it has left its loop. -/
def verdict (u : RunUnit σ) : Option UnitState :=
  match u.stage with
  | .failing _ => some .errored
  | _ => u.ending

/-- At the top of the loop, at a bad row or at the end of a batch. -/
def Telling (u : RunUnit σ) : Prop :=
  match u.stage with
  | .checking | .working (.report ..) | .working (.done _) => True
  | _ => False

/-- All that a unit recorded is in its log, and the log tells how it left its loop. -/
structure Accounted (u : RunUnit σ) (log : List Incident) : Prop where
  held : u.verdict = none → u.step.isSome
  calm : ∀ b m, u.step = some (b, m) → ∀ m', b.dispose m' = .ok ()
  tallied : u.Tallied
  messages : u.border.counters.messages.toList = log.flatMap (·.messages u.border.policy)
  going : u.verdict = none → ∀ x ∈ log, x.ending u.border.policy = none
  gone : ∀ e, u.verdict = some e → ∃ before x, log = before ++ [x] ∧
    (∀ y ∈ before, y.ending u.border.policy = none) ∧ x.ending u.border.policy = some e

variable {u u' : RunUnit σ} {net : Net} {armed : List String} {t : Touch} {log : List Incident}

theorem Moved.policy (h : u.Moved net armed t u') : u'.border.policy = u.border.policy :=
  congrArg (fun s : Station => s.place.policy) h.station

theorem Moved.holds (h : u.Moved net armed t u') (hgoing : u'.verdict = none)
    (hs : u.step.isSome) : u'.step.isSome := by
  cases h with
  | batch_over _ judged =>
    cases judged <;> rwa [← Option.isSome_map (f := fun s : Behaviour σ × σ => (s.1, _))] at hs
  | disposed => simp [verdict, ending] at hgoing
  | _ => exact hs

theorem Accounted.quiet (h : u.Accounted log) (hm : u.Moved net armed t u')
    (hverdict : u'.verdict = u.verdict)
    (hmessages : u'.border.counters.messages = u.border.counters.messages) : u'.Accounted log where
  held hv := hm.holds hv (h.held (hverdict ▸ hv))
  calm b m hs := by
    obtain ⟨m', hs'⟩ := hm.step.2 b m hs
    exact h.calm b m' hs'
  tallied := h.tallied.moved hm
  messages := by rw [hmessages, hm.policy, h.messages]
  going hv := by
    rw [hm.policy]
    exact h.going (hverdict ▸ hv)
  gone e hv := by
    rw [hm.policy]
    exact h.gone e (hverdict ▸ hv)

theorem Accounted.note (h : u.Accounted log) (hm : u.Moved net armed t u')
    (hgoing : u.verdict = none) {x : Incident} (hverdict : u'.verdict = x.ending u.border.policy)
    (hmessages : u'.border.counters.messages.toList =
      u.border.counters.messages.toList ++ x.messages u.border.policy) :
    u'.Accounted (log ++ [x]) where
  held hv := hm.holds hv (h.held hgoing)
  calm b m hs := by
    obtain ⟨m', hs'⟩ := hm.step.2 b m hs
    exact h.calm b m' hs'
  tallied := h.tallied.moved hm
  messages := by simp [hmessages, hm.policy, h.messages]
  going hv y hy := by
    rw [hm.policy]
    rcases List.mem_append.mp hy with hy | hy
    · exact h.going hgoing y hy
    · obtain rfl := List.mem_singleton.mp hy
      exact hverdict ▸ hv
  gone e hv := by
    rw [hm.policy]
    exact ⟨log, x, rfl, h.going hgoing, hverdict ▸ hv⟩

end RunUnit

namespace Border

theorem recordError_messages (p : Border) (message : String) :
    (p.recordError message).counters.messages.toList = p.counters.messages.toList ++ [message] := by
  simp [recordError, Counters.recordError]

variable {p p' : Border} {net : Net} {t : Touch}

theorem ReadStep.messages {call : Reading} {onward : Onward Reading (Except StepError (Option Row))}
    (h : p.ReadStep net t call p' onward) : p'.counters.messages = p.counters.messages := by
  cases h <;> rfl

theorem WriteStep.messages {call : Writing} {onward : Onward Writing (Except StepError Unit)}
    (h : p.WriteStep net t call p' onward) : p'.counters.messages = p.counters.messages := by
  cases h with
  | choose turn =>
    obtain ⟨o, -, -, rfl⟩ := takeTurn_some turn
    rfl
  | _ => rfl

end Border

namespace RunUnit

variable {u u' : RunUnit σ} {net : Net} {armed : List String} {t : Touch} {log : List Incident}

/-- Between the places where something can come to light nothing does. -/
theorem Accounted.silent (h : u.Accounted log) (hl : u.Lively) (hm : u.Moved net armed t u')
    (hquiet : ¬ u.Telling) : u'.Accounted log := by
  have hsame {e : UnitState} (he : u.ending = some e) : u'.ending = some e :=
    hl.ending_moved hm he
  have hstay := h.quiet hm
  cases hm with
  | see_stop stage | trip stage | no_step stage | batch stage | batch_over stage
  | count_fault stage | pass_fault stage => exact absurd (by simp [Telling, stage]) hquiet
  | misplaced stage advance =>
    have hlife : u.life = ⟨.initialized, none⟩ := by simpa [Lively, stage] using hl
    simp [hlife, Lifecycle.advance?, UnitState.canMoveTo] at advance
  | spawn stage | begin_read stage | begin_write stage | ask_stop stage | close_on stage
  | closed stage => exact hstay (by simp [verdict, ending, stage]) rfl
  | read_on stage step | read_done stage step =>
    exact hstay (by simp [verdict, ending, stage]) step.messages
  | write_on stage step | write_done stage step =>
    exact hstay (by simp [verdict, ending, stage]) step.messages
  | stop_on stage => exact hstay (by simp [verdict, stage]) rfl
  | failed stage => exact hstay (by simp [verdict, ending, leave, stage]) rfl
  | disposed stage =>
    refine hstay (by simp [verdict, ending, stage]) ?_
    unfold disposeStep
    cases hstep : u.step with
    | none => rfl
    | some s => simp [h.calm s.1 s.2 hstep]
  | enter stage =>
    obtain ⟨e, he⟩ := Option.isSome_iff_exists.mp (hl.settled stage)
    exact hstay (by simpa [verdict, stage, he] using hsame he) rfl
  | exit stage =>
    obtain ⟨e, he⟩ := Option.isSome_iff_exists.mp (hl.settled stage)
    exact hstay (by simpa [verdict, stage, he] using hsame he) rfl

theorem Accounted.checked (h : u.Accounted log) (hstage : u.stage = .checking) :
    (u.check net armed).unit.Accounted (log ++ (u.incident net armed).toList) := by
  have hgoing : u.verdict = none := by simp [verdict, ending, hstage]
  have hm : u.Moved net armed .nothing (u.check net armed).unit :=
    (check_moved net armed hstage).1
  cases hstop : net.stopping with
  | true =>
    simp only [incident, check, hstage, hstop, if_true, Option.toList_some] at hm ⊢
    exact h.note hm hgoing rfl (List.append_nil _).symm
  | false =>
    cases hhit : armed.contains u.failPoint with
    | true =>
      simp only [incident, check, hstage, hstop, hhit, if_true, Bool.false_eq_true, if_false,
        Option.toList_some] at hm ⊢
      exact h.note hm hgoing rfl (u.border.recordError_messages _)
    | false =>
      obtain ⟨⟨b, memory⟩, hstep⟩ := Option.isSome_iff_exists.mp (h.held hgoing)
      simp only [incident, check, hstage, hstop, hhit, hstep, Bool.false_eq_true, if_false,
        Option.toList_none, List.append_nil] at hm ⊢
      exact h.quiet hm (by simp [verdict, ending, hstage]) rfl

theorem Accounted.worked (h : u.Accounted log) (hl : u.Lively) {task : BatchTask σ}
    (hstage : u.stage = .working task) :
    (u.work net task).Accounted (log ++ (u.incident net armed).toList) := by
  have hgoing : u.verdict = none := by simp [verdict, ending, hstage]
  have hm : u.Moved net armed .nothing (u.work net task) := work_moved hstage
  have hsilent (hquiet : ¬ u.Telling) (hnone : u.incident net armed = none) :
      (u.work net task).Accounted (log ++ (u.incident net armed).toList) := by
    rw [hnone, Option.toList_none, List.append_nil]
    exact h.silent hl hm hquiet
  cases task with
  | read input next => exact hsilent (by simp [Telling, hstage]) (by simp [incident, hstage])
  | write hop row next => exact hsilent (by simp [Telling, hstage]) (by simp [incident, hstage])
  | stopping next => exact hsilent (by simp [Telling, hstage]) (by simp [incident, hstage])
  | report fault next =>
    simp only [incident, hstage, Option.toList_some]
    refine h.note hm hgoing (by simp [work, verdict, ending, Incident.ending]) ?_
    cases hp : u.border.policy with
    | skip =>
      simp only [work, Border.reportData, hp, Incident.messages, if_true]
      exact u.border.recordError_messages fault.message
    | abort => simp [work, Border.reportData, hp, Incident.messages]
  | done a =>
    obtain ⟨result, memory⟩ := a
    simp only [incident, hstage, Option.toList_some]
    have hrecorded := u.border.recordError_messages
    have hj := afterBatch_judged { u with step := u.step.map fun s => (s.1, memory) } result
    change Judged _ result (u.work net (.done (result, memory))) at hj
    generalize hwork : u.work net (.done (result, memory)) = v at hm hj ⊢
    cases hj with
    | more => exact h.note hm hgoing rfl (List.append_nil _).symm
    | finished => exact h.note hm hgoing rfl (List.append_nil _).symm
    | skipped policy => exact h.note hm hgoing (if_pos policy).symm (hrecorded _)
    | bad_row policy =>
      have hskip : u.border.policy ≠ .skip := fun hs => by cases hs.symm.trans policy
      exact h.note hm hgoing (if_neg hskip).symm (hrecorded _)
    | stopped => exact h.note hm hgoing rfl (List.append_nil _).symm
    | @broken e stop data =>
      cases e with
      | aborted => exact absurd rfl stop
      | data fault => exact absurd rfl (data fault)
      | config fault => exact h.note hm hgoing rfl (hrecorded _)
      | fatal fault => exact h.note hm hgoing rfl (hrecorded _)
    | panicked => exact h.note hm hgoing rfl (hrecorded _)

/-- One step of a unit: what comes to light is recorded and goes into the log. -/
theorem Accounted.moved (h : u.Accounted log) (hl : u.Lively) {m : UnitMove σ}
    (hm : u.move net armed = some m) : m.unit.Accounted (log ++ (u.incident net armed).toList) := by
  obtain ⟨t, hmoved, -⟩ := move_moved hm
  have hsilent (hquiet : ¬ u.Telling) (hnone : u.incident net armed = none) :
      m.unit.Accounted (log ++ (u.incident net armed).toList) := by
    rw [hnone, Option.toList_none, List.append_nil]
    exact h.silent hl hmoved hquiet
  cases hstage : u.stage with
  | checking =>
    simp only [move, hstage, Option.some.injEq] at hm
    exact hm ▸ h.checked hstage
  | working task =>
    simp only [move, hstage, Option.some.injEq] at hm
    exact hm ▸ h.worked hl hstage
  | _ => exact hsilent (by simp [Telling, hstage]) (by simp [incident, hstage])

theorem incident_of_waiting (h : u.move net armed = none) : u.incident net armed = none := by
  cases hstage : u.stage with
  | checking => simp [move, hstage] at h
  | working task => simp [move, hstage] at h
  | _ => simp [incident, hstage]

end RunUnit

namespace Run

def incident (r : Run σ) (i : Nat) : Deed → List Incident
  | .move (.unit k) => if k = i then ((r.units[i]?).bind (·.incident r.net r.armed)).toList else []
  | _ => []

/-- All that comes to light about a unit in the course of some deeds, in its order. -/
def log (r : Run σ) (i : Nat) : List Deed → List Incident
  | [] => []
  | d :: ds => r.incident i d ++ (r.act d).log i ds

variable {r r' : Run σ} {d : Deed} {i : Nat}

theorem log_concat (r : Run σ) (i : Nat) (ds : List Deed) (d : Deed) :
    r.log i (ds ++ [d]) = r.log i ds ++ (r.after ds).incident i d := by
  induction ds generalizing r with
  | nil => simp [log, after]
  | cons e ds ih =>
    rw [List.cons_append, log, log, ih, List.append_assoc]
    rfl

theorem log_of_new (ho : r.Orderly) (ds : List Deed) (hp : (r.after ds).phase = .new) :
    r.log i ds = [] := by
  induction ds using List.reverseRecOn with
  | nil => rfl
  | append_singleton ds d ih =>
    rw [after_append] at hp
    have hnew : (r.after ds).phase = .new := (act_acted _ d).new hp
    have hunits := ((ho.after ds).blank hnew).units
    have hincident : (r.after ds).incident i d = [] := by
      unfold incident
      split
      · simp [hunits]
      · rfl
    rw [log_concat, ih hnew, hincident, List.append_nil]

variable {logs : Nat → List Incident}

def Logged (r : Run σ) (logs : Nat → List Incident) : Prop :=
  ∀ (i : Nat) (u : RunUnit σ), r.units[i]? = some u → u.Accounted (logs i)

theorem Logged.unit_moved (h : r.Logged logs) (hl : r.Afoot) (k : Nat) :
    (r.act (.move (.unit k))).Logged fun i => logs i ++ r.incident i (.move (.unit k)) := by
  intro i v hv
  cases hk : r.units[k]? with
  | none =>
    have hsame : r.act (.move (.unit k)) = r := by simp [act, move, moveUnit, hk]
    rw [hsame] at hv
    have hne : k ≠ i := by
      rintro rfl
      simp [hk] at hv
    simpa [incident, hne] using h i v hv
  | some u =>
    cases hm : u.move r.net r.armed with
    | none =>
      have hsame : r.act (.move (.unit k)) = r := by simp [act, move, moveUnit, hk, hm]
      rw [hsame] at hv
      have hnone : r.incident i (.move (.unit k)) = [] := by
        by_cases hki : k = i
        · subst hki
          simp [incident, hk, RunUnit.incident_of_waiting hm]
        · simp [incident, hki]
      simpa [hnone] using h i v hv
    | some m =>
      have hunits : (r.act (.move (.unit k))).units = r.units.set k m.unit := by
        cases he : m.event <;> simp [act, move, moveUnit, hk, hm, addCall, he]
      rw [hunits] at hv
      obtain ⟨rfl, rfl⟩ | ⟨hne, hv⟩ := List.getElem?_set_cases hv
      · have hu := (h i u hk).moved (hl.lively u (List.mem_of_getElem? hk)) hm
        simpa [incident, hk] using hu
      · simpa [incident, hne.symm] using h i v hv

theorem Logged.others (h : r.Logged logs) (hl : r.Afoot) (hd : ∀ k, d ≠ .move (.unit k)) :
    (r.act d).Logged fun i => logs i ++ r.incident i d := by
  have hnone (i : Nat) : r.incident i d = [] := by
    unfold incident
    split
    · exact absurd rfl (hd _)
    · rfl
  intro i v hv
  simp only [hnone, List.append_nil]
  have hmodify {k : Nat} {f : RunUnit σ → RunUnit σ}
      (hf : ∀ u, u.Accounted (logs i) → (f u).Accounted (logs i))
      (hv : (r.units.modify k f)[i]? = some v) : v.Accounted (logs i) := by
    obtain ⟨u, hu, rfl | ⟨rfl, rfl⟩⟩ := List.getElem?_modify_cases hv
    · exact h i _ hu
    · exact hf u (h _ u hu)
  have hacted := r.act_acted d
  generalize r.act d = r' at hacted hv
  cases hacted with
  | idle | offered | finishing | stopped | waited => exact h i v hv
  | spoiled phase | unwound phase | shelved phase | prepared phase => exact absurd phase hl.phase
  | fed | observed =>
    refine hmodify ?_ hv
    exact fun _ hu => ⟨hu.held, hu.calm, hu.tallied, hu.messages, hu.going, hu.gone⟩
  | started phase =>
    rw [List.getElem?_map] at hv
    obtain ⟨u, hu, rfl⟩ := Option.map_eq_some_iff.mp hv
    have hstage := (hl.unstarted u (List.mem_of_getElem? hu)).mpr phase
    have hgoing : u.verdict = none := by simp [RunUnit.verdict, RunUnit.ending, hstage]
    have ha := h i u hu
    rw [RunUnit.spawn, if_pos (ha.held hgoing)]
    exact ⟨fun _ => ha.held hgoing, ha.calm, ha.tallied, ha.messages, fun _ => ha.going hgoing,
      fun e he => by cases he⟩
  | moved stepped =>
    cases stepped with
    | unit => exact absurd rfl (hd _)
    | producer => exact h i v hv
    | stop => exact h i v hv

theorem accounted_prepared (hcalm : r.registry.Calm) {fresh units : List (RunUnit σ)}
    (hfresh : ∀ u ∈ fresh, u.Fresh) (hinit : List.Forall₂ (RunUnit.Initiated r.registry) fresh units)
    {v : RunUnit σ} (hv : v ∈ units) : v.Accounted [] := by
  obtain ⟨u, hu, t, m, ht, -, rfl⟩ := List.forall₂_mem hinit hv
  have hf := hfresh u hu
  have hmem : t ∈ r.registry.types := List.mem_of_find?_eq_some ht
  refine ⟨fun _ => rfl, fun b m' hs => ?_, hf.tallied, by simp [hf.counters], by simp, fun e he => ?_⟩
  · obtain ⟨rfl, -⟩ := Prod.mk.inj (Option.some.inj hs)
    exact hcalm t hmem
  · simp [RunUnit.verdict, RunUnit.ending, hf.stage] at he

variable {registry : Registry σ} {settings : Settings} {g : Graph} {armed : List String}

theorem accounted_after (hcalm : registry.Calm) (ds : List Deed) :
    let new := Run.new registry settings g armed
    (new.after ds).Orderly ∧ (new.after ds).Begun (Logged · fun i => new.log i ds) := by
  intro new
  have hnew : new.Orderly := orderly_new registry settings g armed
  refine begun_after (fun ds r => r.Logged fun i => new.log i ds)
    (fun ds d ho hb hafoot => ?_) ds
  change (new.after ds).Orderly at ho
  simp only [log_concat]
  obtain ⟨hphase, hprepared⟩ | ⟨hl, h⟩ := hb
  · have hlog (i : Nat) : new.log i ds = [] := log_of_new hnew ds hphase
    have hregistry : (new.after ds).registry = registry := (new.given_after ds).2.2.1
    have hacted := (new.after ds).act_acted d
    generalize (new.after ds).act d = r' at hacted hprepared
    cases hacted with
    | prepared phase wired initiated =>
      intro i v hv
      simp only [hlog]
      exact accounted_prepared (hregistry ▸ hcalm) (ho.wired phase wired).1 initiated
        (List.mem_of_getElem? hv)
    | idle | unwound | offered | finishing | stopped => exact nomatch hphase.symm.trans hprepared
    | spoiled | shelved => cases hprepared
    | fed phase | observed phase | started phase | waited phase =>
      exact nomatch hphase.symm.trans phase
    | moved stepped => exact nomatch hphase.symm.trans (stepped.phase.symm.trans hprepared)
  · by_cases hd : ∃ k, d = .move (.unit k)
    · obtain ⟨k, rfl⟩ := hd
      exact h.unit_moved hl k
    · exact h.others hl fun k hk => hd ⟨k, hk⟩

/-- When a unit has ended, it has recorded one text for each bad row that was skipped, one for each
batch that a bad row ended, and one if the step broke. Where bad rows are skipped none of them ends
the loop; elsewhere the first one does. -/
theorem faults_accounted (registry : Registry σ) (settings : Settings) (g : Graph)
    (armed : List String) (hcalm : registry.Calm) (ds : List Deed) (i : Nat) (u : RunUnit σ)
    (hu : ((Run.new registry settings g armed).after ds).units[i]? = some u)
    (hended : u.stage = .ended) :
    let log := (Run.new registry settings g armed).log i ds
    let policy := u.border.policy
    let report := unitReport u
    ∃ before last, log = before ++ [last] ∧
      (∀ x ∈ before, x.ending policy = none) ∧ last.ending policy = some report.state ∧
      report.messages = log.flatMap (·.messages policy) ∧
      report.errors = report.messages.length ∧
      report.errors = (if policy = .skip then log.countP (·.isReport) else 0) +
        log.countP (·.isBadRow) + (if last.isBreak then 1 else 0) ∧
      (policy = .skip → last.isBadRow = false) ∧
      (policy = .abort → ∀ x ∈ log, x.isBadRow = true →
        x = last ∧ log.countP (·.isBadRow) = 1 ∧ report.state = .errored) ∧
      (report.state = .finished ∨ report.state = .stopped → last.messages policy = []) := by
  intro log policy report
  obtain ⟨ho, hb⟩ := accounted_after hcalm ds
  have hmem := List.mem_of_getElem? hu
  obtain ⟨hl, haccounted⟩ := hb.of_unit ho hmem fun hs => by simp [hs.stage] at hended
  have ha : u.Accounted log := haccounted i u hu
  obtain ⟨e, -, hending, hstate⟩ := (hl.lively u hmem).ended hended
  have hverdict : u.verdict = some e := by simpa [RunUnit.verdict, hended] using hending
  obtain ⟨before, last, hlog, hbefore, hlast⟩ := ha.gone e hverdict
  have hreport : last.ending policy = some report.state := hlast.trans (congrArg some hstate.symm)
  have hfine (hwell : last.ending policy = some .finished ∨ last.ending policy = some .stopped) :
      last.messages policy = [] := Incident.messages_of_well hwell
  have hmessages : report.messages = log.flatMap (·.messages policy) := ha.messages
  have herrors : report.errors = report.messages.length := ha.tallied.trans Array.length_toList.symm
  have hbreaks : log.countP (·.isBreak) = if last.isBreak then 1 else 0 := by
    have hnone : before.countP (·.isBreak) = 0 := List.countP_eq_zero.mpr fun x hx => by
      simp [Incident.isBreak_of_going_on (hbefore x hx)]
    rw [hlog, List.countP_append, hnone, Nat.zero_add, List.countP_singleton]
  refine ⟨before, last, hlog, hbefore, hreport, hmessages, herrors, ?_, fun hskip => ?_,
    fun habort x hx hbad => ?_, fun hwell => ?_⟩
  · rw [herrors, hmessages, Incident.length_recorded, hbreaks]
  · by_contra hbad
    rw [Incident.ending_of_isBadRow (by simpa using hbad), if_pos hskip] at hlast
    cases hlast
  · have hending {y : Incident} (hy : y.isBadRow = true) : y.ending policy = some .errored := by
      rw [Incident.ending_of_isBadRow hy, if_neg (by simp [habort])]
    have hnone : ∀ y ∈ before, ¬ y.isBadRow = true := fun y hy hbad =>
      nomatch (hbefore y hy).symm.trans (hending hbad)
    have hx : x = last := by
      rw [hlog] at hx
      rcases List.mem_append.mp hx with hx | hx
      · exact absurd hbad (hnone x hx)
      · exact List.mem_singleton.mp hx
    subst hx
    refine ⟨rfl, ?_, Option.some.inj (hreport.symm.trans (hending hbad))⟩
    rw [hlog, List.countP_append, List.countP_eq_zero.mpr hnone, List.countP_singleton, if_pos hbad]
  · rw [hreport, Option.some.injEq, Option.some.injEq] at hfine
    exact hfine hwell

/-- A type whose steps report a bad row, end a batch with another, and then fail for good. -/
def stumbling : StepType Nat where
  id := "stumbling"
  behaviour := {
    fresh := 0
    init := fun _ => .ok 0
    process := fun _ => do
      let batches ← get
      set (batches + 1)
      match batches with
      | 0 =>
        Work.reportData (.custom "first")
        return .more
      | 1 => Work.fail (.data (.custom "second"))
      | _ => Work.fail (.fatal (.custom "third")) }

def stumbler : Run Nat :=
  let step : StepSpec := { name := "a", type := "stumbling", onDataError := .skip }
  Run.new ⟨[stumbling]⟩ {} { name := "stumbler", steps := [step], hops := [] } []

def stumbles : List Deed :=
  [.prepare, .start [] 0] ++ .replicate 24 (.move (.unit 0))

theorem stumbles_recorded :
    ∃ u before last, (stumbler.after stumbles).units[0]? = some u ∧ u.stage = .ended ∧
      stumbler.log 0 stumbles = before ++ [last] ∧ last.ending .skip = some .errored ∧
      (unitReport u).messages = ["first", "second", "fatal error: third"] ∧
      (unitReport u).errors = (unitReport u).messages.length := by
  have hreports : (stumbler.after stumbles).units.map (fun u => (u.border.policy, unitReport u,
      match u.stage with
      | .ended => true
      | _ => false)) =
      [(.skip, ⟨⟨"a", 0⟩, .errored, 0, 0, 3, ["first", "second", "fatal error: third"]⟩, true)] := by
    decide +kernel
  obtain ⟨u, rest, hunits, hu, -⟩ := List.map_eq_cons_iff.mp hreports
  obtain ⟨hpolicy, hreport, hstage⟩ : u.border.policy = .skip ∧ _ ∧ _ := by
    simpa only [Prod.mk.injEq] using hu
  have hat : (stumbler.after stumbles).units[0]? = some u := by rw [hunits, List.getElem?_cons_zero]
  have hended : u.stage = .ended := by
    split at hstage
    · assumption
    · cases hstage
  have hcalm : Registry.Calm ⟨[stumbling]⟩ := by
    intro t ht m
    obtain rfl := List.mem_singleton.mp ht
    rfl
  obtain ⟨before, last, hlog, -, hlast, -, herrors, -⟩ :=
    faults_accounted ⟨[stumbling]⟩ {} stumbler.graph [] hcalm stumbles 0 u hat hended
  rw [hpolicy, hreport] at hlast
  exact ⟨u, before, last, hat, hended, hlog, hlast, by rw [hreport], herrors⟩

end Run

end Sluice
