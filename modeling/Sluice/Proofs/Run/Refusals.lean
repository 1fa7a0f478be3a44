import Sluice.Proofs.Run.Report
import Sluice.Proofs.Run.Wired

/-!
Refusals. A run goes through its phases once. What it refuses leaves it as it was, so that a history
without the refused operations comes to the same run with the same answers.
-/

namespace Sluice

inductive Phase.Step : Phase → Phase → Prop
  | stays {p : Phase} : Step p p
  | prepared : Step .new .prepared
  | started : Step .prepared .running
  | waited : Step .running .finished
  /-- What cannot be prepared is spent. -/
  | spent : Step .new .finished

/-- The operation is not one for the phase or for the unit. -/
def RunError.refuses : RunError → Bool
  | .outOfPhase .. | .unknownUnit _ | .hasInputHop _ | .takesNoInput .. => true
  | _ => false

inductive Deed.Reply where
  | prepared (answer : Except RunError Unit)
  | producer (answer : Except RunError Nat)
  | observer (answer : Except RunError (Nat × Nat))
  | started (answer : Except RunError Unit)
  /-- No answer while units go on. -/
  | waited (answer : Option (Except RunError RunReport))
  | silent

namespace Deed.Reply

def error? : Deed.Reply → Option RunError
  | .prepared (.error e) | .producer (.error e) | .observer (.error e) | .started (.error e)
  | .waited (some (.error e)) => some e
  | _ => none

def refused (reply : Deed.Reply) : Bool :=
  reply.error?.any (·.refuses)

def prepares : Deed.Reply → Bool
  | .prepared (.ok ()) => true
  | _ => false

def starts : Deed.Reply → Bool
  | .started (.ok ()) => true
  | _ => false

end Deed.Reply

namespace Run

variable {σ : Type} {r r' : Run σ}

def reply (r : Run σ) : Deed → Deed.Reply
  | .prepare => .prepared r.prepare.1
  | .addProducer unit => .producer (r.addProducer unit).1
  | .addObserver unit => .observer (r.addObserver unit).1
  | .start id now => .started (r.start id now).1
  | .wait now => .waited ((r.wait now).map (·.1))
  | .offer .. | .finish _ | .stop | .move _ => .silent

def replies (r : Run σ) : List Deed → List Deed.Reply
  | [] => []
  | d :: ds => r.reply d :: (r.act d).replies ds

/-- What is left of a history when the refused operations are struck out. -/
def granted (r : Run σ) : List Deed → List Deed
  | [] => []
  | d :: ds => if (r.reply d).refused then (r.act d).granted ds else d :: (r.act d).granted ds

theorem Acted.phase {d : Deed} (h : r.Acted d r') : r.phase.Step r'.phase := by
  cases h with
  | spoiled phase | shelved phase =>
    rw [phase]
    exact .spent
  | prepared phase =>
    rw [phase]
    exact .prepared
  | started phase =>
    rw [phase]
    exact .started
  | waited phase =>
    rw [phase]
    exact .waited
  | moved stepped => cases stepped <;> exact .stays
  | idle | unwound | fed | observed | offered | finishing | stopped => exact .stays

theorem act_phase (r : Run σ) (d : Deed) : r.phase.Step (r.act d).phase :=
  (r.act_acted d).phase

theorem prepare_refused (h : r.phase ≠ .new) :
    r.prepare = (.error (.outOfPhase .prepare r.phase), r) := by
  simp [prepare, expect, h]

theorem start_refused (h : r.phase ≠ .prepared) (id : List UInt8) (now : Nat) :
    r.start id now = (.error (.outOfPhase .start r.phase), r) := by
  simp [start_eq, expect, h]

theorem prepares_phase {d : Deed} (h : (r.reply d).prepares = true) :
    r.phase = .new ∧ (r.act d).phase = .prepared := by
  cases d with
  | prepare =>
    by_cases hnew : r.phase = .new
    · refine ⟨hnew, prepare_phase ?_⟩
      cases hok : r.prepare.1 with
      | error e => simp [reply, hok, Deed.Reply.prepares] at h
      | ok => rfl
    · simp [reply, prepare_refused hnew, Deed.Reply.prepares] at h
  | _ => cases h

theorem starts_phase {d : Deed} (h : (r.reply d).starts = true) :
    r.phase = .prepared ∧ (r.act d).phase = .running := by
  cases d with
  | start id now =>
    by_cases hprepared : r.phase = .prepared
    · exact ⟨hprepared, by simp [act, start_eq, expect, hprepared]⟩
    · simp [reply, start_refused hprepared, Deed.Reply.starts] at h
  | _ => cases h

/-- What is answered only before some phase, and ends what is before it, is answered once. -/
theorem countP_replies_le {answers : Deed.Reply → Bool} (early : Phase → Prop)
    [DecidablePred early] (hback : ∀ {p q : Phase}, p.Step q → early q → early p)
    (hends : ∀ {r : Run σ} {d : Deed}, answers (r.reply d) = true →
      early r.phase ∧ ¬ early (r.act d).phase) (r : Run σ) (ds : List Deed) :
    (r.replies ds).countP answers ≤ if early r.phase then 1 else 0 := by
  induction ds generalizing r with
  | nil => exact Nat.zero_le _
  | cons d ds ih =>
    have hrest := ih (r.act d)
    rw [replies, List.countP_cons]
    by_cases ha : answers (r.reply d) = true
    · obtain ⟨hearly, hlate⟩ := hends ha
      rw [if_neg hlate] at hrest
      rw [if_pos ha, if_pos hearly]
      omega
    · rw [if_neg ha, Nat.add_zero]
      refine hrest.trans ?_
      by_cases hearly : early (r.act d).phase
      · rw [if_pos hearly, if_pos (hback (r.act_phase d) hearly)]
      · rw [if_neg hearly]
        exact Nat.zero_le _

theorem prepares_once (r : Run σ) (ds : List Deed) :
    (r.replies ds).countP (·.prepares) ≤ 1 := by
  have hback {p q : Phase} (h : p.Step q) (hq : q = .new) : p = .new := by
    cases h <;> first | exact hq | cases hq
  have h := countP_replies_le (· = .new) hback
    (fun h => ⟨(prepares_phase h).1, by simp [(prepares_phase h).2]⟩) r ds
  exact h.trans (by split <;> omega)

theorem starts_once (r : Run σ) (ds : List Deed) : (r.replies ds).countP (·.starts) ≤ 1 := by
  have hback {p q : Phase} (h : p.Step q) (hq : q = .new ∨ q = .prepared) :
      p = .new ∨ p = .prepared := by
    cases h <;> first | exact hq | exact .inl rfl | exact .inr rfl | simp at hq
  have h := countP_replies_le (fun p => p = .new ∨ p = .prepared) hback
    (fun h => ⟨.inr (starts_phase h).1, by simp [(starts_phase h).2]⟩) r ds
  exact h.trans (by split <;> omega)

def Closed (r : Run σ) (report : RunReport) : Prop :=
  r.phase = .finished ∧ r.report = some report

theorem Closed.acted {report : RunReport} (h : r.Closed report) {d : Deed} (ha : r.Acted d r') :
    r'.Closed report := by
  cases ha with
  | idle | offered | finishing | stopped => exact h
  | spoiled phase | unwound phase | shelved phase | prepared phase | fed phase | observed phase
  | started phase | waited phase => exact absurd (phase.symm.trans h.1) (by decide)
  | moved stepped => cases stepped <;> exact h

theorem Closed.after {report : RunReport} (h : r.Closed report) (ds : List Deed) :
    (r.after ds).Closed report := by
  induction ds generalizing r with
  | nil => exact h
  | cons d ds ih => exact ih (h.acted (r.act_acted d))

theorem closed_of_reply {now : Nat} {report : RunReport}
    (h : r.reply (.wait now) = .waited (some (.ok report))) :
    (r.act (.wait now)).Closed report := by
  obtain ⟨⟨answer, r'⟩, hw, rfl⟩ := Option.map_eq_some_iff.mp (Deed.Reply.waited.inj h)
  simp only [act, hw, Option.map_some, Option.getD_some]
  exact (wait_eq_ok hw).2.1

theorem Closed.reply {report : RunReport} (h : r.Closed report) (now : Nat) :
    r.reply (.wait now) = .waited (some (.ok report)) := by
  simp [Run.reply, wait, h.1, h.2]

theorem Unprepared.not_refuses {e : RunError} (h : r.Unprepared e) : e.refuses = false := by
  cases h <;> rfl

/-- What an operation is refused for is found out before it changes anything. -/
theorem act_refused (hblank : r.phase = .new → r.Blank) {d : Deed}
    (h : (r.reply d).refused = true) : r.act d = r := by
  cases d with
  | prepare =>
    by_cases hnew : r.phase = .new
    · -- what can go wrong from here on spends the run, and is no refusal
      cases he : r.prepare.1 with
      | ok => simp [reply, he, Deed.Reply.refused, Deed.Reply.error?] at h
      | error e =>
        have hnot := ((hblank hnew).unprepared hnew he).not_refuses
        simp [reply, he, Deed.Reply.refused, Deed.Reply.error?, hnot] at h
    · simp [act, prepare_refused hnew]
  | addProducer unit =>
    cases hi : r.checkInjection unit with
    | ok i => simp [reply, addProducer, hi, Deed.Reply.refused, Deed.Reply.error?] at h
    | error e => simp [act, addProducer, hi]
  | addObserver unit =>
    cases hp : r.expect .addObserver .prepared with
    | error e => simp [act, addObserver, hp]
    | ok =>
      cases hi : indexOf? r.units unit with
      | none => simp [act, addObserver, hp, hi]
      | some i => simp [reply, addObserver, hp, hi, Deed.Reply.refused, Deed.Reply.error?] at h
  | start id now =>
    by_cases hprepared : r.phase = .prepared
    · simp [reply, start_eq, expect, hprepared, Deed.Reply.refused, Deed.Reply.error?] at h
    · simp [act, start_refused hprepared]
  | wait now =>
    cases hp : r.phase with
    | running =>
      by_cases hidle : r.unitsIdle = true <;>
        simp [reply, wait, hp, hidle, Deed.Reply.refused, Deed.Reply.error?] at h
    | finished => cases hr : r.report <;> simp [act, wait, hp, hr]
    | new => simp [act, wait, hp]
    | prepared => simp [act, wait, hp]
  | offer => cases h
  | finish => cases h
  | stop => cases h
  | move => cases h

theorem granted_alike (hblank : ∀ es, (r.after es).phase = .new → (r.after es).Blank)
    (ds : List Deed) :
    r.after (r.granted ds) = r.after ds ∧
      r.replies (r.granted ds) = (r.replies ds).filter (!·.refused) ∧
      ∀ c, r.carried c (r.granted ds) = r.carried c ds := by
  induction ds generalizing r with
  | nil => exact ⟨rfl, rfl, fun _ => rfl⟩
  | cons d ds ih =>
    obtain ⟨hafter, hreplies, hcarried⟩ := ih fun es => hblank (d :: es)
    cases hd : (r.reply d).refused with
    | true =>
      have hsame : r.act d = r := act_refused (hblank []) hd
      have hnothing (c : Nat) : r.net.entered r.net c = [] := by
        cases hc : r.net.channel? c <;> simp [Net.entered, hc]
      rw [hsame] at hafter hreplies hcarried
      refine ⟨?_, ?_, fun c => ?_⟩
      · simpa [granted, hd, after, hsame] using hafter
      · simpa [granted, hd, replies, hsame] using hreplies
      · simpa [granted, hd, carried, hsame, hnothing] using hcarried c
    | false =>
      refine ⟨?_, ?_, fun c => ?_⟩
      · simpa [granted, hd, after] using hafter
      · simpa [granted, hd, replies] using hreplies
      · simpa [granted, hd, carried] using hcarried c

/-- A run goes through its phases once and keeps its report. What it refuses might as well not have
been asked: the same run comes out, the same rows went through each channel, and the other answers
are the same. -/
theorem refusals_leave_no_trace (registry : Registry σ) (settings : Settings) (g : Graph)
    (armed : List String) (ds : List Deed) :
    let new := Run.new registry settings g armed
    let r := new.after ds
    (∀ d, r.phase.Step (r.act d).phase) ∧
    (new.replies ds).countP (·.prepares) ≤ 1 ∧ (new.replies ds).countP (·.starts) ≤ 1 ∧
    (∀ now report, r.reply (.wait now) = .waited (some (.ok report)) →
      ∀ es later, ((r.act (.wait now)).after es).reply (.wait later) =
        .waited (some (.ok report))) ∧
    new.after (new.granted ds) = r ∧
    new.replies (new.granted ds) = (new.replies ds).filter (!·.refused) ∧
    ∀ c, new.carried c (new.granted ds) = new.carried c ds := by
  intro new r
  have hblank (es : List Deed) : (new.after es).phase = .new → (new.after es).Blank :=
    (begun_always registry settings g armed es).1.blank
  exact ⟨r.act_phase, new.prepares_once ds, new.starts_once ds,
    fun now report h es later => ((closed_of_reply h).after es).reply later,
    granted_alike hblank ds⟩

/-- A unit that makes rows of its own, and one behind it. -/
def spring : Graph where
  steps := [{ name := "g", type := "generate_rows", config := .obj [("limit", .int 0)] },
    { name := "b", type := "dummy" }]
  hops := [⟨"g", "b", true⟩]

/-- Everything is asked for at the wrong time, or of the wrong unit, along with what is right. -/
def pushy : List Deed :=
  [.start [] 0, .prepare, .prepare, .addProducer ⟨"z", 0⟩, .addProducer ⟨"b", 0⟩,
    .addProducer ⟨"g", 0⟩, .addObserver ⟨"z", 0⟩, .start [] 0, .start [] 0] ++
    .replicate 10 (.move (.unit 0)) ++ .replicate 11 (.move (.unit 1)) ++ [.wait 0, .prepare, .wait 0]

theorem pushy_leaves_no_trace :
    let new := Run.new Catalog.builtins {} spring
    (new.replies pushy).filterMap (fun reply => reply.error?.map (·.message)) =
      ["cannot start threads while the run is new", "cannot prepare while the run is prepared",
        "no step-copy z.0 in this run",
        "step 'b' has an upstream hop; rows cannot be injected into it",
        "step 'g' of type 'generate_rows' reads no input; rows cannot be injected into it",
        "no step-copy z.0 in this run", "cannot start threads while the run is running",
        "cannot prepare while the run is finished"] ∧
      (new.after pushy).report.map (·.success) = some true ∧
      new.after (new.granted pushy) = new.after pushy ∧
      (new.replies (new.granted pushy)).all (!·.refused) := by
  intro new
  obtain ⟨-, -, -, -, hafter, hreplies, -⟩ :=
    refusals_leave_no_trace Catalog.builtins {} spring [] pushy
  refine ⟨by decide +kernel, by decide +kernel, hafter, ?_⟩
  rw [hreplies]
  simp

end Run

end Sluice
