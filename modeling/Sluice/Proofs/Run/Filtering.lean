import Sluice.Proofs.Run.Alone
import Sluice.Proofs.Step.Finished

/-!
What a filter does with its rows. Each row is judged by itself, by the first field of the name in
its own schema; where that field stands is remembered only to be faster.
-/

namespace Sluice

namespace Comparison

def complement : Comparison → Comparison
  | .eq => .ne
  | .ne => .eq
  | .lt => .ge
  | .le => .gt
  | .gt => .le
  | .ge => .lt

theorem holds_complement (op : Comparison) (o : Ordering) :
    op.complement.holds o = !op.holds o := by
  cases op <;> cases o <;> rfl

end Comparison

namespace Condition

def complement (c : Condition) : Condition :=
  { c with op := c.op.complement }

/-- The outcome for a row, by a fresh look-up of the field. -/
def judge (c : Condition) (row : Row) : Except ConversionError Bool :=
  c.test ((row.get? c.field).getD .null)

variable {c : Condition} {row : Row} {v : Value}

theorem judge_null (h : row.get? c.field = some .null) : c.judge row = .ok false := by
  rw [judge, h]
  rfl

theorem judge_value {t : DataType} (h : row.get? c.field = some v) (ht : v.type? = some t) :
    c.judge row = ((Value.string c.literal).convert t).map fun literal =>
      c.op.holds (v.compare literal) := by
  rw [judge, h]
  simp only [Option.getD_some, test, ht]

theorem judge_complement (h : row.get? c.field = some v) (hv : v ≠ .null) :
    c.complement.judge row = (c.judge row).map (!·) := by
  obtain ⟨t, ht⟩ : ∃ t, v.type? = some t := by
    cases v <;> first | exact absurd rfl hv | exact ⟨_, rfl⟩
  rw [judge_value (c := c.complement) h ht, judge_value h ht]
  show ((Value.string c.literal).convert t).map _ = _
  cases (Value.string c.literal).convert t with
  | error e => rfl
  | ok literal => exact congrArg Except.ok (c.op.holds_complement _)

/-- Why the comparison cannot be made, if it cannot. -/
def misfit? (c : Condition) (row : Row) : Option String :=
  match c.judge row with
  | .ok _ => none
  | .error e => some e.message

/-- On this side of the condition, with a comparison that can be made. -/
def onSide (c : Condition) (keep : Bool) (row : Row) : Bool :=
  match c.judge row with
  | .ok k => k == keep
  | .error _ => false

theorem onSide_complement (h : row.get? c.field = some v) (hv : v ≠ .null) (keep : Bool) :
    c.complement.onSide keep row = c.onSide (!keep) row := by
  unfold onSide
  rw [judge_complement h hv]
  cases c.judge row with
  | error e => rfl
  | ok k => cases k <;> cases keep <;> rfl

end Condition

namespace Filter

variable {policy : DataErrorPolicy} {c : Condition} {m : Memory} {row : Row}

def sent (c : Condition) (m : Memory) (row : Row) : List Emission :=
  match c.judge row with
  | .ok keep => routing m.trueTo m.falseTo row keep
  | .error e => [.fault e.message]

def respond (policy : DataErrorPolicy) (c : Condition) (m : Memory) (row : Row) :
    Except StepError (List Emission) :=
  match row.schema.indexOf? c.field, policy, c.judge row with
  | none, _, _ => .error (.fatal (.conditionField c.field))
  | some _, .abort, .error e => .error (.data (.literal e))
  | some _, _, _ => .ok (sent c m row)

/-- A row that a filter goes on from: a comparison that cannot be made is skipped. -/
def Fine (policy : DataErrorPolicy) (c : Condition) (row : Row) : Prop :=
  policy = .abort → ∃ keep, c.judge row = .ok keep

/-- A row whose comparison cannot be made, and that is not skipped. -/
def Breaks (policy : DataErrorPolicy) (c : Condition) (row : Row) (e : StepError) : Prop :=
  policy = .abort ∧ ∃ err, c.judge row = .error err ∧ e = .data (.literal err)

theorem respond_eq_ok {es : List Emission} (h : respond policy c m row = .ok es) :
    Fine policy c row ∧ sent c m row = es := by
  unfold respond at h
  split at h
  · cases h
  · cases h
  · rename_i hstrict
    refine ⟨?_, Except.ok.inj h⟩
    rintro rfl
    cases hv : c.judge row with
    | ok keep => exact ⟨keep, rfl⟩
    | error e => exact (hstrict e rfl hv).elim

theorem respond_eq_error {e : StepError} (hfield : row.get? c.field ≠ none)
    (h : respond policy c m row = .error e) : Breaks policy c row e := by
  unfold respond at h
  split at h
  · rename_i hi
    exact absurd (by simp [Row.get?, hi]) hfield
  · rename_i err _ hv
    exact ⟨rfl, err, hv, (Except.error.inj h).symm⟩
  · cases h

theorem place_answer (policy : DataErrorPolicy) {i : Nat} (hm : Kept c m)
    (hi : row.schema.indexOf? c.field = some i) :
    ∃ found, Kept c { m with found } ∧
      (place c.field row).answer policy m = some ((.ok i, { m with found }), []) := by
  have hanew : Kept c { m with found := some (row.schema, i) } := by
    rintro schema k hfound
    simp only [Option.some.injEq, Prod.mk.injEq] at hfound
    obtain ⟨rfl, rfl⟩ := hfound
    exact hi
  unfold place
  rcases hf : m.found with _ | ⟨schema, k⟩
  · exact ⟨_, hanew, by simp [hf, hi]⟩
  · by_cases hs : schema = row.schema
    · subst hs
      -- the same schema has the field in the same place
      obtain rfl : k = i := Option.some.inj ((hm _ _ hf).symm.trans hi)
      have hself : { m with found := some (row.schema, k) } = m := by rw [← hf]
      exact ⟨_, hanew, by simp [hf, hself]⟩
    · exact ⟨_, hanew, by simp [hf, hs, hi]⟩

theorem place_missing (hm : Kept c m) (hi : row.schema.indexOf? c.field = none) :
    (place c.field row).answer policy m =
      some ((.error (.error (.fatal (.conditionField c.field))), m), []) := by
  unfold place
  rcases hf : m.found with _ | ⟨schema, k⟩
  · simp [hf, hi]
  · have hs : schema ≠ row.schema := by
      rintro rfl
      simp [hm _ _ hf] at hi
    simp [hf, hs, hi]

theorem route_answer (row : Row) (keep : Bool) :
    (route m row keep).answer policy m =
      some ((.ok (), m), routing m.trueTo m.falseTo row keep) := by
  unfold route routing Memory.routed
  split
  · cases (if keep = true then m.trueTo else m.falseTo) <;> simp
  · cases keep <;> simp

def classify (c : Condition) (row : Row) (i : Nat) : Work Memory Unit := do
  match c.test ((row.value? i).getD .null) with
  | .error e => Work.reportData (.literal e)
  | .ok keep => route (← get) row keep

theorem handle_answer (hc : m.condition = some c) : (handle row).answer policy m =
    (place c.field row >>= classify c row).answer policy m := by
  unfold handle
  rw [Work.answer_get_bind, hc]
  rfl

theorem classify_answer (m₁ : Memory) {i : Nat} (hi : row.schema.indexOf? c.field = some i)
    (htrue : m₁.trueTo = m.trueTo) (hfalse : m₁.falseTo = m.falseTo) :
    (classify c row i).answer policy m₁ = some (Work.settled m₁ (respond policy c m row)) := by
  have hjudge : c.judge row = c.test ((row.value? i).getD .null) := by
    simp [Condition.judge, Row.get?, hi]
  unfold classify respond sent
  rw [hi, ← hjudge]
  cases c.judge row with
  | error e => cases policy <;> rfl
  | ok keep => cases policy <;> simp [route_answer, htrue, hfalse, Work.settled]

/-- Whatever place a filter remembers, it answers a row as if it remembered none. -/
theorem answers (policy : DataErrorPolicy) (c : Condition) (m : Memory) :
    Answers policy handle (handling policy c m.trueTo m.falseTo).good id (respond policy c m) := by
  refine ⟨?_, fun hes => ?_, fun _ => rfl⟩
  · rintro m₁ row ⟨hc, htrue, hfalse, hkept⟩
    rw [handle_answer hc]
    cases hi : row.schema.indexOf? c.field with
    | none =>
      have hlacking : respond policy c m row = .error (.fatal (.conditionField c.field)) := by
        simp [respond, hi]
      rw [Work.answer_bind_error (place_missing hkept hi), hlacking]
      exact ⟨m₁, _, ⟨hc, htrue, hfalse, hkept⟩, rfl, rfl⟩
    | some i =>
      obtain ⟨found, hkept', hplace⟩ := place_answer policy hkept hi
      refine ⟨{ m₁ with found }, _, ⟨hc, htrue, hfalse, hkept'⟩, ?_, rfl⟩
      rw [Work.answer_bind_ok hplace, classify_answer { m₁ with found } hi htrue hfalse]
  · rw [← (respond_eq_ok hes).2]
    unfold sent routing
    split
    · split
      · split <;> simp
      · split <;> simp
    · exact Nat.zero_le 1

/-- The rows of an output hop. Where rows are routed it gets those of the sides that it is the
target of, and otherwise those that meet the condition, or its share of them. -/
def portion (c : Condition) (m : Memory) (shared : Bool) (hops hop : Nat) (rows : List Row) :
    List Row :=
  if m.routed then
    rows.filter fun row => m.trueTo == some hop && c.onSide true row ||
      m.falseTo == some hop && c.onSide false row
  else if shared then deal hops hop 0 (rows.filter (c.onSide true))
  else rows.filter (c.onSide true)

theorem hopRows_routed (hr : m.routed = true) (shared : Bool) (hops hop turn : Nat)
    (rows : List Row) : hopRows shared hops hop turn (rows.flatMap (sent c m)) =
      rows.filter fun row => m.trueTo == some hop && c.onSide true row ||
        m.falseTo == some hop && c.onSide false row := by
  induction rows generalizing turn with
  | nil => rfl
  | cons row rows ih =>
    have hto (target : Option Nat) : hopRows shared hops hop turn
        (target.toList.map fun hop => .row (some hop) row) =
          if target == some hop then [row] else [] := by
      cases target with
      | none => rfl
      | some target =>
        by_cases h : target = hop <;> simp [hopRows, Emission.isFor, h]
    have hone : hopRows shared hops hop turn (sent c m row) =
        if m.trueTo == some hop && c.onSide true row || m.falseTo == some hop && c.onSide false row
        then [row] else [] := by
      unfold sent Condition.onSide
      cases c.judge row with
      | error e => simp [hopRows, Emission.isFor]
      | ok keep =>
        have hrouting : routing m.trueTo m.falseTo row keep =
            (if keep then m.trueTo else m.falseTo).toList.map fun hop => .row (some hop) row := by
          refine (if_pos hr).trans ?_
          cases (if keep then m.trueTo else m.falseTo) <;> rfl
        show hopRows shared hops hop turn (routing m.trueTo m.falseTo row keep) = _
        rw [hrouting, hto]
        cases keep <;> simp
    rw [List.flatMap_cons, hopRows_append, ih, List.filter_cons, hone]
    split <;> rfl

theorem hopRows_unrouted (hr : m.routed = false) (shared : Bool) (hops hop turn : Nat)
    (rows : List Row) : hopRows shared hops hop turn (rows.flatMap (sent c m)) =
      if shared then deal hops hop turn (rows.filter (c.onSide true))
      else rows.filter (c.onSide true) := by
  have hunaimed : ∀ e ∈ rows.flatMap (sent c m), e.Unaimed := by
    intro e he
    obtain ⟨row, -, he⟩ := List.mem_flatMap.mp he
    unfold sent at he
    split at he
    · exact routing_unaimed hr _ e he
    · rw [List.mem_singleton.mp he]
      exact .inr rfl
  have hrows : (rows.flatMap (sent c m)).filterMap (·.row?) = rows.filter (c.onSide true) := by
    rw [← List.filterMap_eq_filter]
    refine List.filterMap_flatMap_of_toList (fun row => ?_) rows
    have hunset : (m.trueTo.isSome || m.falseTo.isSome) = false := hr
    cases hv : c.judge row with
    | error e => simp [sent, Condition.onSide, Option.guard, hv]
    | ok keep => cases keep <;> simp [sent, routing, hunset, Condition.onSide, Option.guard, hv]
  rw [hopRows_unaimed hunaimed, hrows]

theorem faults_sent (rows : List Row) :
    (rows.flatMap (sent c m)).filterMap (·.fault?) = rows.filterMap c.misfit? := by
  refine List.filterMap_flatMap_of_toList (fun row => ?_) rows
  unfold sent Condition.misfit? routing
  cases c.judge row with
  | error e => rfl
  | ok keep =>
    dsimp only
    split
    · split <;> rfl
    · cases keep <;> rfl

theorem sent_sendable {setup : Setup} {p : Border} {layout : Schema} (hinit : init setup = .ok m)
    (htargets : setup.outputSteps = p.outputs.map (·.target))
    (huniform : p.safeMode = true → row.schema.bare = layout) :
    ∀ e ∈ sent c m row, e.Sendable p layout := by
  have hlt (keep : Bool) :
      ∀ hop ∈ (if keep then m.trueTo else m.falseTo), hop < p.outputs.length := by
    simpa [htargets] using init_targets hinit keep
  unfold sent
  cases c.judge row with
  | error e => exact List.forall_mem_singleton.mpr (Emission.sendable_fault e.message)
  | ok keep =>
    have hlt := hlt keep
    dsimp only
    unfold routing
    split
    · split
      · rename_i hop hto
        rw [hto] at hlt
        exact List.forall_mem_singleton.mpr (Emission.sendable_row hlt huniform)
      · simp
    · split
      · exact List.forall_mem_singleton.mpr (Emission.sendable_row (by simp) huniform)
      · simp

theorem init_found {setup : Setup} (h : init setup = .ok m) : m.found = none := by
  obtain ⟨-, -, -, -, -, -, -, rfl⟩ := init_eq_ok h
  rfl

end Filter

namespace Catalog

open RunUnit

variable {u : RunUnit StepMemory} {net : Net} {armed : List String} {streams : List (List Row)}
  {layout : Schema} {l : Ledger} {m : Filter.Memory} {c : Condition}

/-- Left to itself, a filter judges each row by itself, and each of its output hops gets its portion
of the rows judged, in the order in which they were read. One error is counted for each row whose
comparison cannot be made; unless such rows are skipped, the first of them ends the step. -/
theorem filterRows_classify (hinit : filterRows.behaviour.init u.setup = .ok (.filter m))
    (step : u.step = some (filterRows.behaviour, .filter m)) (hc : m.condition = some c)
    (hfed : u.Provided net armed streams layout l)
    (hfield : ∀ row ∈ streams.flatten, row.get? c.field ≠ none)
    (huniform : u.border.safeMode = true → ∀ row ∈ streams.flatten, row.schema.bare = layout) :
    (∃ (v : RunUnit StepMemory) (net' : Net) (l' : Ledger) (j : Journal) (judged : List Row)
        (verdict : Except Halt BatchOutcome),
      Alone armed (u, net) (v.afterBatch verdict, net') ∧
      Concludes (Filter.Fine u.border.policy c) (Filter.Breaks u.border.policy c) streams j judged
        verdict ∧
      v.border.frame = u.border.frame ∧ v.border.Journaled j l' ∧ l'.Fits net' ∧
      (∀ (hop : Nat) (o : Outlet), v.border.outputs[hop]? = some o → o.Sent l'.put
        (Filter.portion c m v.border.shares v.border.outputs.length hop judged)) ∧
      v.border.counters.messages.toList = judged.filterMap c.misfit? ∧
      v.border.counters.errors = (judged.filterMap c.misfit?).length) ∧
    (∀ row, row.get? c.field = some .null → c.judge row = .ok false) ∧
    (∀ row v t, row.get? c.field = some v → v.type? = some t → c.judge row =
      ((Value.string c.literal).convert t).map fun literal => c.op.holds (v.compare literal)) ∧
    (∀ row v keep, row.get? c.field = some v → v ≠ .null →
      c.complement.onSide keep row = c.onSide (!keep) row) := by
  refine ⟨?_, fun row => Condition.judge_null, fun row v t => Condition.judge_value,
    fun row v keep h hv => Condition.onSide_complement h hv keep⟩
  obtain ⟨m', hm, heq⟩ := within_eq_ok hinit
  obtain rfl := StepMemory.filter.inj heq
  have hgood : (Filter.handling u.border.policy c m.trueTo m.falseTo).good m :=
    ⟨hc, rfl, rfl, fun _ _ hf => by simp [Filter.init_found hm] at hf⟩
  have hsend : ∀ row ∈ streams.flatten, ∀ es, Filter.respond u.border.policy c m row = .ok es →
      ∀ e ∈ es, e.Sendable u.border layout := by
    intro row hrow es hes
    rw [← (Filter.respond_eq_ok hes).2]
    exact Filter.sent_sendable hm hfed.targets fun hs => huniform hs row hrow
  have hstep : u.step = some (Filter.behaviour.within .filter StepMemory.asFilter, .filter m) :=
    step
  obtain ⟨v, net', l', j, verdict, hmoves, hsolo, hrest, hended⟩ := hfed.through hstep rfl
    (fun _ => rfl) (Filter.answers u.border.policy c m) hsend hgood
  obtain ⟨judged, hconcludes, hout⟩ := hended.concludes Filter.respond_eq_ok fun row hrow e he => by
    obtain ⟨q, hq, rfl⟩ := List.mem_map.mp hrow
    exact Filter.respond_eq_error (hfield _ (hsolo.mem_streams hq)) he
  rw [List.map_id, List.map_id] at hout
  have hfaults : j.out.filterMap (·.fault?) = judged.filterMap c.misfit? := by
    rw [hout, Filter.faults_sent]
  refine ⟨v, net', l', j, judged, verdict, hmoves, hconcludes, hsolo.frame, hsolo.journal,
    hsolo.fits, fun hop o ho => ?_, ?_, ?_⟩
  · have hsent := hrest.hops hop o ho
    rw [Border.rowsTo, hout] at hsent
    unfold Filter.portion
    cases hr : m.routed with
    | true => simpa only [if_true, Filter.hopRows_routed hr] using hsent
    | false => simpa only [Bool.false_eq_true, if_false, Filter.hopRows_unrouted hr] using hsent
  · rw [hsolo.journal.messages, hfaults]
  · rw [hsolo.journal.errors, hfaults]

/-- Rows of three layouts, one without a value and one that no number can be compared with. -/
def measured : List Row :=
  [⟨⟨[{ name := "n", type := .integer }]⟩, [.integer 7], rfl⟩,
    ⟨⟨[{ name := "at", type := .string }, { name := "n", type := .integer }]⟩,
      [.string "x", .integer 4], rfl⟩,
    ⟨⟨[{ name := "n", type := .boolean }]⟩, [.boolean true], rfl⟩,
    ⟨⟨[{ name := "n", type := .integer }]⟩, [.null], rfl⟩]

/-- Rows of 5 or more go one way, and all others the other way. -/
def dividing : Setup where
  spec := { name := "divide", type := "filter_rows", onDataError := .skip
            config := .obj [("condition", .str "n >= 5"), ("send_true_to", .str "high"),
              ("send_false_to", .str "low")] }
  outputSteps := ["low", "high"]

theorem filterRows_divides :
    let m : Filter.Memory :=
      { condition := some ⟨"n", .ge, "5"⟩, trueTo := some 1, falseTo := some 0 }
    let u := lone dividing .skip 3 (filterRows.behaviour, .filter m)
    filterRows.behaviour.init dividing = .ok (.filter m) ∧
      (∀ row ∈ [measured].flatten, row.get? "n" ≠ none) ∧
      ∃ (v : RunUnit StepMemory) (net' : Net) (l' : Ledger),
        Alone [] (u, .laid measured 2) (v.afterBatch (.ok .finished), net') ∧ l'.Fits net' ∧
        l'.put 2 = measured.take 1 ∧ l'.put 1 = [measured[1], measured[3]] ∧
        v.border.counters.errors = 1 := by
  intro m u
  have hinit : filterRows.behaviour.init dividing = .ok (.filter m) := rfl
  have hfield : ∀ row ∈ [measured].flatten, row.get? "n" ≠ none := by decide
  have hhigh (shared : Bool) (hops : Nat) :
      Filter.portion ⟨"n", .ge, "5"⟩ m shared hops 1 measured = measured.take 1 := rfl
  have hlow (shared : Bool) (hops : Nat) :
      Filter.portion ⟨"n", .ge, "5"⟩ m shared hops 0 measured = [measured[1], measured[3]] := rfl
  have hfaults : (measured.filterMap (Condition.misfit? ⟨"n", .ge, "5"⟩)).length = 1 := by decide
  obtain ⟨v, net', l', j, judged, verdict, hmoves, hconcludes, hframe, hj, hfits, hsent, -,
    herrors⟩ := (filterRows_classify (u := u) (c := ⟨"n", .ge, "5"⟩) hinit rfl rfl
      (lone_fed ⟨[]⟩ measured (by decide)) hfield (by simp [u, lone])).1
  cases hconcludes with
  | broken read rows clean fault => cases fault.1
  | finished all =>
    have hall : j.got.map (·.2) = measured := (lone_read hframe hj).symm.trans (all 0 measured rfl)
    rw [hall] at hsent herrors
    have hput₂ : l'.put 2 = _ := lone_sent hframe hsent 1 (by decide)
    have hput₁ : l'.put 1 = _ := lone_sent hframe hsent 0 (by decide)
    exact ⟨hinit, hfield, v, net', l', hmoves, hfits, hput₂.trans (hhigh _ _),
      hput₁.trans (hlow _ _), herrors.trans hfaults⟩
end Catalog

end Sluice
