import Sluice.Proofs.Run.Alone
import Sluice.Proofs.Step.Layouts

/-!
What a selection does with its rows. Each row is put into the layout for its own schema; the layout
of the row before it is used again where the two have the same names and types, which makes no
difference to what comes out.
-/

namespace Sluice

theorem Row.bare_bare (row : Row) : row.bare.bare = row.bare := by
  simp [Row.bare, Schema.bare, Field.bare]

@[simp] theorem Emission.bare_bare (e : Emission) : e.bare.bare = e.bare := by
  cases e with
  | row hop row => simp [Emission.bare, Row.bare_bare]
  | fault message => rfl

theorem Emission.unaimed_bare {e : Emission} : e.bare.Unaimed ↔ e.Unaimed := by
  rcases e with ⟨_ | _, row⟩ | message <;> simp [Unaimed, bare, isSpread]

namespace Select

variable {policy : DataErrorPolicy} {m m₁ : Memory} {row : Row} {layout fresh : Layout}

/-- The same configuration, and a layout that is the one for its own input. -/
structure Memory.Keeps (m m₁ : Memory) : Prop where
  config : { m₁ with layout := none } = { m with layout := none }
  layout : Remembers m m₁.layout

theorem Memory.Keeps.build (h : m.Keeps m₁) (input : Schema) :
    buildLayout m₁ input = buildLayout m input :=
  buildLayout_congr h.config input

theorem Memory.Keeps.renew (h : m.Keeps m₁) (hb : buildLayout m layout.input = .ok layout) :
    m.Keeps { m₁ with layout := some layout } :=
  ⟨h.config, fun _ hl => Option.some.inj hl ▸ hb⟩

/-- Schemas with the same names and types have the same layout, but for what is for display. -/
theorem buildLayout_same {a b : Schema} (h : a.bare = b.bare) :
    (buildLayout m a).map Layout.bare = (buildLayout m b).map Layout.bare := by
  rw [← buildLayout_bare, ← buildLayout_bare, h]

/-- A layout that is kept serves a row as well as the one for its schema. -/
theorem layoutFor_found (policy : DataErrorPolicy) (h : m.Keeps m₁)
    (hb : buildLayout m row.schema = .ok fresh) :
    ∃ layout, m.Keeps { m₁ with layout := some layout } ∧ layout.bare = fresh.bare ∧
      (layoutFor row).answer policy m₁ =
        some ((.ok layout, { m₁ with layout := some layout }), []) := by
  have hfresh : m.Keeps { m₁ with layout := some fresh } :=
    h.renew (by rw [buildLayout_input hb, hb])
  unfold layoutFor
  cases hl : m₁.layout with
  | none => exact ⟨fresh, hfresh, rfl, by simp [hl, h.build, hb]⟩
  | some last =>
    by_cases hs : last.input.sameLayout row.schema = true
    · have hself : { m₁ with layout := some last } = m₁ := by rw [← hl]
      have hsame := buildLayout_same (m := m) (Schema.sameLayout_iff.mp hs)
      rw [h.layout last hl, hb] at hsame
      exact ⟨last, hself ▸ h, Except.ok.inj hsame, by simp [hl, hs, hself]⟩
    · exact ⟨fresh, hfresh, rfl, by simp [hl, hs, h.build, hb]⟩

theorem layoutFor_lacking {name : String} (h : m.Keeps m₁)
    (hb : buildLayout m row.schema = .error name) :
    (layoutFor row).answer policy m₁ =
      some ((.error (.error (.fatal (.selectField name))), m₁), []) := by
  unfold layoutFor
  cases hl : m₁.layout with
  | none => simp [hl, h.build, hb]
  | some last =>
    -- the layout that is kept shows that no field is lacking where the schema is like its input
    have hs : ¬ last.input.sameLayout row.schema = true := by
      intro hs
      have hsame := buildLayout_same (m := m) (Schema.sameLayout_iff.mp hs)
      rw [h.layout last hl, hb] at hsame
      cases hsame
    simp [hl, hs, h.build, hb]

/-- A row goes to every output; a value that does not convert is counted, or breaks the step off. -/
def settle (policy : DataErrorPolicy) : Except StepError Row → Except StepError (List Emission)
  | .ok out => .ok [.row none out]
  | .error (.data fault) =>
    match policy with
    | .skip => .ok [.fault fault.message]
    | .abort => .error (.data fault)
  | .error e => .error e

def respond (policy : DataErrorPolicy) (m : Memory) (row : Row) :
    Except StepError (List Emission) :=
  settle policy (rebuild m row)

/-- The work on a row, once its layout is known. -/
def deliver (layout : Layout) (row : Row) : Work Memory Unit :=
  match layout.convert row with
  | .error e => Work.reportData (.field e)
  | .ok values =>
    match Row.ofValues layout.output values with
    | .ok out => Work.putRow out
    | .error e => Work.fatal (.custom e.message)

theorem handle_eq (row : Row) : handle row = layoutFor row >>= fun layout => deliver layout row :=
  rfl

theorem deliver_answer (layout : Layout) (row : Row) :
    (deliver layout row).answer policy m =
      some (Work.settled m (settle policy (layout.arrange row))) := by
  unfold deliver Layout.arrange
  cases layout.convert row with
  | error e => cases policy <;> rfl
  | ok values => 
    dsimp only
    cases Row.ofValues layout.output values <;> rfl

theorem arrange_bare (h : layout.bare = fresh.bare) :
    (layout.arrange row).map Row.bare = (fresh.arrange row).map Row.bare := by
  obtain ⟨-, houtput, hfields⟩ := Layout.mk.inj h
  have hlength : layout.output.fields.length = fresh.output.fields.length := by
    simpa [Schema.bare] using congrArg (·.fields.length) houtput
  unfold Layout.arrange Layout.convert
  rw [hfields]
  cases fresh.fields.mapM fun place => convertField row place.1 place.2 with
  | error e => rfl
  | ok values =>
    dsimp only [Row.ofValues]
    by_cases hfits : fresh.output.fields.length = values.length
    · rw [dif_pos hfits, dif_pos (hlength.trans hfits)]
      simp [Except.map, Row.bare, houtput]
    · rw [dif_neg hfits, dif_neg (hlength ▸ hfits), hlength]

theorem settle_bare {x y : Except StepError Row} (h : x.map Row.bare = y.map Row.bare) :
    (settle policy x).map (List.map Emission.bare) =
      (settle policy y).map (List.map Emission.bare) := by
  cases x with
  | error e =>
    cases y with
    | error e' =>
      obtain rfl : e = e' := Except.error.inj h
      rfl
    | ok row => cases h
  | ok row =>
    cases y with
    | error e => cases h
    | ok row' =>
      have hrow : row.bare = row'.bare := Except.ok.inj h
      simp [settle, Except.map, Emission.bare, hrow]

theorem settle_eq_ok {r : Except StepError Row} {es : List Emission}
    (h : settle policy r = .ok es) :
    (∃ out, r = .ok out ∧ es = [.row none out]) ∨
      ∃ fault, policy = .skip ∧ r = .error (.data fault) ∧ es = [.fault fault.message] := by
  unfold settle at h
  split at h
  · exact .inl ⟨_, rfl, (Except.ok.inj h).symm⟩
  · split at h
    · exact .inr ⟨_, rfl, rfl, (Except.ok.inj h).symm⟩
    · cases h
  · cases h

theorem settle_eq_error {r : Except StepError Row} {e : StepError}
    (h : settle policy r = .error e) :
    r = .error e ∧ ∀ fault, e = .data fault → policy = .abort := by
  unfold settle at h
  split at h
  · cases h
  · split at h
    · cases h
    · obtain rfl := Except.error.inj h
      exact ⟨rfl, fun _ _ => rfl⟩
  · rename_i hnot
    obtain rfl := Except.error.inj h
    exact ⟨rfl, fun fault hfault => absurd hfault (hnot fault)⟩

/-- Whatever layout it keeps, a selection makes of a row what it would make of it with the layout
that is worked out for the row. -/
theorem answers (policy : DataErrorPolicy) (m : Memory) :
    Answers policy handle m.Keeps Emission.bare (respond policy m) := by
  refine ⟨fun {m₁} row h => ?_, fun hes => ?_, Emission.bare_bare⟩
  · rw [handle_eq, respond, rebuild]
    cases hb : buildLayout m row.schema with
    | error name => exact ⟨m₁, _, h, Work.answer_bind_error (layoutFor_lacking h hb) _, rfl⟩
    | ok fresh =>
      obtain ⟨layout, hkeeps, hbare, hlayout⟩ := layoutFor_found policy h hb
      refine ⟨_, settle policy (layout.arrange row), hkeeps, ?_, settle_bare (arrange_bare hbare)⟩
      rw [Work.answer_bind_ok hlayout, deliver_answer]
  · obtain ⟨out, -, rfl⟩ | ⟨fault, -, -, rfl⟩ := settle_eq_ok hes
    · exact Nat.le_refl 1
    · exact Nat.zero_le 1

def misfit? (m : Memory) (row : Row) : Option String :=
  match rebuild m row with
  | .error (.data fault) => some fault.message
  | _ => none

/-- A row that is sent on, or one that is skipped. -/
def Fine (policy : DataErrorPolicy) (m : Memory) (row : Row) : Prop :=
  ∀ e, rebuild m row = .error e → policy = .skip ∧ ∃ fault, e = .data fault

/-- A row that lacks a field, or one that does not convert and is not skipped. -/
def Breaks (policy : DataErrorPolicy) (m : Memory) (row : Row) (e : StepError) : Prop :=
  rebuild m row = .error e ∧ ∀ fault, e = .data fault → policy = .abort

def sent (m : Memory) (row : Row) : List Emission :=
  match rebuild m row with
  | .ok out => [.row none out]
  | .error (.data fault) => [.fault fault.message]
  | .error _ => []

theorem sent_unaimed : ∀ e ∈ sent m row, e.Unaimed := by
  unfold sent
  split <;> simp [Emission.Unaimed, Emission.isSpread]

theorem unaimed_of_sent {rows : List Row} {out : List Emission}
    (h : out.map Emission.bare = (rows.flatMap (sent m)).map Emission.bare) :
    ∀ e ∈ out, e.Unaimed := by
  intro e he
  have hmem : e.bare ∈ (rows.flatMap (sent m)).map Emission.bare := h ▸ List.mem_map_of_mem he
  obtain ⟨e', he', hbare⟩ := List.mem_map.mp hmem
  obtain ⟨row, -, hsent⟩ := List.mem_flatMap.mp he'
  rw [← Emission.unaimed_bare, ← hbare, Emission.unaimed_bare]
  exact sent_unaimed e' hsent

theorem rows_sent (rows : List Row) : (rows.flatMap (sent m)).filterMap (·.row?) =
    rows.filterMap fun row => (rebuild m row).toOption := by
  refine List.filterMap_flatMap_of_toList (fun row => ?_) rows
  unfold sent
  cases rebuild m row with
  | ok out => rfl
  | error e => cases e <;> rfl

theorem faults_sent (rows : List Row) :
    (rows.flatMap (sent m)).filterMap (·.fault?) = rows.filterMap (misfit? m) := by
  refine List.filterMap_flatMap_of_toList (fun row => ?_) rows
  unfold sent misfit?
  cases rebuild m row with
  | ok out => rfl
  | error e => cases e <;> rfl

theorem respond_eq_ok {es : List Emission} (h : respond policy m row = .ok es) :
    Fine policy m row ∧ sent m row = es := by
  unfold sent
  obtain ⟨out, hout, rfl⟩ | ⟨fault, rfl, hfault, rfl⟩ := settle_eq_ok h
  · rw [hout]
    exact ⟨fun e he => by simp [hout] at he, rfl⟩
  · rw [hfault]
    exact ⟨fun e he => ⟨rfl, fault, Except.error.inj (he.symm.trans hfault)⟩, rfl⟩

theorem respond_sendable {p : Border} {layout : Schema} {es : List Emission}
    (hes : respond policy m row = .ok es)
    (huniform : p.safeMode = true → ∀ out, rebuild m row = .ok out → out.schema.bare = layout) :
    ∀ e ∈ es, e.Sendable p layout := by
  obtain ⟨out, hout, rfl⟩ | ⟨fault, -, -, rfl⟩ := settle_eq_ok hes
  · exact List.forall_mem_singleton.mpr
      (Emission.sendable_row (by simp) fun hs => huniform hs out hout)
  · exact List.forall_mem_singleton.mpr (Emission.sendable_fault _)

theorem init_keeps {setup : Setup} (h : init setup = .ok m) : m.Keeps m := by
  obtain ⟨config, -, h⟩ := Except.bind_eq_ok.mp h
  obtain ⟨convert, -, h⟩ := Except.bind_eq_ok.mp h
  obtain rfl := Except.ok.inj h
  exact ⟨rfl, fun _ hl => (by cases hl)⟩

end Select

namespace Catalog

open RunUnit

variable {u : RunUnit StepMemory} {net : Net} {armed : List String} {streams : List (List Row)}
  {layout : Schema} {l : Ledger} {m : Select.Memory}

/-- Left to itself, a selection sends on each row in the layout for its own schema, whichever layout
it keeps. A value that does not convert counts one error, and ends the step unless such rows are
skipped; so does the first row that lacks a field. -/
theorem selectValues_rebuild (hinit : selectValues.behaviour.init u.setup = .ok (.select m))
    (step : u.step = some (selectValues.behaviour, .select m))
    (hfed : u.Provided net armed streams layout l)
    (huniform : u.border.safeMode = true → ∀ row ∈ streams.flatten, ∀ out,
      Select.rebuild m row = .ok out → out.schema.bare = layout) :
    (∃ (v : RunUnit StepMemory) (net' : Net) (l' : Ledger) (j : Journal) (arranged : List Row)
        (verdict : Except Halt BatchOutcome) (written : List Row),
      Alone armed (u, net) (v.afterBatch verdict, net') ∧
      Concludes (Select.Fine u.border.policy m) (Select.Breaks u.border.policy m) streams j arranged
        verdict ∧
      v.border.frame = u.border.frame ∧ v.border.Journaled j l' ∧ l'.Fits net' ∧
      written.map Row.bare =
        (arranged.filterMap fun row => (Select.rebuild m row).toOption).map Row.bare ∧
      (∀ (hop : Nat) (o : Outlet), v.border.outputs[hop]? = some o → o.Sent l'.put
        (if v.border.shares then deal v.border.outputs.length hop 0 written else written)) ∧
      v.border.counters.messages.toList = arranged.filterMap (Select.misfit? m) ∧
      v.border.counters.errors = (arranged.filterMap (Select.misfit? m)).length) ∧
    (∀ row, Select.Rebuilt m row (Select.rebuild m row)) ∧
    (∀ m₁ row, Work.Later u.border.policy Select.handle m m₁ → m.lacking? row.schema = none →
      ∃ fresh kept m₂, Select.buildLayout m row.schema = .ok fresh ∧
        (Select.layoutFor row).answer u.border.policy m₁ = some ((.ok kept, m₂), []) ∧
        kept.fields = fresh.fields ∧ kept.output.bare = fresh.output.bare ∧
        ∀ place ∈ kept.fields, place.1 < row.values.length) := by
  obtain ⟨m', hm, heq⟩ := within_eq_ok hinit
  obtain rfl := StepMemory.select.inj heq
  have hkeeps : m.Keeps m := Select.init_keeps hm
  have hanswers := Select.answers u.border.policy m
  refine ⟨?_, Select.rebuild_rebuilt m, fun m₁ row hlater hnone => ?_⟩
  · have hstep : u.step = some (Select.behaviour.within .select StepMemory.asSelect, .select m) :=
      step
    obtain ⟨v, net', l', j, verdict, hmoves, hsolo, hrest, hended⟩ := hfed.through hstep rfl
      (fun _ => rfl) hanswers
      (fun row hrow es hes => Select.respond_sendable hes fun hs => huniform hs row hrow) hkeeps
    obtain ⟨arranged, hconcludes, hout⟩ := hended.concludes Select.respond_eq_ok
      fun row _ e he => Select.settle_eq_error he
    have hfaults : j.out.filterMap (·.fault?) = arranged.filterMap (Select.misfit? m) := by
      rw [← Emission.filterMap_fault?_bare, hout, Emission.filterMap_fault?_bare,
        Select.faults_sent]
    refine ⟨v, net', l', j, arranged, verdict, j.out.filterMap (·.row?), hmoves, hconcludes,
      hsolo.frame, hsolo.journal, hsolo.fits, ?_, fun hop o ho => ?_, ?_, ?_⟩
    · rw [← Emission.filterMap_row?_bare, hout, Emission.filterMap_row?_bare, Select.rows_sent]
    · rw [← hopRows_unaimed (Select.unaimed_of_sent hout)]
      exact hrest.hops hop o ho
    · rw [hsolo.journal.messages, hfaults]
    · rw [hsolo.journal.errors, hfaults]
  · obtain ⟨name, hlacking, -⟩ | ⟨-, fresh, hfresh, hsound⟩ :=
      Select.buildLayout_cases m row.schema
    · simp [hnone] at hlacking
    · obtain ⟨kept, -, hbare, hkept⟩ := Select.layoutFor_found u.border.policy
        (hanswers.later hkeeps hlater) hfresh
      obtain ⟨-, houtput, hfields⟩ := Select.Layout.mk.inj hbare
      refine ⟨fresh, kept, _, hfresh, hkept, hfields, houtput, fun place hplace => ?_⟩
      rw [← row.aligned]
      exact hsound.inside place (hfields ▸ hplace)

/-- Keeps two fields in another order, one of them under another name and as a number. -/
def shaping : Setup where
  spec := { name := "shape", type := "select_values", onDataError := .skip
            config := .obj [("select", .arr [.str "qty", .str "code"]),
              ("rename", .obj [("qty", .str "quantity")]),
              ("convert", .obj [("qty", .str "int")])] }
  outputSteps := ["next"]

def ordered : List Row :=
  let narrow : Schema := ⟨[{ name := "code", type := .string }, { name := "qty", type := .string }]⟩
  let wide : Schema := ⟨{ name := "qty", type := .boolean } :: narrow.fields⟩
  [⟨narrow, [.string "a", .string "3"], rfl⟩, ⟨narrow, [.string "b", .string "x"], rfl⟩,
    ⟨wide, [.boolean true, .string "c", .string "y"], rfl⟩, ⟨narrow, [.string "d", .null], rfl⟩]

def shaped (quantity : Value) (code : String) : Row :=
  ⟨⟨[{ name := "quantity", type := .integer }, { name := "code", type := .string }]⟩,
    [quantity, .string code], rfl⟩

theorem selectValues_shapes :
    let m : Select.Memory :=
      { select := ["qty", "code"], rename := [("qty", "quantity")], convert := [("qty", .integer)] }
    let u := lone shaping .skip 3 (selectValues.behaviour, .select m)
    selectValues.behaviour.init shaping = .ok (.select m) ∧
      ∃ (v : RunUnit StepMemory) (net' : Net) (l' : Ledger),
        Alone [] (u, .laid ordered 1) (v.afterBatch (.ok .finished), net') ∧ l'.Fits net' ∧
        (l'.put 1).map Row.bare =
          [shaped (.integer 3) "a", shaped (.integer 1) "c", shaped .null "d"].map Row.bare ∧
        v.border.counters.errors = 1 := by
  intro m u
  have hinit : selectValues.behaviour.init shaping = .ok (.select m) := rfl
  have hcomplete : ∀ row ∈ ordered, m.lacking? row.schema = none := by decide
  have hwritten : (ordered.filterMap fun row => (Select.rebuild m row).toOption).map Row.bare =
      [shaped (.integer 3) "a", shaped (.integer 1) "c", shaped .null "d"].map Row.bare := by decide
  have hfaults : (ordered.filterMap (Select.misfit? m)).length = 1 := by decide
  obtain ⟨⟨v, net', l', j, arranged, verdict, written, hmoves, hconcludes, hframe, hj, hfits, hout,
    hsent, -, herrors⟩, hrebuilt, -⟩ := selectValues_rebuild (u := u) hinit rfl
      (lone_fed ⟨[]⟩ ordered (by decide)) (by simp [u, lone])
  have hread := lone_read hframe hj
  cases hconcludes with
  | @broken front bad e read rows fine fault =>
    have hbad : bad ∈ ordered := by
      have hprefix := read 0 ordered rfl
      rw [hread, rows] at hprefix
      exact hprefix.subset (by simp)
    have hcase := hrebuilt bad
    rw [fault.1] at hcase
    cases hcase with
    | lacking first => simp [hcomplete bad hbad] at first
    | misfit => cases fault.2 _ rfl
  | finished all =>
    have hall : j.got.map (·.2) = ordered := hread.symm.trans (all 0 ordered rfl)
    rw [hall] at hout herrors
    have hput : l'.put 1 = _ := lone_sent hframe hsent 0 (by decide)
    rw [lone_unshared hframe, if_neg Bool.false_ne_true] at hput
    exact ⟨hinit, v, net', l', hmoves, hfits, by rw [hput, hout, hwritten], herrors.trans hfaults⟩

end Catalog

end Sluice
