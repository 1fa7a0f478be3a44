import Sluice.Proofs.Border.Dispatch

/-!
Safe mode. The first row that is to be written sets the layout; every later one is compared with it
before anything else happens. So all rows on the outer side of the border have one layout, a refused row
leaves no trace, and as long as all rows have one layout safe mode makes no difference.
-/

namespace Sluice

def Schema.columns (s : Schema) : List (String × DataType) :=
  s.fields.map fun f => (f.name, f.type)

theorem Schema.bare_eq_iff {a b : Schema} : a.bare = b.bare ↔ a.columns = b.columns := by
  have hcolumns (s : Schema) : s.bare.columns = s.columns := by
    simp [columns, bare, Field.bare, Function.comp_def]
  have hbare (s : Schema) : s.bare = ⟨s.columns.map fun q => { name := q.1, type := q.2 }⟩ := by
    simp [columns, bare, Field.bare, Function.comp_def]
  constructor
  · intro h
    rw [← hcolumns a, h, hcolumns b]
  · intro h
    rw [hbare a, h, ← hbare b]

namespace Writing

def row : Writing → Row
  | .every row | .only _ row | .send _ row | .deliver _ _ row | .signal _ _ row => row

def isFresh : Writing → Bool
  | .every _ | .only _ _ => true
  | _ => false

end Writing

namespace Border

/-- The row has the layout of the first one. -/
def Fits (p : Border) (row : Row) : Prop :=
  ∃ first ∈ p.layout, first.columns = row.schema.columns

/-- A refusal because of the layout. -/
def Misfit (reply : Except StepError Unit) : Prop :=
  ∃ unit names first, reply = .error (.fatal (.layout unit names first))

variable {p p' : Border} {net : Net} {t : Touch} {call call' : Writing} {row : Row}
  {onward : Onward Writing (Except StepError Unit)}

theorem checkLayout_fits {l : Option Schema} (safe : p.safeMode = true)
    (fits : p.checkLayout row = .ok { p with layout := l }) :
    l = some (p.layout.getD row.schema) ∧ (p.layout.getD row.schema).columns = row.schema.columns := by
  cases hl : p.layout with
  | none =>
    have hset : p.checkLayout row = .ok { p with layout := some row.schema } := by
      simp [checkLayout, safe, hl]
    rw [hset] at fits
    exact ⟨(congrArg Border.layout (Except.ok.inj fits)).symm, rfl⟩
  | some first =>
    have hsame : first.columns = row.schema.columns := by
      by_contra hne
      have := checkLayout_error_iff.mpr ⟨safe, first, hl, mt Schema.bare_eq_iff.mp hne, rfl⟩
      simp [this] at fits
    have hkept : p.checkLayout row = .ok p := by
      have hlayout := Schema.sameLayout_iff.mpr (Schema.bare_eq_iff.mpr hsame)
      simp [checkLayout, safe, hl, hlayout]
    rw [hkept] at fits
    exact ⟨(congrArg Border.layout (Except.ok.inj fits)).symm.trans hl, hsame⟩

/-- The layout is set by the first row that is looked at, and never again. -/
theorem WriteStep.layout (h : p.WriteStep net t call p' onward) (safe : p.safeMode = true) :
    p'.layout = if call.isFresh then some (p.layout.getD call.row.schema) else p.layout := by
  cases h with
  | share fits | spread fits | only_to fits | no_output fits => exact (checkLayout_fits safe fits).1
  | every_misfit misfit | only_misfit misfit =>
    obtain ⟨-, first, hl, -⟩ := checkLayout_error_iff.mp misfit
    simp [Writing.isFresh, hl]
  | choose turn =>
    obtain ⟨o, -, -, rfl⟩ := takeTurn_some turn
    rfl
  | _ => rfl

theorem WriteStep.keeps_layout (h : p.WriteStep net t call p' onward) (safe : p.safeMode = true)
    {first : Schema} (hl : first ∈ p.layout) : first ∈ p'.layout := by
  rw [h.layout safe, Option.mem_def.mp hl]
  split <;> rfl

theorem Fits.step (hf : p.Fits row) (h : p.WriteStep net t call p' onward)
    (safe : p.safeMode = true) : p'.Fits row := by
  obtain ⟨first, hl, hfirst⟩ := hf
  exact ⟨first, h.keeps_layout safe hl, hfirst⟩

theorem WriteStep.fits (h : p.WriteStep net t call p' (.goes call')) (safe : p.safeMode = true)
    (hf : call.isFresh = false → p.Fits call.row) :
    call'.isFresh = false ∧ call'.row = call.row ∧ p'.Fits call.row := by
  have hkeep (hlate : call.isFresh = false) : p'.Fits call.row := (hf hlate).step h safe
  cases h with
  | share fits | spread fits | only_to fits =>
    obtain ⟨hl, hcolumns⟩ := checkLayout_fits safe fits
    exact ⟨rfl, rfl, _, hl, hcolumns⟩
  | _ => exact ⟨rfl, rfl, hkeep rfl⟩

/-- A row is refused because of its layout exactly when it has not the layout of the first one. -/
theorem WriteStep.misfit_iff {reply : Except StepError Unit}
    (h : p.WriteStep net t call p' (.replies reply)) (safe : p.safeMode = true)
    (hf : call.isFresh = false → p.Fits call.row) :
    ∃ first ∈ p'.layout, (Misfit reply ↔ first.columns ≠ call.row.schema.columns) := by
  -- a row that was looked at fits, and then no answer speaks of its layout
  have hlate (hlate : call.isFresh = false) (hlayout : p'.layout = p.layout) (hfit : ¬ Misfit reply) :
      ∃ first ∈ p'.layout, (Misfit reply ↔ first.columns ≠ call.row.schema.columns) := by
    obtain ⟨first, hl, hcolumns⟩ := hf hlate
    exact ⟨first, hlayout ▸ hl, iff_of_false hfit (not_not.mpr hcolumns)⟩
  cases h with
  | every_misfit misfit | only_misfit misfit =>
    obtain ⟨-, first, hl, hne, hfault⟩ := checkLayout_error_iff.mp misfit
    exact ⟨first, hl, iff_of_true ⟨_, _, _, congrArg Except.error hfault⟩
      (mt Schema.bare_eq_iff.mpr hne)⟩
  | no_output fits =>
    obtain ⟨hl, hcolumns⟩ := checkLayout_fits safe fits
    exact ⟨_, hl, iff_of_false (by simp [Misfit]) (not_not.mpr hcolumns)⟩
  | sent => exact hlate rfl rfl (by simp [Misfit])
  | put_refused => exact hlate rfl rfl (by simp [Misfit])
  | put_late => exact hlate rfl rfl (by simp [Misfit])

theorem WriteStep.puts {c : Nat} (h : p.WriteStep net (.put c row) call p' onward) :
    call.isFresh = false ∧ call.row = row := by
  cases h
  exact ⟨rfl, rfl⟩

def Shown (p : Border) (row : Row) : Prop :=
  ∃ log ∈ p.listeners, row ∈ log.toList.filterMap (·.written?)

theorem WriteStep.shows (h : p.WriteStep net t call p' onward) (hs : p'.Shown row) :
    p.Shown row ∨ call.isFresh = false ∧ call.row = row := by
  cases h with
  | sent =>
    obtain ⟨log, hlog, hrow⟩ := hs
    obtain ⟨old, hold, rfl⟩ := Array.mem_map.mp hlog
    simp only [Array.toList_push, List.filterMap_append, List.mem_append] at hrow
    rcases hrow with hrow | hrow
    · exact .inl ⟨old, hold, hrow⟩
    · exact .inr ⟨rfl, by simpa [Writing.row, eq_comm] using hrow⟩
  | choose turn =>
    obtain ⟨o, -, -, rfl⟩ := takeTurn_some turn
    exact .inl hs
  | _ => exact .inl hs

end Border

theorem Ledger.mem_put_after {l : Ledger} {t : Touch} {c : Nat} {row : Row}
    (h : row ∈ (l.after t).put c) : row ∈ l.put c ∨ t = .put c row := by
  by_cases ht : ∃ row', t = .put c row'
  · obtain ⟨row', rfl⟩ := ht
    simp only [after, Function.update_self, List.mem_append, List.mem_singleton] at h
    exact h.imp_right fun he => by rw [he]
  · rw [put_after_of_ne fun row' he => ht ⟨row', he⟩] at h
    exact .inl h

namespace Dispatch

/-- Nobody else writes to these channels. -/
def Turn.Avoids (channels : List Nat) : Turn → Prop
  | .put c _ => c ∉ channels
  | _ => True

instance (channels : List Nat) : DecidablePred (Turn.Avoids channels)
  | .put c _ => inferInstanceAs (Decidable (c ∉ channels))
  | .ask _ | .write | .take _ | .act _ => .isTrue trivial

/-- The row has left the unit, into a channel or to a listener. -/
def Crossed (x : Dispatch) (row : Row) : Prop :=
  (∃ c ∈ x.border.outputChannels, row ∈ x.ledger.put c) ∨ x.border.Shown row

/-- The orders whose rows were looked at, in order. -/
def checked (x : Dispatch) : List Order :=
  x.answers.map (·.1) ++
    match x.call with
    | some (order, call) => if call.isFresh then [] else [order]
    | none => []

variable {home : Border} {x x' : Dispatch} {row : Row}

theorem Stepped.crossed {turn : Turn} (hs : x.Stepped turn x')
    (avoids : turn.Avoids x.border.outputChannels) (h : x'.Crossed row) :
    x.Crossed row ∨
      ∃ order call, x.call = some (order, call) ∧ call.isFresh = false ∧ call.row = row := by
  have hothers {t : Touch} {net : Net} (ht : ∀ c ∈ x.border.outputChannels, ∀ row, t ≠ .put c row)
      (h : Crossed { x with net, ledger := x.ledger.after t } row) : x.Crossed row := by
    refine h.imp_left fun ⟨c, hc, hrow⟩ => ⟨c, hc, ?_⟩
    exact (Ledger.mem_put_after hrow).resolve_right (ht c hc row)
  cases hs with
  | idle | ask => exact .inl h
  | @goes order call call' t border net under_way step touched =>
    have hout : border.outputChannels = x.border.outputChannels := Border.place_outputs step.place
    have hlate (hc : call.isFresh = false ∧ call.row = row) :
        ∃ order call, x.call = some (order, call) ∧ call.isFresh = false ∧ call.row = row :=
      ⟨order, call, under_way, hc⟩
    rcases h with ⟨c, hc, hrow⟩ | hshown
    · rcases Ledger.mem_put_after hrow with hrow | rfl
      · exact .inl (.inl ⟨c, hout ▸ hc, hrow⟩)
      · exact .inr (hlate step.puts)
    · exact (step.shows hshown).imp .inr hlate
  | @replies order call reply border under_way step =>
    have hout : border.outputChannels = x.border.outputChannels := Border.place_outputs step.place
    rcases h with ⟨c, hc, hrow⟩ | hshown
    · exact .inl (.inl ⟨c, hout ▸ hc, hrow⟩)
    · exact (step.shows hshown).imp .inr fun hc => ⟨order, call, under_way, hc⟩
  | take => exact .inl (hothers (by simp) h)
  | @put c row' net touched =>
    refine .inl (hothers (fun c' hc' row he => avoids ?_) h)
    rwa [(Touch.put.inj he).1]
  | act does => exact .inl (hothers (fun c _ row he => by subst he; cases does) h)

structure Guarded (home : Border) (x : Dispatch) : Prop where
  frame : x.border.frame = home.frame
  layout : x.border.layout = x.checked.head?.map (·.row.schema)
  call : ∀ order call, x.call = some (order, call) → call.row = order.row ∧
    (call.isFresh = true → call = order.writing) ∧ (call.isFresh = false → x.border.Fits order.row)
  crossed : ∀ row, x.Crossed row → x.border.Fits row
  answers : ∀ a ∈ x.answers, ∃ first ∈ x.border.layout,
    (Border.Misfit a.2 ↔ first.columns ≠ a.1.row.schema.columns)

theorem Guarded.safe (h : x.Guarded home) (safe : home.safeMode = true) :
    x.border.safeMode = true :=
  (Border.frame_safeMode h.frame).trans safe

theorem Guarded.checks {order : Order} {call : Writing} {t : Touch} {border : Border}
    {onward : Onward Writing (Except StepError Unit)} (h : x.Guarded home)
    (safe : home.safeMode = true) (hc : x.call = some (order, call))
    (hs : x.border.WriteStep x.net t call border onward) :
    border.layout = (x.answers.map (·.1) ++ [order]).head?.map (·.row.schema) := by
  obtain ⟨hrow, -⟩ := h.call order call hc
  rw [hs.layout (h.safe safe), h.layout, checked, hc, hrow]
  cases hfresh : call.isFresh with
  | false => simp [hfresh]
  | true => cases x.answers <;> simp [hfresh]

theorem Guarded.fits {turn : Turn} (h : x.Guarded home) (hs : x.Stepped turn x')
    (avoids : turn.Avoids x.border.outputChannels) (hrow : x'.Crossed row) : x.border.Fits row := by
  obtain hrow | ⟨order, call, hc, hlate, rfl⟩ := hs.crossed avoids hrow
  · exact h.crossed row hrow
  · obtain ⟨hrow, -, hfits⟩ := h.call order call hc
    exact hrow ▸ hfits hlate

theorem Guarded.answers_kept {call : Writing} {t : Touch} {border : Border}
    {onward : Onward Writing (Except StepError Unit)} (h : x.Guarded home)
    (safe : home.safeMode = true) (hs : x.border.WriteStep x.net t call border onward) :
    ∀ a ∈ x.answers, ∃ first ∈ border.layout,
      (Border.Misfit a.2 ↔ first.columns ≠ a.1.row.schema.columns) := by
  intro a ha
  obtain ⟨first, hl, hiff⟩ := h.answers a ha
  exact ⟨first, hs.keeps_layout (h.safe safe) hl, hiff⟩

theorem Guarded.stepped {turn : Turn} (h : x.Guarded home) (safe : home.safeMode = true)
    (hs : x.Stepped turn x') (avoids : turn.Avoids x.border.outputChannels) : x'.Guarded home := by
  have hsafe := h.safe safe
  have hcrossed (row : Row) (hrow : x'.Crossed row) : x.border.Fits row := h.fits hs avoids hrow
  cases hs with
  | idle => exact h
  | @ask order free =>
    refine ⟨h.frame, ?_, fun order' call hc => ?_, hcrossed, h.answers⟩
    · rw [h.layout, checked, checked, free]
      rcases order with ⟨_ | hop, row⟩ <;> rfl
    · obtain ⟨rfl, rfl⟩ := Prod.mk.inj (Option.some.inj hc)
      rcases order with ⟨_ | hop, row⟩
      · exact ⟨rfl, fun _ => rfl, fun hlate => (by cases hlate)⟩
      · exact ⟨rfl, fun _ => rfl, fun hlate => (by cases hlate)⟩
  | @goes order call call' t border net under_way step touched =>
    obtain ⟨hrow, -, hfits⟩ := h.call order call under_way
    obtain ⟨hlate, hrow', hfits'⟩ := step.fits hsafe fun hlate => hrow ▸ hfits hlate
    refine ⟨step.frame.trans h.frame, ?_, fun order' call'' hc => ?_,
      fun row hrow => (hcrossed row hrow).step step hsafe, h.answers_kept safe step⟩
    · rw [h.checks safe under_way step, checked]
      simp [hlate]
    · obtain ⟨rfl, rfl⟩ := Prod.mk.inj (Option.some.inj hc)
      exact ⟨hrow'.trans hrow, fun hfresh => (by simp [hlate] at hfresh), fun _ => hrow ▸ hfits'⟩
  | @replies order call reply border under_way step =>
    obtain ⟨hrow, -, hfits⟩ := h.call order call under_way
    have hreply := step.misfit_iff hsafe fun hlate => hrow ▸ hfits hlate
    refine ⟨step.frame.trans h.frame, ?_, fun _ _ hc => (by cases hc),
      fun row hrow => (hcrossed row hrow).step step hsafe, ?_⟩
    · rw [h.checks safe under_way step, checked]
      simp
    · exact List.forall_mem_append.mpr
        ⟨h.answers_kept safe step, List.forall_mem_singleton.mpr (hrow ▸ hreply)⟩
  | take => exact ⟨h.frame, h.layout, h.call, hcrossed, h.answers⟩
  | put => exact ⟨h.frame, h.layout, h.call, hcrossed, h.answers⟩
  | act => exact ⟨h.frame, h.layout, h.call, hcrossed, h.answers⟩

theorem Guarded.after (h : x.Guarded home) (safe : home.safeMode = true) {turns : List Turn}
    (avoids : ∀ turn ∈ turns, turn.Avoids home.outputChannels) : (x.after turns).Guarded home := by
  induction turns generalizing x with
  | nil => exact h
  | cons turn turns ih =>
    obtain ⟨hturn, hturns⟩ := List.forall_mem_cons.mp avoids
    have hout : x.border.outputChannels = home.outputChannels :=
      Border.place_outputs (Border.frame_place h.frame)
    exact ih (h.stepped safe (x.step_stepped turn) (hout ▸ hturn)) hturns

end Dispatch

/-- The same progress across another border. -/
def Progress.mapBorder {κ ρ : Type} (f : Border → Border) : Progress κ ρ → Progress κ ρ
  | .blocked => .blocked
  | .continues call border net => .continues call (f border) net
  | .replies reply border net => .replies reply (f border) net

namespace Border

variable {p : Border} {net : Net} {call : Writing} {row : Row}

def relaxed (p : Border) : Border :=
  { p with safeMode := false, layout := none }

theorem relaxed_checkLayout (p : Border) (row : Row) : p.relaxed.checkLayout row = .ok p.relaxed := by
  simp [checkLayout, relaxed]

theorem relaxed_takeTurn (p : Border) (hop : Nat) :
    p.relaxed.takeTurn hop = (p.takeTurn hop).map fun q => (q.1, q.2.relaxed) := by
  unfold takeTurn
  rw [show p.relaxed.outputs = p.outputs from rfl]
  rcases p.outputs[hop]? with _ | o
  · rfl
  · cases h : o.channels[o.next % o.channels.length]? <;> simp [h, relaxed]

/-- A write whose row passes goes the same way without safe mode. -/
theorem relaxed_advanceWrite
    (fits : call.isFresh = true → ∃ l, p.checkLayout call.row = .ok { p with layout := l }) :
    p.relaxed.advanceWrite net call = (p.advanceWrite net call).mapBorder relaxed := by
  cases call with
  | every row =>
    obtain ⟨l, hl⟩ : ∃ l, p.checkLayout row = .ok { p with layout := l } := fits rfl
    simp only [advanceWrite, writeEvery, relaxed_checkLayout, hl]
    rw [apply_ite (Progress.mapBorder relaxed)]
    rfl
  | only hop row =>
    obtain ⟨l, hl⟩ : ∃ l, p.checkLayout row = .ok { p with layout := l } := fits rfl
    simp only [advanceWrite, writeOnly, relaxed_checkLayout, hl]
    rw [apply_ite (Progress.mapBorder relaxed)]
    rfl
  | send hops row =>
    rcases hops with _ | ⟨hop, hops⟩
    · rfl
    · simp only [advanceWrite, relaxed_takeTurn]
      rcases p.takeTurn hop with _ | ⟨channel, q⟩ <;> rfl
  | deliver channel hops row =>
    simp only [advanceWrite]
    rcases net.put channel row with _ | ⟨e | _, net⟩ <;> rfl
  | signal channel hops row => rfl

end Border

namespace Dispatch

variable {home : Border} {x x' : Dispatch} {columns : List (String × DataType)}

def relaxed (x : Dispatch) : Dispatch :=
  { x with border := x.border.relaxed }

theorem relaxed_step (turn : Turn)
    (fits : ∀ order call, x.call = some (order, call) → call.isFresh = true →
      ∃ l, x.border.checkLayout call.row = .ok { x.border with layout := l }) :
    x.relaxed.step turn = (x.step turn).relaxed := by
  cases turn with
  | ask order => cases hc : x.call <;> simp [step, relaxed, hc]
  | write =>
    rcases hc : x.call with _ | ⟨order, call⟩
    · simp [step, relaxed, hc]
    · have hadvance : x.border.relaxed.advanceWrite x.net call =
          (x.border.advanceWrite x.net call).mapBorder Border.relaxed :=
        Border.relaxed_advanceWrite (fits order call hc)
      cases hr : x.border.advanceWrite x.net call <;>
        simp [step, relaxed, hc, hadvance, hr, Progress.mapBorder]
  | take c =>
    simp only [step, relaxed]
    split <;> rfl
  | put c row =>
    simp only [step, relaxed]
    split <;> rfl
  | act action => rfl

/-- Only rows with these columns were asked for. -/
def Asked (columns : List (String × DataType)) (x : Dispatch) : Prop :=
  (∀ a ∈ x.answers, a.1.row.schema.columns = columns) ∧
    ∀ order call, x.call = some (order, call) → order.row.schema.columns = columns

theorem Asked.stepped {turn : Turn} (h : x.Asked columns) (hs : x.Stepped turn x')
    (asks : ∀ order, turn = .ask order → order.row.schema.columns = columns) : x'.Asked columns := by
  cases hs with
  | @ask order free =>
    refine ⟨h.1, fun order' call hc => ?_⟩
    obtain ⟨rfl, rfl⟩ := Prod.mk.inj (Option.some.inj hc)
    exact asks _ rfl
  | goes under_way =>
    refine ⟨h.1, fun order' call hc => ?_⟩
    obtain ⟨rfl, rfl⟩ := Prod.mk.inj (Option.some.inj hc)
    exact h.2 _ _ under_way
  | replies under_way =>
    exact ⟨List.forall_mem_append.mpr ⟨h.1, List.forall_mem_singleton.mpr (h.2 _ _ under_way)⟩,
      fun _ _ hc => (by cases hc)⟩
  | _ => exact h

theorem Guarded.passes (h : x.Guarded home) (hasked : x.Asked columns) {order : Order}
    {call : Writing} (hc : x.call = some (order, call)) :
    ∃ l, x.border.checkLayout call.row = .ok { x.border with layout := l } := by
  obtain ⟨fault, hfault⟩ | hfits := x.border.checkLayout_cases call.row
  · obtain ⟨-, first, hl, hne, -⟩ := Border.checkLayout_error_iff.mp hfault
    refine absurd (Schema.bare_eq_iff.mpr ?_) hne
    -- the layout is that of a row looked at before, which has the same columns
    have hmem : ∀ o ∈ x.checked, o.row.schema.columns = columns := by
      refine List.forall_mem_append.mpr ⟨List.forall_mem_map.mpr hasked.1, ?_⟩
      rw [hc]
      simpa using fun _ => hasked.2 order call hc
    rw [h.layout, Option.map_eq_some_iff] at hl
    obtain ⟨o, ho, rfl⟩ := hl
    rw [hmem o (List.mem_of_head? ho), (h.call order call hc).1, hasked.2 order call hc]
  · exact hfits

theorem relaxed_after (h : x.Guarded home) (safe : home.safeMode = true) (hasked : x.Asked columns)
    {turns : List Turn} (avoids : ∀ turn ∈ turns, turn.Avoids home.outputChannels)
    (asks : ∀ order, .ask order ∈ turns → order.row.schema.columns = columns) :
    x.relaxed.after turns = (x.after turns).relaxed := by
  induction turns generalizing x with
  | nil => rfl
  | cons turn turns ih =>
    obtain ⟨hturn, hturns⟩ := List.forall_mem_cons.mp avoids
    have hout : x.border.outputChannels = home.outputChannels :=
      Border.place_outputs (Border.frame_place h.frame)
    have hstepped := x.step_stepped turn
    have hstep := ih (h.stepped safe hstepped (hout ▸ hturn))
      (hasked.stepped hstepped fun order he => asks order (he ▸ List.mem_cons_self)) hturns
      fun order hmem => asks order (List.mem_cons_of_mem _ hmem)
    rw [← relaxed_step turn fun order call hc _ => h.passes hasked hc] at hstep
    exact hstep

theorem Guarded.start {border : Border} (unset : border.layout = none)
    (unseen : ∀ row, ¬ border.Shown row) (net : Net) : Guarded border { border, net } := by
  refine ⟨rfl, unset, fun _ _ hc => (by cases hc), fun row hrow => ?_, by simp⟩
  obtain ⟨c, -, hput⟩ | hshown := hrow
  · cases hput
  · exact absurd hshown (unseen row)

theorem Guarded.refuses {first : Order × Except StepError Unit}
    {rest : List (Order × Except StepError Unit)} {order : Order} (h : x.Guarded home)
    (safe : home.safeMode = true) (hanswers : x.answers = first :: rest)
    (hc : x.call = some (order, order.writing))
    (hne : order.row.schema.columns ≠ first.1.row.schema.columns) :
    x.step .write = { x with
      call := none
      answers := x.answers ++ [(order, .error (.fatal
        (.layout home.unit order.row.schema.names first.1.row.schema.names)))] } := by
  have hl : x.border.layout = some first.1.row.schema := by
    rw [h.layout, checked, hanswers]
    rfl
  have hunit : x.border.unit = home.unit := Border.frame_unit h.frame
  have hmisfit : x.border.checkLayout order.row = .error (.fatal
      (.layout home.unit order.row.schema.names first.1.row.schema.names)) := by
    refine Border.checkLayout_error_iff.mpr ⟨h.safe safe, _, hl, ?_, by rw [hunit]⟩
    exact mt Schema.bare_eq_iff.mp (Ne.symm hne)
  rcases order with ⟨_ | hop, row⟩
  · simp only [Order.writing, Border.writingOf] at hc
    simp [step, hc, Border.advanceWrite, Border.writeEvery, hmisfit]
  · simp only [Order.writing, Border.writingOf] at hc
    simp [step, hc, Border.advanceWrite, Border.writeOnly, hmisfit]

/-- In safe mode all rows that leave a unit have the same columns, those of the first row that it was to
write. Exactly the rows with other columns are refused because of their layout, at once, and nothing but
the answer tells of it. Where all rows have the same columns everything goes as without safe mode. -/
theorem layouts_uniform (border : Border) (net : Net) (safe : border.safeMode = true)
    (unset : border.layout = none) (unseen : ∀ row, ¬ border.Shown row) (turns : List Turn)
    (avoids : ∀ turn ∈ turns, turn.Avoids border.outputChannels) :
    let x := Dispatch.after { border, net } turns
    (∀ row row', x.Crossed row → x.Crossed row' → row.schema.columns = row'.schema.columns) ∧
    (∀ first rest, x.answers = first :: rest →
      (∀ order, x.call = some (order, order.writing) →
        order.row.schema.columns ≠ first.1.row.schema.columns →
        x.step .write = { x with
          call := none
          answers := x.answers ++ [(order, .error (.fatal
            (.layout border.unit order.row.schema.names first.1.row.schema.names)))] }) ∧
      ∀ a ∈ x.answers,
        Border.Misfit a.2 ↔ a.1.row.schema.columns ≠ first.1.row.schema.columns) ∧
    ∀ columns, (∀ order, .ask order ∈ turns → order.row.schema.columns = columns) →
      Dispatch.after { border := border.relaxed, net } turns = x.relaxed := by
  intro x
  have hstart : Guarded border { border, net } := .start unset unseen net
  have hx : x.Guarded border := hstart.after safe avoids
  refine ⟨fun row row' hrow hrow' => ?_, fun first rest hanswers =>
    ⟨fun order hc hne => hx.refuses safe hanswers hc hne, fun a ha => ?_⟩, fun columns asks => ?_⟩
  · obtain ⟨layout, hl, hcolumns⟩ := hx.crossed row hrow
    obtain ⟨layout', hl', hcolumns'⟩ := hx.crossed row' hrow'
    obtain rfl := Option.some.inj (hl.symm.trans hl')
    exact hcolumns.symm.trans hcolumns'
  · obtain ⟨layout, hl, hmisfit⟩ := hx.answers a ha
    rw [hx.layout, checked, hanswers] at hl
    obtain rfl := Option.some.inj hl
    exact hmisfit.trans ne_comm
  · exact relaxed_after hstart safe ⟨by simp, fun _ _ hc => (by cases hc)⟩ avoids asks

def guardedHops : Border :=
  { twoHops with safeMode := true }

def label (text : String) : Row :=
  ⟨⟨[{ name := "label", type := .string }]⟩, [.string text], rfl⟩

/-- A label is to follow a flag. -/
def changesLayout : List Turn :=
  wholeWrite (flag true) ++ [.ask ⟨none, label "red"⟩]

theorem changesLayout_refused :
    let x := Dispatch.after { border := guardedHops, net := threeChannels } changesLayout
    guardedHops.safeMode = true ∧ guardedHops.layout = none ∧ (∀ row, ¬ guardedHops.Shown row) ∧
      (∀ turn ∈ changesLayout, turn.Avoids guardedHops.outputChannels) ∧
      x.border.counters.linesWritten = 1 ∧
      (x.step .write).border = x.border ∧ (x.step .write).net = x.net ∧
      (x.step .write).answers = x.answers ++
        [(⟨none, label "red"⟩, .error (.fatal (.layout ⟨"s", 0⟩ ["label"] ["flag"])))] := by
  intro x
  have hunseen : ∀ row, ¬ guardedHops.Shown row := by
    rintro row ⟨log, hlog, hrow⟩
    obtain rfl : log = #[] := by simpa [guardedHops, twoHops] using hlog
    cases hrow
  have havoids : ∀ turn ∈ changesLayout, turn.Avoids guardedHops.outputChannels := by decide
  obtain ⟨-, hfirst, -⟩ :=
    layouts_uniform guardedHops threeChannels rfl rfl hunseen changesLayout havoids
  have hstep : x.step .write = _ := (hfirst _ [] rfl).1 ⟨none, label "red"⟩ rfl (by decide)
  rw [hstep]
  exact ⟨rfl, rfl, hunseen, havoids, rfl, rfl, rfl, rfl⟩

end Dispatch

end Sluice
