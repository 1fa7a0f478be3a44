import Sluice.Proofs.Step.Logic
import Sluice.Step.Catalog

/-!
Steps that handle rows one after another: what they send out for a list of rows, apart from batches
and from everything a step keeps to be faster.
-/

namespace Sluice

/-- What becomes of some rows, each answered in turn, or nothing when one of them fails. -/
def respondAll {ρ : Type} (respond : ρ → Row → Option (ρ × List Emission)) :
    ρ → List Row → Option (ρ × List Emission)
  | s, [] => some (s, [])
  | s, row :: rows => do
    let (s, out) ← respond s row
    let (s, rest) ← respondAll respond s rows
    return (s, out ++ rest)

section

variable {ρ : Type} {respond : ρ → Row → Option (ρ × List Emission)} {s s' s'' : ρ}
  {out out' : List Emission}

theorem respondAll_nil_eq_some : respondAll respond s [] = some (s', out) ↔ s' = s ∧ out = [] := by
  simp [respondAll, eq_comm]

theorem respondAll_cons_eq_some {row : Row} {rows : List Row} :
    respondAll respond s (row :: rows) = some (s', out) ↔ ∃ s₁ es rest,
      respond s row = some (s₁, es) ∧ respondAll respond s₁ rows = some (s', rest) ∧
        out = es ++ rest := by
  simp only [respondAll, Option.bind_eq_bind, Option.bind_eq_some_iff, Option.pure_def,
    Option.some.injEq, Prod.mk.injEq, Prod.exists]
  constructor
  · rintro ⟨s₁, es, hes, _, rest, hrest, rfl, rfl⟩
    exact ⟨s₁, es, rest, hes, hrest, rfl⟩
  · rintro ⟨s₁, es, rest, hes, hrest, rfl⟩
    exact ⟨s₁, es, hes, s', rest, hrest, rfl, rfl⟩

theorem respondAll_append {xs ys : List Row} (hx : respondAll respond s xs = some (s', out))
    (hy : respondAll respond s' ys = some (s'', out')) :
    respondAll respond s (xs ++ ys) = some (s'', out ++ out') := by
  induction xs generalizing s out with
  | nil =>
    obtain ⟨rfl, rfl⟩ := respondAll_nil_eq_some.mp hx
    exact hy
  | cons x xs ih =>
    obtain ⟨s₁, es, rest, hes, hrest, rfl⟩ := respondAll_cons_eq_some.mp hx
    rw [List.cons_append, List.append_assoc]
    exact respondAll_cons_eq_some.mpr ⟨s₁, es, _, hes, ih hrest, rfl⟩

end

def Journal.send (j : Journal) (es : List Emission) : Journal :=
  { j with out := j.out ++ es }

@[simp] theorem Journal.send_nil (j : Journal) : j.send [] = j := by
  simp [Journal.send]

/-- How a step answers single rows, seen through what it remembers. -/
structure Handling (σ ρ : Type) where
  /-- The memory is one that the step can have. -/
  good : σ → Prop
  view : σ → ρ
  respond : ρ → Row → Option (ρ × List Emission)

namespace Handling

variable {σ ρ : Type} {site : Site} {handle : Row → Work σ Unit}

/-- The memory and everything sent out are what the rows read so far ask for. -/
def contract (h : Handling σ ρ) (start : ρ) : Contract σ where
  loop m j := h.good m ∧ respondAll h.respond start (j.got.map (·.2)) = some (h.view m, j.out)
  finished j := ∃ s, respondAll h.respond start (j.got.map (·.2)) = some (s, j.out)

def Fits (h : Handling σ ρ) (site : Site) (handle : Row → Work σ Unit) : Prop :=
  ∀ m j row, h.good m → (handle row).Meets site m j fun _ m' j' =>
    h.good m' ∧ ∃ es, h.respond (h.view m) row = some (h.view m', es) ∧ j' = j.send es

theorem forRows_meets {h : Handling σ ρ} (hh : h.Fits site handle)
    (hasks : ∀ j, site.asks none j) {start : ρ} (n : Nat) {m : σ} {j : Journal}
    (hl : (h.contract start).loop m j) :
    (Work.forRows handle n).Meets site m j fun r m' j' =>
      (h.contract start).loop m' j' ∧ (r = .finished → j'.AllEnded site) := by
  induction n generalizing m j with
  | zero => exact Work.meets_pure ⟨hl, by simp⟩
  | succ n ih =>
    unfold Work.forRows
    refine Work.meets_bind (Work.meets_getRow (fun j' _ => hasks j')
      (fun j' k row hj hk hlive => ?_) fun j' hj hall => ?_)
    · refine Work.meets_bind ((hh m (j'.take k row) row hl.1).mono ?_)
      rintro _ m' j'' ⟨hgood, es, hes, rfl⟩
      refine ih ⟨hgood, ?_⟩
      have hone : respondAll h.respond (h.view m) [row] = some (h.view m', es) := by
        simp [respondAll, hes]
      have := respondAll_append hl.2 hone
      simpa [Journal.send, Journal.take, hj.got, hj.out] using this
    · exact Work.meets_pure ⟨⟨hl.1, by rw [hj.got, hj.out]; exact hl.2⟩, fun _ => hall⟩

theorem keeps {h : Handling σ ρ} (hh : h.Fits site handle) (hasks : ∀ j, site.asks none j)
    (start : ρ) {b : Behaviour σ}
    (hb : b.process = fun around => Work.forRows handle around.batchRows) :
    b.Keeps site (h.contract start) := by
  refine ⟨fun m j j' hj hl => ⟨hl.1, by rw [hj.got, hj.out]; exact hl.2⟩, fun batchRows m j hl => ?_⟩
  rw [hb]
  refine (forRows_meets hh hasks batchRows hl).mono ?_
  rintro r m' j' ⟨hl', hall⟩
  cases r with
  | more => exact hl'
  | finished => exact ⟨hall rfl, _, hl'.2⟩

end Handling

section

variable {site : Site}

/-- A bad row is counted where bad rows are skipped. -/
def DataErrorPolicy.answer (policy : DataErrorPolicy) (fault : DataFault) : Option (List Emission) :=
  match policy with
  | .skip => some [.fault fault.message]
  | .abort => none

/-- Every row goes on as it is. -/
def passing : Handling Unit Unit where
  good _ := True
  view := id
  respond _ row := some ((), [.row none row])

theorem passing_fits : passing.Fits site Work.putRow :=
  fun _ _ _ _ => Work.meets_putRow ⟨trivial, _, rfl, rfl⟩

namespace Abort

/-- Rows go on until there are too many of them. -/
def handling (threshold : Nat) : Handling Memory Nat where
  good m := m.threshold = threshold
  view m := m.seen
  respond seen row := if threshold < seen + 1 then none else some (seen + 1, [.row none row])

theorem handling_fits (threshold : Nat) : (handling threshold).Fits site handle := by
  intro m j row hm
  refine Work.meets_bind (Work.meets_modify (Work.meets_bind (Work.meets_get ?_)))
  by_cases hlt : m.threshold < m.seen + 1
  · simp only [hlt, if_true]
    exact Work.meets_fatal
  · simp only [hlt, if_false]
    refine Work.meets_putRow ⟨hm, [.row none row], ?_, rfl⟩
    have hm : m.threshold = threshold := hm
    simp only [handling, ← hm, hlt, if_false]

end Abort

namespace Filter

/-- Where a row of known outcome goes. -/
def routing (trueTo falseTo : Option Nat) (row : Row) (keep : Bool) : List Emission :=
  if trueTo.isSome || falseTo.isSome then
    match if keep then trueTo else falseTo with
    | some hop => [.row (some hop) row]
    | none => []
  else if keep then [.row none row]
  else []

def answer (policy : DataErrorPolicy) (condition : Condition) (trueTo falseTo : Option Nat)
    (row : Row) : Option (List Emission) := do
  let i ← row.schema.indexOf? condition.field
  match condition.test ((row.value? i).getD .null) with
  | .error e => policy.answer (.literal e)
  | .ok keep => some (routing trueTo falseTo row keep)

/-- A place that is kept is the place of the field in that schema. -/
def Kept (condition : Condition) (m : Memory) : Prop :=
  ∀ schema i, m.found = some (schema, i) → schema.indexOf? condition.field = some i

def handling (policy : DataErrorPolicy) (condition : Condition) (trueTo falseTo : Option Nat) :
    Handling Memory Unit where
  good m :=
    m.condition = some condition ∧ m.trueTo = trueTo ∧ m.falseTo = falseTo ∧ Kept condition m
  view _ := ()
  respond _ row := (answer policy condition trueTo falseTo row).map fun es => ((), es)

section Place

variable {condition : Condition} {row : Row} {m : Memory} {j : Journal}
  {Q : Nat → Memory → Journal → Prop}

theorem lookUp_meets
    (h : ∀ i found, row.schema.indexOf? condition.field = some i →
      Kept condition { m with found } → Q i { m with found } j) :
    (do
      match row.schema.indexOf? condition.field with
      | none => Work.fatal (.conditionField condition.field)
      | some i =>
        modify fun m => { m with found := some (row.schema, i) }
        return i : Work Memory Nat).Meets site m j Q := by
  cases hi : row.schema.indexOf? condition.field with
  | none => exact Work.meets_fatal
  | some i =>
    refine Work.meets_bind (Work.meets_modify (Work.meets_pure (h i _ hi ?_)))
    rintro schema i' hfound
    simp only [Option.some.injEq, Prod.mk.injEq] at hfound
    obtain ⟨rfl, rfl⟩ := hfound
    exact hi

theorem place_meets (hm : Kept condition m)
    (h : ∀ i found, row.schema.indexOf? condition.field = some i →
      Kept condition { m with found } → Q i { m with found } j) :
    (place condition.field row).Meets site m j Q := by
  unfold place
  refine Work.meets_bind (Work.meets_get ?_)
  rcases hf : m.found with _ | ⟨schema, i⟩
  · exact lookUp_meets h
  · by_cases hs : schema = row.schema
    · simp only [hs, if_true]
      subst hs
      exact Work.meets_pure (h i m.found (hm _ i hf) hm)
    · simp only [hs, if_false]
      exact lookUp_meets h

end Place

theorem handling_fits {condition : Condition} {trueTo falseTo : Option Nat} :
    (handling site.policy condition trueTo falseTo).Fits site handle := by
  rintro m j row ⟨hcond, rfl, rfl, hkept⟩
  unfold handle
  refine Work.meets_bind (Work.meets_get ?_)
  simp only [hcond]
  refine Work.meets_bind (place_meets hkept fun i found hi hkept' => ?_)
  rcases ht : condition.test ((row.value? i).getD .null) with e | keep
  · refine Work.meets_reportData fun hp => ⟨⟨hcond, rfl, rfl, hkept'⟩, _, ?_, rfl⟩
    simp [handling, answer, hi, ht, hp, DataErrorPolicy.answer]
  · refine Work.meets_bind (Work.meets_get ?_)
    have hanswer (es : List Emission) (hes : routing m.trueTo m.falseTo row keep = es) :
        (handling site.policy condition m.trueTo m.falseTo).respond () row = some ((), es) := by
      simp [handling, answer, hi, ht, hes]
    have hgood : (handling site.policy condition m.trueTo m.falseTo).good { m with found } :=
      ⟨hcond, rfl, rfl, hkept'⟩
    unfold route Memory.routed
    by_cases hr : (m.trueTo.isSome || m.falseTo.isSome) = true
    · simp only [hr, if_true]
      rcases hto : (if keep then m.trueTo else m.falseTo) with _ | hop
      · exact Work.meets_pure ⟨hgood, [], hanswer _ (by simp [routing, hr, hto]), by simp⟩
      · exact Work.meets_putRowTo ⟨hgood, _, hanswer _ (by simp [routing, hr, hto]), rfl⟩
    · simp only [hr]
      cases keep with
      | true => exact Work.meets_putRow ⟨hgood, _, hanswer _ (by simp [routing, hr]), rfl⟩
      | false => exact Work.meets_pure ⟨hgood, [], hanswer _ (by simp [routing, hr]), by simp⟩

end Filter

namespace Select

/-- The layout for a row, given the one before. -/
def nextLayout (m : Memory) (last : Option Layout) (row : Row) : Option Layout :=
  match last with
  | some layout =>
    if layout.input.sameLayout row.schema then some layout else (buildLayout m row.schema).toOption
  | none => (buildLayout m row.schema).toOption

/-- The row in a layout, or the report of the first field that does not convert. -/
def rearrange (policy : DataErrorPolicy) (layout : Layout) (row : Row) : Option (List Emission) :=
  match layout.fields.mapM fun (i, target) => convertField row i target with
  | .error e => policy.answer (.field e)
  | .ok values => (Row.ofValues layout.output values).toOption.map fun out => [.row none out]

/-- Only the last layout is remembered from row to row. -/
def handling (policy : DataErrorPolicy) (config : Memory) : Handling Memory (Option Layout) where
  good m := { m with layout := none } = { config with layout := none }
  view m := m.layout
  respond last row := do
    let layout ← nextLayout config last row
    let es ← rearrange policy layout row
    return (some layout, es)

theorem buildLayout_congr {m m' : Memory} (h : { m with layout := none } = { m' with layout := none })
    (schema : Schema) : buildLayout m schema = buildLayout m' schema := by
  obtain ⟨select, rename, convert, layout⟩ := m
  obtain ⟨select', rename', convert', layout'⟩ := m'
  simp only [Memory.mk.injEq] at h
  obtain ⟨rfl, rfl, rfl, -⟩ := h
  rfl

section Layout

variable {row : Row} {m : Memory} {j : Journal} {Q : Layout → Memory → Journal → Prop}

theorem renew_meets
    (h : ∀ layout, nextLayout m m.layout row = some layout → Q layout { m with layout := some layout } j)
    (hnext : nextLayout m m.layout row = (buildLayout m row.schema).toOption) :
    (do
      match buildLayout m row.schema with
      | .error name => Work.fatal (.selectField name)
      | .ok layout =>
        set { m with layout := some layout }
        return layout : Work Memory Layout).Meets site m j Q := by
  rcases hb : buildLayout m row.schema with name | layout
  · exact Work.meets_fatal
  · refine Work.meets_bind (Work.meets_set (Work.meets_pure (h layout ?_)))
    rw [hnext, hb]
    rfl

theorem layoutFor_meets
    (h : ∀ layout, nextLayout m m.layout row = some layout → Q layout { m with layout := some layout } j) :
    (layoutFor row).Meets site m j Q := by
  unfold layoutFor
  refine Work.meets_bind (Work.meets_get ?_)
  rcases hl : m.layout with _ | layout
  · exact renew_meets h (by simp [nextLayout, hl])
  · by_cases hs : layout.input.sameLayout row.schema = true
    · simp only [hs, if_true]
      have hm : m = { m with layout := some layout } := by rw [← hl]
      have hq := h layout (by simp [nextLayout, hl, hs])
      rw [← hm] at hq
      exact Work.meets_pure hq
    · simp only [hs]
      exact renew_meets h (by simp [nextLayout, hl, hs])

end Layout

theorem handling_fits (config : Memory) : (handling site.policy config).Fits site handle := by
  intro m j row hm
  unfold handle
  refine Work.meets_bind (layoutFor_meets fun layout hl => ?_)
  have hl : nextLayout config m.layout row = some layout := by
    rw [← hl]
    unfold nextLayout
    rw [buildLayout_congr hm]
  split
  · rename_i e hv
    refine Work.meets_reportData fun hp => ⟨hm, _, ?_, rfl⟩
    simp [handling, hl, rearrange, hv, hp, DataErrorPolicy.answer]
  · rename_i values hv
    split
    · rename_i out hr
      refine Work.meets_putRow ⟨hm, _, ?_, rfl⟩
      simp [handling, hl, rearrange, hv, hr, Except.toOption]
    · exact Work.meets_fatal

end Select

end

end Sluice
