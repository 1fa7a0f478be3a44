import Sluice.Proofs.Border.Split
import Sluice.Proofs.Step.Catalog

/-!
Steps that do not mind in which order their rows come. What a step makes of a row follows from the
names, types and values of the row, whatever the step has kept from rows before it; so the same rows
in another order make it send out the same, in another order.
-/

namespace Sluice

/-- Without what is only for display. -/
def Field.bare (f : Field) : Field :=
  { name := f.name, type := f.type }

def Schema.bare (s : Schema) : Schema :=
  ⟨s.fields.map Field.bare⟩

def Row.bare (r : Row) : Row :=
  ⟨r.schema.bare, r.values, by simp [Schema.bare, r.aligned]⟩

def Emission.bare : Emission → Emission
  | .row hop r => .row hop r.bare
  | .fault message => .fault message

namespace Emission

@[simp] theorem isFor_bare (shared : Bool) (hops turn hop : Nat) (e : Emission) :
    e.bare.isFor shared hops turn hop = e.isFor shared hops turn hop := by
  cases e with
  | row target row => cases target <;> rfl
  | fault message => rfl

@[simp] theorem row?_bare (e : Emission) : e.bare.row? = e.row?.map Row.bare := by
  cases e <;> rfl

@[simp] theorem fault?_bare (e : Emission) : e.bare.fault? = e.fault? := by
  cases e <;> rfl

theorem filterMap_row?_bare (out : List Emission) :
    (out.map bare).filterMap (·.row?) = (out.filterMap (·.row?)).map Row.bare := by
  simp [List.filterMap_map, List.map_filterMap]

theorem filterMap_fault?_bare (out : List Emission) :
    (out.map bare).filterMap (·.fault?) = out.filterMap (·.fault?) := by
  simp [List.filterMap_map]

end Emission

/-- The same rows in some order, as far as their content goes. -/
def SameRows (rows rows' : List Row) : Prop :=
  (rows.map Row.bare).Perm (rows'.map Row.bare)

@[simp] theorem Schema.indexOf?_bare (s : Schema) (name : String) :
    s.bare.indexOf? name = s.indexOf? name := by
  simp [Schema.indexOf?, Schema.bare, List.findIdx?_map, Field.bare, Function.comp_def]

theorem Field.agrees_iff {a b : Field} : a.agrees b = true ↔ a.bare = b.bare := by
  simp [Field.agrees, Field.bare]

theorem Schema.sameLayout_iff {a b : Schema} : a.sameLayout b = true ↔ a.bare = b.bare := by
  obtain ⟨as⟩ := a
  obtain ⟨bs⟩ := b
  simp only [Schema.sameLayout, Schema.length, Schema.bare, Schema.mk.injEq]
  induction as generalizing bs with
  | nil => cases bs <;> simp
  | cons a as ih =>
    cases bs with
    | nil => simp
    | cons b bs =>
      simp only [List.length_cons, List.zip_cons_cons, List.all_cons, List.map_cons,
        List.cons.injEq, ← ih bs, ← Field.agrees_iff, Bool.and_eq_true, beq_iff_eq]
      rw [Nat.add_right_cancel_iff, and_left_comm]

section

variable {ρ : Type} {respond : ρ → Row → Option (ρ × List Emission)} {I : ρ → Prop}
  {f : Row → List Emission} {s s₁ s₂ : ρ} {rows rows' : List Row} {out out' : List Emission}

/-- With any memory that it can have, a step makes the same of rows with the same content. -/
def Rowwise (respond : ρ → Row → Option (ρ × List Emission)) (I : ρ → Prop)
    (f : Row → List Emission) : Prop :=
  ∀ s row s' es, I s → respond s row = some (s', es) → I s' ∧ es.map Emission.bare = f row.bare

theorem Rowwise.all (h : Rowwise respond I f) (hs : I s)
    (hall : respondAll respond s rows = some (s₁, out)) :
    out.map Emission.bare = (rows.map Row.bare).flatMap f := by
  induction rows generalizing s out with
  | nil =>
    obtain ⟨-, rfl⟩ := respondAll_nil_eq_some.mp hall
    simp
  | cons row rows ih =>
    obtain ⟨s', es, rest, hes, hrest, rfl⟩ := respondAll_cons_eq_some.mp hall
    obtain ⟨hs', hrow⟩ := h s row s' es hs hes
    rw [List.map_append, hrow, ih hs' hrest, List.map_cons, List.flatMap_cons]

theorem Rowwise.perm (h : Rowwise respond I f) (hs : I s)
    (hall : respondAll respond s rows = some (s₁, out))
    (hall' : respondAll respond s rows' = some (s₂, out'))
    (hrows : SameRows rows rows') :
    (out.map Emission.bare).Perm (out'.map Emission.bare) := by
  rw [h.all hs hall, h.all hs hall']
  exact List.Perm.flatMap_right f hrows

end

theorem passing_rowwise :
    Rowwise passing.respond (fun _ => True) fun row => [.row none row] := by
  intro s row s' es _ h
  obtain rfl : [Emission.row none row] = es := by simpa [passing] using h
  exact ⟨trivial, rfl⟩

theorem Abort.rowwise (threshold : Nat) :
    Rowwise (handling threshold).respond (fun _ => True) fun row => [.row none row] := by
  intro seen row seen' es _ h
  simp only [handling] at h
  split at h
  · cases h
  · obtain ⟨-, rfl⟩ := Prod.mk.inj (Option.some.inj h)
    exact ⟨trivial, rfl⟩

namespace Filter

variable (policy : DataErrorPolicy) (condition : Condition) (trueTo falseTo : Option Nat)

theorem routing_bare (row : Row) (keep : Bool) :
    (routing trueTo falseTo row keep).map Emission.bare = routing trueTo falseTo row.bare keep := by
  unfold routing
  split
  · split <;> rfl
  · split <;> rfl

theorem answer_bare {row : Row} {es : List Emission}
    (h : answer policy condition trueTo falseTo row = some es) :
    answer policy condition trueTo falseTo row.bare = some (es.map Emission.bare) := by
  obtain ⟨i, hi, hes⟩ := Option.bind_eq_some_iff.mp h
  refine Option.bind_eq_some_iff.mpr ⟨i, (row.schema.indexOf?_bare _).trans hi, ?_⟩
  have hvalue : row.bare.value? i = row.value? i := rfl
  rw [hvalue]
  generalize condition.test ((row.value? i).getD .null) = verdict at hes ⊢
  cases verdict with
  | error e =>
    cases policy with
    | skip =>
      obtain rfl := Option.some.inj hes
      rfl
    | abort => cases hes
  | ok keep =>
    obtain rfl := Option.some.inj hes
    exact congrArg some (routing_bare trueTo falseTo row keep).symm

theorem rowwise : Rowwise (handling policy condition trueTo falseTo).respond (fun _ => True)
    fun row => (answer policy condition trueTo falseTo row).getD [] := by
  intro s row s' es _ h
  obtain ⟨es', hes, he⟩ := Option.map_eq_some_iff.mp h
  obtain ⟨-, rfl⟩ := Prod.mk.inj he
  refine ⟨trivial, ?_⟩
  dsimp only
  rw [answer_bare _ _ _ _ hes, Option.getD_some]

end Filter

namespace Select

def Layout.bare (layout : Layout) : Layout :=
  { layout with input := layout.input.bare, output := layout.output.bare }

variable {m : Memory} {layout : Layout} {last : Option Layout} {row : Row}

theorem positions_bare (m : Memory) (input : Schema) :
    positions m input.bare = positions m input := by
  simp only [positions, Schema.indexOf?_bare]
  simp [Schema.length, Schema.bare]

theorem buildLayout_bare (m : Memory) (input : Schema) :
    buildLayout m input.bare = (buildLayout m input).map Layout.bare := by
  unfold buildLayout
  rw [positions_bare]
  cases positions m input with
  | error name => rfl
  | ok places =>
    simp only [bind, Except.bind, Schema.indexOf?_bare]
    split
    · rfl
    · have hfields :
          (places.filterMap fun i => (input.bare.fields[i]?).map fun field => (i, field)) =
          (places.filterMap fun i => (input.fields[i]?).map fun field => (i, field)).map
            (Prod.map id Field.bare) := by
        simp [Schema.bare, List.map_filterMap, Function.comp_def]
      simp only [hfields, List.map_map]
      refine congrArg Except.ok ?_
      simp [Layout.bare, Schema.bare, Function.comp_def, Field.bare, outputField]

theorem buildLayout_input (h : buildLayout m row.schema = .ok layout) :
    layout.input = row.schema := by
  unfold buildLayout at h
  obtain ⟨places, -, h⟩ := Except.bind_eq_ok.mp h
  split at h
  · cases h
  · obtain rfl := Except.ok.inj h
    rfl

/-- The layout that is kept is the one for its own input. -/
def Remembers (m : Memory) (last : Option Layout) : Prop :=
  ∀ layout, last = some layout → buildLayout m layout.input = .ok layout

theorem Remembers.next (h : Remembers m last) (hnext : nextLayout m last row = some layout) :
    Remembers m (some layout) ∧ buildLayout m row.schema.bare = .ok layout.bare := by
  have hnew (hb : (buildLayout m row.schema).toOption = some layout) :
      buildLayout m layout.input = .ok layout ∧ layout.input.bare = row.schema.bare := by
    cases hl : buildLayout m row.schema with
    | error name => simp [hl, Except.toOption] at hb
    | ok l =>
      obtain rfl : l = layout := by simpa [hl, Except.toOption] using hb
      exact ⟨buildLayout_input hl ▸ hl, congrArg Schema.bare (buildLayout_input hl)⟩
  obtain ⟨hbuilt, hsame⟩ :
      buildLayout m layout.input = .ok layout ∧ layout.input.bare = row.schema.bare := by
    unfold nextLayout at hnext
    split at hnext
    · split at hnext
      · rename_i hfits
        obtain rfl := Option.some.inj hnext
        exact ⟨h _ rfl, Schema.sameLayout_iff.mp hfits⟩
      · exact hnew hnext
    · exact hnew hnext
  refine ⟨fun l hl => Option.some.inj hl ▸ hbuilt, ?_⟩
  rw [← hsame, buildLayout_bare, hbuilt]
  rfl

theorem ofValues_bare (schema : Schema) (values : List Value) :
    (Row.ofValues schema.bare values).toOption =
      (Row.ofValues schema values).toOption.map Row.bare := by
  have hlength : schema.bare.fields.length = schema.fields.length := by simp [Schema.bare]
  unfold Row.ofValues
  by_cases h : schema.fields.length = values.length
  · rw [dif_pos h, dif_pos (hlength.trans h)]
    rfl
  · rw [dif_neg h, dif_neg (fun hb => h (hlength.symm.trans hb))]
    rfl

theorem rearrange_bare (policy : DataErrorPolicy) (layout : Layout) (row : Row) :
    rearrange policy layout.bare row.bare =
      (rearrange policy layout row).map (List.map Emission.bare) := by
  have hconvert (i : Nat) (target : Option DataType) :
      convertField row.bare i target = convertField row i target := rfl
  have hfields : layout.bare.fields = layout.fields := rfl
  have houtput : layout.bare.output = layout.output.bare := rfl
  simp only [rearrange, hconvert, hfields, houtput]
  generalize (layout.fields.mapM fun p => convertField row p.1 p.2) = converted
  cases converted with
  | error e => cases policy <;> rfl
  | ok values =>
    simp only [ofValues_bare, Option.map_map]
    rfl

theorem rowwise (policy : DataErrorPolicy) (m : Memory) :
    Rowwise (handling policy m).respond (Remembers m) fun row =>
      ((buildLayout m row.schema).toOption.bind fun layout =>
        rearrange policy layout row).getD [] := by
  intro last row s' es hlast h
  obtain ⟨layout, hnext, h⟩ := Option.bind_eq_some_iff.mp h
  obtain ⟨es', hes, h⟩ := Option.bind_eq_some_iff.mp h
  obtain ⟨rfl, rfl⟩ := Prod.mk.inj (Option.some.inj h)
  obtain ⟨hlayout, hbare⟩ := hlast.next hnext
  refine ⟨hlayout, ?_⟩
  change _ = ((buildLayout m row.schema.bare).toOption.bind fun layout =>
    rearrange policy layout row.bare).getD []
  rw [hbare]
  change _ = (rearrange policy layout.bare row.bare).getD []
  rw [rearrange_bare, hes]
  rfl

end Select

theorem Journal.perm_from (j : Journal) {inputs : Nat} (h : ∀ q ∈ j.got, q.1 < inputs) :
    (j.got.map (·.2)).Perm ((List.range inputs).flatMap j.from) := by
  have hfront : ∀ n, ((j.got.filter (·.1 < n)).map (·.2)).Perm ((List.range n).flatMap j.from) := by
    intro n
    induction n with
    | zero => simp
    | succ n ih =>
      rw [List.range_succ, List.flatMap_append, List.flatMap_singleton]
      refine List.Perm.trans ?_ (ih.append_right _)
      rw [Journal.from, ← List.map_append]
      refine List.Perm.map _ ?_
      have hsplit := (j.got.filter (·.1 < n + 1)).filter_append_perm (·.1 < n)
      refine hsplit.symm.trans (.of_eq ?_)
      simp only [List.filter_filter]
      congr 1
      · refine List.filter_congr fun q _ => ?_
        rw [Bool.eq_iff_iff]
        simp
        omega
      · refine List.filter_congr fun q _ => ?_
        rw [Bool.eq_iff_iff]
        simp
        omega
  have hall : j.got.filter (·.1 < inputs) = j.got :=
    List.filter_eq_self.mpr fun q hq => decide_eq_true (h q hq)
  exact hall ▸ hfront inputs

def Journal.Alike (j j' : Journal) (inputs : Nat) : Prop :=
  ∀ k < inputs, SameRows (j.from k) (j'.from k)

theorem Journal.Alike.got {j j' : Journal} {inputs : Nat} (h : j.Alike j' inputs)
    (tags : ∀ q ∈ j.got, q.1 < inputs) (tags' : ∀ q ∈ j'.got, q.1 < inputs) :
    SameRows (j.got.map (·.2)) (j'.got.map (·.2)) := by
  refine ((j.perm_from tags).map Row.bare).trans
    (.trans ?_ ((j'.perm_from tags').map Row.bare).symm)
  rw [List.map_flatMap, List.map_flatMap]
  exact List.Perm.flatMap_left _ fun k hk => h k (List.mem_range.mp hk)

namespace Catalog

variable {site site' : Site} {type : String} {t : StepType StepMemory} {setup : Setup}
  {m : StepMemory} {j j' : Journal}

/-- Two steps that finished with the same rows have sent out the same, each in its own order. -/
theorem finished_perm (ht : builtins.find? type = some t) (hinit : t.behaviour.init setup = .ok m)
    (hinputs : site'.inputs = site.inputs) (hpolicy : site'.policy = site.policy)
    (h : (m.contract site).finished j) (h' : (m.contract site').finished j')
    (tags : ∀ q ∈ j.got, q.1 < site.inputs) (tags' : ∀ q ∈ j'.got, q.1 < site'.inputs)
    (hread : j.Alike j' site.inputs) :
    (j.out.map Emission.bare).Perm (j'.out.map Emission.bare) := by
  have hgot := hread.got tags (hinputs ▸ tags')
  have hrows {σ ρ : Type} {hd : Handling σ ρ} {start : ρ} {I : ρ → Prop} {f : Row → List Emission}
      (hf : Rowwise hd.respond I f) (hstart : I start) (h : (hd.contract start).finished j)
      (h' : (hd.contract start).finished j') :
      (j.out.map Emission.bare).Perm (j'.out.map Emission.bare) := by
    obtain ⟨s, hs⟩ := h
    obtain ⟨s', hs'⟩ := h'
    exact hf.perm hstart hs hs' hgot
  obtain ⟨-, rfl | rfl | rfl | rfl | rfl | rfl | rfl⟩ := find?_cases ht
  · obtain ⟨m, -, rfl⟩ := within_eq_ok hinit
    exact hrows (Abort.rowwise m.threshold) trivial h h'
  · obtain ⟨m, -, rfl⟩ := within_eq_ok hinit
    have h : j.out = ((Append.cover site.inputs m.order).flatMap j.from).map (.row none) := h
    have h' : j'.out = ((Append.cover site'.inputs m.order).flatMap j'.from).map (.row none) := h'
    have hbare (rows : List Row) : (rows.map (Emission.row none)).map Emission.bare =
        (rows.map Row.bare).map (.row none) := by
      rw [List.map_map, List.map_map]
      rfl
    have hcover : (((Append.cover site.inputs m.order).flatMap j.from).map Row.bare).Perm
        (((Append.cover site.inputs m.order).flatMap j'.from).map Row.bare) := by
      rw [List.map_flatMap, List.map_flatMap]
      exact List.Perm.flatMap_left _ fun k hk => hread k (Append.lt_of_mem_cover hk)
    rw [h, h', hinputs, hbare, hbare]
    exact hcover.map _
  · obtain rfl : StepMemory.none = m := by
      simpa [dummy, Behaviour.within, passThrough, Except.map] using hinit
    exact hrows passing_rowwise trivial h h'
  · obtain ⟨m, -, rfl⟩ := within_eq_ok hinit
    rcases hc : m.condition with _ | condition
    · simp [StepMemory.contract, hc] at h
    · simp only [StepMemory.contract, hc] at h h'
      rw [hpolicy] at h'
      exact hrows (Filter.rowwise _ condition m.trueTo m.falseTo) trivial h h'
  · obtain ⟨m, -, rfl⟩ := within_eq_ok hinit
    rcases hr : m.row with _ | row
    · simp [StepMemory.contract, hr] at h
    · simp only [StepMemory.contract, hr] at h h'
      obtain ⟨l, hl, -, hout⟩ := h
      obtain ⟨l', hl', -, hout'⟩ := h'
      obtain rfl : l = l' := Option.some.inj (hl.symm.trans hl')
      rw [hout, hout']
  · obtain rfl : StepMemory.none = m := by
      simpa [injector, Behaviour.within, passThrough, Except.map] using hinit
    exact hrows passing_rowwise trivial h h'
  · obtain ⟨m, -, rfl⟩ := within_eq_ok hinit
    have h : ((Select.handling site.policy m).contract none).finished j := h
    have h' : ((Select.handling site'.policy m).contract none).finished j' := h'
    rw [hpolicy] at h'
    have hnone : Select.Remembers m none := by
      intro layout hl
      cases hl
    exact hrows (Select.rowwise site.policy m) hnone h h'

end Catalog

end Sluice
