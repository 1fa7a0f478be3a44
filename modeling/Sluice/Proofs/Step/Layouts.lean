import Sluice.Proofs.Step.Answers

/-!
What becomes of a row in the layout that is worked out for its own schema: which fields are looked
up, where they stand, and of which types the values are that come out.
-/

namespace Sluice

namespace Value

/-- Null, or of this type. -/
def Fits (t : DataType) (v : Value) : Prop :=
  v = .null ∨ v.type? = some t

def Becomes (v : Value) (target : Option DataType) (w : Value) : Prop :=
  match target with
  | some t => v.convert t = .ok w
  | none => w = v

theorem convert_fits {v w : Value} {t : DataType} (h : v.convert t = .ok w) : w.Fits t := by
  unfold convert at h
  by_cases hv : (v.isNull || v.type? == some t) = true
  · rw [if_pos hv] at h
    obtain rfl := Except.ok.inj h
    rw [Bool.or_eq_true, beq_iff_eq] at hv
    refine hv.imp_left fun hnull => ?_
    cases v <;> first | rfl | cases hnull
  · rw [if_neg hv] at h
    refine .inr ?_
    cases t <;> obtain ⟨a, -, rfl⟩ := Except.map_eq_ok.mp h <;> rfl

end Value

namespace Select

/-- All fields that a row has to have, in the order in which they are looked up. -/
def Memory.named (m : Memory) : List String :=
  m.select ++ (m.rename.map (·.1) ++ m.convert.map (·.1))

def Memory.lacking? (m : Memory) (input : Schema) : Option String :=
  m.named.find? fun name => (input.indexOf? name).isNone

variable {m : Memory} {input : Schema} {layout : Layout} {row : Row}

theorem indexOf?_lt {name : String} {i : Nat} (h : input.indexOf? name = some i) :
    i < input.length :=
  (List.findIdx?_eq_some_iff_getElem.mp h).1

theorem positions_cases (m : Memory) (input : Schema) :
    (∃ name, m.select.find? (fun name => (input.indexOf? name).isNone) = some name ∧
      positions m input = .error name) ∨
    m.select.find? (fun name => (input.indexOf? name).isNone) = none ∧
      ∃ places, positions m input = .ok places ∧ ∀ i ∈ places, i < input.length := by
  unfold positions
  cases hs : m.select.isEmpty with
  | true =>
    rw [List.isEmpty_iff.mp hs]
    exact .inr ⟨rfl, _, rfl, fun i hi => List.mem_range.mp hi⟩
  | false =>
    rw [if_neg Bool.false_ne_true, Except.mapM_find input.indexOf?
      (fun name i h => by rw [h]) (fun name h => by rw [h])]
    cases m.select.find? fun name => (input.indexOf? name).isNone with
    | some name => exact .inl ⟨name, rfl, rfl⟩
    | none =>
      refine .inr ⟨rfl, _, rfl, fun i hi => ?_⟩
      obtain ⟨name, -, hname⟩ := List.mem_filterMap.mp hi
      exact indexOf?_lt hname

/-- A layout for an input: each of its fields stands somewhere in the input, and a field that is to
be converted has the type that it is converted to. -/
structure Layout.Sound (layout : Layout) (input : Schema) : Prop where
  inside : ∀ place ∈ layout.fields, place.1 < input.length
  aligned : layout.output.length = layout.fields.length
  typed : ∀ (k i : Nat) (t : DataType), layout.fields[k]? = some (i, some t) →
    ∃ field, layout.output.fields[k]? = some field ∧ field.type = t

/-- There is a layout for every schema that lacks no field, and for no other. -/
theorem buildLayout_cases (m : Memory) (input : Schema) :
    (∃ name, m.lacking? input = some name ∧ buildLayout m input = .error name) ∨
    m.lacking? input = none ∧ ∃ layout, buildLayout m input = .ok layout ∧ layout.Sound input := by
  unfold buildLayout Memory.lacking? Memory.named
  rw [List.find?_append]
  obtain ⟨name, hfind, hpos⟩ | ⟨hfind, places, hpos, hlt⟩ := positions_cases m input
  · rw [hfind, hpos]
    exact .inl ⟨name, rfl, rfl⟩
  · rw [hfind, hpos, Option.none_or]
    cases (m.rename.map (·.1) ++ m.convert.map (·.1)).find?
        fun name => (input.indexOf? name).isNone with
    | some name => exact .inl ⟨name, rfl, rfl⟩
    | none =>
      refine .inr ⟨rfl, _, rfl, ?_, ?_, ?_⟩
      · intro place hplace
        obtain ⟨⟨i, field⟩, hmem, rfl⟩ := List.mem_map.mp hplace
        obtain ⟨j, hj, hfield⟩ := List.mem_filterMap.mp hmem
        obtain ⟨_, -, hfound⟩ := Option.map_eq_some_iff.mp hfield
        obtain rfl : j = i := congrArg Prod.fst hfound
        exact hlt _ hj
      · simp [Schema.length]
      · intro k i t hk
        rw [List.getElem?_map, Option.map_eq_some_iff] at hk
        obtain ⟨⟨j, field⟩, hfield, heq⟩ := hk
        obtain ⟨-, ht⟩ := Prod.mk.inj heq
        refine ⟨outputField m field, by rw [List.getElem?_map, hfield]; rfl, ?_⟩
        simp [outputField, ht]

/-- The values of a row in the places of a layout, or why the first one that does not convert does
not. -/
def Layout.convert (layout : Layout) (row : Row) : Except ConversionError (List Value) :=
  layout.fields.mapM fun place => convertField row place.1 place.2

def Layout.arrange (layout : Layout) (row : Row) : Except StepError Row :=
  match layout.convert row with
  | .error e => .error (.data (.field e))
  | .ok values =>
    match Row.ofValues layout.output values with
    | .ok out => .ok out
    | .error e => .error (.fatal (.custom e.message))

/-- What becomes of a row in the layout for its own schema. -/
def rebuild (m : Memory) (row : Row) : Except StepError Row :=
  match buildLayout m row.schema with
  | .error name => .error (.fatal (.selectField name))
  | .ok layout => layout.arrange row

/-- A row in a layout. Each of its values is the one in the field's place, converted to the field's
type if it is to be converted. -/
structure Arranged (layout : Layout) (row out : Row) : Prop where
  schema : out.schema = layout.output
  length : out.values.length = out.schema.length
  values : ∀ (k i : Nat) (target : Option DataType), layout.fields[k]? = some (i, target) →
    ∃ v w, row.value? i = some v ∧ out.value? k = some w ∧ v.Becomes target w
  converted : ∀ (k i : Nat) (t : DataType), layout.fields[k]? = some (i, some t) →
    ∃ field w, out.schema.fields[k]? = some field ∧ field.type = t ∧ out.value? k = some w ∧
      w.Fits t

/-- What can become of a row: it lacks a field, one of its values does not convert, or all of them
are in their places. -/
inductive Rebuilt (m : Memory) (row : Row) : Except StepError Row → Prop
  | lacking {name : String} (first : m.lacking? row.schema = some name) :
      Rebuilt m row (.error (.fatal (.selectField name)))
  | misfit {layout : Layout} {i : Nat} {t : DataType} {v : Value} {e : ConversionError}
      (complete : m.lacking? row.schema = none) (built : buildLayout m row.schema = .ok layout)
      (place : (i, some t) ∈ layout.fields) (value : row.value? i = some v)
      (fault : v.convert t = .error e) : Rebuilt m row (.error (.data (.field e)))
  | arranged {layout : Layout} {out : Row} (complete : m.lacking? row.schema = none)
      (built : buildLayout m row.schema = .ok layout) (arranged : Arranged layout row out) :
      Rebuilt m row (.ok out)

namespace Layout.Sound

variable (h : layout.Sound row.schema)

include h

theorem value {i : Nat} {target : Option DataType} (hplace : (i, target) ∈ layout.fields) :
    ∃ v, row.value? i = some v := by
  have hlt : i < row.values.length := row.aligned ▸ h.inside _ hplace
  exact ⟨_, List.getElem?_eq_getElem hlt⟩

theorem convertField_eq_ok {i : Nat} {target : Option DataType} {w : Value}
    (hplace : (i, target) ∈ layout.fields) (hw : convertField row i target = .ok w) :
    ∃ v, row.value? i = some v ∧ v.Becomes target w := by
  obtain ⟨v, hv⟩ := h.value hplace
  refine ⟨v, hv, ?_⟩
  cases target with
  | none => simpa [convertField, hv, Value.Becomes, eq_comm] using hw
  | some t => simpa [convertField, hv, Value.Becomes] using hw

theorem convert_eq_error {e : ConversionError} (he : layout.convert row = .error e) :
    ∃ i t v, (i, some t) ∈ layout.fields ∧ row.value? i = some v ∧ v.convert t = .error e := by
  obtain ⟨⟨i, target⟩, hplace, hfault⟩ := Except.mapM_eq_error he
  obtain ⟨v, hv⟩ := h.value hplace
  cases target with
  | none => cases hfault
  | some t => exact ⟨i, t, v, hplace, hv, by simpa [convertField, hv] using hfault⟩

theorem arranged {values : List Value} {out : Row} (hvalues : layout.convert row = .ok values)
    (hschema : out.schema = layout.output) (hout : out.values = values) :
    Arranged layout row out := by
  subst hout
  have hall := Except.mapM_eq_ok hvalues
  have hvalue (k i : Nat) (target : Option DataType) (hk : layout.fields[k]? = some (i, target)) :
      ∃ v w, row.value? i = some v ∧ out.value? k = some w ∧ v.Becomes target w := by
    obtain ⟨hlt, hplace⟩ := List.getElem?_eq_some_iff.mp hk
    have hlt' : k < out.values.length := hall.length_eq ▸ hlt
    have hw := hall.get hlt hlt'
    simp only [List.get_eq_getElem, hplace] at hw
    obtain ⟨v, hv, hbecomes⟩ := h.convertField_eq_ok (List.mem_of_getElem? hk) hw
    exact ⟨v, _, hv, List.getElem?_eq_getElem hlt', hbecomes⟩
  refine ⟨hschema, out.aligned.symm, hvalue, fun k i t hk => ?_⟩
  obtain ⟨field, hfield, htype⟩ := h.typed k i t hk
  obtain ⟨v, w, -, hw, hconvert⟩ := hvalue k i (some t) hk
  exact ⟨field, w, hschema ▸ hfield, htype, hw, Value.convert_fits hconvert⟩

end Layout.Sound

theorem rebuild_rebuilt (m : Memory) (row : Row) : Rebuilt m row (rebuild m row) := by
  unfold rebuild
  obtain ⟨name, hfirst, hbuild⟩ | ⟨hnone, layout, hbuild, hsound⟩ := buildLayout_cases m row.schema
  · rw [hbuild]
    exact .lacking hfirst
  · rw [hbuild]
    dsimp only [Layout.arrange]
    cases hvalues : layout.convert row with
    | error e =>
      obtain ⟨i, t, v, hplace, hv, hfault⟩ := hsound.convert_eq_error hvalues
      exact .misfit hnone hbuild hplace hv hfault
    | ok values =>
      have hlength : layout.output.fields.length = values.length :=
        hsound.aligned.trans (Except.mapM_eq_ok hvalues).length_eq
      have hout : Row.ofValues layout.output values = .ok ⟨layout.output, values, hlength⟩ :=
        dif_pos hlength
      dsimp only
      rw [hout]
      exact .arranged hnone hbuild (hsound.arranged hvalues rfl rfl)

end Select

end Sluice
