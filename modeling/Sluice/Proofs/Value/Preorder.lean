import Mathlib.Tactic
import Sluice.Row

/-!
Rows as things to sort. Every value but a decimal has a standing, the place of its type followed by
integers that tell it from the others of its type, and values are in the order of their standings. On
a list of fields a row has a list of standings, with a gap where it has no such field, and rows are in
the order of these. Lists of integers are totally ordered, so rows without decimals are totally
preordered.
-/

namespace Sluice

namespace Value

theorem compareLists_eq {α : Type} [Ord α] (as bs : List α) :
    compareLists as bs = Ord.compare as bs := by
  induction as generalizing bs with
  | nil => cases bs <;> rfl
  | cons a as ih =>
    cases bs with
    | nil => rfl
    | cons b bs => rw [compareLists, ih, List.compare_cons_cons]

theorem compare_natCast (a b : Nat) : Ord.compare (a : Int) (b : Int) = Ord.compare a b := by
  rcases lt_trichotomy a b with h | rfl | h
  · rw [compare_lt_iff_lt.mpr h, compare_lt_iff_lt.mpr (by omega)]
  · rw [Std.ReflOrd.compare_self, Std.ReflOrd.compare_self]
  · rw [compare_gt_iff_gt.mpr h, compare_gt_iff_gt.mpr (by omega)]

theorem compare_map_natCast (as bs : List Nat) :
    Ord.compare (as.map Int.ofNat) (bs.map Int.ofNat) = Ord.compare as bs := by
  induction as generalizing bs with
  | nil => cases bs <;> rfl
  | cons a as ih =>
    cases bs with
    | nil => rfl
    | cons b bs =>
      rw [List.map_cons, List.map_cons, List.compare_cons_cons, List.compare_cons_cons, ih]
      exact congrArg (Ordering.then · _) (compare_natCast a b)

theorem compare_singleton (m n : Int) : Ord.compare [m] [n] = Ord.compare m n := by
  rw [List.compare_cons_cons]
  exact Ordering.then_eq

/-- Integers that tell a value from the others of its type. NaN is behind all other numbers. -/
def content : Value → List Int
  | .null => []
  | .string s => (s.toList.map Char.toNat).map Int.ofNat
  | .integer n => [n.toInt]
  | .number x => if x.isNaN then [1] else [0, x.key]
  | .bigNumber _ => []
  | .date ms => [ms.toInt]
  | .boolean b => [b.toNat]
  | .binary bytes => (bytes.map UInt8.toNat).map Int.ofNat

/-- The place of the type, then the place in the type. -/
def standing (v : Value) : List Int :=
  v.rank :: v.content

/-- Any value but a decimal. -/
def Plain (v : Value) : Prop :=
  v.type? ≠ some .bigNumber

instance (v : Value) : Decidable v.Plain := inferInstanceAs (Decidable (_ ≠ _))

variable {v w : Value}

theorem totalCompare_eq (x y : Binary64) :
    x.totalCompare y = Ord.compare (content (.number x)) (content (.number y)) := by
  simp only [Binary64.totalCompare, content]
  cases x.isNaN <;> cases y.isNaN
  · exact (compare_singleton x.key y.key).symm
  · rfl
  · rfl
  · rfl

theorem compare_of_rank_ne (h : v.rank ≠ w.rank) : v.compare w = Ord.compare v.rank w.rank := by
  cases v <;> cases w <;> first | rfl | exact absurd rfl h

theorem compare_of_rank_eq (hv : v.Plain) (h : v.rank = w.rank) :
    v.compare w = Ord.compare v.content w.content := by
  cases v <;> cases w <;> try cases h
  case null.null => rfl
  case string.string s t =>
    exact (compareLists_eq _ _).trans (compare_map_natCast _ _).symm
  case integer.integer m n => exact (compare_singleton _ _).symm
  case number.number x y => exact totalCompare_eq x y
  case bigNumber.bigNumber => exact absurd rfl hv
  case date.date m n => exact (compare_singleton _ _).symm
  case boolean.boolean a b => cases a <;> cases b <;> rfl
  case binary.binary as bs =>
    exact (compareLists_eq _ _).trans (compare_map_natCast _ _).symm

/-- A value that is no decimal stands to any other as their standings do. -/
theorem compare_eq_standing (hv : v.Plain) : v.compare w = Ord.compare v.standing w.standing := by
  rw [standing, standing, List.compare_cons_cons, compare_natCast]
  by_cases h : v.rank = w.rank
  · rw [compare_of_rank_eq hv h, h, Std.ReflOrd.compare_self]
    rfl
  · rw [compare_of_rank_ne h]
    have hne : Ord.compare v.rank w.rank ≠ .eq := fun he => h (Std.compare_eq_iff_eq.mp he)
    cases hc : Ord.compare v.rank w.rank with
    | lt => rfl
    | eq => exact absurd hc hne
    | gt => rfl

end Value

namespace Row

/-- A row in which no value is a decimal. -/
def Plain (r : Row) : Prop :=
  ∀ v ∈ r.values, v.Plain

instance (r : Row) : Decidable r.Plain := inferInstanceAs (Decidable (∀ _ ∈ _, _))

def standings (r : Row) (fields : List Nat) : List (Option (List Int)) :=
  fields.map fun i => (r.value? i).map Value.standing

variable {a b c : Row}

theorem Plain.value (ha : a.Plain) {i : Nat} {v : Value} (h : a.value? i = some v) : v.Plain :=
  ha v (List.mem_of_getElem? h)

theorem compareAt_eq_standing (ha : a.Plain) (i : Nat) : a.compareAt b i =
    Ord.compare ((a.value? i).map Value.standing) ((b.value? i).map Value.standing) := by
  unfold compareAt
  cases hv : a.value? i with
  | none => cases b.value? i <;> rfl
  | some v =>
    cases b.value? i with
    | none => rfl
    | some w => exact Value.compare_eq_standing (ha.value hv)

theorem compare_eq_standings (ha : a.Plain) (fields : List Nat) :
    a.compare b fields = Ord.compare (a.standings fields) (b.standings fields) := by
  induction fields with
  | nil => rfl
  | cons i rest ih =>
    rw [compare, compareAt_eq_standing ha, ih]
    exact List.compare_cons_cons.symm

/-- Both rows lack the field, or their values are equal in the order. -/
def Ties (a b : Row) (i : Nat) : Prop :=
  Option.Rel (fun v w => v.compare w = .eq) (a.value? i) (b.value? i)

/-- The first row lacks the field and the second has it, or its value is the smaller one. -/
def Precedes (a b : Row) (i : Nat) : Prop :=
  Option.lt (fun v w => v.compare w = .lt) (a.value? i) (b.value? i)

theorem compareAt_eq_iff {i : Nat} : a.compareAt b i = .eq ↔ a.Ties b i := by
  unfold compareAt Ties
  cases a.value? i <;> cases b.value? i <;> simp

theorem compareAt_lt_iff {i : Nat} : a.compareAt b i = .lt ↔ a.Precedes b i := by
  unfold compareAt Precedes
  cases a.value? i <;> cases b.value? i <;> simp [Option.lt]

theorem compare_eq_iff {fields : List Nat} :
    a.compare b fields = .eq ↔ ∀ i ∈ fields, a.Ties b i := by
  induction fields with
  | nil => simp [compare]
  | cons i rest ih => rw [compare, Ordering.then_eq_eq, ih, compareAt_eq_iff, List.forall_mem_cons]

theorem compare_lt_iff {fields : List Nat} : a.compare b fields = .lt ↔
    ∃ before i after, fields = before ++ i :: after ∧ (∀ j ∈ before, a.Ties b j) ∧ a.Precedes b i := by
  induction fields with
  | nil => simp [compare]
  | cons i rest ih =>
    rw [compare, Ordering.then_eq_lt, ih, compareAt_eq_iff, compareAt_lt_iff]
    constructor
    · rintro (hlt | ⟨htie, before, k, after, rfl, hties, hlt⟩)
      · exact ⟨[], i, rest, rfl, by simp, hlt⟩
      · exact ⟨i :: before, k, after, rfl, List.forall_mem_cons.mpr ⟨htie, hties⟩, hlt⟩
    · rintro ⟨_ | ⟨j, before⟩, k, after, hfields, hties, hlt⟩
      · obtain ⟨rfl, rfl⟩ := List.cons.inj hfields
        exact .inl hlt
      · obtain ⟨rfl, rfl⟩ := List.cons.inj hfields
        obtain ⟨htie, hties⟩ := List.forall_mem_cons.mp hties
        exact .inr ⟨htie, before, k, after, rfl, hties, hlt⟩

/-- On any list of fields, rows without decimals are totally preordered (a third row may even hold
some), and the order is the lexicographic one: the first field on which two rows do not tie decides,
and a field that a row lacks comes before all values. -/
theorem rows_preordered (ha : a.Plain) (hb : b.Plain) (fields : List Nat) :
    a.compare a fields = .eq ∧
    b.compare a fields = (a.compare b fields).swap ∧
    ((a.compare b fields).isLE → (b.compare c fields).isLE → (a.compare c fields).isLE) ∧
    (a.compare b fields = .lt → (b.compare c fields).isLE → a.compare c fields = .lt) ∧
    ((a.compare b fields).isLE → b.compare c fields = .lt → a.compare c fields = .lt) ∧
    (a.compare b fields = .eq → a.compare c fields = b.compare c fields) ∧
    (a.compare b fields = .eq ↔ ∀ i ∈ fields, a.Ties b i) ∧
    (a.compare b fields = .lt ↔ ∃ before i after, fields = before ++ i :: after ∧
      (∀ j ∈ before, a.Ties b j) ∧ a.Precedes b i) := by
  refine ⟨?_, ?_, ?_, ?_, ?_, ?_, compare_eq_iff, compare_lt_iff⟩
  · rw [compare_eq_standings ha, Std.ReflOrd.compare_self]
  · rw [compare_eq_standings hb, compare_eq_standings ha]
    exact Std.OrientedOrd.eq_swap
  all_goals rw [compare_eq_standings ha, compare_eq_standings hb, compare_eq_standings ha]
  · exact Std.TransCmp.isLE_trans
  · exact Std.TransCmp.lt_of_lt_of_isLE
  · exact Std.TransCmp.lt_of_isLE_of_lt
  · exact Std.TransCmp.congr_left

def ofAnonymous (values : List Value) : Row :=
  ⟨⟨values.map fun _ => { name := "", type := .string }⟩, values, by simp⟩

theorem ragged_preordered :
    let fields := [0, 1, 0, 7]
    let a := ofAnonymous [.number .nan]
    let b := ofAnonymous [.number .nan, .null]
    let c := ofAnonymous [.number .nan, .boolean false, .date 0]
    (a.Plain ∧ b.Plain) ∧ a.compare b fields = .lt ∧ (b.compare c fields).isLE ∧
      a.compare c fields = .lt := by
  intro fields a b c
  have hplain : a.Plain ∧ b.Plain := by decide
  have hab : a.compare b fields = .lt := by decide +kernel
  have hbc : (b.compare c fields).isLE := by decide +kernel
  obtain ⟨-, -, -, htrans, -⟩ := rows_preordered (c := c) hplain.1 hplain.2 fields
  exact ⟨hplain, hab, hbc, htrans hab hbc⟩

end Row

end Sluice
