import Mathlib.Tactic
import Sluice.Proofs.Json.Integers
import Sluice.Proofs.Number.Shortening
import Sluice.Proofs.Step.Answers

/-!
Constant rows. A whole number in the signed range that a configuration names is in the row as it is
written, one beyond the range as the shortest decimal of the nearest number. The row is sent out as often
as the configuration asks for it, whatever the size of the batches.
-/

namespace Sluice

variable {σ : Type} {policy : DataErrorPolicy}

namespace Work

/-- Batches one after another, up to one that is the last: what they send out, and how they end. -/
inductive Course (policy : DataErrorPolicy) (batch : Work σ BatchOutcome) :
    σ → List Emission → Except Halt Unit → Prop
  | last {m m' es} (h : batch.answer policy m = some ((.ok .finished, m'), es)) :
    Course policy batch m es (.ok ())
  | broken {m m' halt es} (h : batch.answer policy m = some ((.error halt, m'), es)) :
    Course policy batch m es (.error halt)
  | next {m m' es out result} (h : batch.answer policy m = some ((.ok .more, m'), es))
    (rest : Course policy batch m' out result) : Course policy batch m (es ++ out) result

variable {batch : Work σ BatchOutcome} {m m' : σ} {es out : List Emission}
  {result : Except Halt Unit}

theorem course_last (h : batch.answer policy m = some ((.ok .finished, m'), es)) :
    batch.Course policy m out result ↔ out = es ∧ result = .ok () := by
  constructor
  · rintro (h' | h' | ⟨h', -⟩) <;> simp_all
  · rintro ⟨rfl, rfl⟩
    exact .last h

theorem course_next (h : batch.answer policy m = some ((.ok .more, m'), es)) :
    batch.Course policy m out result ↔
      ∃ rest, out = es ++ rest ∧ batch.Course policy m' rest result := by
  constructor
  · rintro (h' | h' | ⟨h', hrest⟩) <;> simp_all
  · rintro ⟨rest, rfl, hrest⟩
    exact .next h hrest

end Work

namespace Generate

variable {row : Row} {limit emitted : Nat}

theorem emit_answer (n : Nat) (hle : emitted ≤ limit) :
    (emit row n).answer policy ⟨some row, some limit, emitted⟩ = some
      ((.ok (if limit - emitted < n then .finished else .more),
          ⟨some row, some limit, emitted + min n (limit - emitted)⟩),
        List.replicate (min n (limit - emitted)) (.row none row)) := by
  induction n generalizing emitted with
  | zero => simp [emit]
  | succ n ih =>
    unfold emit
    rw [Work.answer_get_bind]
    by_cases hdone : limit ≤ emitted
    · obtain rfl : emitted = limit := by omega
      simp
    · have hleft : limit - emitted = limit - (emitted + 1) + 1 := by omega
      simp only [Option.any_some, hdone, decide_false, Bool.false_eq_true, if_false,
        Work.answer_putRow_bind, Work.answer_modify_bind, ih (show emitted + 1 ≤ limit by omega),
        Option.map_some, hleft, Nat.add_lt_add_iff_right, Nat.add_min_add_right,
        List.replicate_succ, Nat.add_assoc, Nat.add_comm 1]

theorem process_course {around : Surroundings} (hbatch : 0 < around.batchRows)
    (hle : emitted ≤ limit) {out : List Emission} {result : Except Halt Unit} :
    (process around).Course policy ⟨some row, some limit, emitted⟩ out result ↔
      out = List.replicate (limit - emitted) (.row none row) ∧ result = .ok () := by
  -- on the rows that are left: a batch that is not the last sends out some of them
  induction hleft : limit - emitted using Nat.strongRecOn generalizing emitted out with
  | ind left ih =>
    have hanswer : (process around).answer policy ⟨some row, some limit, emitted⟩ = _ :=
      emit_answer around.batchRows hle
    by_cases hlast : limit - emitted < around.batchRows
    · rw [if_pos hlast, Nat.min_eq_right hlast.le] at hanswer
      rw [Work.course_last hanswer, hleft]
    · rw [if_neg hlast, Nat.min_eq_left (by omega)] at hanswer
      rw [Work.course_next hanswer]
      simp only [ih (limit - (emitted + around.batchRows)) (by omega) (by omega) rfl]
      have hsplit : List.replicate left (Emission.row none row) =
          List.replicate around.batchRows (.row none row) ++
            List.replicate (limit - (emitted + around.batchRows)) (.row none row) := by
        rw [List.replicate_append_replicate]
        congr 1
        omega
      simp [hsplit]

/-- A whole number that 64 bits hold, as a document spells it: in one way, but for a zero that may
have a minus sign. -/
structure Literal where
  text : String
  value : Int
  spelled : text = Integer.format value ∨ text = "-0" ∧ value = 0
  held : Int64.minValue.toInt ≤ value ∧ value < UInt64.size

/-- A value of this type that is exactly this number, or its text. -/
inductive Shows (text : String) (n : Int) : DataType → Value → Prop
  | integer (i : Int64) (value : i.toInt = n) : Shows text n .integer (.integer i)
  | decimal (d : Decimal) (unscaled : d.unscaled = n) (scale : d.scale = 0) :
    Shows text n .bigNumber (.bigNumber d)
  | text : Shows text n .string (.string text)

theorem shows_string_iff {text s : String} {n : Int} :
    Shows text n .string (.string s) ↔ s = text :=
  ⟨fun h => by cases h; rfl, fun h => h ▸ .text⟩

theorem shows_decimal_iff {text : String} {n : Int} {d : Decimal} :
    Shows text n .bigNumber (.bigNumber d) ↔ d.unscaled = n ∧ d.scale = 0 :=
  ⟨fun h => by cases h; exact ⟨‹_›, ‹_›⟩, fun ⟨hunscaled, hscale⟩ => .decimal d hunscaled hscale⟩

namespace Literal

variable {l : Literal} {doc : Json}

/-- What the number comes out as. -/
def carried (l : Literal) : Int :=
  Integer.carried l.value

/-- What its text comes out as. -/
def carriedText (l : Literal) : String :=
  if l.carried = l.value then l.text else Integer.format l.carried

theorem read_plain (h : l.text = Integer.format l.value) :
    Json.read l.text = some (.int l.value) := by
  rw [h, Json.read_format l.held.1 l.held.2]

theorem read_cases (l : Literal) :
    (l.text = Integer.format l.value ∧ Json.read l.text = some (.int l.value)) ∨
    (l.text = "-0" ∧ l.value = 0 ∧ Json.read l.text = some (.float Binary64.zero.neg)) := by
  obtain htext | ⟨htext, hvalue⟩ := l.spelled
  · exact .inl ⟨htext, read_plain htext⟩
  · exact .inr ⟨htext, hvalue, by rw [htext]; rfl⟩

theorem carried_of_zero (h : l.value = 0) : l.carried = l.value :=
  Integer.carried_of_fits (h ▸ by decide)

theorem carriedText_plain (h : l.text = Integer.format l.value) :
    l.carriedText = Integer.format l.carried := by
  unfold carriedText
  split
  · rename_i hsame
    rw [h, hsame]
  · rfl

theorem large (h : ¬ Integer.fitsInt64 l.value) :
    ∃ n : Nat, l.value = n ∧ 2 ^ 63 ≤ n ∧ n < 2 ^ 64 :=
  Integer.large_of_not_fits l.held.2 l.held.1 h

theorem carried_large (l : Literal) {n : Nat} (hn : l.value = n) (hlo : 2 ^ 63 ≤ n) :
    (∀ c : Nat, l.carried = c ↔ Integer.Shortened n c) ∧ (10000 ∣ n → l.carried = n) ∧
      1000 ∣ l.carried ∧ l.carried ≤ n + 2048 ∧ n ≤ l.carried + 2048 := by
  have hhi : n < 2 ^ 64 := by
    have hheld : l.value < 2 ^ 64 := l.held.2
    omega
  obtain ⟨c, hc, hshort⟩ := Integer.carried_of_large hlo hhi
  obtain ⟨hthousand, hnear⟩ := hshort.near
  rw [carried, hn, hc]
  refine ⟨fun c' => ⟨fun h => ?_, fun h => ?_⟩, fun hdvd => ?_, by omega, by omega, by omega⟩
  · exact Int.natCast_inj.mp h ▸ hshort
  · exact congrArg _ (hshort.unique h)
  · exact congrArg _ (hshort.coarse n hdvd rfl)

theorem convert_shows (hread : Json.read l.text = some doc) {type : DataType}
    (ht : type ∈ [DataType.bigNumber, .string]) :
    ∃ v, (literal doc).convert type = .ok v ∧ Shows l.carriedText l.carried type v := by
  simp only [List.mem_cons, List.not_mem_nil, or_false] at ht
  obtain ⟨htext, hdoc⟩ | ⟨htext, hvalue, hdoc⟩ := l.read_cases <;>
    obtain rfl := Option.some.inj (hread.symm.trans hdoc)
  · rw [carriedText_plain htext]
    by_cases hfits : Integer.fitsInt64 l.value
    · have hsame : l.carried = l.value := Integer.carried_of_fits hfits
      have hback := Integer.toInt_ofInt_of_fits hfits
      rw [literal, if_pos hfits, hsame]
      obtain rfl | rfl := ht
      · exact ⟨_, rfl, .decimal (.ofInt64 (.ofInt l.value)) hback rfl⟩
      · refine ⟨_, rfl, ?_⟩
        change Shows _ _ _ (.string (Integer.format (Int64.ofInt l.value).toInt))
        rw [hback]
        exact .text
    · obtain ⟨n, hn, hlo, hhi⟩ := large hfits
      have hcarried : l.carried = ((Binary64.ofInt n).shortest .up).whole := by
        rw [carried, Integer.carried, if_neg hfits, hn]
      rw [literal, if_neg hfits, hcarried, hn]
      obtain rfl | rfl := ht
      · obtain ⟨d, hunscaled, hscale, hd⟩ := Value.convert_large_decimal hlo hhi
        exact ⟨_, hd, .decimal d hunscaled hscale⟩
      · exact ⟨_, Value.convert_large_string hlo hhi, .text⟩
  · have hsame := carried_of_zero hvalue
    rw [carriedText, if_pos hsame, hsame, htext, hvalue]
    obtain rfl | rfl := ht
    · exact ⟨.bigNumber ⟨0, 0, by decide⟩, by decide +kernel, .decimal _ rfl rfl⟩
    · exact ⟨.string "-0", by decide +kernel, .text⟩

theorem convert_integer_shows (hread : Json.read l.text = some doc) {v : Value}
    (hv : (literal doc).convert .integer = .ok v) : Shows l.text l.value .integer v := by
  obtain ⟨-, hdoc⟩ | ⟨-, hvalue, hdoc⟩ := l.read_cases <;>
    obtain rfl := Option.some.inj (hread.symm.trans hdoc)
  · by_cases hfits : Integer.fitsInt64 l.value
    · rw [literal, if_pos hfits] at hv
      obtain rfl := Except.ok.inj hv
      exact .integer _ (Integer.toInt_ofInt_of_fits hfits)
    · obtain ⟨n, hn, hlo, hhi⟩ := large hfits
      obtain ⟨e, he⟩ := Value.convert_large_integer hlo hhi
      rw [literal, if_neg hfits, hn, he] at hv
      cases hv
  · have hzero : (literal (.float Binary64.zero.neg)).convert .integer = .ok (.integer 0) := by
      decide +kernel
    obtain rfl := Except.ok.inj (hzero.symm.trans hv)
    exact .integer _ hvalue.symm

theorem shows_iff {type : DataType} {v : Value} (ht : type ∈ [DataType.bigNumber, .string])
    (hv : Shows l.carriedText l.carried type v) :
    Shows l.text l.value type v ↔ l.carried = l.value := by
  constructor
  · intro h
    cases hv with
    | integer => simp at ht
    | decimal d hunscaled =>
      cases h with
      | decimal _ hvalue => exact hunscaled.symm.trans hvalue
    | text =>
      obtain ⟨htext, -⟩ | ⟨-, hvalue, -⟩ := l.read_cases
      · have hsame := shows_string_iff.mp h
        rw [carriedText_plain htext, htext] at hsame
        exact Integer.format_injective hsame
      · exact carried_of_zero hvalue
  · intro hsame
    rwa [carriedText, if_pos hsame, hsame] at hv

end Literal

/-- A field that is to hold this number as a decimal or as a text. -/
structure FieldConfig.Holds (f : FieldConfig) (l : Literal) : Prop where
  read : Json.read l.text = some f.value
  type : ∃ type ∈ [DataType.bigNumber, .string], DataType.ofSpelling? f.type = some type

/-- What a row has for a field. A number stands there as it came out. -/
structure Carries (f : FieldConfig) (cell : Field × Value) : Prop where
  plain : cell.1 = { name := f.name, type := cell.1.type }
  type : DataType.ofSpelling? f.type = some cell.1.type
  number (l : Literal) (read : Json.read l.text = some f.value)
    (type : cell.1.type ∈ [DataType.bigNumber, .string]) :
    Shows l.carriedText l.carried cell.1.type cell.2 ∧
      (Shows l.text l.value cell.1.type cell.2 ↔ l.carried = l.value)
  integer (l : Literal) (read : Json.read l.text = some f.value) (type : cell.1.type = .integer) :
    Shows l.text l.value .integer cell.2

theorem field_eq_ok {f : FieldConfig} {cell : Field × Value} : field f = .ok cell ↔
    ∃ type v, DataType.ofSpelling? f.type = some type ∧ (literal f.value).convert type = .ok v ∧
      cell = ({ name := f.name, type }, v) := by
  unfold field
  cases DataType.ofSpelling? f.type with
  | none => simp
  | some type => cases hv : (literal f.value).convert type <;> simp [hv, eq_comm]

theorem carries_of_field {f : FieldConfig} {cell : Field × Value} (h : field f = .ok cell) :
    Carries f cell := by
  obtain ⟨type, v, htype, hv, rfl⟩ := field_eq_ok.mp h
  refine ⟨rfl, htype, fun l hread ht => ?_, fun l hread ht => ?_⟩
  · obtain ⟨w, hw, hshows⟩ := Literal.convert_shows hread ht
    obtain rfl := Except.ok.inj (hw.symm.trans hv)
    exact ⟨hshows, Literal.shows_iff ht hshows⟩
  · obtain rfl : type = .integer := ht
    exact Literal.convert_integer_shows hread hv

theorem FieldConfig.Holds.converts {f : FieldConfig} {l : Literal} (h : f.Holds l) :
    ∃ cell, field f = .ok cell := by
  obtain ⟨type, ht, htype⟩ := h.type
  obtain ⟨v, hv, -⟩ := Literal.convert_shows h.read ht
  exact ⟨_, field_eq_ok.mpr ⟨type, v, htype, hv, rfl⟩⟩

/-- A row has each number as it came out of the configuration, which in the signed range is the
number itself, and is sent out as often as the limit says, in batches of any size. Beyond that range
a number comes out as it is shortened. -/
theorem literals_carried (setup : Setup) (config : Config)
    (hconfig : setup.config (record.decode true) {} = .ok config)
    (hfields : ∀ f ∈ config.fields, (∃ l, f.Holds l) ∨ ∃ cell, field f = .ok cell) :
    (∃ m cells, init setup = .ok m ∧ m.row = some (rowOf cells) ∧
      List.Forall₂ Carries config.fields cells ∧
      ∀ limit, config.limit = some limit → ∀ (policy : DataErrorPolicy) (around : Surroundings),
        0 < around.batchRows → ∀ out result, (process around).Course policy m out result ↔
          out = List.replicate limit (.row none (rowOf cells)) ∧ result = .ok ()) ∧
    ∀ l : Literal, (∃ doc, Json.read l.text = some doc) ∧
      (Integer.fitsInt64 l.value → l.carried = l.value) ∧
      ∀ n : Nat, l.value = n → 2 ^ 63 ≤ n →
        (∀ c : Nat, l.carried = c ↔ Integer.Shortened n c) ∧ (10000 ∣ n → l.carried = n) ∧
          1000 ∣ l.carried ∧ l.carried ≤ n + 2048 ∧ n ≤ l.carried + 2048 := by
  refine ⟨?_, fun l => ⟨?_, Integer.carried_of_fits, fun n => l.carried_large⟩⟩
  · obtain ⟨cells, hcells⟩ : ∃ cells, config.fields.mapM field = .ok cells := by
      cases hmap : config.fields.mapM field with
      | ok cells => exact ⟨cells, rfl⟩
      | error e =>
        obtain ⟨f, hf, he⟩ := Except.mapM_eq_error hmap
        obtain ⟨cell, hcell⟩ : ∃ cell, field f = .ok cell :=
          (hfields f hf).elim (fun ⟨_, h⟩ => h.converts) fun h => h
        exact nomatch hcell.symm.trans he
    refine ⟨⟨some (rowOf cells), config.limit, 0⟩, cells, ?_, rfl, ?_, ?_⟩
    · exact Except.bind_eq_ok.mpr ⟨config, hconfig, Except.bind_eq_ok.mpr ⟨cells, hcells, rfl⟩⟩
    · exact (Except.mapM_eq_ok hcells).imp fun _ _ => carries_of_field
    · intro limit hlimit policy around hbatch out result
      rw [hlimit, process_course hbatch (Nat.zero_le limit)]
      rfl
  · obtain ⟨-, h⟩ | ⟨-, -, h⟩ := l.read_cases <;> exact ⟨_, h⟩

/-- The largest number that 64 bits hold, and the least that is beyond the signed range. -/
def largest : Literal :=
  ⟨"18446744073709551615", 18446744073709551615, .inl rfl, by decide⟩

def leastBeyond : Literal :=
  ⟨"9223372036854775808", 9223372036854775808, .inl rfl, by decide⟩

/-- Both of them in a row with a small one, to be sent out three times. -/
def extremes : Config where
  limit := some 3
  fields :=
    [⟨"n", "BigNumber", .int largest.value⟩, ⟨"t", "String", .int leastBeyond.value⟩,
      ⟨"i", "Integer", .int 7⟩]

def extremesSetup : Setup where
  spec :=
    { name := "g"
      type := "generate_rows"
      config := .obj [("limit", .int 3), ("fields", .arr
        [.obj [("name", .str "n"), ("type", .str "BigNumber"), ("value", .int largest.value)],
          .obj [("name", .str "t"), ("type", .str "String"), ("value", .int leastBeyond.value)],
          .obj [("name", .str "i"), ("type", .str "Integer"), ("value", .int 7)]])] }

theorem extremes_emitted :
    ∃ m cells, init extremesSetup = .ok m ∧ m.row = some (rowOf cells) ∧
      List.Forall₂ Carries extremes.fields cells ∧ ∀ out result,
        (process ⟨2, 0⟩).Course .abort m out result ↔
          out = List.replicate 3 (.row none (rowOf cells)) ∧ result = .ok () := by
  have hconfig : extremesSetup.config (record.decode true) {} = .ok extremes := rfl
  have hlargest := largest.read_plain (by decide +kernel)
  have hleast := leastBeyond.read_plain (by decide +kernel)
  have hfields : ∀ f ∈ extremes.fields, (∃ l, f.Holds l) ∨ ∃ cell, field f = .ok cell := by
    intro f hf
    simp only [extremes, List.mem_cons, List.not_mem_nil, or_false] at hf
    obtain rfl | rfl | rfl := hf
    · exact .inl ⟨largest, hlargest, .bigNumber, by decide, by decide +kernel⟩
    · exact .inl ⟨leastBeyond, hleast, .string, by decide, by decide +kernel⟩
    · exact .inr ⟨({ name := "i", type := .integer }, .integer 7), rfl⟩
  obtain ⟨⟨m, cells, hinit, hrow, hcarries, hcourse⟩, -⟩ :=
    literals_carried extremesSetup extremes hconfig hfields
  exact ⟨m, cells, hinit, hrow, hcarries, hcourse 3 rfl .abort ⟨2, 0⟩ (by decide)⟩

/-- Beyond the signed range, a decimal and a text have another number than the one that was written. -/
theorem largestLiteral_changed :
    let v := Value.bigNumber ⟨18446744073709552000, 0, by decide⟩
    let w := Value.string "9223372036854776000"
    ((init extremesSetup).toOption.bind (·.row)).map (·.values) = some [v, w, .integer 7] ∧
      ¬ Shows largest.text largest.value .bigNumber v ∧
      ¬ Shows leastBeyond.text leastBeyond.value .string w := by
  intro v w
  refine ⟨by decide +kernel, fun h => ?_, fun h => ?_⟩
  · exact absurd (shows_decimal_iff.mp h).1 (by decide)
  · exact absurd (shows_string_iff.mp h) (by decide)

end Generate

end Sluice
