import Mathlib.Tactic
import Sluice.Proofs.Number.Exactness
import Sluice.Proofs.Number.Spelling
import Sluice.Proofs.Step.Layouts

/-!
Conversions that lead back. An integer is read from the text it is written in, and a text from its own
bytes; so integers, dates, truth values, texts and the bytes of texts return from the types that hold
all of them. What a conversion gives is null only for null, has the type asked for otherwise, and is not
changed by asking again.
-/

namespace Sluice

namespace Integer

variable {cs : List Char} {limit acc : Nat} {beyond : IntegerFault}

theorem digit?_of_isDigit {c : Char} (h : c.isDigit = true) :
    digit? 10 c = some (c.toNat - '0'.toNat) := by
  simp only [Char.isDigit, Bool.and_eq_true, decide_eq_true_eq] at h
  have hlo : '0' ≤ c := h.1
  have hhi : c ≤ '9' := h.2
  have htoNat : c.toNat ≤ 57 := h.2
  have hlt : c.toNat - '0'.toNat < 10 := by
    change c.toNat - 48 < 10
    omega
  simp only [digit?, hlo, hhi, decide_true, Bool.and_self, if_true, Option.filter_some, hlt]

/-- Digits only add to what was read before, so it is enough to look at the end. -/
theorem readDigits_of_isDigit (hdigits : ∀ c ∈ cs, c.isDigit = true)
    (hle : Nat.ofDigitChars 10 cs acc ≤ limit) :
    readDigits 10 limit beyond acc cs = .ok (Nat.ofDigitChars 10 cs acc) := by
  induction cs generalizing acc with
  | nil => rfl
  | cons c cs ih =>
    obtain ⟨hc, hcs⟩ := List.forall_mem_cons.mp hdigits
    rw [Nat.ofDigitChars_cons] at hle ⊢
    have hfirst := (Decimal.le_ofDigitChars cs _).trans hle
    simp only [readDigits, digit?_of_isDigit hc, hfirst, if_true]
    exact ih hcs hle

theorem readDigits_toDigits {n : Nat} (h : n ≤ limit) :
    readDigits 10 limit beyond 0 (Nat.toDigits 10 n) = .ok n := by
  have hvalue : Nat.ofDigitChars 10 (Nat.toDigits 10 n) 0 = n := Nat.ofDigitChars_ten_toDigits
  rw [readDigits_of_isDigit (fun c => Nat.isDigit_of_mem_toDigits (by decide) (by decide))
    (by rwa [hvalue]), hvalue]

theorem toList_format (n : Int) :
    (format n).toList = (if n < 0 then ['-'] else []) ++ Nat.toDigits 10 n.natAbs := by
  cases n with
  | ofNat k => simp [format, Nat.repr_eq_ofList_toDigits]
  | negSucc k => simp [format, Nat.repr_eq_ofList_toDigits]

theorem readChars_digits {lo hi : Int} (hne : cs ≠ []) (hdigits : ∀ c ∈ cs, c.isDigit = true) :
    readChars 10 lo hi cs = (readDigits 10 hi.toNat .tooLarge 0 cs).map Int.ofNat := by
  obtain ⟨c, cs, rfl⟩ := List.exists_cons_of_ne_nil hne
  have hc := hdigits c List.mem_cons_self
  have hplus : c ≠ '+' := by rintro rfl; exact absurd hc (by decide)
  have hminus : c ≠ '-' := by rintro rfl; exact absurd hc (by decide)
  unfold readChars
  split <;> simp_all
  rfl

theorem readChars_minus {lo hi : Int} (hne : cs ≠ []) (hlo : lo < 0) :
    readChars 10 lo hi ('-' :: cs) =
      (readDigits 10 (-lo).toNat .tooSmall 0 cs).map fun n => -Int.ofNat n := by
  obtain ⟨c, cs, rfl⟩ := List.exists_cons_of_ne_nil hne
  simp only [readChars, hlo]
  rfl

theorem read_format {lo hi n : Int} (hlo : lo ≤ n) (hhi : n ≤ hi) : read lo hi (format n) = .ok n := by
  have hdigits : ∀ c ∈ Nat.toDigits 10 n.natAbs, c.isDigit = true := fun c =>
    Nat.isDigit_of_mem_toDigits (by decide) (by decide)
  rw [read, toList_format]
  by_cases hn : n < 0
  · rw [if_pos hn, List.singleton_append, readChars_minus Nat.toDigits_ne_nil (by omega),
      readDigits_toDigits (by omega)]
    simp only [Except.map, Int.ofNat_eq_natCast]
    congr 1
    omega
  · rw [if_neg hn, List.nil_append, readChars_digits Nat.toDigits_ne_nil hdigits,
      readDigits_toDigits (by omega)]
    simp only [Except.map, Int.ofNat_eq_natCast]
    congr 1
    omega

theorem format_injective {a b : Int} (h : format a = format b) : a = b := by
  have ha := read_format (n := a) (min_le_left a b) (le_max_left a b)
  have hb := read_format (n := b) (min_le_right a b) (le_max_right a b)
  rw [h] at ha
  exact Except.ok.inj (ha.symm.trans hb)

theorem trim_format (n : Int) : Text.trim (format n) = format n := by
  have hunblank : ∀ c ∈ (format n).toList, Text.isBlank c = false := by
    intro c hc
    rw [toList_format, List.mem_append] at hc
    obtain hc | hc := hc
    · split at hc
      · rw [List.mem_singleton.mp hc]
        decide
      · cases hc
    · exact Text.isBlank_of_isDigit (Nat.isDigit_of_mem_toDigits (by decide) (by decide) hc)
  rw [Text.trim, Text.trimChars_of_unblank hunblank, String.ofList_toList]

end Integer

theorem ByteArray.toList_loop (bytes : ByteArray) (i : Nat) (acc : List UInt8) :
    ByteArray.toList.loop bytes i acc = acc.reverse ++ bytes.data.toList.drop i := by
  fun_induction ByteArray.toList.loop bytes i acc with
  | case1 i acc h ih =>
    have hi : i < bytes.data.toList.length := by simpa using h
    rw [ih, List.drop_eq_getElem_cons hi]
    simp [ByteArray.get!, h]
  | case2 i acc h =>
    rw [List.drop_eq_nil_of_le (by simpa using Nat.le_of_not_lt h), List.append_nil]

theorem ByteArray.toList_eq_data (bytes : ByteArray) : bytes.toList = bytes.data.toList := by
  rw [ByteArray.toList, toList_loop]
  rfl

namespace Value

variable {v w : Value} {t : DataType}

theorem readInteger_format (n : Int64) : readInteger (Integer.format n.toInt) = .ok n := by
  have hread : Int64.readText (Integer.format n.toInt) = .ok n := by
    have hfits := Integer.fitsInt64_toInt n
    rw [Int64.readText, Integer.read_format hfits.1 hfits.2]
    exact congrArg Except.ok n.ofInt_toInt
  rw [readInteger, Integer.trim_format, hread]
  rfl

/-- These bytes are the text of some characters. -/
def Utf8 (bytes : List UInt8) : Prop :=
  ByteArray.IsValidUTF8 ⟨bytes.toArray⟩

theorem toText_of_utf8 {bytes : List UInt8} (h : Utf8 bytes) :
    ∃ s, (binary bytes).toText = .ok s ∧ s.toUTF8.toList = bytes := by
  refine ⟨String.fromUTF8 ⟨bytes.toArray⟩ h, ?_, ?_⟩
  · simp only [toText, String.fromUTF8?, dif_pos (show ByteArray.IsValidUTF8 ⟨bytes.toArray⟩ from h)]
  · rw [ByteArray.toList_eq_data]
    rfl

theorem toText_of_not_utf8 {bytes : List UInt8} (h : ¬ Utf8 bytes) :
    (binary bytes).toText = .error .invalidUtf8 := by
  simp only [toText, String.fromUTF8?, dif_neg (show ¬ ByteArray.IsValidUTF8 ⟨bytes.toArray⟩ from h)]

theorem toText_toUTF8 (s : String) : (binary s.toUTF8.toList).toText = .ok s := by
  have hbytes : (⟨s.toUTF8.toList.toArray⟩ : ByteArray) = s.toByteArray := by
    rw [ByteArray.toList_eq_data, Array.toArray_toList, String.toUTF8_eq_toByteArray]
  simp only [toText, hbytes, String.fromUTF8?, dif_pos s.isValidUTF8]
  rfl

/-- Converted to a type, and from there to the type it was of, a value is what it was. -/
def Returns (v : Value) (t : DataType) : Prop :=
  ∃ home w, v.type? = some home ∧ v.convert t = .ok w ∧ w.convert home = .ok v

theorem convert_string_integer (s : String) : (string s).convert .integer =
    ((readInteger s).mapError fun fault => ⟨string s, .integer, fault⟩).map .integer := rfl

theorem convert_string_date (s : String) : (string s).convert .date =
    ((readInteger s).mapError fun fault => ⟨string s, .date, fault⟩).map .date := rfl

theorem convert_binary_string (bytes : List UInt8) : (binary bytes).convert .string =
    ((binary bytes).toText.mapError fun fault => ⟨binary bytes, .string, fault⟩).map .string := rfl

theorem integer_returns (n : Int64) (ht : t ∈ [DataType.string, .bigNumber, .date]) :
    (integer n).Returns t := by
  simp only [List.mem_cons, List.not_mem_nil, or_false] at ht
  obtain rfl | rfl | rfl := ht
  · refine ⟨.integer, string (Integer.format n.toInt), rfl, rfl, ?_⟩
    rw [convert_string_integer, readInteger_format]
    rfl
  · have hwhole : Decimal.truncate (Decimal.ofInt64 n).value = n.toInt :=
      (Decimal.truncate_value _).trans (Int.tdiv_one _)
    exact ⟨.integer, bigNumber (.ofInt64 n), rfl, rfl,
      convert_integer_eq_ok.mpr ⟨Nat.zero_le 38, n, hwhole, rfl⟩⟩
  · exact ⟨.integer, date n, rfl, rfl, rfl⟩

theorem date_returns (ms : Int64) (ht : t ∈ [DataType.string, .integer]) : (date ms).Returns t := by
  simp only [List.mem_cons, List.not_mem_nil, or_false] at ht
  obtain rfl | rfl := ht
  · refine ⟨.date, string (Integer.format ms.toInt), rfl, rfl, ?_⟩
    rw [convert_string_date, readInteger_format]
    rfl
  · exact ⟨.date, integer ms, rfl, rfl, rfl⟩

theorem boolean_returns (b : Bool) (ht : t ∈ [DataType.string, .integer, .number]) :
    (boolean b).Returns t := by
  simp only [List.mem_cons, List.not_mem_nil, or_false] at ht
  obtain rfl | rfl | rfl := ht
  · exact ⟨.boolean, string (if b then "Y" else "N"), rfl, rfl, by cases b <;> decide +kernel⟩
  · exact ⟨.boolean, integer (if b then 1 else 0), rfl, rfl, by cases b <;> decide +kernel⟩
  · exact ⟨.boolean, number (if b then .one else .zero), rfl, rfl, by cases b <;> decide +kernel⟩

theorem string_returns (s : String) : (string s).Returns .binary := by
  refine ⟨.string, binary s.toUTF8.toList, rfl, rfl, ?_⟩
  rw [convert_binary_string, toText_toUTF8]
  rfl

theorem binary_returns {bytes : List UInt8} (h : Utf8 bytes) : (binary bytes).Returns .string := by
  obtain ⟨s, htext, hbytes⟩ := toText_of_utf8 h
  refine ⟨.binary, string s, rfl, by rw [convert_binary_string, htext]; rfl, ?_⟩
  change Except.ok (binary s.toUTF8.toList) = _
  rw [hbytes]

theorem convert_of_fits (h : v.Fits t) : v.convert t = .ok v := by
  have hkept : (v.isNull || v.type? == some t) = true := by
    obtain rfl | h := h
    · rfl
    · rw [h, beq_self_eq_true, Bool.or_true]
  unfold convert
  rw [if_pos hkept]

theorem convert_eq_null (h : v.convert t = .ok .null) : v = .null := by
  unfold convert at h
  by_cases hv : (v.isNull || v.type? == some t) = true
  · rw [if_pos hv] at h
    exact Except.ok.inj h
  · rw [if_neg hv] at h
    cases t <;> obtain ⟨a, -, ha⟩ := Except.map_eq_ok.mp h <;> cases ha

theorem convert_null (t : DataType) : null.convert t = .ok .null :=
  convert_of_fits (.inl rfl)

/-- Integers, dates, truth values, texts and bytes that are a text return from the types that hold them,
and other bytes are no text. Only null becomes null, all else becomes a value of the type asked for,
and to convert once more changes nothing. -/
theorem conversions_return (n ms : Int64) (b : Bool) (s : String) (bytes : List UInt8) :
    (∀ t ∈ [DataType.string, .bigNumber, .date], (integer n).Returns t) ∧
    (∀ t ∈ [DataType.string, .integer], (date ms).Returns t) ∧
    (∀ t ∈ [DataType.string, .integer, .number], (boolean b).Returns t) ∧
    (string s).Returns .binary ∧
    (Utf8 bytes → (binary bytes).Returns .string) ∧
    (¬ Utf8 bytes → (binary bytes).convert .string = .error ⟨binary bytes, .string, .invalidUtf8⟩) ∧
    ∀ (v w : Value) (t : DataType), v.convert t = .ok w →
      (w = .null ↔ v = .null) ∧ (v ≠ .null → w.type? = some t) ∧ w.convert t = .ok w := by
  refine ⟨fun t => integer_returns n, fun t => date_returns ms, fun t => boolean_returns b,
    string_returns s, binary_returns, fun h => ?_, fun v w t h => ?_⟩
  · rw [convert_binary_string, toText_of_not_utf8 h]
    rfl
  · have hnull : w = .null ↔ v = .null := by
      constructor
      · rintro rfl
        exact convert_eq_null h
      · rintro rfl
        exact (Except.ok.inj ((convert_null t).symm.trans h)).symm
    have hfits := convert_fits h
    exact ⟨hnull, fun hv => hfits.resolve_left (hv ∘ hnull.mp), convert_of_fits hfits⟩

theorem leastInteger_returns :
    let letter : List UInt8 := [0xC3, 0xA9]
    (integer Int64.minValue).Returns .string ∧ (date Int64.minValue).Returns .integer ∧
      (boolean false).Returns .number ∧ (string "Y ").Returns .binary ∧
      (Utf8 letter ∧ (binary letter).Returns .string) ∧
      (¬ Utf8 [0xC3] ∧
        (binary [0xC3]).convert .string = .error ⟨binary [0xC3], .string, .invalidUtf8⟩) ∧
      ((string " 07 ").convert .integer = .ok (integer 7) ∧
        (integer 7).convert .integer = .ok (integer 7)) := by
  intro letter
  have hletter : Utf8 letter := by unfold Utf8; decide +kernel
  have hfirst : ¬ Utf8 [0xC3] := by unfold Utf8; decide +kernel
  have hseven : (string " 07 ").convert .integer = .ok (integer 7) := by decide +kernel
  obtain ⟨hinteger, hdate, hboolean, hstring, hbinary, -, hagain⟩ :=
    conversions_return Int64.minValue Int64.minValue false "Y " letter
  obtain ⟨-, -, -, -, -, hrefused, -⟩ := conversions_return 0 0 true "" [0xC3]
  exact ⟨hinteger _ (by decide), hdate _ (by decide), hboolean _ (by decide), hstring,
    ⟨hletter, hbinary hletter⟩, ⟨hfirst, hrefused hfirst⟩, hseven, (hagain _ _ _ hseven).2.2⟩

end Value

end Sluice
