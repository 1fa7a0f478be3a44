import Mathlib.Data.List.TakeWhile
import Mathlib.Tactic
import Sluice.Proofs.Prelude
import Sluice.Value.Convert

/-!
How decimals are spelled. A spelling has a sign or none, and digits with a point among them or none;
a text is read as a decimal if it is such a spelling and its digits stay within the positive range.
What is printed is always a spelling, so a printed decimal is read back, but for the least one of its
scale: its magnitude is one more than the positive range holds.
-/

namespace Sluice

namespace Text

theorem trimChars_of_unblank {cs : List Char} (h : ∀ c ∈ cs, isBlank c = false) :
    trimChars cs = cs := by
  have hdrop {xs : List Char} (hxs : ∀ c ∈ xs, isBlank c = false) : xs.dropWhile isBlank = xs := by
    cases xs with
    | nil => rfl
    | cons x xs => rw [List.dropWhile_cons_of_neg (by simp [hxs x List.mem_cons_self])]
  rw [trimChars, hdrop h, hdrop fun c hc => h c (List.mem_reverse.mp hc), List.reverse_reverse]

theorem ne_of_isDigit {c d : Char} (hc : c.isDigit = true) (hd : d.isDigit = false) : c ≠ d := by
  rintro rfl
  exact absurd (hc.symm.trans hd) (by decide)

theorem isBlank_of_isDigit {c : Char} (h : c.isDigit = true) : isBlank c = false := by
  simp only [Char.isDigit, Bool.and_eq_true, decide_eq_true_eq, UInt32.le_iff_toNat_le] at h
  have hlo : 48 ≤ c.toNat := h.1
  have hhi : c.toNat ≤ 57 := h.2
  simp only [isBlank, Bool.or_eq_false_iff, Bool.and_eq_false_iff, decide_eq_false_iff_not,
    beq_eq_false_iff_ne]
  omega

end Text

namespace Decimal

inductive Sign where
  | bare
  | plus
  | minus
  deriving DecidableEq, Repr

def Sign.chars : Sign → List Char
  | .bare => []
  | .plus => ['+']
  | .minus => ['-']

structure Spelling where
  sign : Sign
  whole : List Char
  /-- What follows the point, if there is one. -/
  fraction : Option (List Char)
  deriving DecidableEq, Repr

namespace Spelling

def afterPoint (s : Spelling) : List Char :=
  s.fraction.getD []

def digits (s : Spelling) : List Char :=
  s.whole ++ s.afterPoint

def unsigned (s : Spelling) : List Char :=
  s.whole ++ match s.fraction with
    | none => []
    | some cs => '.' :: cs

def chars (s : Spelling) : List Char :=
  s.sign.chars ++ s.unsigned

def text (s : Spelling) : String :=
  String.ofList s.chars

def places (s : Spelling) : Nat :=
  s.afterPoint.length

def magnitude (s : Spelling) : Nat :=
  Nat.ofDigitChars 10 s.digits 0

def value (s : Spelling) : Int :=
  match s.sign with
  | .minus => -s.magnitude
  | _ => s.magnitude

/-- Digits, at least one in all, and no more of them behind the point than can be counted. -/
structure Proper (s : Spelling) : Prop where
  inhabited : s.digits ≠ []
  numeric : ∀ c ∈ s.digits, c.isDigit = true
  countable : s.places < UInt32.size

instance (s : Spelling) : Decidable s.Proper :=
  decidable_of_iff (s.digits.isEmpty = false ∧ s.digits.all (·.isDigit) = true ∧ s.places < UInt32.size)
    ⟨fun ⟨hi, hn, hc⟩ => ⟨List.isEmpty_eq_false_iff.mp hi, List.all_eq_true.mp hn, hc⟩,
      fun h => ⟨List.isEmpty_eq_false_iff.mpr h.inhabited, List.all_eq_true.mpr h.numeric, h.countable⟩⟩

end Spelling

variable {d : Decimal} {cs : List Char} {s : Spelling}

theorem le_ofDigitChars (cs : List Char) (n : Nat) : n ≤ Nat.ofDigitChars 10 cs n := by
  rw [Nat.ofDigitChars_eq_ofDigitChars_zero]
  have := Nat.le_mul_of_pos_left n (Nat.pow_pos (n := cs.length) (by decide : 0 < 10))
  omega

theorem readDigits_eq_some {n : Nat} {m : Int} (hn : (n : Int) ≤ max) :
    readDigits n cs = some m ↔ m = Nat.ofDigitChars 10 cs n ∧ m ≤ max := by
  -- on the digits, for any number in range that was read before them
  induction cs generalizing n with
  | nil =>
    rw [readDigits, Nat.ofDigitChars_nil, Option.some.injEq, eq_comm]
    exact ⟨fun h => ⟨h, h ▸ hn⟩, And.left⟩
  | cons c cs ih =>
    have hcast : (10 : Int) * n + ((c.toNat - '0'.toNat : Nat) : Int) =
        (10 * n + (c.toNat - '0'.toNat) : Nat) := by push_cast; rfl
    rw [readDigits, hcast, Nat.ofDigitChars_cons]
    split
    · exact ih ‹_›
    · have hgrows := le_ofDigitChars cs (10 * n + (c.toNat - '0'.toNat))
      refine iff_of_false (by simp) fun ⟨hm, hle⟩ => ?_
      omega

theorem ofInt?_eq_some {n : Int} {scale : UInt32} :
    ofInt? n scale = some d ↔ n = d.unscaled ∧ scale = d.scale := by
  obtain ⟨unscaled, scale', inRange⟩ := d
  unfold ofInt?
  split
  · simp
  · rename_i hout
    refine iff_of_false (by simp) fun ⟨hn, _⟩ => hout ?_
    dsimp only at hn
    exact hn ▸ inRange

theorem readUnsigned_eq_some {negative : Bool} {whole fraction : List Char}
    (hsplit : splitPoint cs = (whole, fraction)) :
    readUnsigned negative cs = some d ↔
      (whole ++ fraction ≠ [] ∧ (∀ c ∈ whole ++ fraction, c.isDigit = true) ∧
        fraction.length < UInt32.size) ∧
      (Nat.ofDigitChars 10 (whole ++ fraction) 0 : Int) ≤ max ∧
      (if negative then -(Nat.ofDigitChars 10 (whole ++ fraction) 0 : Int)
        else Nat.ofDigitChars 10 (whole ++ fraction) 0) = d.unscaled ∧
      fraction.length = d.scale.toNat := by
  have hread {m : Int} := @readDigits_eq_some (whole ++ fraction) 0 m (by decide)
  have hscale (h : fraction.length < UInt32.size) :
      UInt32.ofNat fraction.length = d.scale ↔ fraction.length = d.scale.toNat := by
    rw [← UInt32.toNat_inj, UInt32.toNat_ofNat_of_lt' h]
  unfold readUnsigned
  simp only [hsplit]
  split
  · rename_i hbad
    refine iff_of_false (by simp) fun ⟨⟨hne, hall, _⟩, _⟩ => ?_
    simp only [Bool.or_eq_true, List.isEmpty_iff, Bool.not_eq_true', List.all_eq_false] at hbad
    obtain hempty | ⟨c, hc, hnot⟩ := hbad
    · exact hne hempty
    · exact hnot (hall c hc)
  · rename_i hgood
    simp only [Bool.or_eq_true, List.isEmpty_iff, Bool.not_eq_true', not_or, Bool.not_eq_false,
      List.all_eq_true] at hgood
    rw [Option.bind_eq_bind, Option.bind_eq_some_iff]
    constructor
    · rintro ⟨m, hm, hrest⟩
      obtain ⟨rfl, hle⟩ := hread.mp hm
      by_cases hlen : fraction.length < UInt32.size
      · simp only [guard, hlen, if_true, Option.pure_def, Option.bind_eq_bind, Option.bind_some,
          ofInt?_eq_some] at hrest
        exact ⟨⟨hgood.1, hgood.2, hlen⟩, hle, hrest.1, (hscale hlen).mp hrest.2⟩
      · simp [guard, hlen] at hrest
    · rintro ⟨⟨_, _, hlen⟩, hle, hvalue, hplaces⟩
      refine ⟨_, hread.mpr ⟨rfl, hle⟩, ?_⟩
      simp only [guard, hlen, if_true, Option.pure_def, Option.bind_eq_bind, Option.bind_some,
        ofInt?_eq_some]
      exact ⟨hvalue, (hscale hlen).mpr hplaces⟩

theorem splitPoint_none (h : ∀ c ∈ cs, c ≠ '.') : splitPoint cs = (cs, []) := by
  have htake : cs.takeWhile (· ≠ '.') = cs := List.takeWhile_eq_self_iff.mpr (by simpa using h)
  have hdrop : cs.dropWhile (· ≠ '.') = [] := List.dropWhile_eq_nil_iff.mpr (by simpa using h)
  rw [splitPoint, htake, hdrop]
  rfl

theorem splitPoint_some {whole : List Char} (h : ∀ c ∈ whole, c ≠ '.') (fraction : List Char) :
    splitPoint (whole ++ '.' :: fraction) = (whole, fraction) := by
  rw [splitPoint, List.takeWhile_append_of_pos (by simpa using h),
    List.dropWhile_append_of_pos (by simpa using h)]
  simp

theorem Spelling.Proper.split (h : s.Proper) : splitPoint s.unsigned = (s.whole, s.afterPoint) := by
  have hwhole : ∀ c ∈ s.whole, c ≠ '.' := fun c hc =>
    Text.ne_of_isDigit (h.numeric c (List.mem_append_left _ hc)) rfl
  unfold Spelling.unsigned Spelling.afterPoint
  cases s.fraction with
  | none =>
    rw [List.append_nil]
    exact splitPoint_none hwhole
  | some fraction => exact splitPoint_some hwhole fraction

theorem exists_unsigned (sign : Sign) (cs : List Char) :
    ∃ s : Spelling, s.sign = sign ∧ s.unsigned = cs ∧ splitPoint cs = (s.whole, s.afterPoint) := by
  by_cases h : '.' ∈ cs
  · obtain ⟨whole, fraction, rfl, hwhole⟩ := List.eq_append_cons_of_mem h
    exact ⟨⟨sign, whole, some fraction⟩, rfl, rfl,
      splitPoint_some (fun c hc he => hwhole (he ▸ hc)) fraction⟩
  · exact ⟨⟨sign, cs, none⟩, rfl, List.append_nil _, splitPoint_none fun c hc he => h (he ▸ hc)⟩

theorem readUnsigned_eq_some_iff (sign : Sign) :
    readUnsigned (sign = .minus) cs = some d ↔ ∃ s : Spelling, s.sign = sign ∧ s.unsigned = cs ∧
      s.Proper ∧ (s.magnitude : Int) ≤ max ∧ s.value = d.unscaled ∧ s.places = d.scale.toNat := by
  have hvalue (s : Spelling) : s.value =
      if s.sign = .minus then -(s.magnitude : Int) else s.magnitude := by
    obtain ⟨sign, whole, fraction⟩ := s
    cases sign <;> rfl
  constructor
  · intro h
    obtain ⟨s, rfl, rfl, hsplit⟩ := exists_unsigned sign cs
    obtain ⟨⟨hne, hall, hlen⟩, hle, hval, hplaces⟩ := (readUnsigned_eq_some hsplit).mp h
    refine ⟨s, rfl, rfl, ⟨hne, hall, hlen⟩, hle, ?_, hplaces⟩
    rw [hvalue, ← hval]
    simp [Spelling.magnitude, Spelling.digits]
  · rintro ⟨s, rfl, rfl, hproper, hle, hval, hplaces⟩
    refine (readUnsigned_eq_some hproper.split).mpr
      ⟨⟨hproper.inhabited, hproper.numeric, hproper.countable⟩, hle, ?_, hplaces⟩
    rw [← hval, hvalue]
    simp [Spelling.magnitude, Spelling.digits]

theorem Spelling.Proper.unsigned_eq_cons (h : s.Proper) :
    ∃ c cs, s.unsigned = c :: cs ∧ c ≠ '-' ∧ c ≠ '+' := by
  have hdigit {c : Char} (hc : c ∈ s.digits) : c ≠ '-' ∧ c ≠ '+' := by
    have := h.numeric c hc
    constructor <;> rintro rfl <;> exact absurd this (by decide)
  obtain ⟨sign, _ | ⟨c, whole⟩, _ | fraction⟩ := s
  · exact absurd rfl h.inhabited
  · exact ⟨'.', fraction, rfl, by decide, by decide⟩
  · exact ⟨c, _, rfl, hdigit (by simp [digits])⟩
  · exact ⟨c, _, rfl, hdigit (by simp [digits])⟩

theorem Spelling.Proper.readChars (h : s.Proper) :
    Decimal.readChars s.chars = readUnsigned (s.sign = .minus) s.unsigned := by
  obtain ⟨c, cs, hcs, hminus, hplus⟩ := h.unsigned_eq_cons
  unfold Spelling.chars
  cases s.sign with
  | bare =>
    rw [hcs]
    unfold Decimal.readChars Sign.chars
    split <;> simp_all
  | plus => rfl
  | minus => rfl

/-- The texts that are read as a decimal are its spellings, as far as the magnitude stays in range. -/
theorem readChars_eq_some_iff : readChars cs = some d ↔ ∃ s : Spelling, s.Proper ∧ s.chars = cs ∧
    (s.magnitude : Int) ≤ max ∧ s.value = d.unscaled ∧ s.places = d.scale.toNat := by
  constructor
  · intro h
    obtain ⟨sign, rest, rfl, hrest⟩ : ∃ (sign : Sign) (rest : List Char), cs = sign.chars ++ rest ∧
        readUnsigned (sign = .minus) rest = some d := by
      unfold readChars at h
      split at h
      · exact ⟨.minus, _, rfl, h⟩
      · exact ⟨.plus, _, rfl, h⟩
      · exact ⟨.bare, _, rfl, h⟩
    obtain ⟨s, rfl, rfl, hproper, hle, hval, hplaces⟩ := (readUnsigned_eq_some_iff sign).mp hrest
    exact ⟨s, hproper, rfl, hle, hval, hplaces⟩
  · rintro ⟨s, hproper, rfl, hle, hval, hplaces⟩
    rw [hproper.readChars]
    exact (readUnsigned_eq_some_iff s.sign).mpr ⟨s, rfl, rfl, hproper, hle, hval, hplaces⟩

/-- The spelling in which a decimal is printed. -/
def spelling (d : Decimal) : Spelling :=
  let point := d.paddedDigits.length - d.scale.toNat
  { sign := if d.unscaled < 0 then .minus else .bare
    whole := if d.scale = 0 then Nat.toDigits 10 d.unscaled.natAbs else d.paddedDigits.take point
    fraction := if d.scale = 0 then none else some (d.paddedDigits.drop point) }

theorem spelling_text (d : Decimal) : d.spelling.text = d.format := by
  have hchars : d.spelling.chars = d.formatChars := by
    unfold spelling formatChars Spelling.chars
    by_cases hsign : d.unscaled < 0 <;> by_cases hscale : d.scale = 0 <;>
      simp [hsign, hscale, Spelling.unsigned, Sign.chars]
  rw [Spelling.text, hchars, format]

theorem spelling_digits (d : Decimal) : ∃ zeros, d.spelling.digits =
    List.replicate zeros '0' ++ Nat.toDigits 10 d.unscaled.natAbs := by
  by_cases hscale : d.scale = 0
  · exact ⟨0, by simp [spelling, hscale, Spelling.digits, Spelling.afterPoint]⟩
  · exact ⟨_, by
      simp only [spelling, hscale, if_false, Spelling.digits, Spelling.afterPoint, Option.getD_some,
        List.take_append_drop]
      rfl⟩

theorem spelling_places (d : Decimal) : d.spelling.places = d.scale.toNat := by
  by_cases hscale : d.scale = 0
  · simp [spelling, hscale, Spelling.places, Spelling.afterPoint]
  · simp only [spelling, hscale, if_false, Spelling.places, Spelling.afterPoint, Option.getD_some,
      List.length_drop, paddedDigits, List.length_append, List.length_replicate]
    omega

theorem spelling_proper (d : Decimal) : d.spelling.Proper := by
  obtain ⟨zeros, hdigits⟩ := d.spelling_digits
  refine ⟨?_, fun c hc => ?_, ?_⟩
  · rw [hdigits]
    simp [Nat.toDigits_ne_nil]
  · rw [hdigits, List.mem_append] at hc
    obtain hc | hc := hc
    · rw [(List.mem_replicate.mp hc).2]
      rfl
    · exact Nat.isDigit_of_mem_toDigits (by decide) (by decide) hc
  · rw [spelling_places]
    exact d.scale.toNat_lt

theorem spelling_magnitude (d : Decimal) : d.spelling.magnitude = d.unscaled.natAbs := by
  obtain ⟨zeros, hdigits⟩ := d.spelling_digits
  rw [Spelling.magnitude, hdigits, Nat.ofDigitChars_append, Nat.ofDigitChars_replicate_zero,
    Nat.mul_zero, Nat.ofDigitChars_ten_toDigits]

theorem Spelling.natAbs_value (s : Spelling) : s.value.natAbs = s.magnitude := by
  unfold value
  split <;> simp

theorem spelling_value (d : Decimal) : d.spelling.value = d.unscaled := by
  rw [Spelling.value, spelling_magnitude]
  by_cases hsign : d.unscaled < 0
  · simp only [spelling, hsign, if_true]
    omega
  · simp only [spelling, hsign, if_false]
    omega

/-- The magnitudes in range are those of all decimals but the least ones. -/
theorem natAbs_le_max_iff (d : Decimal) : (d.unscaled.natAbs : Int) ≤ max ↔ d.unscaled ≠ min := by
  have hrange := d.inRange
  simp only [Decimal.min, Decimal.max, Integer.size128] at hrange ⊢
  omega

theorem read_eq_some_iff {text : String} : read text = some d ↔ ∃ s : Spelling, s.Proper ∧
    text = s.text ∧ s.value = d.unscaled ∧ s.places = d.scale.toNat ∧ d.unscaled ≠ min := by
  have hmagnitude {s : Spelling} (hval : s.value = d.unscaled) :
      (s.magnitude : Int) ≤ max ↔ d.unscaled ≠ min := by
    rw [← d.natAbs_le_max_iff, ← hval, s.natAbs_value]
  rw [read, readChars_eq_some_iff]
  constructor
  · rintro ⟨s, hproper, hchars, hle, hval, hplaces⟩
    refine ⟨s, hproper, ?_, hval, hplaces, (hmagnitude hval).mp hle⟩
    rw [Spelling.text, hchars, String.ofList_toList]
  · rintro ⟨s, hproper, rfl, hval, hplaces, hleast⟩
    exact ⟨s, hproper, (String.toList_ofList).symm, (hmagnitude hval).mpr hleast, hval, hplaces⟩

theorem read_format_iff (d : Decimal) : read d.format = some d ↔ d.unscaled ≠ min := by
  rw [read_eq_some_iff]
  constructor
  · rintro ⟨-, -, -, -, -, hleast⟩
    exact hleast
  · intro hleast
    exact ⟨d.spelling, d.spelling_proper, d.spelling_text.symm, d.spelling_value, d.spelling_places,
      hleast⟩

theorem trim_format (d : Decimal) : Text.trim d.format = d.format := by
  have hunblank : ∀ c ∈ d.spelling.chars, Text.isBlank c = false := by
    intro c hc
    have hdigit {c : Char} (hc : c ∈ d.spelling.digits) : Text.isBlank c = false :=
      Text.isBlank_of_isDigit (d.spelling_proper.numeric c hc)
    have hsign {sign : Sign} (hc : c ∈ sign.chars) : Text.isBlank c = false := by
      cases sign with
      | bare => cases hc
      | plus => exact List.mem_singleton.mp hc ▸ by decide
      | minus => exact List.mem_singleton.mp hc ▸ by decide
    rcases List.mem_append.mp hc with hc | hc
    · exact hsign hc
    · rcases List.mem_append.mp hc with hc | hc
      · exact hdigit (List.mem_append_left _ hc)
      · cases hfraction : d.spelling.fraction with
        | none => simp [hfraction] at hc
        | some cs =>
          simp only [hfraction, List.mem_cons] at hc
          obtain rfl | hc := hc
          · decide
          · exact hdigit (List.mem_append_right _ (by simpa [Spelling.afterPoint, hfraction] using hc))
  rw [← d.spelling_text, Text.trim, Spelling.text, String.toList_ofList,
    Text.trimChars_of_unblank hunblank]

end Decimal

namespace Value

theorem readDecimal_eq_ok {text : String} {d : Decimal} :
    readDecimal text = .ok d ↔ Decimal.read text = some d := by
  unfold readDecimal
  split <;> simp [*]

theorem convert_string_decimal (text : String) :
    (string text).convert .bigNumber = (readDecimal (Text.trim text)).map .bigNumber := rfl

theorem convert_decimal_string (d : Decimal) :
    (bigNumber d).convert .string = .ok (.string d.format) := rfl

/-- A decimal is read from exactly the texts that spell one, but for the least decimals: these are not
read, so they are the only ones that printing, or the way over a text, does not lead back to. -/
theorem decimals_spelled (text : String) (d : Decimal) :
    (readDecimal d.format = .ok d ↔ d.unscaled ≠ Decimal.min) ∧
    (((bigNumber d).convert .string >>= (·.convert .bigNumber)) = .ok (.bigNumber d) ↔
      d.unscaled ≠ Decimal.min) ∧
    (readDecimal text = .ok d ↔ ∃ s : Decimal.Spelling, s.Proper ∧
      text = s.text ∧ s.value = d.unscaled ∧ s.places = d.scale.toNat ∧ d.unscaled ≠ Decimal.min) := by
  refine ⟨?_, ?_, ?_⟩
  · rw [readDecimal_eq_ok, d.read_format_iff]
  · simp only [Except.bind_eq_ok, convert_decimal_string, Except.ok.injEq, exists_eq_left',
      convert_string_decimal, d.trim_format, Except.map_eq_ok, bigNumber.injEq, exists_eq_right]
    rw [readDecimal_eq_ok, d.read_format_iff]
  · rw [readDecimal_eq_ok, Decimal.read_eq_some_iff]

def leastDecimal : Decimal :=
  ⟨Decimal.min, 0, by decide⟩

theorem leastDecimal_not_read_back :
    let text := "-170141183460469231731687303715884105728"
    leastDecimal.format = text ∧ leastDecimal.spelling.Proper ∧ leastDecimal.spelling.text = text ∧
      leastDecimal.spelling.value = Decimal.min ∧
      readDecimal text = .error ⟨.string text, .bigNumber, .notDecimal⟩ := by
  intro text
  have hformat : leastDecimal.format = text := by decide +kernel
  exact ⟨hformat, leastDecimal.spelling_proper, leastDecimal.spelling_text.trans hformat,
    leastDecimal.spelling_value, by decide +kernel⟩

end Value

end Sluice
