import Mathlib.Tactic
import Sluice.Proofs.Number.Distinctness
import Sluice.Proofs.Number.Spelling

/-!
Numerals: the texts that fractional numbers have in documents. A numeral has digits, with a point or an
exponent or both, and no text is that of two numerals; so finite numbers with the same text are the same
number, and none of them has the text of a whole number.
-/

namespace Sluice

/-- Digits, digits behind a point, and an exponent. -/
structure Numeral where
  whole : List Char
  /-- Where there are none, there is no point either. -/
  fraction : List Char := []
  exponent : Option Int := none

namespace Numeral

def pointed (n : Numeral) : List Char :=
  if n.fraction = [] then n.whole else n.whole ++ '.' :: n.fraction

def exponentChars : Option Int → List Char
  | none => []
  | some e => 'e' :: (if e < 0 then '-' else '+') :: Nat.toDigits 10 e.natAbs

def chars (n : Numeral) : List Char :=
  n.pointed ++ exponentChars n.exponent

def value (n : Numeral) : ℚ :=
  Nat.ofDigitChars 10 (n.whole ++ n.fraction) 0 * 10 ^ (n.exponent.getD 0 - n.fraction.length)

structure Proper (n : Numeral) : Prop where
  numeric : ∀ c ∈ n.whole ++ n.fraction, c.isDigit = true
  inhabited : n.whole ≠ []
  /-- What has neither a point nor an exponent is a whole number. -/
  fractional : n.fraction ≠ [] ∨ n.exponent.isSome

variable {n m : Numeral} {c : Char} {cs : List Char}

theorem Proper.pointed_ne (h : n.Proper) (hc : c ∈ n.pointed) : c ≠ 'e' := by
  unfold pointed at hc
  split at hc
  · exact Text.ne_of_isDigit (h.numeric c (List.mem_append_left _ hc)) rfl
  · rw [List.mem_append, List.mem_cons] at hc
    obtain hc | rfl | hc := hc
    · exact Text.ne_of_isDigit (h.numeric c (List.mem_append_left _ hc)) rfl
    · decide
    · exact Text.ne_of_isDigit (h.numeric c (List.mem_append_right _ hc)) rfl

theorem Proper.takeWhile_chars (h : n.Proper) :
    n.chars.takeWhile (· ≠ 'e') = n.pointed ∧
      n.chars.dropWhile (· ≠ 'e') = exponentChars n.exponent := by
  have hpointed : ∀ c ∈ n.pointed, decide (c ≠ 'e') = true := fun c hc =>
    decide_eq_true (h.pointed_ne hc)
  rw [chars, List.takeWhile_append_of_pos hpointed, List.dropWhile_append_of_pos hpointed]
  cases n.exponent <;> simp [exponentChars]

theorem Proper.splitPoint_pointed (h : n.Proper) :
    Decimal.splitPoint n.pointed = (n.whole, n.fraction) := by
  have hwhole : ∀ c ∈ n.whole, c ≠ '.' := fun c hc =>
    Text.ne_of_isDigit (h.numeric c (List.mem_append_left _ hc)) rfl
  unfold pointed
  split
  · rename_i hnone
    rw [Decimal.splitPoint_none hwhole, hnone]
  · exact Decimal.splitPoint_some hwhole n.fraction

theorem exponentChars_injective {e f : Option Int} (h : exponentChars e = exponentChars f) : e = f := by
  cases e with
  | none => cases f with
    | none => rfl
    | some f => cases h
  | some e => cases f with
    | none => cases h
    | some f =>
      obtain ⟨hsign, hdigits⟩ := List.cons.inj (List.cons.inj h).2
      have habs : e.natAbs = f.natAbs := by
        rw [← Nat.ofDigitChars_ten_toDigits (n := e.natAbs), hdigits, Nat.ofDigitChars_ten_toDigits]
      have hneg : e < 0 ↔ f < 0 := by
        by_cases he : e < 0 <;> by_cases hf : f < 0 <;> simp [he, hf] at hsign ⊢
      congr 1
      omega

theorem Proper.chars_injective (hn : n.Proper) (hm : m.Proper) (h : n.chars = m.chars) : n = m := by
  obtain ⟨hnpointed, hnexponent⟩ := hn.takeWhile_chars
  obtain ⟨hmpointed, hmexponent⟩ := hm.takeWhile_chars
  rw [h] at hnpointed hnexponent
  have hpointed : n.pointed = m.pointed := hnpointed.symm.trans hmpointed
  have hexponent : n.exponent = m.exponent :=
    exponentChars_injective (hnexponent.symm.trans hmexponent)
  have hsplit := hn.splitPoint_pointed
  rw [hpointed, hm.splitPoint_pointed] at hsplit
  obtain ⟨hwhole, hfraction⟩ := Prod.mk.inj hsplit
  obtain ⟨whole, fraction, exponent⟩ := n
  rw [mk.injEq]
  exact ⟨hwhole.symm, hfraction.symm, hexponent⟩

/-- Can be part of a number. -/
def isPart (c : Char) : Bool :=
  c.isDigit || c == '.' || c == 'e' || c == '+' || c == '-'

theorem isPart_of_isDigit (h : c.isDigit = true) : isPart c = true := by
  simp [isPart, h]

theorem Proper.isPart_chars (h : n.Proper) (hc : c ∈ n.chars) : isPart c = true := by
  have hdigit : ∀ d ∈ n.whole ++ n.fraction, isPart d = true := fun d hd =>
    isPart_of_isDigit (h.numeric d hd)
  rw [chars, List.mem_append] at hc
  obtain hc | hc := hc
  · unfold pointed at hc
    split at hc
    · exact hdigit c (List.mem_append_left _ hc)
    · rw [List.mem_append, List.mem_cons] at hc
      obtain hc | rfl | hc := hc
      · exact hdigit c (List.mem_append_left _ hc)
      · decide
      · exact hdigit c (List.mem_append_right _ hc)
  · cases he : n.exponent with
    | none => simp [he, exponentChars] at hc
    | some e =>
      rw [he, exponentChars, List.mem_cons, List.mem_cons] at hc
      obtain rfl | rfl | hc := hc
      · decide
      · split <;> decide
      · exact isPart_of_isDigit (Nat.isDigit_of_mem_toDigits (by decide) (by decide) hc)

theorem Proper.exists_mark (h : n.Proper) : ∃ c ∈ n.chars, c.isDigit = false ∧ c ≠ '-' := by
  obtain hf | he := h.fractional
  · refine ⟨'.', List.mem_append_left _ ?_, by decide, by decide⟩
    rw [pointed, if_neg hf]
    simp
  · obtain ⟨e, he⟩ := Option.isSome_iff_exists.mp he
    refine ⟨'e', List.mem_append_right _ ?_, by decide, by decide⟩
    rw [he]
    exact List.mem_cons_self

theorem Proper.head_isDigit (h : n.Proper) : ∃ c cs, n.chars = c :: cs ∧ c.isDigit = true := by
  obtain ⟨c, cs, hwhole⟩ := List.exists_cons_of_ne_nil h.inhabited
  have hc : c.isDigit = true := h.numeric c (by simp [hwhole])
  unfold chars pointed
  rw [hwhole]
  split
  · exact ⟨c, _, rfl, hc⟩
  · exact ⟨c, _, rfl, hc⟩

end Numeral

namespace NumberFormat

open Numeral

variable {digits : List Char}

theorem isDigit_zeros {n : Int} {c : Char} (hc : c ∈ zeros n) : c.isDigit = true := by
  rw [(List.mem_replicate.mp hc).2]
  decide

theorem ofDigitChars_zeros (n : Int) (cs : List Char) (init : Nat) :
    Nat.ofDigitChars 10 (zeros n ++ cs) init = Nat.ofDigitChars 10 cs (10 ^ n.toNat * init) := by
  rw [zeros, Nat.ofDigitChars_append, Nat.ofDigitChars_replicate_zero]

section Layouts

variable (hne : digits ≠ []) (hdigits : ∀ c ∈ digits, c.isDigit = true) {point : Int}

include hne hdigits

theorem numeral_behind (hpoint : point ≤ 0) : ∃ n : Numeral, n.Proper ∧
    '0' :: '.' :: (zeros (-point) ++ digits) = n.chars ∧
    n.value = Nat.ofDigitChars 10 digits 0 * 10 ^ (point - digits.length) := by
  refine ⟨⟨['0'], zeros (-point) ++ digits, none⟩, ⟨?_, by simp, .inl (by simp [hne])⟩, ?_, ?_⟩
  · intro c hc
    simp only [List.singleton_append, List.mem_cons, List.mem_append] at hc
    obtain rfl | hc | hc := hc
    · decide
    · exact isDigit_zeros hc
    · exact hdigits c hc
  · simp [chars, pointed, exponentChars, hne]
  · have hvalue : Nat.ofDigitChars 10 ('0' :: (zeros (-point) ++ digits)) 0 =
        Nat.ofDigitChars 10 digits 0 := by
      rw [Nat.ofDigitChars_cons, ofDigitChars_zeros]
      rfl
    have hplaces : ((none : Option Int).getD 0 - (zeros (-point) ++ digits).length : Int) =
        point - digits.length := by
      simp only [Option.getD_none, List.length_append, zeros, List.length_replicate]
      omega
    rw [value, List.singleton_append, hvalue, hplaces]

theorem numeral_before (hpoint : digits.length ≤ point) : ∃ n : Numeral, n.Proper ∧
    digits ++ zeros (point - digits.length) ++ ['.', '0'] = n.chars ∧
    n.value = Nat.ofDigitChars 10 digits 0 * 10 ^ (point - digits.length) := by
  refine ⟨⟨digits ++ zeros (point - digits.length), ['0'], none⟩,
    ⟨?_, by simp [hne], .inl (by simp)⟩, ?_, ?_⟩
  · intro c hc
    simp only [List.mem_append, List.mem_singleton] at hc
    obtain (hc | hc) | rfl := hc
    · exact hdigits c hc
    · exact isDigit_zeros hc
    · decide
  · simp [chars, pointed, exponentChars]
  · have hvalue : Nat.ofDigitChars 10 (digits ++ zeros (point - digits.length) ++ ['0']) 0 =
        10 * (10 ^ (point - digits.length).toNat * Nat.ofDigitChars 10 digits 0) := by
      rw [List.append_assoc, Nat.ofDigitChars_append, ofDigitChars_zeros, Nat.ofDigitChars_cons]
      rfl
    obtain ⟨k, hk⟩ := Int.eq_ofNat_of_zero_le (Int.sub_nonneg_of_le hpoint)
    rw [value, hvalue, hk]
    simp only [Int.toNat_natCast, Option.getD_none, List.length_singleton, zpow_natCast]
    push_cast
    norm_num
    ring

theorem numeral_among (hpos : 0 < point) (hpoint : point < digits.length) : ∃ n : Numeral, n.Proper ∧
    digits.take point.toNat ++ '.' :: digits.drop point.toNat = n.chars ∧
    n.value = Nat.ofDigitChars 10 digits 0 * 10 ^ (point - digits.length) := by
  obtain ⟨k, rfl⟩ := Int.eq_ofNat_of_zero_le hpos.le
  rw [Int.toNat_natCast]
  have hcut : digits.drop k ≠ [] := by
    rw [ne_eq, List.drop_eq_nil_iff]
    omega
  have hkept : digits.take k ≠ [] := by
    rw [ne_eq, List.take_eq_nil_iff]
    simp only [hne, or_false]
    omega
  refine ⟨⟨digits.take k, digits.drop k, none⟩, ⟨?_, hkept, .inl hcut⟩, ?_, ?_⟩
  · rw [List.take_append_drop]
    exact hdigits
  · simp [chars, pointed, exponentChars, hcut]
  · rw [value, List.take_append_drop]
    simp only [Option.getD_none, List.length_drop]
    congr 2
    omega

theorem layPositional_numeral (point : Int) : ∃ n : Numeral, n.Proper ∧
    layPositional true digits point = n.chars ∧
    n.value = Nat.ofDigitChars 10 digits 0 * 10 ^ (point - digits.length) := by
  unfold layPositional
  split
  · exact numeral_behind hne hdigits ‹_›
  · split
    · exact numeral_before hne hdigits ‹_›
    · exact numeral_among hne hdigits (by omega) (by omega)

theorem layExponent_numeral (point : Int) : ∃ n : Numeral, n.Proper ∧
    layExponent digits point = n.chars ∧
    n.value = Nat.ofDigitChars 10 digits 0 * 10 ^ (point - digits.length) := by
  match digits with
  | [] => exact absurd rfl hne
  | [d] =>
    refine ⟨⟨[d], [], some (point - 1)⟩, ⟨by simpa using hdigits, by simp, .inr rfl⟩, ?_, ?_⟩
    · simp [layExponent, chars, pointed, exponentChars]
    · simp [value]
  | d :: c :: rest =>
    refine ⟨⟨[d], c :: rest, some (point - 1)⟩,
      ⟨by simpa using hdigits, by simp, .inl (by simp)⟩, ?_, ?_⟩
    · simp [layExponent, chars, pointed, exponentChars]
    · rw [value, List.singleton_append]
      simp only [Option.getD_some, List.length_cons]
      congr 2
      push_cast
      ring

end Layouts

variable {x y : Binary64}

/-- The text of a finite number: its sign, and a numeral that stands for its shortest decimal. -/
theorem exists_numeral (hx : x.isFinite = true) : ∃ n : Numeral, n.Proper ∧
    (document.write x).toList = (if x.negative then ['-'] else []) ++ n.chars ∧
    n.value = (x.shortest .even).value := by
  obtain ⟨s, hs⟩ : ∃ s, s = x.shortest .even := ⟨_, rfl⟩
  have hdigits : ∀ c ∈ Nat.toDigits 10 s.digits, c.isDigit = true := fun c hc =>
    Nat.isDigit_of_mem_toDigits (by decide) (by decide) hc
  obtain ⟨point, hpoint⟩ : ∃ point : Int, point = (Nat.toDigits 10 s.digits).length + s.exponent :=
    ⟨_, rfl⟩
  obtain ⟨n, hproper, hchars, hvalue⟩ : ∃ n : Numeral, n.Proper ∧
      (if x.isZero || (-4 ≤ point && point ≤ 16) then
        layPositional true (Nat.toDigits 10 s.digits) point
        else layExponent (Nat.toDigits 10 s.digits) point) = n.chars ∧
      n.value = Nat.ofDigitChars 10 (Nat.toDigits 10 s.digits) 0 *
        10 ^ (point - (Nat.toDigits 10 s.digits).length) := by
    split
    · exact layPositional_numeral Nat.toDigits_ne_nil hdigits point
    · exact layExponent_numeral Nat.toDigits_ne_nil hdigits point
  have hexponent : point - (Nat.toDigits 10 s.digits).length = s.exponent := by omega
  rw [Nat.ofDigitChars_ten_toDigits, hexponent] at hvalue
  refine ⟨n, hproper, ?_, hs ▸ hvalue⟩
  rw [← hchars, hpoint]
  simp only [write, Binary64.notNaN_of_finite hx, Binary64.notInfinite_of_finite hx, document, ← hs,
    Bool.false_eq_true, if_false, String.toList_ofList]
  split <;> rfl

theorem write_injective (hx : x.isFinite = true) (hy : y.isFinite = true)
    (h : document.write x = document.write y) : x = y := by
  obtain ⟨n, hn, hxchars, hxvalue⟩ := exists_numeral hx
  obtain ⟨m, hm, hychars, hyvalue⟩ := exists_numeral hy
  rw [h, hychars] at hxchars
  obtain ⟨c, cs, hc, hcdigit⟩ := hn.head_isDigit
  obtain ⟨d, ds, hd, hddigit⟩ := hm.head_isDigit
  have hcsign : c ≠ '-' := Text.ne_of_isDigit hcdigit rfl
  have hdsign : d ≠ '-' := Text.ne_of_isDigit hddigit rfl
  -- a sign is no digit, so both texts have one or none has
  have hsame : x.negative = y.negative ∧ n.chars = m.chars := by
    rw [hc, hd] at hxchars ⊢
    cases hxneg : x.negative <;> cases hyneg : y.negative <;>
      simp [hxneg, hyneg] at hxchars ⊢
    · exact ⟨hxchars.1.symm, hxchars.2.symm⟩
    · exact hcsign hxchars.1.symm
    · exact hdsign hxchars.1
    · exact ⟨hxchars.1.symm, hxchars.2.symm⟩
  have hnumeral : n = m := hn.chars_injective hm hsame.2
  have hvalue : (x.shortest .even).value = (y.shortest .even).value := by
    rw [← hxvalue, ← hyvalue, hnumeral]
  exact Binary64.eq_of_magnitude hsame.1 (Binary64.magnitude_eq_of_shortest .even hvalue)

end NumberFormat

end Sluice
