import Mathlib.Tactic
import Sluice.Json.Read
import Sluice.Proofs.Value.Conversions

/-!
Whole numbers in documents. A whole number that 64 bits hold, with a sign or without one, is read
from its text as itself.
-/

namespace Sluice.Json

variable {cs : List Char} {n : Nat}

theorem isDigit_toDigits : ∀ c ∈ Nat.toDigits 10 n, c.isDigit = true := fun _ =>
  Nat.isDigit_of_mem_toDigits (by decide) (by decide)

theorem format_chars (n : Int) : ∀ c ∈ (Integer.format n).toList, c.isDigit = true ∨ c = '-' := by
  intro c hc
  rw [Integer.toList_format, List.mem_append] at hc
  obtain hc | hc := hc
  · split at hc
    · exact .inr (List.mem_singleton.mp hc)
    · cases hc
  · exact .inl (isDigit_toDigits c hc)

theorem format_lead (n : Int) :
    ∃ c cs, (Integer.format n).toList = c :: cs ∧ (c.isDigit = true ∨ c = '-') := by
  have hne : (Integer.format n).toList ≠ [] := by
    rw [Integer.toList_format]
    simp [Nat.toDigits_ne_nil]
  obtain ⟨c, cs, hcs⟩ := List.exists_cons_of_ne_nil hne
  exact ⟨c, cs, hcs, format_chars n c (hcs ▸ List.mem_cons_self)⟩

theorem head?_toDigits (h : 0 < n) : (Nat.toDigits 10 n).head? ≠ some '0' := by
  induction n using Nat.strongRecOn with
  | ind n ih =>
    rw [Nat.toDigits_eq_if (by decide)]
    split
    · interval_cases n <;> decide
    · rw [List.head?_append_of_ne_nil _ Nat.toDigits_ne_nil]
      exact ih (n / 10) (by omega) (by omega)

theorem readMagnitude_toDigits (negative : Bool) (n : Nat) :
    readMagnitude negative (Nat.toDigits 10 n) = some (wholeNumber negative n, []) := by
  have htake : (Nat.toDigits 10 n).takeWhile Char.isDigit = Nat.toDigits 10 n :=
    List.takeWhile_eq_self_iff.mpr isDigit_toDigits
  have hdrop : (Nat.toDigits 10 n).dropWhile Char.isDigit = [] :=
    List.dropWhile_eq_nil_iff.mpr isDigit_toDigits
  have hfilled : (Nat.toDigits 10 n).isEmpty = false :=
    List.isEmpty_eq_false_iff.mpr Nat.toDigits_ne_nil
  have hzero : ((Nat.toDigits 10 n).head? == some '0' &&
      decide ((Nat.toDigits 10 n).length > 1)) = false := by
    rcases Nat.eq_zero_or_pos n with rfl | hpos
    · rfl
    · rw [beq_eq_false_iff_ne.mpr (head?_toDigits hpos), Bool.false_and]
  have hvalue : Binary64.natOfDigits (Nat.toDigits 10 n) = n := Nat.ofDigitChars_ten_toDigits
  simp [readMagnitude, htake, hdrop, hfilled, hzero, hvalue, guard]

theorem readValue_number {c : Char} (hc : c.isDigit = true ∨ c = '-') (fuel : Nat) :
    readValue (fuel + 1) (c :: cs) = readNumber (c :: cs) := by
  have hne {d : Char} (hd : d.isDigit = false) (hd' : d ≠ '-') : c ≠ d := by
    rintro rfl
    simp [hd, hd'] at hc
  have hspace : isSpace c = false := by
    simp [isSpace, hne (d := ' ') (by decide) (by decide), hne (d := '\n') (by decide) (by decide),
      hne (d := '\r') (by decide) (by decide), hne (d := '\t') (by decide) (by decide)]
  have hskip : skipSpace (c :: cs) = c :: cs := by
    rw [skipSpace, List.dropWhile_cons_of_neg (by simp [hspace])]
  unfold readValue
  rw [hskip]
  split <;> rename_i heq
  · exact absurd (List.cons.inj heq).1 (hne (by decide) (by decide))
  · exact absurd (List.cons.inj heq).1 (hne (by decide) (by decide))
  · exact absurd (List.cons.inj heq).1 (hne (by decide) (by decide))
  · exact absurd (List.cons.inj heq).1 (hne (by decide) (by decide))
  · exact absurd (List.cons.inj heq).1 (hne (by decide) (by decide))
  · exact absurd (List.cons.inj heq).1 (hne (by decide) (by decide))
  · rfl

theorem readNumber_format (n : Int) :
    readNumber (Integer.format n).toList = some (.int n, []) := by
  rw [Integer.toList_format]
  by_cases hn : n < 0
  · rw [if_pos hn, List.singleton_append]
    change readMagnitude true _ = _
    rw [readMagnitude_toDigits]
    have hpos : n.natAbs ≠ 0 := by omega
    simp only [wholeNumber, hpos, Bool.not_true, Bool.false_eq_true, if_false]
    rw [show -(n.natAbs : Int) = n by omega]
  · rw [if_neg hn, List.nil_append]
    have hsign (rest : List Char) : Nat.toDigits 10 n.natAbs ≠ '-' :: rest := fun h =>
      absurd (isDigit_toDigits '-' (h ▸ List.mem_cons_self)) (by decide)
    unfold readNumber
    split
    · exact absurd ‹_› (hsign _)
    · rw [readMagnitude_toDigits, wholeNumber, if_pos (by rfl), Int.natAbs_of_nonneg (by omega)]

theorem read_format {n : Int} (hlo : Int64.minValue.toInt ≤ n) (hhi : n < UInt64.size) :
    read (Integer.format n) = some (.int n) := by
  obtain ⟨c, cs, hcs, hc⟩ := format_lead n
  have hwritten : readWritten (Integer.format n) = some (.int n) := by
    simp only [readWritten, hcs, readValue_number hc]
    rw [← hcs, readNumber_format]
    rfl
  rw [read, hwritten]
  exact if_pos ⟨hlo, hhi⟩

end Sluice.Json
