import Mathlib.Tactic
import Sluice.Number.Decimal

/-!
Signs of computed numbers. Whatever a rounding does to a number, it leaves the sign; so a product or a
quotient has the sign that it should have, unless it is no number, and a decimal becomes a number on its
own side of zero.
-/

namespace Sluice

namespace Binary64

variable {x y : Binary64}

theorem packMagnitude_lt (m : Nat) (q : Int) : packMagnitude m q < signBit := by
  have hinfinity : infinityMagnitude < signBit := by decide
  have hleading : leadingBit < signBit := by decide
  unfold packMagnitude
  split
  · omega
  · exact Nat.lt_of_le_of_lt (Nat.min_le_right _ _) hinfinity

theorem toNat_ofMagnitude {m : Nat} (h : m < signBit) (negative : Bool) :
    (ofMagnitude negative m).bits.toNat = m + if negative then signBit else 0 := by
  rw [ofMagnitude, UInt64.toNat_ofNat_of_lt']
  have hsize : UInt64.size = 2 * signBit := by decide
  split <;> omega

theorem negative_ofMagnitude {m : Nat} (h : m < signBit) (negative : Bool) :
    (ofMagnitude negative m).negative = negative := by
  rw [Binary64.negative, toNat_ofMagnitude h]
  cases negative <;> simp [h]

theorem magnitude_ofMagnitude {m : Nat} (h : m < signBit) (negative : Bool) :
    (ofMagnitude negative m).magnitude = m := by
  rw [magnitude, toNat_ofMagnitude h]
  cases negative
  · exact Nat.mod_eq_of_lt h
  · rw [if_pos rfl, Nat.add_mod_right, Nat.mod_eq_of_lt h]

theorem negative_infinity (negative : Bool) : (infinity negative).negative = negative :=
  negative_ofMagnitude (by decide) negative

theorem negative_ofRatio (negative : Bool) (num den : Nat) :
    (ofRatio negative num den).negative = negative := by
  unfold ofRatio
  split
  · exact negative_ofMagnitude (by decide) negative
  · exact negative_ofMagnitude (packMagnitude_lt _ _) negative

theorem mul_sign (x y : Binary64) :
    mul x y = nan ∨ (mul x y).negative = (x.negative != y.negative) := by
  unfold mul
  dsimp only
  split_ifs
  · exact .inl rfl
  · exact .inl rfl
  · exact .inr (negative_infinity _)
  · exact .inr (negative_ofRatio _ _ _)

theorem div_sign (x y : Binary64) :
    div x y = nan ∨ (div x y).negative = (x.negative != y.negative) := by
  unfold div
  dsimp only
  split_ifs
  · exact .inl rfl
  · exact .inl rfl
  · exact .inr (negative_infinity _)
  · exact .inr (negative_ofMagnitude (by decide) _)
  · exact .inl rfl
  · exact .inr (negative_infinity _)
  · exact .inr (negative_ofRatio _ _ _)

theorem mul_unsigned (hx : x.negative = false) (hy : y.negative = false) :
    (mul x y).negative = false := by
  obtain h | h := mul_sign x y
  · rw [h]
    decide
  · rw [h, hx, hy]
    rfl

theorem powerLoop_unsigned {acc base : Binary64} (hacc : acc.negative = false)
    (hbase : base.negative = false) (fuel n : Nat) : (powerLoop fuel acc base n).negative = false := by
  induction fuel generalizing acc base n with
  | zero => exact hacc
  | succ fuel ih =>
    have hnext : (if n % 2 = 1 then mul acc base else acc).negative = false := by
      split
      · exact mul_unsigned hacc hbase
      · exact hacc
    unfold powerLoop
    dsimp only
    split
    · exact hnext
    · exact ih hnext (mul_unsigned hbase hbase) _

theorem pow_unsigned {base : Binary64} (hbase : base.negative = false) (n : Int) :
    (base.pow n).negative = false := by
  have hone : one.negative = false := by decide
  have hpower := powerLoop_unsigned hone hbase (n.natAbs + 1) n.natAbs
  unfold pow
  dsimp only
  split
  · obtain h | h := div_sign one (powerLoop (n.natAbs + 1) one base n.natAbs)
    · rw [h]
      decide
    · rw [h, hpower, hone]
      rfl
  · exact hpower

theorem zero_div_isZero (y : Binary64) :
    div zero y = nan ∧ (y.isNaN = true ∨ y.isZero = true) ∨ (div zero y).isZero = true := by
  have hnumber : zero.isNaN = false ∧ zero.isInfinite = false := by decide
  have hratio : zero.ratio.1 = 0 := by decide
  have hzero (s : Bool) : (ofMagnitude s 0).isZero = true := by cases s <;> decide
  unfold div
  dsimp only
  rw [hnumber.1, hnumber.2, Bool.false_or, if_neg Bool.false_ne_true, hratio, Nat.zero_mul]
  split
  · rename_i hnan
    exact .inl ⟨rfl, .inl hnan⟩
  split
  · exact .inr (hzero _)
  split
  · rename_i hdivisor
    exact .inl ⟨rfl, .inr hdivisor⟩
  · rw [ofRatio, if_pos rfl]
    exact .inr (hzero _)

theorem key_of_negative (h : x.negative = true) : x.key ≤ 0 := by
  rw [key, if_pos h]
  omega

theorem key_of_unsigned (h : x.negative = false) : 0 ≤ x.key := by
  rw [key, h, if_neg Bool.false_ne_true]
  omega

theorem key_of_isZero (h : x.isZero = true) : x.key = 0 := by
  have hmagnitude : x.magnitude = 0 := by simpa [isZero] using h
  rw [key, hmagnitude]
  split <;> rfl

theorem partialCompare_of_nan (h : x = nan ∨ y = nan) : x.partialCompare y = none := by
  have hnan : nan.isNaN = true := by decide
  rw [partialCompare]
  obtain rfl | rfl := h
  · rw [hnan, Bool.true_or]
    rfl
  · rw [hnan, Bool.or_true]
    rfl

theorem partialCompare_isLE (hx : x.key ≤ 0) (hy : 0 ≤ y.key) :
    ((x.partialCompare y).getD .eq).isLE := by
  unfold partialCompare
  split
  · rfl
  · exact Ordering.isLE_iff_ne_gt.mpr (compare_le_iff_le.mpr (hx.trans hy))

end Binary64

namespace Decimal

open Binary64

variable {d : Decimal}

theorem power_unsigned (d : Decimal) :
    ((Binary64.ofNat 10).pow (signedScale d.scale)).negative = false :=
  pow_unsigned (negative_ofRatio _ _ _) _

theorem key_of_nonpos (h : d.unscaled ≤ 0) : d.toBinary64 = nan ∨ d.toBinary64.key ≤ 0 := by
  rcases Int.lt_or_eq_of_le h with hneg | hzero
  · refine (div_sign _ _).imp_right fun hsign => key_of_negative ?_
    rw [toBinary64, hsign, power_unsigned, Binary64.ofInt, negative_ofRatio]
    simpa using hneg
  · rw [toBinary64, hzero]
    exact (zero_div_isZero _).imp And.left fun hz => (key_of_isZero hz).le

theorem key_of_nonneg (h : 0 ≤ d.unscaled) : d.toBinary64 = nan ∨ 0 ≤ d.toBinary64.key := by
  refine (div_sign _ _).imp_right fun hsign => key_of_unsigned ?_
  rw [toBinary64, hsign, power_unsigned, Binary64.ofInt, negative_ofRatio]
  simpa using h

end Decimal

end Sluice
