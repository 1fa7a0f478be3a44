import Mathlib.Data.Rat.Floor
import Mathlib.Tactic
import Sluice.Proofs.Number.Rounding
import Sluice.Proofs.Prelude
import Sluice.Value.Convert

/-!
Decimals against the numbers they stand for. Two decimals compare as their numbers do if both can be
brought to the larger scale. If not, the sign of the one with the smaller scale settles how the numbers
stand, but the nearest binary numbers are asked, and these may tie or have it the other way round.
Converted to an integer, a decimal of at most 38 places is truncated toward zero, and one of more places
is refused.
-/

namespace Sluice

namespace Integer

theorem fitsInt64_toInt (n : Int64) : fitsInt64 n.toInt :=
  ⟨n.le_toInt, n.toInt_le⟩

theorem toInt_ofInt_of_fits {n : Int} (h : fitsInt64 n) : (Int64.ofInt n).toInt = n :=
  Int64.toInt_ofInt_of_le h.1 (Int.lt_of_le_of_lt h.2 (by decide))

end Integer

namespace Decimal

def value (d : Decimal) : ℚ :=
  d.unscaled / 10 ^ d.scale.toNat

/-- The unscaled value at a larger scale. -/
def raised (d : Decimal) (s : Nat) : Int :=
  d.unscaled * 10 ^ (s - d.scale.toNat)

/-- Both the power of ten and the unscaled value at the larger scale are integers of 128 bits. -/
def Reaches (d : Decimal) (s : Nat) : Prop :=
  s - d.scale.toNat ≤ 38 ∧ min ≤ d.raised s ∧ d.raised s ≤ max

instance (d : Decimal) (s : Nat) : Decidable (d.Reaches s) := inferInstanceAs (Decidable (_ ∧ _))

def commonScale (x y : Decimal) : Nat :=
  Nat.max x.scale.toNat y.scale.toNat

/-- Both decimals can be brought to the larger of their scales. -/
def Meets (x y : Decimal) : Prop :=
  x.Reaches (commonScale x y) ∧ y.Reaches (commonScale x y)

instance (x y : Decimal) : Decidable (x.Meets y) := inferInstanceAs (Decidable (_ ∧ _))

/-- The order of the nearest binary numbers, a tie if one of them is none. -/
def nearestOrder (x y : Decimal) : Ordering :=
  (x.toBinary64.partialCompare y.toBinary64).getD .eq

/-- The order of a number far from zero, or of zero, and one nearer to zero: by the sign of the far one,
and for zero by that of the near one. -/
def signOrder (far near : Int) : Ordering :=
  (Ord.compare far 0).then (Ord.compare 0 near)

/-- The order of two decimals of which the one with the smaller scale is far or zero. -/
def farOrder (x y : Decimal) : Ordering :=
  if x.scale.toNat < y.scale.toNat then signOrder x.unscaled y.unscaled
  else (signOrder y.unscaled x.unscaled).swap

/-- More than one part in `2 ^ 42` of the larger number apart. -/
def Apart (x y : Decimal) : Prop :=
  Max.max |x.value| |y.value| < 2 ^ 42 * |x.value - y.value|

/-- Two decimals that are told apart, or told to be equal, as their numbers are. -/
def RightlyCompared (x y : Decimal) : Prop :=
  x.Meets y ∨ x.nearestOrder y = x.farOrder y

variable {d x y z : Decimal} {s : Nat}

theorem value_eq_raised (h : d.scale.toNat ≤ s) : d.value = d.raised s / 10 ^ s := by
  have hpow : (10 : ℚ) ^ s = 10 ^ (s - d.scale.toNat) * 10 ^ d.scale.toNat := by
    rw [← pow_add, Nat.sub_add_cancel h]
  have hne : (10 : ℚ) ^ (s - d.scale.toNat) ≠ 0 := by positivity
  rw [value, raised, hpow, mul_comm ((10 : ℚ) ^ (s - d.scale.toNat))]
  push_cast
  rw [mul_div_mul_right _ _ hne]

theorem compare_value (hx : x.scale.toNat ≤ s) (hy : y.scale.toNat ≤ s) :
    Ord.compare x.value y.value = Ord.compare (x.raised s) (y.raised s) := by
  have hmono : StrictMono fun n : ℤ => (n : ℚ) / 10 ^ s := fun m n h =>
    div_lt_div_of_pos_right (Int.cast_lt.mpr h) (by positivity)
  rw [value_eq_raised hx, value_eq_raised hy, ← cmp_eq_compare, ← cmp_eq_compare]
  exact hmono.cmp_map_eq _ _

theorem rescale_eq (d : Decimal) (s : Nat) :
    (do checkedMul? d.unscaled (← powerOfTen? (s - d.scale.toNat))) =
      if d.Reaches s then some (d.raised s) else none := by
  unfold powerOfTen?
  by_cases hpow : s - d.scale.toNat ≤ 38
  · rw [if_pos hpow]
    simp only [Option.bind_eq_bind, Option.bind_some, checkedMul?, Reaches, raised, hpow, true_and]
    rfl
  · have hout : ¬ d.Reaches s := fun h => hpow h.1
    rw [if_neg hpow, if_neg hout]
    rfl

theorem le_commonScale_left (x y : Decimal) : x.scale.toNat ≤ commonScale x y :=
  Nat.le_max_left _ _

theorem le_commonScale_right (x y : Decimal) : y.scale.toNat ≤ commonScale x y :=
  Nat.le_max_right _ _

theorem compare_eq (x y : Decimal) : x.compare y =
    if x.Meets y then Ord.compare (x.raised (commonScale x y)) (y.raised (commonScale x y))
    else x.nearestOrder y := by
  have hscale : Nat.max x.scale.toNat y.scale.toNat = commonScale x y := rfl
  simp only [compare, rescale_eq, hscale]
  by_cases hx : x.Reaches (commonScale x y)
  · by_cases hy : y.Reaches (commonScale x y)
    · rw [if_pos hx, if_pos hy, if_pos ⟨hx, hy⟩]
    · have hnot : ¬ x.Meets y := fun h => hy h.2
      rw [if_pos hx, if_neg hy, if_neg hnot]
      rfl
  · have hnot : ¬ x.Meets y := fun h => hx h.1
    rw [if_neg hx, if_neg hnot]
    rfl

theorem compare_of_meets (h : x.Meets y) : x.compare y = Ord.compare x.value y.value := by
  rw [compare_eq, if_pos h, compare_value (le_commonScale_left x y) (le_commonScale_right x y)]

theorem compare_of_not_meets (h : ¬ x.Meets y) : x.compare y = x.nearestOrder y := by
  rw [compare_eq, if_neg h]

theorem raised_self (d : Decimal) : d.raised d.scale.toNat = d.unscaled := by
  rw [raised, Nat.sub_self, pow_zero, mul_one]

theorem reaches_self (d : Decimal) : d.Reaches d.scale.toNat := by
  rw [Reaches, raised_self]
  exact ⟨by omega, d.inRange⟩

/-- What does not reach a scale is beyond all of it, unless it is zero. -/
theorem beyond_of_not_reaches (h : ¬ d.Reaches s) :
    (0 < d.unscaled → max < d.raised s) ∧ (d.unscaled < 0 → d.raised s < min) := by
  have hfar : max < 10 ^ 39 ∧ -10 ^ 39 < min := by decide
  have hmin : min < 0 ∧ 0 ≤ max := by decide
  have hpow : (0 : Int) < 10 ^ (s - d.scale.toNat) := by positivity
  by_cases hplaces : s - d.scale.toNat ≤ 38
  · -- the power of ten is in range, so it is the product that is not
    have hout : ¬ (min ≤ d.raised s ∧ d.raised s ≤ max) := fun hin => h ⟨hplaces, hin⟩
    constructor
    · intro hpos
      have : 0 < d.raised s := Int.mul_pos hpos hpow
      omega
    · intro hneg
      have : d.raised s < 0 := Int.mul_neg_of_neg_of_pos hneg hpow
      omega
  · have hlarge : (10 : Int) ^ 39 ≤ 10 ^ (s - d.scale.toNat) :=
      pow_le_pow_right₀ (by norm_num) (by omega)
    constructor
    · intro hpos
      have : 1 * 10 ^ (s - d.scale.toNat) ≤ d.raised s := Int.mul_le_mul_of_nonneg_right hpos hpow.le
      omega
    · intro hneg
      have : d.raised s ≤ -1 * 10 ^ (s - d.scale.toNat) :=
        Int.mul_le_mul_of_nonneg_right (by omega) hpow.le
      omega

theorem compare_raised (h : ¬ d.Reaches s) {n : Int} (hn : min ≤ n ∧ n ≤ max) :
    Ord.compare (d.raised s) n = signOrder d.unscaled n := by
  obtain ⟨hpos, hneg⟩ := beyond_of_not_reaches h
  rw [signOrder]
  rcases lt_trichotomy d.unscaled 0 with hd | hd | hd
  · rw [compare_lt_iff_lt.mpr hd, compare_lt_iff_lt.mpr (by have := hneg hd; omega)]
    rfl
  · rw [raised, hd, zero_mul]
    rfl
  · rw [compare_gt_iff_gt.mpr hd, compare_gt_iff_gt.mpr (by have := hpos hd; omega)]
    rfl

/-- Where the nearest binary numbers are asked, signs would do. -/
theorem compare_value_of_not_meets (h : ¬ x.Meets y) :
    Ord.compare x.value y.value = x.farOrder y := by
  unfold farOrder
  by_cases hlt : x.scale.toNat < y.scale.toNat
  · have hscale : commonScale x y = y.scale.toNat := Nat.max_eq_right hlt.le
    have hx : ¬ x.Reaches y.scale.toNat := fun hx => h (by
      rw [Meets, hscale]
      exact ⟨hx, y.reaches_self⟩)
    rw [if_pos hlt, compare_value hlt.le le_rfl, raised_self, compare_raised hx y.inRange]
  · have hle : y.scale.toNat ≤ x.scale.toNat := Nat.le_of_not_lt hlt
    have hscale : commonScale x y = x.scale.toNat := Nat.max_eq_left hle
    have hy : ¬ y.Reaches x.scale.toNat := fun hy => h (by
      rw [Meets, hscale]
      exact ⟨x.reaches_self, hy⟩)
    rw [if_neg hlt, compare_value le_rfl hle, raised_self, Std.OrientedOrd.eq_swap,
      compare_raised hy x.inRange]

theorem signOrder_eq_iff {far near : Int} : signOrder far near = .eq ↔ far = 0 ∧ near = 0 := by
  rw [signOrder, Ordering.then_eq_eq, Std.compare_eq_iff_eq, Std.compare_eq_iff_eq,
    @eq_comm Int 0]

theorem farOrder_eq_iff : x.farOrder y = .eq ↔ x.unscaled = 0 ∧ y.unscaled = 0 := by
  unfold farOrder
  split
  · exact signOrder_eq_iff
  · rw [Ordering.swap_eq_eq, signOrder_eq_iff, and_comm]

theorem compare_eq_iff_rightlyCompared :
    x.compare y = Ord.compare x.value y.value ↔ x.RightlyCompared y := by
  by_cases h : x.Meets y
  · exact iff_of_true (compare_of_meets h) (.inl h)
  · rw [compare_of_not_meets h, compare_value_of_not_meets h, RightlyCompared, or_iff_right h]

theorem compare_eq_and_ne_iff : x.compare y = .eq ∧ x.value ≠ y.value ↔
    ¬ x.Meets y ∧ x.nearestOrder y = .eq ∧ (x.unscaled ≠ 0 ∨ y.unscaled ≠ 0) := by
  have hvalue : x.value ≠ y.value ↔ Ord.compare x.value y.value ≠ .eq := compare_eq_iff_eq.not.symm
  rw [hvalue]
  by_cases h : x.Meets y
  · rw [compare_of_meets h]
    exact iff_of_false (fun h => h.2 h.1) (fun hnot => hnot.1 h)
  · rw [compare_of_not_meets h, compare_value_of_not_meets h, Ne, farOrder_eq_iff,
      Classical.not_and_iff_not_or_not]
    exact (and_iff_right h).symm

theorem nearestOrder_isLE (hx : x.unscaled ≤ 0) (hy : 0 ≤ y.unscaled) : (x.nearestOrder y).isLE := by
  unfold nearestOrder
  obtain hx | hx := key_of_nonpos hx
  · rw [Binary64.partialCompare_of_nan (.inl hx)]
    rfl
  · obtain hy | hy := key_of_nonneg hy
    · rw [Binary64.partialCompare_of_nan (.inr hy)]
      rfl
    · exact Binary64.partialCompare_isLE hx hy

theorem compare_isLE (hx : x.unscaled ≤ 0) (hy : 0 ≤ y.unscaled) : (x.compare y).isLE := by
  by_cases h : x.Meets y
  · have hxv : x.value ≤ 0 := div_nonpos_of_nonpos_of_nonneg (Int.cast_nonpos.mpr hx) (by positivity)
    have hyv : 0 ≤ y.value := div_nonneg (Int.cast_nonneg hy) (by positivity)
    rw [compare_of_meets h]
    exact Ordering.isLE_iff_ne_gt.mpr (compare_le_iff_le.mpr (hxv.trans hyv))
  · rw [compare_of_not_meets h]
    exact nearestOrder_isLE hx hy

theorem value_eq_ite (d : Decimal) : d.value =
    if d.unscaled < 0 then -(d.unscaled.natAbs / 10 ^ d.scale.toNat : ℚ)
    else d.unscaled.natAbs / 10 ^ d.scale.toNat := by
  rw [value, Nat.cast_natAbs]
  split
  · rename_i hneg
    rw [abs_of_neg hneg, Int.cast_neg, neg_div, neg_neg]
  · rename_i hnonneg
    rw [abs_of_nonneg (Int.not_lt.mp hnonneg)]

/-- Up to 307 places, the rounded quotient is off by less than one part in `2 ^ 43`. -/
theorem toBinary64_near (h : d.scale.toNat ≤ 307) : d.toBinary64.isFinite ∧
    |d.toBinary64.rational - d.value| ≤ |d.value| / 2 ^ 43 := by
  by_cases hzero : d.unscaled = 0
  · have hz := toBinary64_isZero h hzero
    refine ⟨Binary64.finite_of_isZero hz, ?_⟩
    rw [Binary64.rational_of_isZero hz, value, hzero]
    simp
  · have hrounds := toBinary64_rounds h hzero
    refine ⟨hrounds.finite, ?_⟩
    obtain ⟨q, hq⟩ : ∃ q : ℚ, q = d.unscaled.natAbs / 10 ^ d.scale.toNat := ⟨_, rfl⟩
    have hpos : 0 < q := by
      rw [hq]
      exact div_pos (by linarith [one_le_unscaled hzero]) (by positivity)
    rw [← hq] at hrounds
    have hoff : |d.toBinary64.worth - q| ≤ q / 2 ^ 43 := by
      have hplaces : ((d.scale.toNat + 2 : Nat) : ℚ) ≤ 309 := by exact_mod_cast Nat.add_le_add_right h 2
      have hslack : ((d.scale.toNat + 2 : Nat) / 2 ^ 52 : ℚ) ≤ 1 / 2 ^ 43 := by linarith
      calc |d.toBinary64.worth - q| ≤ q * ((d.scale.toNat + 2 : Nat) / 2 ^ 52) :=
            hrounds.near.abs_sub_le (by omega) hpos
        _ ≤ q * (1 / 2 ^ 43) := mul_le_mul_of_nonneg_left hslack hpos.le
        _ = q / 2 ^ 43 := mul_one_div q _
    rw [toBinary64_rational hrounds.finite, value_eq_ite, ← hq]
    split
    · rw [← neg_sub', abs_neg, abs_neg, abs_of_pos hpos]
      exact hoff
    · rw [abs_of_pos hpos]
      exact hoff

theorem Apart.symm (h : x.Apart y) : y.Apart x := by
  rw [Apart, max_comm, abs_sub_comm]
  exact h

theorem rational_lt (hx : x.scale.toNat ≤ 307) (hy : y.scale.toNat ≤ 307) (h : x.Apart y)
    (hlt : x.value < y.value) : x.toBinary64.rational < y.toBinary64.rational := by
  obtain ⟨-, hxnear⟩ := toBinary64_near hx
  obtain ⟨-, hynear⟩ := toBinary64_near hy
  have hxmax := le_max_left |x.value| |y.value|
  have hymax := le_max_right |x.value| |y.value|
  rw [Apart, abs_sub_comm, abs_of_pos (sub_pos.mpr hlt)] at h
  rw [abs_le] at hxnear hynear
  linarith

/-- Numbers that are further apart than their roundings are off are in the order of the roundings. -/
theorem rightlyCompared_of_apart (hx : x.scale.toNat ≤ 307) (hy : y.scale.toNat ≤ 307) (h : x.Apart y) :
    x.RightlyCompared y := by
  by_cases hmeets : x.Meets y
  · exact .inl hmeets
  · refine .inr ?_
    have hnumber := Binary64.notNaN_of_finite (toBinary64_near hx).1
    have hnumber' := Binary64.notNaN_of_finite (toBinary64_near hy).1
    rw [← compare_value_of_not_meets hmeets, nearestOrder, Binary64.partialCompare, hnumber, hnumber',
      Bool.or_false, if_neg Bool.false_ne_true, Option.getD_some, Binary64.compare_key]
    rcases lt_trichotomy x.value y.value with hlt | heq | hgt
    · rw [compare_lt_iff_lt.mpr hlt, compare_lt_iff_lt.mpr (rational_lt hx hy h hlt)]
    · rw [Apart, heq, sub_self, abs_zero, mul_zero, max_self] at h
      exact absurd h (not_lt.mpr (abs_nonneg _))
    · rw [compare_gt_iff_gt.mpr hgt, compare_gt_iff_gt.mpr (rational_lt hy hx h.symm hgt)]

/-- The integer part, without the sign if it is zero. -/
def truncate (q : ℚ) : ℤ :=
  if 0 ≤ q then ⌊q⌋ else ⌈q⌉

theorem truncate_div (a : Int) {n : Nat} (hn : 0 < n) : truncate (a / n) = a.tdiv n := by
  have hn' : (0 : ℚ) < n := Nat.cast_pos.mpr hn
  unfold truncate
  rcases Int.lt_or_le a 0 with ha | ha
  · have hneg : ¬ (0 : ℚ) ≤ a / n := not_le.mpr (div_neg_of_neg_of_pos (Int.cast_lt_zero.mpr ha) hn')
    have hfloor : ⌊-((a : ℚ) / n)⌋ = -a / n := by
      rw [← neg_div, ← Int.cast_neg, Rat.floor_intCast_div_natCast]
    rw [if_neg hneg, ← neg_neg ((a : ℚ) / n), Int.ceil_neg, hfloor,
      ← Int.tdiv_eq_ediv_of_nonneg (by omega), Int.neg_tdiv, neg_neg]
  · rw [if_pos (div_nonneg (Int.cast_nonneg ha) hn'.le), Rat.floor_intCast_div_natCast,
      Int.tdiv_eq_ediv_of_nonneg ha]

theorem truncate_value (d : Decimal) : truncate d.value = d.unscaled.tdiv (10 ^ d.scale.toNat : Nat) := by
  rw [← truncate_div _ (by positivity), value]
  push_cast
  rfl

theorem truncate_value_of_long (h : 38 < d.scale.toNat) : truncate d.value = 0 := by
  have hrange : d.unscaled.natAbs < 10 ^ 39 := by
    have hin := d.inRange
    simp only [Decimal.min, Decimal.max, Integer.size128] at hin
    omega
  have hpow : 10 ^ 39 ≤ 10 ^ d.scale.toNat := Nat.pow_le_pow_right (by decide) h
  rw [truncate_value, ← Int.natAbs_eq_zero, Int.natAbs_tdiv, Int.natAbs_natCast]
  exact Nat.div_eq_of_lt (hrange.trans_le hpow)

theorem powerOfTen?_of_le (h : d.scale.toNat ≤ 38) :
    powerOfTen? d.scale.toNat = some ((10 ^ d.scale.toNat : Nat) : Int) :=
  if_pos h

theorem powerOfTen?_of_long (h : 38 < d.scale.toNat) : powerOfTen? d.scale.toNat = none :=
  if_neg (Nat.not_le.mpr h)

end Decimal

namespace Value

open Decimal

/-- Decimals are told apart as their numbers are if they meet, and otherwise if the rounded
quotients are in the order of the numbers; where these tie, different numbers are told to be equal.
Where all are told as their numbers are, the order is transitive. -/
theorem decimals_ordered_iff (x y z : Decimal) :
    ((bigNumber x).compare (bigNumber y) = Ord.compare x.value y.value ↔ x.RightlyCompared y) ∧
    (¬ x.Meets y → Ord.compare x.value y.value = x.farOrder y) ∧
    ((bigNumber x).compare (bigNumber y) = .eq ∧ x.value ≠ y.value ↔
      ¬ x.Meets y ∧ x.nearestOrder y = .eq ∧ (x.unscaled ≠ 0 ∨ y.unscaled ≠ 0)) ∧
    (x.RightlyCompared y → y.RightlyCompared z → x.RightlyCompared z →
      ((bigNumber x).compare (bigNumber y)).isLE → ((bigNumber y).compare (bigNumber z)).isLE →
      ((bigNumber x).compare (bigNumber z)).isLE) ∧
    (x.scale.toNat ≤ 307 → y.scale.toNat ≤ 307 → x.Apart y → x.RightlyCompared y) ∧
    (x.unscaled ≤ 0 → 0 ≤ y.unscaled → ((bigNumber x).compare (bigNumber y)).isLE) := by
  refine ⟨compare_eq_iff_rightlyCompared, compare_value_of_not_meets, compare_eq_and_ne_iff,
    fun hxy hyz hxz hle hle' => ?_, rightlyCompared_of_apart, compare_isLE⟩
  simp only [Value.compare] at hle hle' ⊢
  rw [compare_eq_iff_rightlyCompared.mpr hxy] at hle
  rw [compare_eq_iff_rightlyCompared.mpr hyz] at hle'
  rw [compare_eq_iff_rightlyCompared.mpr hxz]
  exact Std.TransCmp.isLE_trans hle hle'

theorem smallDecimals_ordered :
    let x : Decimal := ⟨-1, 60, by decide⟩
    let y : Decimal := ⟨2, 39, by decide⟩
    let z : Decimal := ⟨1, 0, by decide⟩
    (x.RightlyCompared y ∧ y.RightlyCompared z ∧ x.RightlyCompared z ∧ ¬ y.Meets z ∧ ¬ x.Meets z ∧
      y.Apart z ∧ x.Apart z) ∧
      ((bigNumber x).compare (bigNumber y)).isLE ∧ ((bigNumber y).compare (bigNumber z)).isLE ∧
      ((bigNumber x).compare (bigNumber z)).isLE := by
  intro x y z
  have hplaces : UInt32.toNat 39 = 39 ∧ UInt32.toNat 60 = 60 := by decide
  have hapart : y.Apart z := by norm_num [y, z, Apart, value, hplaces, abs]
  have hapart' : x.Apart z := by norm_num [x, z, Apart, value, hplaces, abs]
  have hyz : y.RightlyCompared z :=
    (decimals_ordered_iff y z z).2.2.2.2.1 (by decide) (by decide) hapart
  have hxz : x.RightlyCompared z :=
    (decimals_ordered_iff x z z).2.2.2.2.1 (by decide) (by decide) hapart'
  have hxy : x.RightlyCompared y := .inl (by decide +kernel)
  have hle : ((bigNumber x).compare (bigNumber y)).isLE := by decide +kernel
  have hle' : ((bigNumber y).compare (bigNumber z)).isLE := by decide +kernel
  exact ⟨⟨hxy, hyz, hxz, by decide +kernel, by decide +kernel, hapart, hapart'⟩, hle, hle',
    (decimals_ordered_iff x y z).2.2.2.1 hxy hyz hxz hle hle'⟩

/-- Two decimals of which the one is less than the other, a third between which and each of them the
rounded quotients tie, and one of nearly `2 ^ 32` places that is put above one. -/
theorem largeDecimals_intransitive :
    let x : Decimal := ⟨17014118346046923173168730371588410573, 0, by decide⟩
    let y : Decimal := ⟨Decimal.max, 1, by decide⟩
    let z : Decimal := ⟨17014118346046923173168730371588410574, 0, by decide⟩
    let one : Decimal := ⟨1, 0, by decide⟩
    let tiny : Decimal := ⟨1, 4294967295, by decide⟩
    (bigNumber z).compare (bigNumber y) = .eq ∧ (bigNumber y).compare (bigNumber x) = .eq ∧
      (bigNumber z).compare (bigNumber x) = .gt ∧
      Ord.compare y.value x.value = .lt ∧ Ord.compare y.value z.value = .lt ∧
      (bigNumber tiny).compare (bigNumber one) = .gt ∧ Ord.compare tiny.value one.value = .lt := by
  intro x y z one tiny
  have hyx : ¬ y.Meets x := by decide +kernel
  have hyz : ¬ y.Meets z := by decide +kernel
  have htiny : ¬ tiny.Meets one := by decide +kernel
  rw [compare_value_of_not_meets hyx, compare_value_of_not_meets hyz,
    compare_value_of_not_meets htiny]
  decide +kernel

variable {d e : Decimal}

theorem convert_integer_of_le (h : d.scale.toNat ≤ 38) : (bigNumber d).convert .integer =
    if Integer.fitsInt64 (truncate d.value) then .ok (integer (Int64.ofInt (truncate d.value)))
    else .error ⟨bigNumber d, .integer, .outOfRange⟩ := by
  change ((toInteger (bigNumber d)).mapError _).map integer = _
  rw [toInteger, powerOfTen?_of_le h]
  simp only [← truncate_value, integerInRange]
  split <;> rfl

theorem convert_integer_of_long (h : 38 < d.scale.toNat) :
    (bigNumber d).convert .integer = .error ⟨bigNumber d, .integer, .scaleOverflow⟩ := by
  change ((toInteger (bigNumber d)).mapError _).map integer = _
  rw [toInteger, powerOfTen?_of_long h]
  rfl

theorem convert_integer_eq_ok {w : Value} : (bigNumber d).convert .integer = .ok w ↔
    d.scale.toNat ≤ 38 ∧ ∃ n : Int64, truncate d.value = n.toInt ∧ w = integer n := by
  by_cases h : d.scale.toNat ≤ 38
  · rw [convert_integer_of_le h, and_iff_right h]
    split
    · rename_i hfits
      constructor
      · intro hw
        exact ⟨_, (Integer.toInt_ofInt_of_fits hfits).symm, (Except.ok.inj hw).symm⟩
      · rintro ⟨n, hn, rfl⟩
        rw [hn, Int64.ofInt_toInt]
    · rename_i hout
      refine iff_of_false (by simp) ?_
      rintro ⟨n, hn, -⟩
      exact hout (hn ▸ Integer.fitsInt64_toInt n)
  · rw [convert_integer_of_long (Nat.lt_of_not_le h)]
    exact iff_of_false (by simp) fun hle => h hle.1

/-- A decimal of at most 38 places becomes the integer part of its number, if that is an integer of 64
bits, and one of more places, which has no integer part but zero, is refused. So decimals of at most 38
places that stand for one number become one integer. -/
theorem decimals_truncated (d e : Decimal) :
    (∀ n, (bigNumber d).convert .integer = .ok (integer n) ↔
      d.scale.toNat ≤ 38 ∧ truncate d.value = n.toInt) ∧
    ((∃ w, (bigNumber d).convert .integer = .ok w) ↔
      d.scale.toNat ≤ 38 ∧ Integer.fitsInt64 (truncate d.value)) ∧
    (38 < d.scale.toNat → truncate d.value = 0 ∧
      (bigNumber d).convert .integer = .error ⟨bigNumber d, .integer, .scaleOverflow⟩) ∧
    (d.value = e.value → d.scale.toNat ≤ 38 → e.scale.toNat ≤ 38 →
      ∀ w, (bigNumber d).convert .integer = .ok w ↔ (bigNumber e).convert .integer = .ok w) := by
  refine ⟨fun n => ?_, ?_, fun h => ⟨truncate_value_of_long h, convert_integer_of_long h⟩, ?_⟩
  · rw [convert_integer_eq_ok]
    simp only [integer.injEq, exists_eq_right']
  · simp only [convert_integer_eq_ok, exists_and_left, exists_comm, exists_eq, and_true]
    refine and_congr_right fun _ => ⟨?_, fun hfits => ⟨Int64.ofInt (truncate d.value), ?_⟩⟩
    · rintro ⟨n, hn⟩
      exact hn ▸ Integer.fitsInt64_toInt n
    · exact (Integer.toInt_ofInt_of_fits hfits).symm
  · intro hvalue hd he w
    rw [convert_integer_eq_ok, convert_integer_eq_ok, hvalue, and_iff_right hd, and_iff_right he]

theorem paddedDecimal_truncated :
    let d : Decimal := ⟨-1999, 2, by decide⟩
    let e : Decimal := ⟨-19990, 3, by decide⟩
    (d.value = e.value ∧ d.scale.toNat ≤ 38 ∧ e.scale.toNat ≤ 38) ∧
      (bigNumber d).convert .integer = .ok (integer (-19)) ∧
      (bigNumber e).convert .integer = .ok (integer (-19)) := by
  intro d e
  have hvalue : d.value = e.value := by
    change ((-1999 : Int) : ℚ) / 10 ^ 2 = ((-19990 : Int) : ℚ) / 10 ^ 3
    norm_num
  have hd : d.scale.toNat ≤ 38 := by decide
  have he : e.scale.toNat ≤ 38 := by decide
  have hconvert : (bigNumber d).convert .integer = .ok (integer (-19)) := by decide +kernel
  obtain ⟨-, -, -, hsame⟩ := decimals_truncated d e
  exact ⟨⟨hvalue, hd, he⟩, hconvert, (hsame hvalue hd he _).mp hconvert⟩

/-- One at the place after the last that is truncated, and zero with no place and with as many: all of
them have the integer part zero, and only the second becomes it. -/
theorem longDecimal_refused :
    let d : Decimal := ⟨1, 39, by decide⟩
    let zero : Decimal := ⟨0, 0, by decide⟩
    let longZero : Decimal := ⟨0, 39, by decide⟩
    truncate d.value = 0 ∧ Integer.fitsInt64 0 ∧
      (bigNumber d).convert .integer = .error ⟨bigNumber d, .integer, .scaleOverflow⟩ ∧
      zero.value = longZero.value ∧ (bigNumber zero).convert .integer = .ok (integer 0) ∧
      (bigNumber longZero).convert .integer = .error ⟨bigNumber longZero, .integer, .scaleOverflow⟩ := by
  intro d zero longZero
  exact ⟨truncate_value_of_long (by decide), by decide, by decide +kernel,
    by simp [zero, longZero, value], by decide +kernel, by decide +kernel⟩

end Value

end Sluice
