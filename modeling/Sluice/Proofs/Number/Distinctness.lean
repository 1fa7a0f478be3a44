import Mathlib.Tactic
import Sluice.Number.Shortest
import Sluice.Proofs.Number.Rounding
import Sluice.Proofs.Number.Shortening

/-!
Shortest decimals tell numbers apart. Each number draws to itself what lies between the midpoints to its
neighbours, a midpoint itself going to the even one, so no decimal is drawn to two numbers. The search for
the shortest decimal of a number always ends with one that the number draws.
-/

namespace Sluice

namespace ShortDecimal

def value (s : ShortDecimal) : ℚ :=
  s.digits * 10 ^ s.exponent

theorem value_normalize (fuel : Nat) (s : ShortDecimal) : (s.normalize fuel).value = s.value := by
  induction fuel generalizing s with
  | zero => rfl
  | succ fuel ih =>
    rw [normalize]
    split
    · rename_i hzero
      have hdigits : s.digits = s.digits / 10 * 10 :=
        (Nat.div_mul_cancel (Nat.dvd_of_mod_eq_zero hzero.2)).symm
      rw [ih]
      calc ((s.digits / 10 : Nat) : ℚ) * 10 ^ (s.exponent + 1)
          = (s.digits / 10 * 10 : Nat) * 10 ^ s.exponent := by
            rw [zpow_add_one₀ (by norm_num)]
            push_cast
            ring
        _ = s.value := by rw [← hdigits, value]
    · rfl

end ShortDecimal

namespace Binary64

/-- One unit of the last place of a magnitude. -/
def unit (m : Nat) : ℚ :=
  2 ^ (max (m / leadingBit : Nat) 1 - 1075 : ℤ)

theorem unit_pos (m : Nat) : 0 < unit m := by
  unfold unit
  positivity

theorem worthOf_succ (m : Nat) : worthOf (m + 1) = worthOf m + unit m := by
  obtain ⟨a, hthis, hnext⟩ := worthOf_consecutive m
  rw [hthis, hnext, unit, Nat.cast_succ, add_one_mul]

theorem unit_pred {m : Nat} (h : 0 < m) :
    unit (m - 1) = if m % leadingBit = 0 ∧ 1 < m / leadingBit then unit m / 2 else unit m := by
  have hsize : leadingBit = 4503599627370496 := rfl
  unfold unit
  split
  · rename_i hfirst
    have hexponent : (m - 1) / leadingBit + 1 = m / leadingBit := by
      rw [hsize] at *
      omega
    rw [← hexponent, Nat.max_eq_left (by omega), Nat.max_eq_left (by omega), div_eq_mul_inv,
      ← zpow_sub_one₀ two_ne_zero]
    congr 1
    push_cast
    ring
  · rename_i hinner
    have hexponent : max ((m - 1) / leadingBit) 1 = max (m / leadingBit) 1 := by
      rw [hsize] at *
      omega
    rw [hexponent]

/-- Half way from a magnitude to the next one. -/
def midway (m : Nat) : ℚ :=
  worthOf m + unit m / 2

theorem midway_strictMono : StrictMono midway := by
  refine strictMono_nat_of_lt_succ fun m => ?_
  have hsucc := worthOf_succ m
  have hthis := unit_pos m
  have hnext := unit_pos (m + 1)
  unfold midway
  linarith

theorem midway_pos (m : Nat) : 0 < midway m :=
  add_pos_of_nonneg_of_pos (worthOf_nonneg m) (half_pos (unit_pos m))

/-- Rounds to a magnitude above zero: between the midpoints to its neighbours, both of them included for
an even one. -/
def Draws (m : Nat) (v : ℚ) : Prop :=
  (midway (m - 1) < v ∧ v < midway m) ∨ (m % 2 = 0 ∧ midway (m - 1) ≤ v ∧ v ≤ midway m)

variable {m n : Nat} {v : ℚ} {x y : Binary64}

theorem Draws.between (h : Draws m v) : midway (m - 1) ≤ v ∧ v ≤ midway m := by
  rcases h with ⟨hlow, hhigh⟩ | ⟨-, hlow, hhigh⟩
  · exact ⟨hlow.le, hhigh.le⟩
  · exact ⟨hlow, hhigh⟩

theorem Draws.pos (h : Draws m v) : 0 < v :=
  (midway_pos _).trans_le h.between.1

/-- What two magnitudes draw is a midpoint between neighbours, and these are not both even. -/
theorem Draws.not_lt (hm : Draws m v) (hn : Draws n v) : ¬ m < n := by
  intro hlt
  have hle : midway m ≤ midway (n - 1) := midway_strictMono.monotone (by omega)
  have hmid : v = midway m := le_antisymm hm.between.2 (hle.trans hn.between.1)
  have hmid' : v = midway (n - 1) := le_antisymm (hm.between.2.trans hle) hn.between.1
  have hnext : m = n - 1 := midway_strictMono.injective (hmid.symm.trans hmid')
  rcases hm with ⟨-, hhigh⟩ | ⟨heven, -⟩
  · exact hhigh.ne hmid
  · rcases hn with ⟨hlow, -⟩ | ⟨heven', -⟩
    · exact hlow.ne' hmid'
    · omega

theorem Draws.unique (hm : Draws m v) (hn : Draws n v) : m = n :=
  Nat.le_antisymm (Nat.not_lt.mp (hn.not_lt hm)) (Nat.not_lt.mp (hm.not_lt hn))

theorem midway_lt_worth (h : 0 < x.magnitude) : midway (x.magnitude - 1) < x.worth := by
  have hsucc := worthOf_succ (x.magnitude - 1)
  have hpos := unit_pos (x.magnitude - 1)
  rw [Nat.sub_add_cancel h] at hsucc
  unfold midway worth
  linarith

theorem significand_mod_two (x : Binary64) : x.significand % 2 = x.magnitude % 2 := by
  have hsize : leadingBit = 4503599627370496 := rfl
  unfold significand fraction exponentField
  rw [hsize]
  split <;> omega

theorem significand_pos (h : 0 < x.magnitude) : 0 < x.significand := by
  have hsize : leadingBit = 4503599627370496 := rfl
  unfold significand fraction exponentField
  rw [hsize]
  split <;> omega

theorem significand_lt (x : Binary64) : x.significand < 2 ^ 53 := by
  have hsize : leadingBit = 4503599627370496 := rfl
  unfold significand fraction
  rw [hsize]
  split <;> omega

theorem power_bounds (x : Binary64) : -1074 ≤ x.power ∧ x.power ≤ 972 := by
  have hsize : leadingBit = 4503599627370496 := rfl
  have hsign : signBit = 9223372036854775808 := rfl
  unfold power exponentField magnitude
  rw [hsize, hsign]
  omega

theorem eq_of_magnitude (hsign : x.negative = y.negative) (h : x.magnitude = y.magnitude) : x = y := by
  have hsize : signBit = 9223372036854775808 := rfl
  have hx := x.bits.toNat_lt
  have hy := y.bits.toNat_lt
  unfold negative at hsign
  rw [decide_eq_decide, hsize] at hsign
  unfold magnitude at h
  rw [hsize] at h
  have hbits : x.bits.toNat = y.bits.toNat := by omega
  exact congrArg Binary64.mk (UInt64.toNat_inj.mp hbits)

end Binary64

namespace Shortest

open Binary64

variable {x : Binary64} {i : Interval}

/-- The interval compares whole numbers: a decimal and the ends over one denominator. -/
theorem holds_eq (hden : 0 < i.den) (d : Nat) (p : ℤ) : ∃ a b : Nat, 0 < b ∧
    (d * 10 ^ p : ℚ) = a / (i.den * b : Nat) ∧
    i.holds d p = if i.closed then decide (i.low * b ≤ a) && decide (a ≤ i.high * b)
      else decide (i.low * b < a) && decide (a < i.high * b) := by
  have hden' : (i.den : ℚ) ≠ 0 := Nat.cast_ne_zero.mpr hden.ne'
  rcases Int.lt_or_le p 0 with hp | hp
  · obtain ⟨k, rfl⟩ : ∃ k : Nat, p = -k := ⟨(-p).toNat, by omega⟩
    refine ⟨d * i.den, 10 ^ k, Nat.pow_pos (by decide), ?_, ?_⟩
    · rw [zpow_neg, zpow_natCast]
      push_cast
      field_simp
    · have hnot : ¬ (-(k : ℤ) ≥ 0) := by omega
      simp only [Interval.holds, hnot, if_false, neg_neg, Int.toNat_natCast, Nat.pow_eq]
  · obtain ⟨k, rfl⟩ := Int.eq_ofNat_of_zero_le hp
    refine ⟨d * 10 ^ k * i.den, 1, Nat.one_pos, ?_, ?_⟩
    · rw [zpow_natCast, Nat.mul_one]
      push_cast
      field_simp
    · simp only [Interval.holds, Nat.cast_nonneg, ge_iff_le, if_true, Int.toNat_natCast, Nat.pow_eq,
        Nat.mul_one]

theorem holds_iff_value (hden : 0 < i.den) {d : Nat} {p : ℤ} : i.holds d p = true ↔
    ((i.low / i.den : ℚ) < d * 10 ^ p ∧ (d * 10 ^ p : ℚ) < i.high / i.den) ∨
    (i.closed = true ∧ (i.low / i.den : ℚ) ≤ d * 10 ^ p ∧ (d * 10 ^ p : ℚ) ≤ i.high / i.den) := by
  obtain ⟨a, b, hb, hvalue, hholds⟩ := holds_eq hden d p
  have hden' : (0 : ℚ) < i.den := Nat.cast_pos.mpr hden
  have hb' : (0 : ℚ) < b := Nat.cast_pos.mpr hb
  have hend (n : Nat) : (n / i.den : ℚ) = (n * b : Nat) / (i.den * b : Nat) := by
    push_cast
    rw [mul_div_mul_right _ _ hb'.ne']
  have hpos : (0 : ℚ) < (i.den * b : Nat) := Nat.cast_pos.mpr (Nat.mul_pos hden hb)
  rw [hholds, hvalue, hend, hend, div_lt_div_iff_of_pos_right hpos, div_lt_div_iff_of_pos_right hpos,
    div_le_div_iff_of_pos_right hpos, div_le_div_iff_of_pos_right hpos]
  simp only [Nat.cast_lt, Nat.cast_le]
  split <;> rename_i hclosed <;>
    simp only [hclosed, Bool.and_eq_true, decide_eq_true_eq, Bool.false_eq_true, true_and, false_and,
      or_false]
  omega

theorem of_eq (x : Binary64) : ∃ num den : Nat, 0 < den ∧
    (num / den : ℚ) = Binary64.unit x.magnitude / 4 ∧
    Interval.of x =
      ⟨(4 * x.significand - if x.fraction = 0 ∧ 1 < x.exponentField then 1 else 2) * num,
        4 * x.significand * num, (4 * x.significand + 2) * num, den, x.significand % 2 = 0⟩ := by
  have hunit : Binary64.unit x.magnitude = 2 ^ x.power := rfl
  unfold Interval.of
  rw [hunit]
  rcases Int.lt_or_le x.power 0 with hp | hp
  · have hnot : ¬ x.power ≥ 0 := by omega
    refine ⟨1, 4 * Nat.pow 2 (-x.power).toNat, Nat.mul_pos (by decide) (Nat.pow_pos two_pos), ?_, ?_⟩
    · rw [zpow_of_neg hp, Nat.cast_one, Nat.cast_mul, Nat.cast_ofNat, div_div, mul_comm (4 : ℚ)]
    · simp only [hnot, if_false]
  · refine ⟨Nat.pow 2 x.power.toNat, 4, by decide, ?_, ?_⟩
    · rw [zpow_of_nonneg hp, Nat.cast_ofNat]
    · simp only [ge_iff_le, hp, if_true]

/-- The interval of a number above zero reaches to the midpoints around it. -/
theorem of_spec (hx : 0 < x.magnitude) : 0 < (Interval.of x).den ∧
    ((Interval.of x).mid / (Interval.of x).den : ℚ) = x.worth ∧
    ((Interval.of x).low / (Interval.of x).den : ℚ) = midway (x.magnitude - 1) ∧
    ((Interval.of x).high / (Interval.of x).den : ℚ) = midway x.magnitude ∧
    ((Interval.of x).closed = true ↔ x.magnitude % 2 = 0) := by
  obtain ⟨num, den, hden, hscale, hof⟩ := of_eq x
  have hpos := significand_pos hx
  have hworth : x.worth = x.significand * Binary64.unit x.magnitude := x.worth_eq
  have hprev : midway (x.magnitude - 1) = x.worth - Binary64.unit (x.magnitude - 1) / 2 := by
    have hsucc := worthOf_succ (x.magnitude - 1)
    rw [Nat.sub_add_cancel hx] at hsucc
    unfold midway worth
    linarith
  rw [hof]
  refine ⟨hden, ?_, ?_, ?_, ?_⟩
  · push_cast
    rw [mul_div_assoc, hscale, hworth]
    ring
  · have hgap : (if x.fraction = 0 ∧ 1 < x.exponentField then 1 else 2) ≤ 4 * x.significand := by
      split <;> omega
    have hpred : Binary64.unit (x.magnitude - 1) =
        if x.fraction = 0 ∧ 1 < x.exponentField then Binary64.unit x.magnitude / 2
        else Binary64.unit x.magnitude := unit_pred hx
    push_cast [Nat.cast_sub hgap]
    rw [mul_div_assoc, hscale, hprev, hpred, hworth]
    split <;> ring
  · push_cast
    rw [mul_div_assoc, hscale, midway, ← worth, hworth]
    ring
  · rw [decide_eq_true_eq, significand_mod_two]

theorem holds_iff_draws (hx : 0 < x.magnitude) {d : Nat} {p : ℤ} :
    (Interval.of x).holds d p = true ↔ Draws x.magnitude (d * 10 ^ p) := by
  obtain ⟨hden, -, hlow, hhigh, hclosed⟩ := of_spec hx
  rw [holds_iff_value hden, hlow, hhigh, hclosed, Draws]

theorem exists_quotient (tie : TieBreak) (hden : 0 < i.den) (p : ℤ) : ∃ n m : Nat, 0 < m ∧
    (n / m : ℚ) = i.mid / i.den / 10 ^ p ∧ n / m + 1 ∈ neighbours tie i p := by
  have hmem {q : Nat} {b : Bool} : q + 1 ∈ if b then [q + 1, q] else [q, q + 1] := by
    cases b <;> simp
  rcases Int.lt_or_le p 0 with hp | hp
  · obtain ⟨k, rfl⟩ : ∃ k : Nat, p = -k := ⟨(-p).toNat, by omega⟩
    have hnot : ¬ (-(k : ℤ) ≥ 0) := by omega
    refine ⟨i.mid * 10 ^ k, i.den, hden, ?_, ?_⟩
    · rw [zpow_neg, zpow_natCast]
      push_cast
      field_simp
    · simp only [neighbours, hnot, if_false, neg_neg, Int.toNat_natCast, Nat.pow_eq]
      exact hmem
  · obtain ⟨k, rfl⟩ := Int.eq_ofNat_of_zero_le hp
    refine ⟨i.mid, i.den * 10 ^ k, Nat.mul_pos hden (Nat.pow_pos (by decide)), ?_, ?_⟩
    · rw [zpow_natCast, div_div]
      push_cast
      rfl
    · simp only [neighbours, Nat.cast_nonneg, ge_iff_le, if_true, Int.toNat_natCast, Nat.pow_eq]
      exact hmem

theorem exists_neighbour (tie : TieBreak) (hden : 0 < i.den) (p : ℤ) :
    ∃ d ∈ neighbours tie i p, 0 < d ∧ (i.mid / i.den : ℚ) < d * 10 ^ p ∧
      (d * 10 ^ p : ℚ) ≤ i.mid / i.den + 10 ^ p := by
  obtain ⟨n, m, hm, hquotient, hmem⟩ := exists_quotient tie hden p
  have hpow : (0 : ℚ) < 10 ^ p := by positivity
  have hm' : (0 : ℚ) < m := Nat.cast_pos.mpr hm
  have hbelow : ((n / m : Nat) : ℚ) ≤ n / m := Nat.cast_div_le
  have habove : (n / m : ℚ) < (n / m : Nat) + 1 := by
    rw [div_lt_iff₀ hm']
    exact_mod_cast Nat.lt_mul_of_div_lt (Nat.lt_succ_self (n / m)) hm
  rw [hquotient, le_div_iff₀ hpow] at hbelow
  rw [hquotient, div_lt_iff₀ hpow] at habove
  refine ⟨n / m + 1, hmem, Nat.succ_pos _, ?_, ?_⟩
  · push_cast
    exact habove
  · push_cast
    linarith

/-- A power of ten below a power of two, by `10 ^ 3 < 2 ^ 10` and `2 ^ 53 < 10 ^ 16`. -/
theorem ten_pow_lt {k c : ℤ} (hup : 0 ≤ k → 10 * k < 3 * c) (hdown : k < 0 → 53 * k < 16 * c) :
    (10 : ℚ) ^ k < 2 ^ c := by
  rcases Int.lt_or_le k 0 with hk | hk
  · obtain ⟨n, rfl⟩ : ∃ n : Nat, k = -n := ⟨(-k).toNat, by omega⟩
    refine lt_of_pow_lt_pow_left₀ 16 (by positivity) ?_
    calc ((10 : ℚ) ^ (-n : ℤ)) ^ 16
        = ((10 ^ 16 : ℚ) ^ n)⁻¹ := by
          rw [zpow_neg, zpow_natCast, inv_pow, ← pow_mul, ← pow_mul, mul_comm]
      _ ≤ ((2 ^ 53 : ℚ) ^ n)⁻¹ := by gcongr; norm_num
      _ = 2 ^ (53 * -n : ℤ) := by
          rw [← pow_mul, mul_neg, zpow_neg]
          norm_cast
      _ < 2 ^ (16 * c) := zpow_lt_zpow_right₀ one_lt_two (hdown hk)
      _ = (2 ^ c) ^ 16 := by rw [← zpow_natCast, ← zpow_mul, mul_comm]; rfl
  · obtain ⟨n, rfl⟩ := Int.eq_ofNat_of_zero_le hk
    refine lt_of_pow_lt_pow_left₀ 3 (by positivity) ?_
    calc ((10 : ℚ) ^ (n : ℤ)) ^ 3
        = (10 ^ 3 : ℚ) ^ n := by rw [zpow_natCast, ← pow_mul, ← pow_mul, mul_comm]
      _ ≤ (2 ^ 10 : ℚ) ^ n := by gcongr; norm_num
      _ = 2 ^ (10 * n : ℤ) := by
          rw [← pow_mul]
          norm_cast
      _ < 2 ^ (3 * c) := zpow_lt_zpow_right₀ one_lt_two (hup hk)
      _ = (2 ^ c) ^ 3 := by rw [← zpow_natCast, ← zpow_mul, mul_comm]; rfl

/-- Nineteen grids below the first one the steps are smaller than half a unit of the last place. -/
theorem finest_step (x : Binary64) (hx : 0 < x.magnitude) :
    (10 : ℚ) ^ (exponentBound x - 19) < Binary64.unit x.magnitude / 2 := by
  have hlog : x.significand.log2 < 53 :=
    (Nat.log2_lt (significand_pos hx).ne').mpr (significand_lt x)
  obtain ⟨hlow, hhigh⟩ := power_bounds x
  have hunit : Binary64.unit x.magnitude / 2 = 2 ^ (x.power - 1) := by
    rw [zpow_sub_one₀ two_ne_zero, div_eq_mul_inv]
    rfl
  rw [hunit]
  unfold exponentBound
  refine ten_pow_lt (fun _ => ?_) (fun _ => ?_) <;> omega

theorem search_draws (tie : TieBreak) (hx : 0 < x.magnitude) :
    Draws x.magnitude (search tie (.of x) 20 (exponentBound x)).value := by
  obtain ⟨hden, hmid, -⟩ := of_spec hx
  have hstep := finest_step x hx
  obtain ⟨d, hd, hpos, habove, hnear⟩ := exists_neighbour tie hden (exponentBound x - 19)
  rw [hmid] at habove hnear
  have hdrawn : Draws x.magnitude (d * 10 ^ (exponentBound x - 19)) := by
    refine .inl ⟨(midway_lt_worth hx).trans habove, hnear.trans_lt ?_⟩
    exact add_lt_add_right hstep _
  have hlast : exponentBound x - 19 ≤ exponentBound x ∧
      exponentBound x < exponentBound x - 19 + (20 : Nat) := by omega
  obtain ⟨-, -, hholds⟩ := search_spec hlast.1 hlast.2
    ⟨d, hd, hpos, (holds_iff_draws hx).mpr hdrawn⟩
  exact (holds_iff_draws hx).mp hholds

end Shortest

namespace Binary64

variable {x y : Binary64}

theorem shortest_draws (tie : TieBreak) (hx : 0 < x.magnitude) :
    Draws x.magnitude (x.shortest tie).value := by
  have hzero : x.isZero = false := beq_eq_false_iff_ne.mpr hx.ne'
  rw [shortest, hzero, if_neg Bool.false_ne_true, ShortDecimal.value_normalize]
  exact Shortest.search_draws tie hx

theorem shortest_zero (tie : TieBreak) (hx : x.magnitude = 0) : (x.shortest tie).value = 0 := by
  have hzero : x.isZero = true := beq_iff_eq.mpr hx
  rw [shortest, hzero, if_pos rfl, ShortDecimal.value]
  simp

/-- Numbers with the same shortest decimal differ at most in their signs. -/
theorem magnitude_eq_of_shortest (tie : TieBreak)
    (h : (x.shortest tie).value = (y.shortest tie).value) : x.magnitude = y.magnitude := by
  rcases Nat.eq_zero_or_pos x.magnitude with hx | hx <;>
    rcases Nat.eq_zero_or_pos y.magnitude with hy | hy
  · rw [hx, hy]
  · exact absurd (h.symm.trans (shortest_zero tie hx)) (shortest_draws tie hy).pos.ne'
  · exact absurd (h.trans (shortest_zero tie hy)) (shortest_draws tie hx).pos.ne'
  · exact (shortest_draws tie hx).unique (h ▸ shortest_draws tie hy)

end Binary64

end Sluice
