import Mathlib.Tactic
import Sluice.Proofs.Number.Signs

/-!
What numbers are worth, and how far a rounding moves them. Magnitudes are worth the more the larger they
are; a quotient that is neither too large nor too small is rounded to a number that is off by at most one
part in `2 ^ 53`, and every product, quotient and power is as many such factors off as roundings went
into it.
-/

namespace Sluice

namespace Binary64

def worthOf (m : Nat) : ℚ :=
  (if m / leadingBit = 0 then m % leadingBit else m % leadingBit + leadingBit : Nat) *
    2 ^ (max (m / leadingBit : Nat) 1 - 1075 : ℤ)

/-- What a number is worth without its sign. -/
def worth (x : Binary64) : ℚ :=
  worthOf x.magnitude

theorem worth_eq (x : Binary64) : x.worth = x.significand * 2 ^ x.power := rfl

variable {x y : Binary64}

/-- The magnitude with this exponent and significand. A significand of twice the leading bit is the
first one of the next exponent. -/
theorem worthOf_of_le {e m : Nat} (he : 1 ≤ e) (hlo : leadingBit ≤ m) (hhi : m ≤ 2 * leadingBit) :
    worthOf (e * leadingBit + (m - leadingBit)) = m * 2 ^ (e - 1075 : ℤ) := by
  have hbase {e f : Nat} (he : 1 ≤ e) (hf : f < leadingBit) :
      worthOf (e * leadingBit + f) = (f + leadingBit : Nat) * 2 ^ (e - 1075 : ℤ) := by
    have hdiv : (e * leadingBit + f) / leadingBit = e := by
      rw [Nat.mul_comm, Nat.mul_add_div (by decide), Nat.div_eq_of_lt hf, Nat.add_zero]
    have hmod : (e * leadingBit + f) % leadingBit = f := by
      rw [Nat.mul_add_mod_self_right, Nat.mod_eq_of_lt hf]
    rw [worthOf, hdiv, hmod, if_neg (by omega), Nat.max_eq_left he]
  rcases Nat.lt_or_eq_of_le hhi with hlt | rfl
  · rw [hbase he (by omega), Nat.sub_add_cancel hlo]
  · have hcarry : e * leadingBit + (2 * leadingBit - leadingBit) = (e + 1) * leadingBit + 0 := by
      rw [Nat.two_mul, Nat.add_sub_cancel, Nat.add_zero, Nat.succ_mul]
    have hpower : ((e + 1 : Nat) - 1075 : ℤ) = (e - 1075) + 1 := by omega
    rw [hcarry, hbase (Nat.le_add_left 1 e) (by decide), Nat.zero_add, hpower,
      zpow_add_one₀ two_ne_zero]
    push_cast
    ring

theorem worthOf_small {m : Nat} (h : m ≤ leadingBit) : worthOf m = m * 2 ^ (-1074 : ℤ) := by
  rcases Nat.lt_or_eq_of_le h with h | rfl
  · rw [worthOf, Nat.div_eq_of_lt h, if_pos rfl, Nat.mod_eq_of_lt h]
    norm_num
  · have hfirst := worthOf_of_le (e := 1) (m := leadingBit) le_rfl le_rfl (by decide)
    rw [Nat.sub_self, Nat.add_zero, Nat.one_mul] at hfirst
    rw [hfirst]
    norm_num

/-- Two magnitudes in a row are worth two multiples in a row of one power of two: the exponent of
the smaller one, where the subnormal numbers share that of the smallest normal ones. -/
theorem worthOf_consecutive (m : Nat) :
    ∃ a : Nat, worthOf m = a * 2 ^ (max (m / leadingBit : Nat) 1 - 1075 : ℤ) ∧
      worthOf (m + 1) = (a + 1 : Nat) * 2 ^ (max (m / leadingBit : Nat) 1 - 1075 : ℤ) := by
  rcases Nat.lt_or_ge m leadingBit with hm | hm
  · rw [Nat.div_eq_of_lt hm]
    exact ⟨m, worthOf_small hm.le, worthOf_small hm⟩
  · have hdiv := Nat.div_add_mod' m leadingBit
    have hmod : m % leadingBit < leadingBit := Nat.mod_lt _ (by decide)
    have he : 1 ≤ m / leadingBit := Nat.div_pos hm (by decide)
    have hthis := worthOf_of_le (m := m % leadingBit + leadingBit) he (by omega) (by omega)
    have hnext := worthOf_of_le (m := m % leadingBit + leadingBit + 1) he (by omega) (by omega)
    rw [Nat.add_sub_cancel, hdiv] at hthis
    rw [Nat.add_right_comm, Nat.add_sub_cancel, ← Nat.add_assoc, hdiv] at hnext
    rw [Nat.max_eq_left he]
    exact ⟨m % leadingBit + leadingBit, hthis, hnext.trans (by rw [Nat.add_right_comm])⟩

theorem worthOf_lt_succ (m : Nat) : worthOf m < worthOf (m + 1) := by
  obtain ⟨a, hthis, hnext⟩ := worthOf_consecutive m
  rw [hthis, hnext]
  exact mul_lt_mul_of_pos_right (Nat.cast_lt.mpr (Nat.lt_succ_self a)) (by positivity)

theorem worthOf_strictMono : StrictMono worthOf :=
  strictMono_nat_of_lt_succ worthOf_lt_succ

theorem worthOf_zero : worthOf 0 = 0 := by
  rw [worthOf_small (by decide), Nat.cast_zero, zero_mul]

theorem worthOf_nonneg (m : Nat) : 0 ≤ worthOf m := by
  rw [← worthOf_zero]
  exact worthOf_strictMono.monotone (Nat.zero_le m)

theorem worthOf_pos {m : Nat} (h : 0 < m) : 0 < worthOf m := by
  rw [← worthOf_zero]
  exact worthOf_strictMono h

/-- What the number with a place among all others is worth. -/
def rationalOf (k : ℤ) : ℚ :=
  if 0 ≤ k then worthOf k.natAbs else -worthOf k.natAbs

def rational (x : Binary64) : ℚ :=
  rationalOf x.key

theorem rationalOf_strictMono : StrictMono rationalOf := by
  intro j k h
  unfold rationalOf
  rcases Int.lt_or_le j 0 with hj | hj
  · rw [if_neg (Int.not_le.mpr hj)]
    have hneg : -worthOf j.natAbs < 0 := neg_neg_of_pos (worthOf_pos (by omega))
    split
    · exact hneg.trans_le (worthOf_nonneg _)
    · exact neg_lt_neg (worthOf_strictMono (by omega))
  · rw [if_pos hj, if_pos (by omega)]
    exact worthOf_strictMono (by omega)

/-- The places of numbers are in the order of what the numbers are worth. -/
theorem compare_key (x y : Binary64) :
    Ord.compare x.key y.key = Ord.compare x.rational y.rational := by
  rw [← cmp_eq_compare, ← cmp_eq_compare]
  exact (rationalOf_strictMono.cmp_map_eq _ _).symm

theorem rational_of_unsigned (h : x.negative = false) : x.rational = x.worth := by
  have hkey : x.key = x.magnitude := by rw [key, h, if_neg Bool.false_ne_true]
  rw [rational, hkey, rationalOf, if_pos (Int.natCast_nonneg _), Int.natAbs_natCast, worth]

theorem rational_of_negative (h : x.negative = true) : x.rational = -x.worth := by
  have hkey : x.key = -x.magnitude := by rw [key, if_pos h]
  rw [rational, hkey, rationalOf, Int.natAbs_neg, Int.natAbs_natCast, worth]
  split
  · have hzero : x.magnitude = 0 := by omega
    rw [hzero, worthOf_zero, neg_zero]
  · rfl

theorem worthOf_packMagnitude {m : Nat} {q : ℤ} (hlo : leadingBit ≤ m) (hhi : m ≤ 2 * leadingBit)
    (hq : -1074 ≤ q) (hfinite : q ≤ 970) :
    packMagnitude m q < infinityMagnitude ∧ worthOf (packMagnitude m q) = m * 2 ^ q := by
  obtain ⟨e, rfl⟩ : ∃ e : Nat, q = e - 1075 := ⟨(q + 1075).toNat, by omega⟩
  have hexponent : ((e : ℤ) - 1075 + 1075).toNat = e := by omega
  have hsmall : e * leadingBit + (m - leadingBit) < infinityMagnitude := by
    have hle : e * leadingBit ≤ 2045 * leadingBit := Nat.mul_le_mul_right _ (by omega)
    have hinfinity : infinityMagnitude = 2045 * leadingBit + 2 * leadingBit := by decide
    have hpos : 0 < leadingBit := by decide
    omega
  rw [packMagnitude, if_neg (Nat.not_lt.mpr hlo), hexponent, Nat.min_eq_left hsmall.le]
  exact ⟨hsmall, worthOf_of_le (by omega) hlo hhi⟩

theorem roundEven_near (n : Nat) {d : Nat} (hd : 0 < d) :
    |(roundEven n d : ℚ) - n / d| ≤ 1 / 2 := by
  have hd' : (0 : ℚ) < d := Nat.cast_pos.mpr hd
  have hquotient : (n : ℚ) / d = (n / d : Nat) + (n % d : Nat) / d := by
    rw [div_eq_iff hd'.ne', add_mul, div_mul_cancel₀ _ hd'.ne']
    exact_mod_cast (Nat.div_add_mod' n d).symm
  have hrest : (n % d : Nat) / (d : ℚ) ≤ 1 := by
    rw [div_le_one hd']
    exact_mod_cast (Nat.mod_lt n hd).le
  rw [hquotient]
  unfold roundEven
  dsimp only
  split
  · rename_i hup
    have hhalf : (1 : ℚ) / 2 ≤ (n % d : Nat) / d := by
      simp only [Bool.or_eq_true, decide_eq_true_eq, Bool.and_eq_true, beq_iff_eq] at hup
      rw [div_le_div_iff₀ two_pos hd']
      exact_mod_cast (by omega : 1 * d ≤ n % d * 2)
    rw [Nat.cast_add_one, abs_le]
    constructor <;> linarith
  · rename_i hdown
    have hhalf : (n % d : Nat) / (d : ℚ) ≤ 1 / 2 := by
      simp only [Bool.or_eq_true, decide_eq_true_eq, not_or] at hdown
      rw [div_le_div_iff₀ hd' two_pos]
      exact_mod_cast (by omega : n % d * 2 ≤ 1 * d)
    have hpos : (0 : ℚ) ≤ (n % d : Nat) / d := by positivity
    rw [abs_le]
    constructor <;> linarith

theorem zpow_of_nonneg {q : ℤ} (h : 0 ≤ q) : (2 : ℚ) ^ q = (Nat.pow 2 q.toNat : Nat) := by
  obtain ⟨n, rfl⟩ := Int.eq_ofNat_of_zero_le h
  rw [zpow_natCast, Int.toNat_natCast]
  exact (Nat.cast_pow 2 n).symm

theorem zpow_of_neg {q : ℤ} (h : q < 0) : (2 : ℚ) ^ q = 1 / (Nat.pow 2 (-q).toNat : Nat) := by
  rw [← zpow_of_nonneg (by omega), zpow_neg, one_div, inv_inv]

theorem scaled_div (num : Nat) {den : Nat} (hden : 0 < den) (q : ℤ) :
    0 < (scaled num den q).2 ∧
      ((scaled num den q).1 : ℚ) / (scaled num den q).2 = num / den / 2 ^ q := by
  have hpow (k : Nat) : 0 < Nat.pow 2 k := Nat.pow_pos two_pos
  unfold scaled
  split
  · rename_i hq
    refine ⟨Nat.mul_pos hden (hpow _), ?_⟩
    rw [zpow_of_nonneg hq, Nat.cast_mul, div_div]
  · rename_i hq
    refine ⟨hden, ?_⟩
    rw [zpow_of_neg (by omega), Nat.cast_mul, div_div_eq_mul_div, div_one, mul_div_right_comm]

theorem log2_spec {n : Nat} (h : 0 < n) :
    (2 : ℚ) ^ (n.log2 : ℤ) ≤ n ∧ (n : ℚ) < 2 ^ (n.log2 + 1 : ℤ) := by
  constructor
  · rw [zpow_natCast]
    exact_mod_cast Nat.log2_self_le h.ne'
  · exact_mod_cast Nat.lt_log2_self (n := n)

theorem floorLog2_spec {num den : Nat} (hnum : 0 < num) (hden : 0 < den) :
    (2 : ℚ) ^ floorLog2 num den ≤ num / den ∧ (num / den : ℚ) < 2 ^ (floorLog2 num den + 1) := by
  have hden' : (0 : ℚ) < den := Nat.cast_pos.mpr hden
  obtain ⟨hnumlo, hnumhi⟩ := log2_spec hnum
  obtain ⟨hdenlo, hdenhi⟩ := log2_spec hden
  have hlo : (2 : ℚ) ^ (num.log2 - den.log2 - 1 : ℤ) ≤ num / den := by
    rw [le_div_iff₀ hden']
    calc (2 : ℚ) ^ (num.log2 - den.log2 - 1 : ℤ) * den
        ≤ 2 ^ (num.log2 - den.log2 - 1 : ℤ) * 2 ^ (den.log2 + 1 : ℤ) := by gcongr
      _ = 2 ^ (num.log2 : ℤ) := by rw [← zpow_add₀ two_ne_zero]; congr 1; omega
      _ ≤ num := hnumlo
  have hhi : (num / den : ℚ) < 2 ^ (num.log2 - den.log2 + 1 : ℤ) := by
    rw [div_lt_iff₀ hden']
    calc (num : ℚ) < 2 ^ (num.log2 + 1 : ℤ) := hnumhi
      _ = 2 ^ (num.log2 - den.log2 + 1 : ℤ) * 2 ^ (den.log2 : ℤ) := by
        rw [← zpow_add₀ two_ne_zero]; congr 1; omega
      _ ≤ 2 ^ (num.log2 - den.log2 + 1 : ℤ) * den := by gcongr
  have htest (q : ℤ) : (scaled num den q).1 < (scaled num den q).2 ↔ (num / den : ℚ) < 2 ^ q := by
    obtain ⟨hpos, hscaled⟩ := scaled_div num hden q
    have hpos' : (0 : ℚ) < (scaled num den q).2 := Nat.cast_pos.mpr hpos
    rw [← Nat.cast_lt (α := ℚ), ← div_lt_one hpos', hscaled, div_lt_one (by positivity)]
  unfold floorLog2
  dsimp only
  split
  · rename_i hbelow
    rw [sub_add_cancel]
    exact ⟨hlo, (htest _).mp hbelow⟩
  · rename_i habove
    exact ⟨not_lt.mp fun h => habove ((htest _).mpr h), hhi⟩

/-- So many roundings may lie between two numbers. -/
def slack (k : Nat) : ℚ :=
  (1 + 1 / 2 ^ 53) ^ k

/-- At most so many roundings away from each other. -/
def Near (k : Nat) (a b : ℚ) : Prop :=
  a ≤ b * slack k ∧ b ≤ a * slack k

theorem near_of_abs_le {a b : ℚ} (ha : |a - b| ≤ a / 2 ^ 53) (hb : |a - b| ≤ b / 2 ^ 53) :
    Near 1 a b := by
  rw [abs_le] at ha hb
  constructor <;> rw [slack, pow_one] <;> linarith

theorem isFinite_iff : x.isFinite ↔ x.magnitude < infinityMagnitude := by
  rw [isFinite, decide_eq_true_iff]

theorem roundEven_normal {n d : Nat} (hd : 0 < d) (hlo : (leadingBit : ℚ) ≤ n / d)
    (hhi : (n / d : ℚ) < 2 * leadingBit) :
    leadingBit ≤ roundEven n d ∧ roundEven n d ≤ 2 * leadingBit := by
  have hnear := abs_le.mp (roundEven_near n hd)
  have hbelow : (leadingBit : ℚ) < (roundEven n d + 1 : Nat) := by
    push_cast
    linarith
  have habove : (roundEven n d : ℚ) < (2 * leadingBit + 1 : Nat) := by
    push_cast
    linarith
  exact ⟨Nat.lt_succ_iff.mp (Nat.cast_lt.mp hbelow), Nat.lt_succ_iff.mp (Nat.cast_lt.mp habove)⟩

theorem leadingBit_mul {q e : ℤ} (h : q = e - 52) : (leadingBit : ℚ) * 2 ^ q = 2 ^ e := by
  have hleading : (leadingBit : ℚ) = 2 ^ (52 : ℤ) := by norm_num [leadingBit]
  rw [hleading, ← zpow_add₀ two_ne_zero, h]
  congr 1
  omega

/-- The significand of a normal quotient is that of the quotient over the power, rounded to an integer,
so it is off by half a unit of the last place. -/
theorem significand_spec {num den m : Nat} {q : ℤ} (hnum : 0 < num) (hden : 0 < den)
    (hq : q = floorLog2 num den - 52)
    (hm : m = roundEven (scaled num den q).1 (scaled num den q).2) :
    leadingBit ≤ m ∧ m ≤ 2 * leadingBit ∧ |(m : ℚ) * 2 ^ q - num / den| ≤ 2 ^ q / 2 := by
  obtain ⟨hfloor, hceil⟩ := floorLog2_spec hnum hden
  have hpow : (0 : ℚ) < 2 ^ q := by positivity
  obtain ⟨hd, hscaled⟩ := scaled_div num hden q
  have hlo : (leadingBit : ℚ) ≤ (scaled num den q).1 / (scaled num den q).2 := by
    rw [hscaled, le_div_iff₀ hpow, leadingBit_mul hq]
    exact hfloor
  have hhi : ((scaled num den q).1 / (scaled num den q).2 : ℚ) < 2 * leadingBit := by
    rw [hscaled, div_lt_iff₀ hpow, mul_assoc, leadingBit_mul hq, ← zpow_one_add₀ two_ne_zero, add_comm]
    exact hceil
  obtain ⟨hmlo, hmhi⟩ := roundEven_normal hd hlo hhi
  have hnear := roundEven_near (scaled num den q).1 hd
  rw [← hm] at hmlo hmhi hnear
  refine ⟨hmlo, hmhi, ?_⟩
  have hfactor : (m : ℚ) * 2 ^ q - num / den = (m - num / den / 2 ^ q) * 2 ^ q := by
    field_simp
  rw [hfactor, abs_mul, abs_of_pos hpow, ← hscaled]
  linarith [mul_le_mul_of_nonneg_right hnear hpow.le]

theorem near_ofRatio {num den : Nat} (hnum : 0 < num) (hden : 0 < den)
    (hlo : (2 : ℚ) ^ (-1022 : ℤ) ≤ num / den) (hhi : (num / den : ℚ) < 2 ^ (1023 : ℤ))
    (negative : Bool) : (ofRatio negative num den).isFinite ∧
      Near 1 (ofRatio negative num den).worth (num / den) := by
  obtain ⟨hfloor, hceil⟩ := floorLog2_spec hnum hden
  have helo : -1022 ≤ floorLog2 num den :=
    Int.lt_add_one_iff.mp ((zpow_lt_zpow_iff_right₀ one_lt_two).mp (hlo.trans_lt hceil))
  have hehi : floorLog2 num den < 1023 :=
    (zpow_lt_zpow_iff_right₀ one_lt_two).mp (hfloor.trans_lt hhi)
  obtain ⟨q, hq⟩ : ∃ q, q = floorLog2 num den - 52 := ⟨_, rfl⟩
  obtain ⟨m, hm⟩ : ∃ m, m = roundEven (scaled num den q).1 (scaled num den q).2 := ⟨_, rfl⟩
  obtain ⟨hmlo, hmhi, hoff⟩ := significand_spec hnum hden hq hm
  obtain ⟨hfinite, hworth⟩ := worthOf_packMagnitude hmlo hmhi (by omega) (by omega : q ≤ 970)
  have hmagnitude : (ofRatio negative num den).magnitude = packMagnitude m q := by
    have hmax : max (floorLog2 num den - 52) (-1074) = q := by omega
    rw [ofRatio, if_neg hnum.ne', hmax, hm]
    exact magnitude_ofMagnitude (packMagnitude_lt _ _) negative
  rw [isFinite_iff, worth, hmagnitude, hworth]
  refine ⟨hfinite, ?_⟩
  -- half a unit is one part in `2 ^ 53` of the leading bit, which neither number is below
  have hhalf : (2 : ℚ) ^ q / 2 = leadingBit * 2 ^ q / 2 ^ 53 := by
    norm_num [leadingBit]
    ring
  have hrounded : (leadingBit : ℚ) * 2 ^ q ≤ m * 2 ^ q := by gcongr
  have hexact : (leadingBit : ℚ) * 2 ^ q ≤ num / den := (leadingBit_mul hq).trans_le hfloor
  rw [hhalf] at hoff
  exact near_of_abs_le (hoff.trans (by gcongr)) (hoff.trans (by gcongr))

theorem slack_pos (k : Nat) : 0 < slack k := by
  unfold slack
  positivity

theorem slack_add (i j : Nat) : slack (i + j) = slack i * slack j :=
  pow_add _ i j

theorem slack_le {k : Nat} (h : k ≤ 1000) : slack k ≤ 1 + k / 2 ^ 52 := by
  induction k with
  | zero => norm_num [slack]
  | succ k ih =>
    have hk : (k : ℚ) ≤ 1000 := by exact_mod_cast (by omega : k ≤ 1000)
    calc slack (k + 1) = slack k * (1 + 1 / 2 ^ 53) := pow_succ _ k
      _ ≤ (1 + k / 2 ^ 52) * (1 + 1 / 2 ^ 53) := by gcongr; exact ih (by omega)
      _ ≤ 1 + (k + 1 : Nat) / 2 ^ 52 := by push_cast; linarith

theorem slack_le_two {k : Nat} (h : k ≤ 1000) : slack k ≤ 2 := by
  have hk : (k : ℚ) ≤ 1000 := by exact_mod_cast h
  linarith [slack_le h]

variable {a b c d : ℚ} {i j k : Nat}

theorem near_zero (a : ℚ) : Near 0 a a := by
  rw [Near, slack, pow_zero, mul_one]
  exact ⟨le_rfl, le_rfl⟩

theorem Near.trans (hab : Near i a b) (hbc : Near j b c) : Near (i + j) a c := by
  rw [Near, slack_add]
  constructor
  · calc a ≤ b * slack i := hab.1
      _ ≤ c * slack j * slack i := mul_le_mul_of_nonneg_right hbc.1 (slack_pos i).le
      _ = c * (slack i * slack j) := by ring
  · calc c ≤ b * slack j := hbc.2
      _ ≤ a * slack i * slack j := mul_le_mul_of_nonneg_right hab.2 (slack_pos j).le
      _ = a * (slack i * slack j) := by ring

theorem Near.pos (h : Near k a b) (hb : 0 < b) : 0 < a :=
  (mul_pos_iff_of_pos_right (slack_pos k)).mp (hb.trans_le h.2)

theorem Near.mul (hab : Near i a b) (hcd : Near j c d) (hb : 0 < b) (hd : 0 < d) :
    Near (i + j) (a * c) (b * d) := by
  have ha := hab.pos hb
  have hc := hcd.pos hd
  have hi := slack_pos i
  have hj := slack_pos j
  rw [Near, slack_add]
  constructor
  · calc a * c ≤ b * slack i * (d * slack j) := mul_le_mul hab.1 hcd.1 hc.le (by positivity)
      _ = b * d * (slack i * slack j) := by ring
  · calc b * d ≤ a * slack i * (c * slack j) := mul_le_mul hab.2 hcd.2 hd.le (by positivity)
      _ = a * c * (slack i * slack j) := by ring

theorem Near.inv (h : Near k a b) (hb : 0 < b) : Near k a⁻¹ b⁻¹ := by
  have ha := h.pos hb
  constructor
  · rw [inv_mul_eq_div, le_div_iff₀ hb, inv_mul_le_iff₀ ha]
    exact h.2
  · rw [inv_mul_eq_div, le_div_iff₀ ha, inv_mul_le_iff₀ hb]
    exact h.1

theorem Near.abs_sub_le (h : Near k a b) (hk : k ≤ 1000) (hb : 0 < b) :
    |a - b| ≤ b * (k / 2 ^ 52) := by
  have ha := h.pos hb
  have hle := slack_le hk
  have hmore : a - b ≤ b * (slack k - 1) := by linarith [h.1]
  have hless : b - a ≤ b * (slack k - 1) := by
    have htwo : b * (2 - slack k) ≤ a * slack k * (2 - slack k) :=
      mul_le_mul_of_nonneg_right h.2 (by linarith [slack_le_two hk])
    have hsquare : 0 ≤ a * (slack k - 1) ^ 2 := by positivity
    linarith
  have hslack : b * (slack k - 1) ≤ b * (k / 2 ^ 52) :=
    mul_le_mul_of_nonneg_left (by linarith) hb.le
  rw [abs_le]
  constructor <;> linarith

theorem ratio_spec (x : Binary64) : 0 < x.ratio.2 ∧ (x.ratio.1 : ℚ) / x.ratio.2 = x.worth := by
  have hpow (k : Nat) : 0 < Nat.pow 2 k := Nat.pow_pos two_pos
  rw [worth_eq]
  unfold ratio
  split
  · rename_i h
    exact ⟨one_pos, by rw [zpow_of_nonneg h, Nat.cast_mul, Nat.cast_one, div_one]⟩
  · rename_i h
    exact ⟨hpow _, by rw [zpow_of_neg (by omega), mul_one_div]⟩

/-- A finite number at most so many roundings away from a positive one. -/
structure Rounds (x : Binary64) (k : Nat) (a : ℚ) : Prop where
  finite : x.isFinite
  near : Near k x.worth a

theorem finite_of_isZero (h : x.isZero = true) : x.isFinite := by
  rw [isZero, beq_iff_eq] at h
  rw [isFinite_iff, h]
  decide

theorem rational_of_isZero (h : x.isZero = true) : x.rational = 0 := by
  rw [rational, key_of_isZero h, rationalOf, if_pos le_rfl]
  exact worthOf_zero

theorem notNaN_of_finite (h : x.isFinite) : x.isNaN = false := by
  rw [isFinite_iff] at h
  rw [isNaN, decide_eq_false_iff_not]
  omega

theorem notInfinite_of_finite (h : x.isFinite) : x.isInfinite = false := by
  rw [isFinite_iff] at h
  rw [isInfinite, beq_eq_false_iff_ne]
  omega

theorem Rounds.nonzero (hx : x.Rounds k a) (ha : 0 < a) : x.isZero = false := by
  have hworth := hx.near.pos ha
  rw [isZero, beq_eq_false_iff_ne]
  intro h
  rw [worth, h, worthOf_zero] at hworth
  exact lt_irrefl 0 hworth

theorem rounds_ofRatio {num den : Nat} (hden : 0 < den) (hnear : Near k (num / den : ℚ) a)
    (hk : k ≤ 1000) (hlo : (2 : ℚ) ^ (-1021 : ℤ) ≤ a) (hhi : a < 2 ^ (1022 : ℤ)) (negative : Bool) :
    (ofRatio negative num den).Rounds (k + 1) a := by
  have hslack := slack_le_two hk
  have ha : 0 < a := lt_of_lt_of_le (by positivity) hlo
  have hpos := hnear.pos ha
  have hnum : 0 < num := by
    rcases Nat.eq_zero_or_pos num with rfl | h
    · simp at hpos
    · exact h
  have hratiolo : (2 : ℚ) ^ (-1022 : ℤ) ≤ num / den := by
    have h : a ≤ num / den * 2 := hnear.2.trans (by gcongr)
    have hdouble : (2 : ℚ) ^ (-1021 : ℤ) = 2 ^ (-1022 : ℤ) * 2 :=
      zpow_add_one₀ two_ne_zero (-1022)
    exact le_of_mul_le_mul_right (hdouble ▸ hlo.trans h) two_pos
  have hratiohi : (num / den : ℚ) < 2 ^ (1023 : ℤ) := by
    have h : (num / den : ℚ) ≤ a * 2 := hnear.1.trans (by gcongr)
    have hdouble : (2 : ℚ) ^ (1023 : ℤ) = 2 ^ (1022 : ℤ) * 2 := zpow_add_one₀ two_ne_zero 1022
    rw [hdouble]
    exact h.trans_lt (mul_lt_mul_of_pos_right hhi two_pos)
  obtain ⟨hfinite, hround⟩ := near_ofRatio hnum hden hratiolo hratiohi negative
  exact ⟨hfinite, Nat.add_comm 1 k ▸ hround.trans hnear⟩

theorem Rounds.mul (hx : x.Rounds i a) (hy : y.Rounds j b) (ha : 0 < a) (hb : 0 < b)
    (hij : i + j ≤ 1000) (hlo : (2 : ℚ) ^ (-1021 : ℤ) ≤ a * b) (hhi : a * b < 2 ^ (1022 : ℤ)) :
    (Binary64.mul x y).Rounds (i + j + 1) (a * b) := by
  obtain ⟨hxden, hxratio⟩ := x.ratio_spec
  obtain ⟨hyden, hyratio⟩ := y.ratio_spec
  have hnear := hx.near.mul hy.near ha hb
  rw [← hxratio, ← hyratio, div_mul_div_comm] at hnear
  unfold Binary64.mul
  rw [notNaN_of_finite hx.finite, notNaN_of_finite hy.finite, notInfinite_of_finite hx.finite,
    notInfinite_of_finite hy.finite]
  exact rounds_ofRatio (Nat.mul_pos hxden hyden) (by exact_mod_cast hnear) hij hlo hhi _

theorem Rounds.div (hx : x.Rounds i a) (hy : y.Rounds j b) (ha : 0 < a) (hb : 0 < b)
    (hij : i + j ≤ 1000) (hlo : (2 : ℚ) ^ (-1021 : ℤ) ≤ a / b) (hhi : a / b < 2 ^ (1022 : ℤ)) :
    (Binary64.div x y).Rounds (i + j + 1) (a / b) := by
  obtain ⟨hxden, hxratio⟩ := x.ratio_spec
  obtain ⟨hyden, hyratio⟩ := y.ratio_spec
  have hnear := hx.near.mul (hy.near.inv hb) ha (inv_pos.mpr hb)
  have hworth := hy.near.pos hb
  have hynum : 0 < y.ratio.1 := by
    rcases Nat.eq_zero_or_pos y.ratio.1 with h | h
    · simp [← hyratio, h] at hworth
    · exact h
  rw [← div_eq_mul_inv, ← div_eq_mul_inv, ← hxratio, ← hyratio, div_div_div_eq] at hnear
  unfold Binary64.div
  rw [notNaN_of_finite hx.finite, notNaN_of_finite hy.finite, notInfinite_of_finite hx.finite,
    notInfinite_of_finite hy.finite, hy.nonzero hb]
  exact rounds_ofRatio (Nat.mul_pos hxden hynum) (by exact_mod_cast hnear) hij hlo hhi _

theorem rounds_one : one.Rounds 0 1 := by
  have hsignificand : one.significand = leadingBit := by decide
  have hpower : one.power = -52 := by decide
  have hworth : one.worth = 1 := by
    rw [worth_eq, hsignificand, hpower]
    norm_num [leadingBit]
  exact ⟨by decide, hworth ▸ near_zero 1⟩

theorem rounds_ten : (ofNat 10).Rounds 0 10 := by
  have hsignificand : (ofNat 10).significand = 5 * 2 ^ 50 := by decide
  have hpower : (ofNat 10).power = -49 := by decide
  have hworth : (ofNat 10).worth = 10 := by
    rw [worth_eq, hsignificand, hpower]
    norm_num
  exact ⟨by decide, hworth ▸ near_zero 10⟩

theorem ten_pow_inside {n : Nat} (h : n ≤ 307) :
    (1 : ℚ) ≤ 10 ^ n ∧ (10 : ℚ) ^ n < 2 ^ (1020 : ℤ) := by
  have hlarge : (10 : ℚ) ^ 307 < 2 ^ 1020 := by
    exact_mod_cast (by decide +kernel : 10 ^ 307 < 2 ^ 1020)
  refine ⟨one_le_pow₀ (by norm_num), (pow_le_pow_right₀ (by norm_num) h).trans_lt ?_⟩
  exact hlarge.trans_eq (zpow_natCast 2 1020).symm

theorem Rounds.mul_ten_pow {m n : Nat} (hx : x.Rounds i (10 ^ m)) (hy : y.Rounds j (10 ^ n))
    (hij : i + j ≤ 1000) (hmn : m + n ≤ 307) :
    (Binary64.mul x y).Rounds (i + j + 1) (10 ^ (m + n)) := by
  obtain ⟨hone, hlarge⟩ := ten_pow_inside hmn
  have hlo : (2 : ℚ) ^ (-1021 : ℤ) ≤ 1 := zpow_le_one_of_nonpos₀ one_le_two (by decide)
  have hhi : (2 : ℚ) ^ (1020 : ℤ) ≤ 2 ^ (1022 : ℤ) := zpow_le_zpow_right₀ one_le_two (by decide)
  rw [pow_add] at hone hlarge ⊢
  exact hx.mul hy (by positivity) (by positivity) hij (hlo.trans hone) (hlarge.trans_le hhi)

/-- What has been multiplied and what is left to multiply make up the power, and so do the roundings of
both: squaring a base that is `j` roundings off leaves one that is `2 * j + 1` off. -/
theorem powerLoop_rounds {fuel n : Nat} (hfuel : n < fuel) (hx : x.Rounds i (10 ^ i))
    (hy : y.Rounds j (10 ^ (j + 1))) (hsum : i + (j + 1) * n ≤ 307) :
    (powerLoop fuel x y n).Rounds (i + (j + 1) * n) (10 ^ (i + (j + 1) * n)) := by
  induction fuel generalizing x y i j n with
  | zero => omega
  | succ fuel ih =>
    have hhalves : (j + 1) * n = (j + 1) * (n % 2) + (2 * j + 1 + 1) * (n / 2) := by
      calc (j + 1) * n = (j + 1) * (n % 2 + 2 * (n / 2)) := by rw [Nat.mod_add_div]
        _ = (j + 1) * (n % 2) + (2 * j + 1 + 1) * (n / 2) := by ring
    have hacc : (if n % 2 = 1 then mul x y else x).Rounds (i + (j + 1) * (n % 2))
        (10 ^ (i + (j + 1) * (n % 2))) := by
      split
      · rename_i hodd
        rw [hodd, Nat.mul_one] at hhalves ⊢
        exact hx.mul_ten_pow hy (by omega) (by omega)
      · rename_i heven
        rw [Nat.mod_two_ne_one.mp heven]
        exact hx
    rw [hhalves, ← Nat.add_assoc] at hsum ⊢
    unfold powerLoop
    dsimp only
    split
    · rename_i hlast
      rw [hlast]
      exact hacc
    · rename_i hmore
      have hle : (2 * j + 1 + 1) * 1 ≤ (2 * j + 1 + 1) * (n / 2) :=
        Nat.mul_le_mul_left _ (Nat.one_le_iff_ne_zero.mpr hmore)
      have hsquare := hy.mul_ten_pow hy (by omega) (by omega)
      rw [← Nat.two_mul, ← Nat.two_mul, Nat.mul_succ] at hsquare
      exact ih (by omega) hacc hsquare hsum

end Binary64

namespace Decimal

open Binary64

variable {d : Decimal}

theorem signedScale_of_small {s : UInt32} (h : s.toNat ≤ 307) : signedScale s = s.toNat := by
  have hsize : UInt32.size = 4294967296 := rfl
  refine Int.bmod_eq_of_le ?_ ?_ <;> rw [hsize] <;> omega

theorem power_rounds (h : d.scale.toNat ≤ 307) :
    ((Binary64.ofNat 10).pow (signedScale d.scale)).Rounds d.scale.toNat (10 ^ d.scale.toNat) := by
  have hloop := powerLoop_rounds (Nat.lt_succ_self d.scale.toNat)
    (by simpa using rounds_one : one.Rounds 0 (10 ^ 0))
    (by simpa using rounds_ten : (Binary64.ofNat 10).Rounds 0 (10 ^ (0 + 1))) (by omega)
  rw [Nat.zero_add, Nat.zero_add, Nat.one_mul] at hloop
  rw [signedScale_of_small h]
  unfold pow
  rw [if_neg (by omega), Int.natAbs_natCast]
  exact hloop

theorem unscaled_lt (d : Decimal) : (d.unscaled.natAbs : ℚ) < 2 ^ (1022 : ℤ) := by
  have hrange : d.unscaled.natAbs < 2 ^ 128 := by
    have hin := d.inRange
    simp only [Decimal.min, Decimal.max, Integer.size128] at hin
    omega
  calc (d.unscaled.natAbs : ℚ) < 2 ^ 128 := by exact_mod_cast hrange
    _ = 2 ^ (128 : ℤ) := (zpow_natCast 2 128).symm
    _ ≤ 2 ^ (1022 : ℤ) := zpow_le_zpow_right₀ one_le_two (by decide)

theorem one_le_unscaled (h : d.unscaled ≠ 0) : (1 : ℚ) ≤ d.unscaled.natAbs :=
  Nat.one_le_cast.mpr (Nat.one_le_iff_ne_zero.mpr (Int.natAbs_ne_zero.mpr h))

theorem unscaled_rounds (h : d.unscaled ≠ 0) :
    (Binary64.ofInt d.unscaled).Rounds 1 d.unscaled.natAbs := by
  have hlo : (2 : ℚ) ^ (-1021 : ℤ) ≤ 1 := zpow_le_one_of_nonpos₀ one_le_two (by decide)
  refine rounds_ofRatio one_pos ?_ (Nat.zero_le _) (hlo.trans (one_le_unscaled h)) (unscaled_lt d) _
  rw [Nat.cast_one, div_one]
  exact near_zero _

/-- The integer is rounded, every product of the power is, and the quotient. -/
theorem toBinary64_rounds (hscale : d.scale.toNat ≤ 307) (h : d.unscaled ≠ 0) :
    d.toBinary64.Rounds (d.scale.toNat + 2) (d.unscaled.natAbs / 10 ^ d.scale.toNat) := by
  have hone := one_le_unscaled h
  obtain ⟨hten, hlarge⟩ := ten_pow_inside hscale
  have hpower : (0 : ℚ) < 10 ^ d.scale.toNat := by positivity
  have hlo : (2 : ℚ) ^ (-1021 : ℤ) ≤ d.unscaled.natAbs / 10 ^ d.scale.toNat := by
    rw [le_div_iff₀ hpower]
    calc (2 : ℚ) ^ (-1021 : ℤ) * 10 ^ d.scale.toNat
        ≤ 2 ^ (-1021 : ℤ) * 2 ^ (1020 : ℤ) := by gcongr
      _ = 2 ^ (-1 : ℤ) := (zpow_add₀ two_ne_zero _ _).symm
      _ ≤ 1 := zpow_le_one_of_nonpos₀ one_le_two (by decide)
      _ ≤ d.unscaled.natAbs := hone
  have hhi : (d.unscaled.natAbs / 10 ^ d.scale.toNat : ℚ) < 2 ^ (1022 : ℤ) :=
    (div_le_self (Nat.cast_nonneg _) hten).trans_lt (unscaled_lt d)
  have hdiv := (unscaled_rounds h).div (power_rounds hscale) (by linarith) hpower (by omega) hlo hhi
  rwa [show 1 + d.scale.toNat + 1 = d.scale.toNat + 2 by omega] at hdiv

theorem toBinary64_isZero (hscale : d.scale.toNat ≤ 307) (h : d.unscaled = 0) :
    d.toBinary64.isZero = true := by
  have hpower := power_rounds hscale
  rw [toBinary64, h]
  refine (zero_div_isZero _).resolve_left fun hnan => ?_
  rw [notNaN_of_finite hpower.finite, hpower.nonzero (by positivity)] at hnan
  simp at hnan

theorem toBinary64_rational (hfinite : d.toBinary64.isFinite) :
    d.toBinary64.rational = if d.unscaled < 0 then -d.toBinary64.worth else d.toBinary64.worth := by
  have hsign : d.toBinary64.negative = decide (d.unscaled < 0) := by
    obtain hnan | hsign := div_sign (Binary64.ofInt d.unscaled)
      ((Binary64.ofNat 10).pow (signedScale d.scale))
    · rw [toBinary64, hnan] at hfinite
      exact absurd hfinite (by decide)
    · rw [toBinary64, hsign, power_unsigned, Binary64.ofInt, negative_ofRatio, Bool.bne_false]
  split
  · rename_i hneg
    exact rational_of_negative (hsign.trans (decide_eq_true hneg))
  · rename_i hnonneg
    exact rational_of_unsigned (hsign.trans (decide_eq_false hnonneg))

end Decimal

end Sluice
