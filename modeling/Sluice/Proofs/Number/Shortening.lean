import Mathlib.Tactic
import Sluice.Proofs.Number.Signs
import Sluice.Proofs.Value.Conversions

/-!
Whole numbers on their way through the nearest number and its shortest text. From `2 ^ 63` on the
numbers are 2048 apart, so some multiple of a thousand always reads back as the same number, but at
most one of ten thousand does. The shortest text is this one if there is one, and otherwise the multiple
of a thousand that is nearest to the number.
-/

namespace Sluice

namespace ShortDecimal

/-- What the digits stand for when no point comes before them or among them. -/
def whole (s : ShortDecimal) : Nat :=
  s.digits * 10 ^ s.exponent.toNat

structure IsWhole (s : ShortDecimal) : Prop where
  exponent : 0 ≤ s.exponent
  digits : 0 < s.digits

variable {s : ShortDecimal}

theorem normalize_whole (fuel : Nat) (h : s.IsWhole) :
    (s.normalize fuel).IsWhole ∧ (s.normalize fuel).whole = s.whole := by
  induction fuel generalizing s with
  | zero => exact ⟨h, rfl⟩
  | succ fuel ih =>
    rw [normalize]
    split
    · rename_i hzero
      have hexponent : (s.exponent + 1).toNat = s.exponent.toNat + 1 := by
        have := h.exponent
        omega
      have hshort : (⟨s.digits / 10, s.exponent + 1⟩ : ShortDecimal).IsWhole := by
        refine ⟨?_, ?_⟩ <;> dsimp only
        · have := h.exponent
          omega
        · omega
      obtain ⟨hwhole, hsame⟩ := ih hshort
      refine ⟨hwhole, hsame.trans ?_⟩
      calc s.digits / 10 * 10 ^ (s.exponent + 1).toNat
          = s.digits / 10 * 10 * 10 ^ s.exponent.toNat := by rw [hexponent, pow_succ]; ring
        _ = s.whole := by rw [Nat.div_mul_cancel (Nat.dvd_of_mod_eq_zero hzero.2), whole]
    · exact ⟨h, rfl⟩

end ShortDecimal

namespace Shortest

variable {tie : TieBreak} {i : Interval} {d d' : Nat}

theorem Interval.holds_iff {p : Nat} : i.holds d p = true ↔
    (i.low < d * 10 ^ p * i.den ∧ d * 10 ^ p * i.den < i.high) ∨
    (i.closed = true ∧ i.low ≤ d * 10 ^ p * i.den ∧ d * 10 ^ p * i.den ≤ i.high) := by
  simp only [holds, Nat.cast_nonneg, ge_iff_le, if_true, Int.toNat_natCast, Nat.pow_eq, Nat.mul_one]
  split <;> rename_i hclosed <;>
    simp only [hclosed, Bool.and_eq_true, decide_eq_true_eq, Bool.false_eq_true, true_and,
      false_and]
  · omega
  · exact (or_false _).symm.to_iff

theorem Interval.holds_congr {p p' : Nat} (h : d * 10 ^ p = d' * 10 ^ p') :
    i.holds d p = i.holds d' p' := by
  simp only [holds, Nat.cast_nonneg, ge_iff_le, if_true, Int.toNat_natCast, Nat.pow_eq, h]

theorem Interval.of_power {x : Binary64} {k : Nat} (h : x.power = k) :
    Interval.of x =
      ⟨(4 * x.significand - if x.fraction = 0 ∧ 1 < x.exponentField then 1 else 2) * 2 ^ k,
        4 * x.significand * 2 ^ k, (4 * x.significand + 2) * 2 ^ k, 4, x.significand % 2 = 0⟩ := by
  simp only [Interval.of, h, Nat.cast_nonneg, ge_iff_le, if_true, Int.toNat_natCast, Nat.pow_eq]

theorem mem_neighbours {p : Nat} : d ∈ neighbours tie i p ↔
    d = i.mid / (i.den * 10 ^ p) ∨ d = i.mid / (i.den * 10 ^ p) + 1 := by
  simp only [neighbours, Nat.cast_nonneg, ge_iff_le, if_true, Int.toNat_natCast, Nat.pow_eq]
  split <;> simp [or_comm]

/-- The search stops at the latest on a grid that has a neighbour in the interval. -/
theorem search_spec {fuel : Nat} {p p₀ : Int} (hp : p₀ ≤ p) (hfuel : p < p₀ + fuel)
    (h : ∃ d ∈ neighbours tie i p₀, 0 < d ∧ i.holds d p₀ = true) :
    p₀ ≤ (search tie i fuel p).exponent ∧ 0 < (search tie i fuel p).digits ∧
      i.holds (search tie i fuel p).digits (search tie i fuel p).exponent = true := by
  induction fuel generalizing p with
  | zero => omega
  | succ fuel ih =>
    rw [search]
    split
    · rename_i d hd
      have := List.find?_some hd
      simp only [Bool.and_eq_true, decide_eq_true_eq] at this
      exact ⟨hp, this⟩
    · rename_i hnone
      have hne : p ≠ p₀ := by
        rintro rfl
        obtain ⟨d, hd, hpos, hholds⟩ := h
        have := List.find?_eq_none.mp hnone d hd
        simp [hpos, hholds] at this
      exact ih (by omega) (by omega)

/-- Where no coarser grid has a neighbour in the interval, the first one that this grid has is taken. -/
theorem search_eq {fuel : Nat} {p p₀ : Int} (hp : p₀ ≤ p) (hfuel : p < p₀ + fuel)
    (hcoarse : ∀ q, p₀ < q → ∀ d, i.holds d q = false)
    (hd : (neighbours tie i p₀).find? (fun d => 0 < d && i.holds d p₀) = some d) :
    search tie i fuel p = ⟨d, p₀⟩ := by
  induction fuel generalizing p with
  | zero => omega
  | succ fuel ih =>
    rw [search]
    rcases Int.lt_or_eq_of_le hp with hlt | rfl
    · have hnone : (neighbours tie i p).find? (fun d => 0 < d && i.holds d p) = none := by
        simp [hcoarse p hlt]
      rw [hnone]
      exact ih (by omega) (by omega)
    · rw [hd]

/-- An interval around `x` with room for a multiple of a thousand, but not for two of ten
thousand. -/
structure Roomy (i : Interval) (x : Nat) : Prop where
  den : i.den = 4
  mid : i.mid = 4 * x
  low : 4 * x ≤ i.low + 4096 ∧ i.low + 2048 ≤ 4 * x
  high : 4 * x + 4096 ≤ i.high ∧ i.high ≤ 4 * x + 8192

namespace Roomy

variable {x n : Nat} (h : Roomy i x)
include h

theorem near_of_holds {p : Nat} (hd : i.holds d p = true) :
    x ≤ d * 10 ^ p + 1024 ∧ d * 10 ^ p ≤ x + 2048 := by
  have hhigh := h.high
  have hlow := h.low
  rw [Interval.holds_iff, h.den] at hd
  omega

/-- Of the multiples of ten thousand only one can be in the interval, and a step of this size does not
pass it by. -/
theorem search_of_dvd (tie : TieBreak) (hx : 10000 ≤ x) (hn : 10000 ∣ n)
    (hholds : i.holds n (0 : Nat) = true) :
    (search tie i 20 20).IsWhole ∧ (search tie i 20 20).whole = n := by
  obtain ⟨k, rfl⟩ := hn
  have hnear := h.near_of_holds hholds
  have hk : i.holds k (4 : Nat) = true := by
    rw [← hholds]
    exact Interval.holds_congr (by omega)
  have hmem : k ∈ neighbours tie i (4 : Nat) := by
    rw [mem_neighbours, h.den, h.mid]
    omega
  obtain ⟨hexponent, hdigits, hs⟩ := search_spec (show ((4 : Nat) : Int) ≤ 20 by decide)
    (show (20 : Int) < (4 : Nat) + (20 : Nat) by decide) ⟨k, hmem, by omega, hk⟩
  obtain ⟨p, hp⟩ := Int.eq_ofNat_of_zero_le (le_trans (by decide) hexponent)
  rw [hp] at hs hexponent
  obtain ⟨j, hj⟩ : 10 ^ 4 ∣ (search tie i 20 20).digits * 10 ^ p :=
    dvd_mul_of_dvd_right (pow_dvd_pow 10 (by omega)) _
  have hsame := h.near_of_holds hs
  refine ⟨⟨by omega, hdigits⟩, ?_⟩
  rw [ShortDecimal.whole, hp, Int.toNat_natCast]
  omega

/-- If there is none, the search goes down to the thousands and takes the nearer neighbour. -/
theorem search_of_none (hnone : ∀ k, 10000 ∣ k → i.holds k (0 : Nat) = false) :
    search .up i 20 20 = ⟨(x + 500) / 1000, (3 : Nat)⟩ := by
  have hlow := h.low
  have hhigh := h.high
  obtain ⟨rest, hrest⟩ : ∃ rest, neighbours .up i (3 : Nat) = (x + 500) / 1000 :: rest := by
    simp only [neighbours, Nat.cast_nonneg, ge_iff_le, if_true, Int.toNat_natCast, Nat.pow_eq, h.den,
      h.mid]
    split <;> rename_i hup <;>
      simp only [Bool.or_eq_true, Bool.and_eq_true, decide_eq_true_eq, beq_iff_eq, true_or,
        and_true] at hup
    · exact ⟨_, congrArg (· :: _) (by omega)⟩
    · exact ⟨_, congrArg (· :: _) (by omega)⟩
  have hinside : i.holds ((x + 500) / 1000) (3 : Nat) = true := by
    rw [Interval.holds_iff, h.den]
    omega
  refine search_eq (by decide) (by decide) (fun q hq d => ?_) ?_
  · obtain ⟨p, rfl⟩ := Int.eq_ofNat_of_zero_le (le_trans (by decide) hq.le)
    have hdvd : 10 ^ 4 ∣ d * 10 ^ p := dvd_mul_of_dvd_right (pow_dvd_pow 10 (by omega)) _
    rw [← hnone _ hdvd]
    exact Interval.holds_congr (by omega)
  · have hpos : 0 < (x + 500) / 1000 := by omega
    rw [hrest, List.find?_cons_of_pos]
    rw [hinside, decide_eq_true hpos]
    rfl

end Roomy

end Shortest

namespace Integer

/-- The multiple of 2048 nearest to a whole number, of two the even one. From `2 ^ 63` to `2 ^ 64` this
is what the nearest number is worth. -/
def nearest (n : Nat) : Nat :=
  2048 * Binary64.roundEven n 2048

/-- What a whole number is shortened to: the multiple of ten thousand with the same nearest number if
there is one, and otherwise the multiple of a thousand nearest to that number, of two the larger. -/
structure Shortened (n c : Nat) : Prop where
  coarse (k : Nat) (dvd : 10000 ∣ k) (same : nearest k = nearest n) : c = k
  fine (none : ∀ k, 10000 ∣ k → nearest k ≠ nearest n) : c = (nearest n + 500) / 1000 * 1000

/-- Half a unit of the last place may be lost, and a whole half only for an even significand. -/
theorem nearest_gap (n : Nat) :
    nearest n ≤ n + 1024 ∧ n ≤ nearest n + 1024 ∧ nearest n = 2048 * Binary64.roundEven n 2048 ∧
      (Binary64.roundEven n 2048 % 2 = 1 → nearest n < n + 1024 ∧ n < nearest n + 1024) := by
  unfold nearest Binary64.roundEven
  dsimp only
  split <;> rename_i h <;>
    simp only [Bool.or_eq_true, Bool.and_eq_true, decide_eq_true_eq, beq_iff_eq] at h <;> omega

theorem nearest_eq_iff {k m : Nat} : nearest k = 2048 * m ↔
    (2048 * m < k + 1024 ∧ k < 2048 * m + 1024) ∨
    (m % 2 = 0 ∧ 2048 * m ≤ k + 1024 ∧ k ≤ 2048 * m + 1024) := by
  obtain ⟨hbelow, habove, hnearest, hodd⟩ := nearest_gap k
  constructor
  · intro h
    obtain rfl : m = Binary64.roundEven k 2048 := by omega
    omega
  · rintro (h | h) <;> omega

namespace Shortened

variable {n c c' : Nat}

theorem unique (h : Shortened n c) (h' : Shortened n c') : c = c' := by
  by_cases hk : ∃ k, 10000 ∣ k ∧ nearest k = nearest n
  · obtain ⟨k, hk, hsame⟩ := hk
    rw [h.coarse k hk hsame, h'.coarse k hk hsame]
  · have hnone (k : Nat) (hdvd : 10000 ∣ k) (hsame : nearest k = nearest n) : False :=
      hk ⟨k, hdvd, hsame⟩
    rw [h.fine hnone, h'.fine hnone]

theorem near (h : Shortened n c) : 1000 ∣ c ∧ c ≤ n + 2048 ∧ n ≤ c + 2048 := by
  obtain ⟨hbelow, habove, -⟩ := nearest_gap n
  by_cases hk : ∃ k, 10000 ∣ k ∧ nearest k = nearest n
  · obtain ⟨k, hk, hsame⟩ := hk
    obtain ⟨hbelow', habove', -⟩ := nearest_gap k
    rw [h.coarse k hk hsame]
    omega
  · rw [h.fine fun k hdvd hsame => hk ⟨k, hdvd, hsame⟩]
    omega

end Shortened

end Integer

namespace Binary64

open Integer (nearest nearest_gap)

section

variable {n : Nat} (hlo : 2 ^ 63 ≤ n) (hhi : n < 2 ^ 64)
include hlo hhi

theorem log2_large : n.log2 = 63 :=
  (Nat.log2_eq_iff (by omega)).mpr ⟨hlo, hhi⟩

theorem floorLog2_large : floorLog2 n 1 = 63 := by
  have hone : Nat.log2 1 = 0 := rfl
  unfold floorLog2 scaled
  simp only [log2_large hlo hhi, hone, Nat.pow_eq]
  norm_num [show Int.toNat 63 = 63 from rfl]
  omega

theorem ofInt_large : ofInt n =
    ofMagnitude false (1086 * leadingBit + (roundEven n 2048 - leadingBit)) := by
  obtain ⟨hbelow, habove, hnearest, -⟩ := nearest_gap n
  have hnonzero : n ≠ 0 := by omega
  have hnormal : ¬ roundEven n 2048 < leadingBit := by
    unfold leadingBit
    omega
  have hfinite : 1086 * leadingBit + (roundEven n 2048 - leadingBit) ≤ infinityMagnitude := by
    unfold infinityMagnitude leadingBit
    omega
  have hscaled : scaled n 1 11 = (n, 2048) := rfl
  rw [ofInt, decide_eq_false (by omega), Int.natAbs_natCast, ofRatio, if_neg hnonzero,
    floorLog2_large hlo hhi]
  change ofMagnitude false (packMagnitude (roundEven (scaled n 1 11).1 (scaled n 1 11).2) 11) = _
  rw [hscaled, packMagnitude, if_neg hnormal]
  exact congrArg _ (Nat.min_eq_left hfinite)

theorem negative_ofInt_large : (ofInt n).negative = false := by
  rw [ofInt, negative_ofRatio, decide_eq_false_iff_not]
  omega

theorem magnitude_large :
    (ofInt n).magnitude = 1086 * leadingBit + (roundEven n 2048 - leadingBit) := by
  obtain ⟨hbelow, habove, hnearest, -⟩ := nearest_gap n
  rw [ofInt_large hlo hhi]
  refine magnitude_ofMagnitude ?_ _
  unfold signBit leadingBit
  omega

/-- The significand has come out below twice the leading bit, or as twice the leading bit: then it is
the first one of the next exponent. -/
theorem parts_large :
    (roundEven n 2048 < 2 * leadingBit ∧ (ofInt n).significand = roundEven n 2048 ∧
      (ofInt n).power = 11 ∧ (ofInt n).fraction = roundEven n 2048 - leadingBit ∧
      (ofInt n).exponentField = 1086) ∨
    (roundEven n 2048 = 2 * leadingBit ∧ (ofInt n).significand = leadingBit ∧
      (ofInt n).power = 12 ∧ (ofInt n).fraction = 0 ∧ (ofInt n).exponentField = 1087) := by
  obtain ⟨hbelow, habove, hnearest, -⟩ := nearest_gap n
  have hmagnitude := magnitude_large hlo hhi
  have hexponent : (ofInt n).exponentField =
      (1086 * leadingBit + (roundEven n 2048 - leadingBit)) / leadingBit := by
    rw [exponentField, hmagnitude]
  have hfraction : (ofInt n).fraction =
      (1086 * leadingBit + (roundEven n 2048 - leadingBit)) % leadingBit := by
    rw [fraction, hmagnitude]
  unfold leadingBit at hexponent hfraction
  unfold significand power leadingBit
  by_cases hm : roundEven n 2048 < 2 * leadingBit <;> unfold leadingBit at hm
  · have he : (ofInt n).exponentField = 1086 := by omega
    have hf : (ofInt n).fraction = roundEven n 2048 - 0x10000000000000 := by omega
    refine .inl ⟨hm, ?_, ?_, hf, he⟩
    · rw [if_neg (by omega), hf]
      omega
    · rw [he]
      rfl
  · have he : (ofInt n).exponentField = 1087 := by omega
    have hf : (ofInt n).fraction = 0 := by omega
    refine .inr ⟨by omega, ?_, ?_, hf, he⟩
    · rw [if_neg (by omega), hf]
    · rw [he]
      rfl

/-- The interval reaches half a unit to either side; at `2 ^ 63` the unit below is half as large, and
at `2 ^ 64` the one above is twice as large. -/
theorem interval_large : ∃ below above : Nat,
    Shortest.Interval.of (ofInt n) = ⟨4 * nearest n - below, 4 * nearest n, 4 * nearest n + above, 4,
      roundEven n 2048 % 2 = 0⟩ ∧
    (below = 4096 ∧ above = 4096 ∨ nearest n = 2 ^ 63 ∧ below = 2048 ∧ above = 4096 ∨
      nearest n = 2 ^ 64 ∧ below = 4096 ∧ above = 8192) := by
  obtain ⟨hbelow, habove, hnearest, -⟩ := nearest_gap n
  obtain ⟨hm, hs, hp, hf, he⟩ | ⟨hm, hs, hp, hf, he⟩ := parts_large hlo hhi
  · rw [Shortest.Interval.of_power (k := 11) hp, hs, hf, he]
    by_cases hleast : roundEven n 2048 = leadingBit <;> unfold leadingBit at *
    · refine ⟨2048, 4096, ?_, .inr (.inl ⟨by omega, rfl, rfl⟩)⟩
      rw [if_pos ⟨by omega, by decide⟩, hleast, hnearest, hleast]
      rfl
    · refine ⟨4096, 4096, ?_, .inl ⟨rfl, rfl⟩⟩
      rw [if_neg (by omega), hnearest, Shortest.Interval.mk.injEq]
      exact ⟨by omega, by omega, by omega, rfl, rfl⟩
  · refine ⟨4096, 8192, ?_, .inr (.inr ⟨by unfold leadingBit at hm; omega, rfl, rfl⟩)⟩
    rw [Shortest.Interval.of_power (k := 12) hp, hs, hf, he, if_pos ⟨rfl, by decide⟩, hnearest, hm]
    rfl

theorem roomy_large : Shortest.Roomy (.of (ofInt n)) (nearest n) := by
  obtain ⟨hbelow, habove, hnearest, -⟩ := nearest_gap n
  obtain ⟨below, above, hinterval, hends⟩ := interval_large hlo hhi
  rw [hinterval]
  constructor <;> dsimp only <;> omega

/-- In the interval are the whole numbers with the same nearest number, as far as the multiples of
ten thousand go. -/
theorem holds_large {k : Nat} (hk : 10000 ∣ k) :
    (Shortest.Interval.of (ofInt n)).holds k (0 : Nat) = true ↔ nearest k = nearest n := by
  obtain ⟨hbelow, habove, hnearest, -⟩ := nearest_gap n
  obtain ⟨below, above, hinterval, hends⟩ := interval_large hlo hhi
  rw [Shortest.Interval.holds_iff, hinterval]
  conv_rhs => rw [hnearest, Integer.nearest_eq_iff, ← hnearest]
  simp only [decide_eq_true_eq, pow_zero, Nat.mul_one]
  rcases hends with ⟨rfl, rfl⟩ | ⟨hx, rfl, rfl⟩ | ⟨hx, rfl, rfl⟩
  · refine or_congr (and_congr ?_ ?_) (and_congr Iff.rfl (and_congr ?_ ?_)) <;> omega
  -- where the units differ, no multiple of ten thousand is close enough for it to matter
  · rw [hx]
    omega
  · rw [hx]
    omega

theorem exponentBound_large : Shortest.exponentBound (ofInt n) = 20 := by
  obtain ⟨hbelow, habove, hnearest, -⟩ := nearest_gap n
  have hlog {m : Nat} (hlo : leadingBit ≤ m) (hhi : m < 2 * leadingBit) : m.log2 = 52 :=
    (Nat.log2_eq_iff (by unfold leadingBit at hlo; omega)).mpr ⟨hlo, hhi⟩
  unfold Shortest.exponentBound
  obtain ⟨hm, hs, hp, -⟩ | ⟨-, hs, hp, -⟩ := parts_large hlo hhi
  · rw [hs, hp, hlog (by unfold leadingBit; omega) hm]
    rfl
  · rw [hs, hp, hlog le_rfl (by decide)]
    rfl

theorem shortest_eq_search : (ofInt n).shortest .up =
    (Shortest.search .up (.of (ofInt n)) 20 20).normalize 20 := by
  obtain ⟨hbelow, habove, hnearest, -⟩ := nearest_gap n
  have hzero : (ofInt n).isZero = false := by
    rw [isZero, magnitude_large hlo hhi, beq_eq_false_iff_ne]
    unfold leadingBit
    omega
  rw [shortest, hzero, if_neg Bool.false_ne_true, exponentBound_large hlo hhi]

theorem shortest_large : ((ofInt n).shortest .up).IsWhole ∧
    Integer.Shortened n ((ofInt n).shortest .up).whole := by
  obtain ⟨hbelow, habove, -⟩ := nearest_gap n
  have hroomy := roomy_large hlo hhi
  have hholds {k : Nat} (hk : 10000 ∣ k) := holds_large hlo hhi hk
  rw [shortest_eq_search hlo hhi]
  by_cases hk : ∃ k, 10000 ∣ k ∧ nearest k = nearest n
  · obtain ⟨k, hk, hsame⟩ := hk
    have hsearch {k : Nat} (hk : 10000 ∣ k) (hsame : nearest k = nearest n) :=
      hroomy.search_of_dvd .up (by omega) hk ((hholds hk).mpr hsame)
    obtain ⟨hwhole, hnormal⟩ := ShortDecimal.normalize_whole 20 (hsearch hk hsame).1
    rw [hnormal]
    exact ⟨hwhole, fun k' hk' hsame' => (hsearch hk' hsame').2, fun hnone => absurd hsame (hnone k hk)⟩
  · have hnone (k : Nat) (hdvd : 10000 ∣ k) (hsame : nearest k = nearest n) : False :=
      hk ⟨k, hdvd, hsame⟩
    have hsearch := hroomy.search_of_none fun k hk =>
      Bool.eq_false_iff.mpr fun h => hnone k hk ((hholds hk).mp h)
    have hthousands : (⟨(nearest n + 500) / 1000, (3 : Nat)⟩ : ShortDecimal).IsWhole :=
      ⟨Int.natCast_nonneg 3, by dsimp only; omega⟩
    obtain ⟨hwhole, hnormal⟩ := ShortDecimal.normalize_whole 20 hthousands
    rw [hsearch, hnormal]
    exact ⟨hwhole, fun k hk hsame => absurd hsame (hnone k hk), fun _ => rfl⟩

theorem roundAway_large : (ofInt n).roundAway = nearest n := by
  have hpower : (ofInt n).significand * 2 ^ (ofInt n).power.toNat = nearest n ∧
      0 ≤ (ofInt n).power := by
    obtain ⟨-, hs, hp, -⟩ | ⟨hm, hs, hp, -⟩ := parts_large hlo hhi
    · rw [hs, hp]
      exact ⟨Nat.mul_comm _ _, by decide⟩
    · rw [hs, hp, nearest, hm]
      decide
  obtain ⟨hratio, hpos⟩ := hpower
  simp only [roundAway, ratio, hpos, if_true, Nat.pow_eq, hratio, negative_ofInt_large hlo hhi,
    Bool.false_eq_true, if_false]
  omega

theorem finite_large : (ofInt n).isFinite = true := by
  obtain ⟨hbelow, habove, hnearest, -⟩ := nearest_gap n
  rw [isFinite, decide_eq_true_eq, magnitude_large hlo hhi]
  unfold infinityMagnitude leadingBit
  omega

end

end Binary64

theorem toDigits_mul_pow {d : Nat} (h : 0 < d) (k : Nat) :
    Nat.toDigits 10 (d * 10 ^ k) = Nat.toDigits 10 d ++ List.replicate k '0' := by
  induction k with
  | zero => simp
  | succ k ih =>
    have hpos : 0 < d * 10 ^ k := Nat.mul_pos h (Nat.pow_pos (by decide))
    calc Nat.toDigits 10 (d * 10 ^ (k + 1))
        = Nat.toDigits 10 (10 * (d * 10 ^ k) + 0) := by rw [pow_succ]; congr 1; ring
      _ = Nat.toDigits 10 (d * 10 ^ k) ++ Nat.toDigits 10 0 :=
        (Nat.toDigits_append_toDigits (by decide) hpos (by decide)).symm
      _ = Nat.toDigits 10 d ++ List.replicate (k + 1) '0' := by
        rw [ih, List.append_assoc, List.replicate_succ']
        rfl

theorem Decimal.format_whole (n : Int) (h : Decimal.min ≤ n ∧ n ≤ Decimal.max) :
    (⟨n, 0, h⟩ : Decimal).format = Integer.format n := by
  rw [← String.toList_inj, Integer.toList_format, Decimal.format, Decimal.formatChars, if_pos rfl,
    String.toList_ofList]

theorem NumberFormat.plain_write {x : Binary64} (hfinite : x.isFinite = true)
    (hsign : x.negative = false) (hwhole : (x.shortest .up).IsWhole) :
    NumberFormat.plain.write x = Integer.format (x.shortest .up).whole := by
  generalize hs : x.shortest .up = s at hwhole ⊢
  have hexponent := hwhole.exponent
  have hlength : 0 < (Nat.toDigits 10 s.digits).length :=
    List.length_pos_iff.mpr Nat.toDigits_ne_nil
  have hlaid : layPositional false (Nat.toDigits 10 s.digits)
      ((Nat.toDigits 10 s.digits).length + s.exponent) = Nat.toDigits 10 s.whole := by
    rw [layPositional, if_neg (by omega), if_pos (by omega), ShortDecimal.whole,
      toDigits_mul_pow hwhole.digits, zeros, add_sub_cancel_left]
    simp
  rw [← String.toList_inj, Integer.toList_format, Int.natAbs_natCast, if_neg (by omega),
    List.nil_append, ← hlaid]
  simp [write, plain, Binary64.notNaN_of_finite hfinite, Binary64.notInfinite_of_finite hfinite,
    hsign, hs]

namespace Integer

/-- A whole number as it comes out of a configuration: one beyond the signed range goes through the
nearest number and its shortest decimal. -/
def carried (n : Int) : Int :=
  if fitsInt64 n then n else ((Binary64.ofInt n).shortest .up).whole

variable {n : Int}

theorem large_of_not_fits (hhi : n < 2 ^ 64) (hlo : -2 ^ 63 ≤ n) (h : ¬ fitsInt64 n) :
    ∃ k : Nat, n = k ∧ 2 ^ 63 ≤ k ∧ k < 2 ^ 64 := by
  have hmin : Int64.minValue.toInt = -2 ^ 63 := rfl
  have hmax : Int64.maxValue.toInt = 2 ^ 63 - 1 := rfl
  rw [fitsInt64, hmin, hmax] at h
  exact ⟨n.toNat, by omega, by omega, by omega⟩

theorem carried_of_fits (h : fitsInt64 n) : carried n = n :=
  if_pos h

theorem carried_of_large {k : Nat} (hlo : 2 ^ 63 ≤ k) (hhi : k < 2 ^ 64) :
    ∃ c : Nat, carried k = c ∧ Shortened k c := by
  have hfits : ¬ fitsInt64 k := by
    have hmax : Int64.maxValue.toInt = 2 ^ 63 - 1 := rfl
    rw [fitsInt64, hmax]
    omega
  exact ⟨_, if_neg hfits, (Binary64.shortest_large hlo hhi).2⟩

end Integer

namespace Value

variable {n : Nat} (hlo : 2 ^ 63 ≤ n) (hhi : n < 2 ^ 64)
include hlo hhi

theorem format_large : (number (.ofInt n)).format =
    Integer.format ((Binary64.ofInt n).shortest .up).whole :=
  NumberFormat.plain_write (Binary64.finite_large hlo hhi)
    (Binary64.negative_ofInt_large hlo hhi) (Binary64.shortest_large hlo hhi).1

theorem convert_large_string : (number (.ofInt n)).convert .string =
    .ok (.string (Integer.format ((Binary64.ofInt n).shortest .up).whole)) := by
  rw [← format_large hlo hhi]
  rfl

theorem convert_large_decimal : ∃ d : Decimal,
    d.unscaled = ((Binary64.ofInt n).shortest .up).whole ∧ d.scale = 0 ∧
      (number (.ofInt n)).convert .bigNumber = .ok (.bigNumber d) := by
  obtain ⟨-, hnear, -⟩ := (Binary64.shortest_large hlo hhi).2.near
  have hrange : Decimal.min ≤ (((Binary64.ofInt n).shortest .up).whole : Int) ∧
      (((Binary64.ofInt n).shortest .up).whole : Int) ≤ Decimal.max := by
    simp only [Decimal.min, Decimal.max, Integer.size128]
    omega
  have hread : (number (.ofInt n)).toDecimal = .ok ⟨_, 0, hrange⟩ := by
    simp only [toDecimal, Binary64.finite_large hlo hhi, if_true]
    have hformat : NumberFormat.plain.write (.ofInt n) = _ := format_large hlo hhi
    rw [hformat, ← Decimal.format_whole _ hrange, readDecimal_eq_ok, Decimal.read_format_iff]
    simp only [Decimal.min, Integer.size128]
    omega
  refine ⟨⟨_, 0, hrange⟩, rfl, rfl, ?_⟩
  change (number (.ofInt n)).toDecimal.map _ = _
  rw [hread]
  rfl

theorem convert_large_integer :
    ∃ e, (number (.ofInt n)).convert .integer = .error e := by
  have hfits : ¬ Integer.fitsInt64 (Binary64.ofInt n).roundAway := by
    obtain ⟨-, habove, hnearest, -⟩ := Integer.nearest_gap n
    have hmax : Int64.maxValue.toInt = 2 ^ 63 - 1 := rfl
    rw [Binary64.roundAway_large hlo hhi, Integer.fitsInt64, hmax]
    omega
  refine ⟨⟨number (.ofInt n), .integer, .outOfRange⟩, ?_⟩
  change (((number (.ofInt n)).toInteger).mapError _).map _ = _
  simp only [toInteger, Binary64.finite_large hlo hhi, if_true, integerInRange, if_neg hfits]
  rfl

end Value

end Sluice
