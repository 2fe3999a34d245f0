/-
# The nearest double depends on the value alone

A number may be given as a fraction in many ways, and as a decimal with any number of zeros
at its end.  What is read is the same: the nearest double to a fraction is found from the
value of the fraction (`nearestRank_congr`), and the powers of ten that are never worked out
make no difference (`min_rank`).  So a decimal is read as a double by its sign and its
magnitude (`Decimal.toFloat_congr`).

The double nearest to the value of a double is that double (`nearestRank_value`).
-/

import Mathlib.Algebra.Order.Field.Power
import Mathlib.Data.Int.Log
import Mathlib.Data.Rat.Floor
import Mathlib.Tactic.FieldSimp
import Mathlib.Tactic.Linarith
import Mathlib.Tactic.NormNum
import Mathlib.Tactic.Positivity
import Railroad.Number.Shortest

namespace Railroad
namespace Number

/-! ### Fractions -/

/-- The value of a fraction. -/
def Ratio.toRat (x : Ratio) : ℚ := x.num / x.den

namespace Ratio

/-- A scaled number has a denominator. -/
theorem den_scaled_pos (n : Nat) {base : Nat} (hbase : 0 < base) (power : Int) :
    0 < (scaled n base power).den := by
  rw [scaled]
  split
  · exact one_pos
  · exact Nat.pow_pos hbase

/-- A fraction divided by a power keeps a denominator. -/
theorem den_over_pos {x : Ratio} (hx : 0 < x.den) {base : Nat} (hbase : 0 < base) (power : Int) :
    0 < (x.over base power).den := by
  rw [Ratio.over]
  split
  · exact Nat.mul_pos hx (Nat.pow_pos hbase)
  · exact hx

/-- The value of a scaled number. -/
theorem toRat_scaled (n base : Nat) (power : Int) :
    (scaled n base power).toRat = n * (base : ℚ) ^ power := by
  rw [scaled]
  split
  case isTrue h =>
    obtain ⟨p, rfl⟩ := Int.eq_ofNat_of_zero_le h
    simp [toRat]
  case isFalse h =>
    obtain ⟨p, rfl⟩ := Int.exists_eq_neg_ofNat (by omega : power ≤ 0)
    simp [toRat, div_eq_mul_inv]

/-- The value of a fraction divided by a power. -/
theorem toRat_over (x : Ratio) (base : Nat) (power : Int) :
    (x.over base power).toRat = x.toRat / (base : ℚ) ^ power := by
  rw [Ratio.over]
  split
  case isTrue h =>
    obtain ⟨p, rfl⟩ := Int.eq_ofNat_of_zero_le h
    simp [toRat, div_div]
  case isFalse h =>
    obtain ⟨p, rfl⟩ := Int.exists_eq_neg_ofNat (by omega : power ≤ 0)
    simp [toRat, mul_div_right_comm]

/-- Two fractions have one value exactly if they agree crosswise. -/
theorem toRat_eq_iff {x y : Ratio} (hx : 0 < x.den) (hy : 0 < y.den) :
    x.toRat = y.toRat ↔ x.num * y.den = y.num * x.den := by
  rw [toRat, toRat, div_eq_div_iff (by positivity) (by positivity)]
  exact_mod_cast Iff.rfl

/-- A fraction is zero exactly if its numerator is. -/
theorem toRat_eq_zero_iff {x : Ratio} (hx : 0 < x.den) : x.toRat = 0 ↔ x.num = 0 := by
  rw [toRat, div_eq_zero_iff, Nat.cast_eq_zero, Nat.cast_eq_zero]
  exact or_iff_left hx.ne'

/-- A fraction that is not zero is positive. -/
theorem toRat_pos {x : Ratio} (hx : 0 < x.den) (hnum : x.num ≠ 0) : 0 < x.toRat :=
  div_pos (Nat.cast_pos.2 (Nat.pos_of_ne_zero hnum)) (Nat.cast_pos.2 hx)

end Ratio

/-! ### Rounding -/

/-- What is rounded does not depend on how the fraction is written, … -/
theorem roundHalfEven_mul_mul (num den : Nat) {c : Nat} (hc : 0 < c) :
    roundHalfEven (num * c) (den * c) = roundHalfEven num den := by
  have htwice : 2 * (num * c % (den * c)) = 2 * (num % den) * c := by
    rw [Nat.mul_mod_mul_right, Nat.mul_assoc]
  simp only [roundHalfEven, Nat.mul_div_mul_right _ _ hc, htwice, Nat.mul_lt_mul_right hc]

/-- Rounding depends on the value of a quotient alone. -/
theorem roundHalfEven_congr {x y : Ratio} (hx : 0 < x.den) (hy : 0 < y.den)
    (h : x.toRat = y.toRat) : roundHalfEven x.num x.den = roundHalfEven y.num y.den := by
  rw [← roundHalfEven_mul_mul x.num x.den hy, ← roundHalfEven_mul_mul y.num y.den hx,
    (Ratio.toRat_eq_iff hx hy).1 h, Nat.mul_comm x.den]

/-- … a whole number is not changed by rounding, … -/
theorem roundHalfEven_of_toRat_eq {x : Ratio} (hx : 0 < x.den) {n : Nat} (h : x.toRat = n) :
    roundHalfEven x.num x.den = n := by
  have hone : x.toRat = Ratio.toRat ⟨n, 1⟩ := by rw [h, Ratio.toRat, Nat.cast_one, div_one]
  rw [roundHalfEven_congr (y := ⟨n, 1⟩) hx one_pos hone]
  simpa using roundHalfEven_mul n one_pos

/-- … no fraction is rounded below a whole number that it reaches, … -/
theorem le_roundHalfEven {x : Ratio} (hx : 0 < x.den) {n : Nat} (h : n ≤ x.toRat) :
    n ≤ roundHalfEven x.num x.den := by
  rw [Ratio.toRat, le_div_iff₀ (by positivity)] at h
  have hbelow : n ≤ x.num / x.den := (Nat.le_div_iff_mul_le hx).2 (by exact_mod_cast h)
  rw [roundHalfEven]
  split_ifs <;> omega

/-- … and what is less than one half is rounded to zero. -/
theorem roundHalfEven_eq_zero {x : Ratio} (hx : 0 < x.den) (h : x.toRat < 1 / 2) :
    roundHalfEven x.num x.den = 0 := by
  rw [Ratio.toRat, div_lt_div_iff₀ (by positivity) two_pos] at h
  have htwice : x.num * 2 < 1 * x.den := by exact_mod_cast h
  rw [roundHalfEven, Nat.div_eq_of_lt (by omega), Nat.mod_eq_of_lt (by omega), if_pos (by omega)]

/-! ### Powers of two -/

/-- The logarithm of what lies between two neighbouring powers of two. -/
theorem log_eq_of_le_of_lt {q : ℚ} {k : Int} (hle : (2 : ℚ) ^ k ≤ q) (hlt : q < 2 ^ (k + 1)) :
    Int.log 2 q = k := by
  have hq : 0 < q := (zpow_pos two_pos k).trans_le hle
  have hbelow := (Int.zpow_le_iff_le_log (b := 2) one_lt_two hq).1 (by exact_mod_cast hle)
  have habove := (Int.lt_zpow_iff_log_lt (b := 2) one_lt_two hq).1 (by exact_mod_cast hlt)
  omega

/-- The binade of a fraction is found from the lengths of its two numbers. -/
theorem binade_eq_log {x : Ratio} (hx : 0 < x.den) (hnum : x.num ≠ 0) :
    binade x = Int.log 2 x.toRat := by
  -- the lengths of numerator and denominator leave two binades, `k - 1` and `k`
  set k : Int := x.num.log2 - x.den.log2 with hk
  have hnumBelow : (2 : ℚ) ^ (x.num.log2 : Int) ≤ x.num := by
    exact_mod_cast Nat.log2_self_le hnum
  have hnumAbove : (x.num : ℚ) < 2 ^ ((x.num.log2 : Int) + 1) := by
    exact_mod_cast Nat.lt_log2_self
  have hdenBelow : (2 : ℚ) ^ (x.den.log2 : Int) ≤ x.den := by
    exact_mod_cast Nat.log2_self_le hx.ne'
  have hdenAbove : (x.den : ℚ) < 2 ^ ((x.den.log2 : Int) + 1) := by
    exact_mod_cast Nat.lt_log2_self
  have hden : (0 : ℚ) < x.den := Nat.cast_pos.2 hx
  -- the fraction is neither below the lower one nor above the upper one …
  have hlow : (2 : ℚ) ^ (k - 1) ≤ x.toRat := by
    rw [Ratio.toRat, le_div_iff₀ hden]
    calc (2 : ℚ) ^ (k - 1) * x.den ≤ 2 ^ (k - 1) * 2 ^ ((x.den.log2 : Int) + 1) := by gcongr
      _ = 2 ^ (x.num.log2 : Int) := by rw [← zpow_add₀ two_ne_zero]; congr 1; omega
      _ ≤ x.num := hnumBelow
  have hhigh : x.toRat < 2 ^ (k + 1) := by
    rw [Ratio.toRat, div_lt_iff₀ hden]
    calc (x.num : ℚ) < 2 ^ ((x.num.log2 : Int) + 1) := hnumAbove
      _ = 2 ^ (k + 1) * 2 ^ (x.den.log2 : Int) := by
        rw [← zpow_add₀ two_ne_zero]; congr 1; omega
      _ ≤ 2 ^ (k + 1) * x.den := by gcongr
  have hover := Ratio.den_over_pos hx two_pos k
  -- … and a comparison at `2 ^ k` tells which of them it is in
  have htest : (x.over 2 k).den ≤ (x.over 2 k).num ↔ (2 : ℚ) ^ k ≤ x.toRat := by
    have hone : (1 : ℚ) ≤ (x.over 2 k).toRat ↔ (x.over 2 k).den ≤ (x.over 2 k).num := by
      rw [Ratio.toRat, one_le_div (Nat.cast_pos.2 hover), Nat.cast_le]
    rw [← hone, Ratio.toRat_over, one_le_div (by positivity), Nat.cast_ofNat]
  rw [binade, ← hk]
  split
  case isTrue h => exact (log_eq_of_le_of_lt (htest.1 h) hhigh).symm
  case isFalse h =>
    refine (log_eq_of_le_of_lt hlow ?_).symm
    rw [sub_add_cancel]
    exact not_le.1 fun hle => h (htest.2 hle)

/-! ### The nearest double -/

/-- The exponent of the doubles among which the one nearest to a number is looked for. -/
def gridExponent (q : ℚ) : Int := max (Int.log 2 q - 52) (-1074)

/-- The nearest rank is found on the grid of the binade that the fraction is in. -/
theorem nearestRank_eq {x : Ratio} (hx : 0 < x.den) (hnum : x.num ≠ 0) :
    nearestRank x = (gridExponent x.toRat + 1074).toNat * binadeSize +
      roundHalfEven (x.over 2 (gridExponent x.toRat)).num
        (x.over 2 (gridExponent x.toRat)).den := by
  have hgrid : (if binade x - 52 < -1074 then -1074 else binade x - 52) =
      gridExponent x.toRat := by
    rw [binade_eq_log hx hnum, gridExponent]
    split <;> omega
  rw [nearestRank, if_neg hnum]
  dsimp only
  rw [hgrid]

/-- **The nearest double depends on the value of a fraction alone.** -/
theorem nearestRank_congr {x y : Ratio} (hx : 0 < x.den) (hy : 0 < y.den)
    (h : x.toRat = y.toRat) : nearestRank x = nearestRank y := by
  by_cases hnum : x.num = 0
  · have hnum' : y.num = 0 := by
      rwa [← Ratio.toRat_eq_zero_iff hy, ← h, Ratio.toRat_eq_zero_iff hx]
    rw [nearestRank, nearestRank, if_pos hnum, if_pos hnum']
  · have hnum' : y.num ≠ 0 := by
      rwa [Ne, ← Ratio.toRat_eq_zero_iff hy, ← h, Ratio.toRat_eq_zero_iff hx]
    have hover : (x.over 2 (gridExponent y.toRat)).toRat =
        (y.over 2 (gridExponent y.toRat)).toRat := by
      rw [Ratio.toRat_over, Ratio.toRat_over, h]
    rw [nearestRank_eq hx hnum, nearestRank_eq hy hnum', h,
      roundHalfEven_congr (Ratio.den_over_pos hx two_pos _) (Ratio.den_over_pos hy two_pos _) hover]

/-- A number on the grid of its doubles is nearest to itself. -/
theorem nearestRank_of_grid {x : Ratio} (hx : 0 < x.den) {m : Nat} {k : Int}
    (h : x.toRat = m * 2 ^ k) (hm : m < 2 ^ 53) (hk : -1074 ≤ k)
    (hgrid : k = -1074 ∨ 2 ^ 52 ≤ m) :
    nearestRank x = (k + 1074).toNat * binadeSize + m := by
  by_cases hnum : x.num = 0
  · rw [← Ratio.toRat_eq_zero_iff hx, h, mul_eq_zero] at hnum
    have hm : m = 0 := by simpa [zpow_ne_zero] using hnum
    obtain rfl | hle := hgrid
    · rw [nearestRank, if_pos (by rwa [← Ratio.toRat_eq_zero_iff hx, h, mul_eq_zero]), hm]
      rfl
    · omega
  · have hm' : (m : ℚ) < 2 ^ (53 : Int) := by exact_mod_cast hm
    have habove : x.toRat < 2 ^ (k + 53) := by
      rw [h, add_comm, zpow_add₀ two_ne_zero]
      gcongr
    -- `m` has at most 53 binary digits, and it has all of them where the grid is not the finest
    have hexponent : gridExponent x.toRat = k := by
      have hlog := (Int.lt_zpow_iff_log_lt (b := 2) one_lt_two (Ratio.toRat_pos hx hnum)).1
        (by exact_mod_cast habove)
      obtain rfl | hle := hgrid
      · rw [gridExponent]
        omega
      · have hle' : (2 : ℚ) ^ (52 : Int) ≤ m := by exact_mod_cast hle
        have hbelow : (2 : ℚ) ^ (k + 52) ≤ x.toRat := by
          rw [h, add_comm, zpow_add₀ two_ne_zero]
          gcongr
        have hlog' := (Int.zpow_le_iff_le_log (b := 2) one_lt_two (Ratio.toRat_pos hx hnum)).1
          (by exact_mod_cast hbelow)
        rw [gridExponent]
        omega
    have hover : (x.over 2 k).toRat = m := by
      rw [Ratio.toRat_over, h, Nat.cast_ofNat, mul_div_cancel_right₀ _ (zpow_ne_zero k two_ne_zero)]
    rw [nearestRank_eq hx hnum, hexponent,
      roundHalfEven_of_toRat_eq (Ratio.den_over_pos hx two_pos k) hover]

/-- **The double nearest to the value of a double is that double.** -/
theorem nearestRank_value (rank : Nat) : nearestRank (value rank) = rank := by
  have hden : 0 < (value rank).den := Ratio.den_scaled_pos (mantissa rank) two_pos (exponent rank)
  have hvalue : (value rank).toRat = mantissa rank * 2 ^ exponent rank := by
    rw [value, Ratio.toRat_scaled, Nat.cast_ofNat]
  have hsize : binadeSize = 2 ^ 52 := rfl
  -- the values of the first binade have no leading bit, all others have one
  by_cases h : rank < binadeSize
  · rw [mantissa, exponent, if_pos h, if_pos h] at hvalue
    rw [nearestRank_of_grid hden hvalue (by omega) le_rfl (.inl rfl)]
    exact zero_add rank
  · rw [mantissa, exponent, if_neg h, if_neg h] at hvalue
    have hmod : rank % binadeSize < binadeSize := Nat.mod_lt rank (by decide)
    have hbinade : 1 ≤ rank / binadeSize := (Nat.one_le_div_iff (by decide)).2 (not_lt.1 h)
    have hdiv := Nat.div_add_mod rank binadeSize
    obtain ⟨b, hb⟩ := Nat.exists_eq_add_of_le hbinade
    rw [nearestRank_of_grid hden hvalue (by omega) (by omega) (.inr (by omega)), hb]
    rw [hb, Nat.mul_add, Nat.mul_comm binadeSize b] at hdiv
    have hexponent : (((1 + b : Nat) : Int) - 1075 + 1074).toNat = b := by omega
    rw [hexponent]
    omega

/-- Beyond the doubles a number is read as infinity. -/
theorem infinityRank_le_nearestRank {x : Ratio} (hx : 0 < x.den) (h : 2 ^ 1024 ≤ x.toRat) :
    infinityRank ≤ nearestRank x := by
  have hpos : 0 < x.toRat := (by positivity : (0 : ℚ) < 2 ^ 1024).trans_le h
  have hnum : x.num ≠ 0 := fun e => hpos.ne' ((Ratio.toRat_eq_zero_iff hx).2 e)
  -- the fraction is in a binade beyond all finite ones
  have hlog : 1024 ≤ Int.log 2 x.toRat :=
    (Int.zpow_le_iff_le_log (b := 2) one_lt_two hpos).1 (by exact_mod_cast h)
  have hgrid : gridExponent x.toRat = Int.log 2 x.toRat - 52 := by rw [gridExponent]; omega
  -- on the grid of its binade it is as large as the first point of the binade
  have hover : ((2 ^ 52 : Nat) : ℚ) ≤ (x.over 2 (gridExponent x.toRat)).toRat := by
    rw [Ratio.toRat_over, Nat.cast_ofNat, le_div_iff₀ (by positivity), hgrid]
    have hself := Int.zpow_log_le_self (b := 2) one_lt_two hpos
    have hsplit : ((2 ^ 52 : Nat) : ℚ) * 2 ^ (Int.log 2 x.toRat - 52) =
        ((2 : Nat) : ℚ) ^ Int.log 2 x.toRat := by
      rw [zpow_sub₀ two_ne_zero]
      norm_num
      field_simp
    exact hsplit.trans_le hself
  have hround := le_roundHalfEven (Ratio.den_over_pos hx two_pos _) hover
  have hbinades : 2046 ≤ (gridExponent x.toRat + 1074).toNat := by omega
  have hmul := Nat.mul_le_mul_right binadeSize hbinades
  rw [nearestRank_eq hx hnum]
  have hinfinity : infinityRank = 2046 * binadeSize + 2 ^ 52 := by decide
  omega

/-- Below half of the least double a number is read as zero. -/
theorem nearestRank_eq_zero {x : Ratio} (hx : 0 < x.den) (h : x.toRat < 2 ^ (-1075 : Int)) :
    nearestRank x = 0 := by
  by_cases hnum : x.num = 0
  · rw [nearestRank, if_pos hnum]
  -- the finest grid is as fine as it gets, and the fraction is less than half of its first step
  · have hlog : Int.log 2 x.toRat < -1075 :=
      (Int.lt_zpow_iff_log_lt (b := 2) one_lt_two (Ratio.toRat_pos hx hnum)).1 (by exact_mod_cast h)
    have hgrid : gridExponent x.toRat = -1074 := by rw [gridExponent]; omega
    have hover : (x.over 2 (-1074)).toRat < 1 / 2 := by
      rw [Ratio.toRat_over, Nat.cast_ofNat, div_lt_iff₀ (by positivity)]
      have hhalf : (2 : ℚ) ^ (-1074 - 1 : Int) = 2 ^ (-1074 : Int) * 2⁻¹ :=
        zpow_sub_one₀ two_ne_zero (-1074)
      rw [one_div, mul_comm, ← hhalf]
      exact h
    rw [nearestRank_eq hx hnum, hgrid,
      roundHalfEven_eq_zero (Ratio.den_over_pos hx two_pos _) hover]
    rfl

/-! ### Decimals -/

/-- The first power of ten that is not worked out is beyond every double. -/
theorem two_pow_le_ten_pow : 2 ^ 1024 ≤ 10 ^ 311 := by decide +kernel

/-- The last power of ten that is not worked out is below half of the least double. -/
theorem ten_zpow_lt_two_zpow : (10 : ℚ) ^ (-331 : Int) < 2 ^ (-1075 : Int) := by
  have hpow : 2 ^ 1075 < 10 ^ 331 := by decide +kernel
  rw [zpow_neg, zpow_neg, inv_lt_inv₀ (by positivity) (by positivity)]
  exact_mod_cast hpow

/-- The powers of ten that are not worked out change nothing: what is read is the nearest
double all the same, infinity being that of every number beyond. -/
theorem min_rank (significand : Nat) (exponent : Int) :
    min (Decimal.rank significand exponent) infinityRank =
      min (nearestRank (.scaled significand 10 exponent)) infinityRank := by
  have hden := Ratio.den_scaled_pos significand (by decide : 0 < 10) exponent
  have hvalue := Ratio.toRat_scaled significand 10 exponent
  rw [Nat.cast_ofNat] at hvalue
  rw [Decimal.rank]
  split_ifs with hzero hhuge htiny
  -- zero
  · have hnum : (Ratio.scaled significand 10 exponent).num = 0 := by
      rw [← Ratio.toRat_eq_zero_iff hden, hvalue, hzero, Nat.cast_zero, zero_mul]
    rw [nearestRank, if_pos hnum]
  -- a power so great that any significand is beyond the doubles
  · have hone : (1 : ℚ) ≤ significand := by exact_mod_cast Nat.one_le_iff_ne_zero.2 hzero
    have hpower : (2 : ℚ) ^ 1024 ≤ significand * 10 ^ exponent :=
      calc (2 : ℚ) ^ 1024 ≤ 10 ^ (311 : Int) := by exact_mod_cast two_pow_le_ten_pow
        _ ≤ 10 ^ exponent := zpow_le_zpow_right₀ (by norm_num) (by omega)
        _ ≤ significand * 10 ^ exponent := le_mul_of_one_le_left (by positivity) hone
    rw [min_self, min_eq_right (infinityRank_le_nearestRank hden (hvalue ▸ hpower))]
  -- a power so small that the significand does not lift it to half of the least double
  · have hsignificand : (significand : ℚ) < 2 ^ ((significand.log2 : Int) + 1) := by
      exact_mod_cast Nat.lt_log2_self
    have hbase : (2 : ℚ) ^ ((significand.log2 : Int) + 1) ≤
        10 ^ ((significand.log2 : Int) + 1) := by
      exact_mod_cast Nat.pow_le_pow_left (by decide : 2 ≤ 10) (significand.log2 + 1)
    have hpower : significand * (10 : ℚ) ^ exponent < 2 ^ (-1075 : Int) :=
      calc significand * (10 : ℚ) ^ exponent
          < 2 ^ ((significand.log2 : Int) + 1) * 10 ^ exponent := by gcongr
        _ ≤ 10 ^ ((significand.log2 : Int) + 1) * 10 ^ exponent := by gcongr
        _ = 10 ^ ((significand.log2 : Int) + 1 + exponent) := by rw [← zpow_add₀ (by norm_num)]
        _ ≤ 10 ^ (-331 : Int) := zpow_le_zpow_right₀ (by norm_num) (by omega)
        _ < 2 ^ (-1075 : Int) := ten_zpow_lt_two_zpow
    rw [nearestRank_eq_zero hden (hvalue ▸ hpower)]
  · rfl

/-- All ranks from that of infinity on stand for infinity. -/
theorem ofRank_eq_min (negative : Bool) (rank : Nat) :
    ofRank negative rank = ofRank negative (min rank infinityRank) := by
  rw [ofRank, ofRank]
  by_cases h : rank < infinityRank
  · rw [min_eq_left h.le]
  · rw [min_eq_right (not_lt.1 h), if_neg h, if_neg (lt_irrefl _)]

namespace Decimal

/-- The absolute value of a decimal. -/
def magnitude (d : Decimal) : ℚ := d.significand * 10 ^ d.exponent

/-- A decimal has the value of its significand, scaled by its power of ten. -/
theorem toRat_scaled_ten (d : Decimal) :
    (Ratio.scaled d.significand 10 d.exponent).toRat = d.magnitude := by
  rw [Ratio.toRat_scaled, Nat.cast_ofNat, magnitude]

theorem den_scaled_ten_pos (d : Decimal) : 0 < (Ratio.scaled d.significand 10 d.exponent).den :=
  Ratio.den_scaled_pos d.significand (by decide) d.exponent

/-- **A decimal is read by its sign and its magnitude.** -/
theorem toFloat_congr {c d : Decimal} (hsign : c.negative = d.negative)
    (h : c.magnitude = d.magnitude) : c.toFloat = d.toFloat := by
  rw [← toRat_scaled_ten, ← toRat_scaled_ten] at h
  rw [toFloat, toFloat, hsign, ofRank_eq_min, min_rank,
    nearestRank_congr c.den_scaled_ten_pos d.den_scaled_ten_pos h, ← min_rank, ← ofRank_eq_min]

/-- Taking zeros off the end of a significand does not change the value. -/
theorem magnitude_stripZeros (significand : Nat) (exponent : Int) :
    ((stripZeros significand exponent).1 : ℚ) * 10 ^ (stripZeros significand exponent).2 =
      significand * 10 ^ exponent := by
  fun_induction stripZeros significand exponent with
  | case1 => simp
  | case2 significand exponent _ hzero ih =>
      rw [ih, zpow_add_one₀ (by norm_num)]
      have hten : ((significand / 10 : Nat) : ℚ) * 10 = significand := by
        exact_mod_cast Nat.div_mul_cancel (Nat.dvd_of_mod_eq_zero hzero)
      rw [← hten]
      ring
  | case3 => rfl

/-- The normal form of a decimal has the same magnitude. -/
theorem magnitude_ofParts (negative : Bool) (significand : Nat) (exponent : Int) :
    (ofParts negative significand exponent).magnitude = significand * 10 ^ exponent :=
  magnitude_stripZeros significand exponent

end Decimal
end Number
end Railroad
