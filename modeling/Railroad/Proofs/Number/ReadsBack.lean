/-
# The shortest decimal reads back

A finite double is its sign and its rank (`ofRank_of_shape`), and the decimal that is shown
for it is read as the same sign and the same rank (`toFloat_shortest`): a point of a grid is
taken only if it reads back, and where no grid has one the decimal is the exact value, to
which no other double is nearer.

That a double is given back by its bits is `Float.ofBits_toBits`.  None of the parts of the
library brings this lemma along, so the library is imported whole here, and here alone.
-/

import Mathlib
import Railroad.Proofs.Number.Nearest

namespace Railroad
namespace Number

/-! ### Sign and rank -/

/-- The exponent field of a double tells the binade of its rank. -/
theorem toNat_unpackExponent (x : Float) :
    (@Float.Model.UnpackedFloat.unpackExponent .binary64 x.toModel.toBits.toBitVec).toNat =
      x.toBits.toNat % signBit / binadeSize := by
  have hsign : signBit = 2 ^ 63 := rfl
  have hbinade : binadeSize = 2 ^ 52 := rfl
  change (x.toBits.toNat >>> 52) % 2 ^ 11 = _
  rw [Nat.shiftRight_eq_div_pow, hsign, hbinade]
  omega

/-- A double is finite exactly if its exponent field is not all ones. -/
theorem isFinite_iff_unpackExponent (x : Float) :
    x.isFinite = true ↔
      (@Float.Model.UnpackedFloat.unpackExponent .binary64 x.toModel.toBits.toBitVec).toNat ≠
        2047 := by
  have htop : ∀ v : BitVec 11, v = -1#11 ↔ v.toNat = 2047 := fun v => by
    rw [← BitVec.toNat_inj]
    exact Iff.rfl
  change (Float.Model.UnpackedFloat.unpack .binary64 x.toModel.toBits.toBitVec).isFinite = true ↔ _
  rw [Ne, ← htop, Float.Model.UnpackedFloat.unpack]
  split_ifs with hexponent
  · exact iff_of_false Bool.false_ne_true (not_not.2 hexponent)
  · exact iff_of_false Bool.false_ne_true (not_not.2 hexponent)
  · exact iff_of_true rfl hexponent
  · exact iff_of_true rfl hexponent
  · exact iff_of_true rfl hexponent

/-- A double is finite exactly if its rank is below that of infinity. -/
theorem isFinite_iff_lt (x : Float) :
    x.isFinite = true ↔ x.toBits.toNat % signBit < infinityRank := by
  have hbinade : binadeSize = 2 ^ 52 := rfl
  have hsign : signBit = 2 ^ 63 := rfl
  have hinfinity : infinityRank = 2047 * binadeSize := rfl
  rw [isFinite_iff_unpackExponent, toNat_unpackExponent, hinfinity, hsign, hbinade]
  omega

/-- A double is finite exactly if its shape is. -/
theorem isFinite_iff (x : Float) :
    x.isFinite = true ↔ ∃ negative rank, shape x = .finite negative rank := by
  rw [isFinite_iff_lt, shape]
  split_ifs with hfinite hinfinite
  · exact iff_of_true hfinite ⟨_, _, rfl⟩
  · exact iff_of_false hfinite (by simp)
  · exact iff_of_false hfinite (by simp)

/-- The rank of a finite double is below that of infinity. -/
theorem rank_lt_of_shape {x : Float} {negative : Bool} {rank : Nat}
    (h : shape x = .finite negative rank) : rank < infinityRank := by
  rw [shape] at h
  split_ifs at h with hfinite
  obtain ⟨-, rfl⟩ := Shape.finite.inj h
  exact hfinite

/-- A finite double is the double of its sign and its rank. -/
theorem ofRank_of_shape {x : Float} {negative : Bool} {rank : Nat}
    (h : shape x = .finite negative rank) : ofRank negative rank = x := by
  have hrank := rank_lt_of_shape h
  rw [shape] at h
  split_ifs at h with hfinite
  obtain ⟨rfl, rfl⟩ := Shape.finite.inj h
  have hbits : (if decide (signBit ≤ x.toBits.toNat) = true then
      signBit + x.toBits.toNat % signBit else x.toBits.toNat % signBit) = x.toBits.toNat := by
    have hsize := x.toBits.toNat_lt
    have hsign : signBit = 2 ^ 63 := rfl
    rw [hsign]
    split_ifs with hnegative <;> simp only [decide_eq_true_eq] at hnegative <;> omega
  rw [ofRank, if_pos hrank, hbits, Nat.toUInt64_eq, UInt64.ofNat_toNat, Float.ofBits_toBits]

/-! ### Grids -/

/-- A point of a grid that is taken reads back, … -/
theorem rank_of_gridNeighbour? {rank : Nat} {x : Ratio} {e : Int} {significand : Nat}
    (h : gridNeighbour? rank x e = some significand) : Decimal.rank significand e = rank := by
  have hhit := List.find?_some h
  exact beq_iff_eq.1 hhit

/-- … so the first point that is taken, on whichever grid, reads back. -/
theorem rank_of_firstHit? {rank : Nat} {x : Ratio} {leading : Int} {fuel n significand : Nat}
    {e : Int} (h : firstHit? rank x leading fuel n = some (significand, e)) :
    Decimal.rank significand e = rank := by
  induction fuel generalizing n with
  | zero => cases h
  | succ fuel ih =>
      rw [firstHit?] at h
      split at h
      case h_1 found hfound =>
        obtain ⟨rfl, rfl⟩ := Prod.mk.inj (Option.some.inj h)
        exact rank_of_gridNeighbour? hfound
      case h_2 => exact ih h

/-- The exact value of a double, as a decimal. -/
theorem toRat_exactDecimal (rank : Nat) :
    ((exactDecimal rank).1 : ℚ) * 10 ^ (exactDecimal rank).2 = (value rank).toRat := by
  rw [exactDecimal, value, Ratio.toRat_scaled]
  split_ifs with h
  · obtain ⟨p, hp⟩ := Int.eq_ofNat_of_zero_le h
    rw [hp]
    simp
  · obtain ⟨p, hp⟩ := Int.exists_eq_neg_ofNat (by omega : exponent rank ≤ 0)
    rw [hp]
    have hten : (10 : ℚ) ^ p = 5 ^ p * 2 ^ p := by rw [← mul_pow]; norm_num
    simp [hten]
    field_simp

/-- The double of a sign and a rank is read from every decimal of that rank. -/
theorem toFloat_ofParts (negative : Bool) (significand : Nat) (exponent : Int) :
    (Decimal.ofParts negative significand exponent).toFloat =
      ofRank negative (Decimal.rank significand exponent) := by
  have hsame : (Decimal.ofParts negative significand exponent).toFloat =
      (Decimal.mk negative significand exponent).toFloat :=
    Decimal.toFloat_congr rfl (Decimal.magnitude_ofParts negative significand exponent)
  rw [hsame, Decimal.toFloat]

/-- The exact value of a double reads back: no other double is nearer to it. -/
theorem toFloat_exactDecimal (negative : Bool) (rank : Nat) :
    (Decimal.ofParts negative (exactDecimal rank).1 (exactDecimal rank).2).toFloat =
      ofRank negative rank := by
  have hvalue : (Ratio.scaled (exactDecimal rank).1 10 (exactDecimal rank).2).toRat =
      (value rank).toRat := by
    rw [Ratio.toRat_scaled, ← toRat_exactDecimal, Nat.cast_ofNat]
  have hnearest := nearestRank_congr (Ratio.den_scaled_pos _ (by decide) _)
    (Ratio.den_scaled_pos (mantissa rank) two_pos (exponent rank)) hvalue
  have hrank : nearestRank (.scaled (mantissa rank) 2 (exponent rank)) = rank :=
    nearestRank_value rank
  rw [toFloat_ofParts, ofRank_eq_min, min_rank, hnearest, hrank, ← ofRank_eq_min]

/-- **The decimal that is shown for a double is read as that double.** -/
theorem toFloat_shortest (negative : Bool) (rank : Nat) :
    (shortest negative rank).toFloat = ofRank negative rank := by
  rw [shortest]
  split_ifs with hzero
  · rw [hzero]
    rfl
  · dsimp only
    cases hhit : firstHit? rank (value rank) (decade (value rank)) 17 1 with
    | none =>
        -- no grid has a point that reads back, so the exact value is shown
        exact toFloat_exactDecimal negative rank
    | some found =>
        rw [Option.getD_some, toFloat_ofParts, rank_of_firstHit? hhit]

/-- A finite double is read from the decimal that is shown for it. -/
theorem toFloat_shortest_of_shape {x : Float} {negative : Bool} {rank : Nat}
    (h : shape x = .finite negative rank) : (shortest negative rank).toFloat = x := by
  rw [toFloat_shortest, ofRank_of_shape h]

/-! ### Normal form -/

/-- Zero has the exponent zero. -/
def Decimal.Normal (d : Decimal) : Prop := d.significand = 0 → d.exponent = 0

/-- A decimal that is put together is in normal form. -/
theorem Decimal.normal_ofParts (negative : Bool) (significand : Nat) (exponent : Int) :
    (ofParts negative significand exponent).Normal := by
  show (stripZeros significand exponent).1 = 0 → (stripZeros significand exponent).2 = 0
  fun_induction stripZeros significand exponent with
  | case1 => exact fun _ => rfl
  | case2 _ _ _ _ ih => exact ih
  | case3 _ _ hsignificand => exact fun hzero => absurd hzero hsignificand

/-- So is the decimal that is shown for a double. -/
theorem Decimal.normal_shortest (negative : Bool) (rank : Nat) :
    (shortest negative rank).Normal := by
  rw [shortest]
  split_ifs
  · exact fun _ => rfl
  · exact normal_ofParts _ _ _

end Number
end Railroad
