import JsonSurvey.Binary64
import Mathlib.Algebra.Group.Nat.Defs

/-! Rounding to binary64. The nearest rank belongs to a fraction and not to how it is written
(`nearestRank_mul_right`), and the rank of a magnitude that the format has is its own
(`nearestRank_units`). -/

namespace JsonSurvey.Binary64

theorem two_pow_pos (n : Nat) : 0 < Nat.pow 2 n := Nat.pow_pos (Nat.succ_pos 1)

theorem unitsPerOne_eq : unitsPerOne = 2 ^ 1074 := by
  delta unitsPerOne
  generalize 1074 = n
  exact Nat.pow_eq

theorem unitsPerOne_pos : 0 < unitsPerOne := by
  rw [unitsPerOne_eq]
  apply two_pow_pos

/-! ### Rounding -/

theorem roundDiv_mul_right (num den : Nat) {k : Nat} (hk : 0 < k) :
    roundDiv (num * k) (den * k) = roundDiv num den := by
  have hlt (a b : Nat) : a * k < b * k ↔ a < b := Nat.mul_lt_mul_right hk
  simp only [roundDiv, Nat.mul_div_mul_right num den hk, Nat.mul_mod_mul_right, ← Nat.mul_assoc,
    hlt]

theorem roundDiv_mul_self (q : Nat) {den : Nat} (hden : 0 < den) : roundDiv (q * den) den = q := by
  rw [roundDiv, Nat.mul_mod_left, Nat.mul_zero, if_pos hden, Nat.mul_div_cancel q hden]

theorem roundDiv_eq_zero {num den : Nat} (h : 2 * num < den) : roundDiv num den = 0 := by
  have hlt : num < den := by omega
  rw [roundDiv, Nat.mod_eq_of_lt hlt, if_pos h, Nat.div_eq_of_lt hlt]

theorem nearestRank_mul_right (num den : Nat) {k : Nat} (hk : 0 < k) :
    nearestRank (num * k) (den * k) = nearestRank num den := by
  simp only [nearestRank, Nat.mul_right_comm _ k, Nat.mul_div_mul_right _ _ hk,
    roundDiv_mul_right _ _ hk]

/-- Fractions of one value have one nearest rank. -/
theorem nearestRank_congr {num den num' den' : Nat} (hden : 0 < den) (hden' : 0 < den')
    (h : num * den' = num' * den) : nearestRank num den = nearestRank num' den' := by
  rw [← nearestRank_mul_right num den hden', h, Nat.mul_comm den, nearestRank_mul_right _ _ hden]

theorem nearestRank_eq_zero {num den : Nat} (h : 2 * (num * unitsPerOne) < den) :
    nearestRank num den = 0 := by
  have hdiv : num * unitsPerOne / den = 0 := Nat.div_eq_of_lt (by omega)
  simp only [nearestRank, hdiv]
  change 0 * Nat.pow 2 52 + roundDiv (num * unitsPerOne) (den * 1) = 0
  rw [Nat.zero_mul, Nat.mul_one, roundDiv_eq_zero h]

theorem nearestRank_zero {den : Nat} (h : 0 < den) : nearestRank 0 den = 0 := by
  apply nearestRank_eq_zero
  rwa [Nat.zero_mul]

/-! ### Magnitudes of the format -/

/-- The units of a rank are a count below `2 ^ 53`, shifted only where it is at least `2 ^ 52`. -/
theorem units_eq (rank : Nat) :
    ∃ count shift, units rank = count * 2 ^ shift ∧ rank = shift * 2 ^ 52 + count ∧
      count < 2 ^ 53 ∧ (shift = 0 ∨ 2 ^ 52 ≤ count) := by
  rw [units]
  simp only [Nat.pow_eq]
  split
  · next hlt => exact ⟨rank, 0, (Nat.mul_one _).symm, by omega, by omega, .inl rfl⟩
  · exact ⟨2 ^ 52 + rank % 2 ^ 52, rank / 2 ^ 52 - 1, rfl, by omega, by omega, .inr (by omega)⟩

theorem log2_sub_eq {count shift : Nat} (hlt : count < 2 ^ 53)
    (hshift : shift = 0 ∨ 2 ^ 52 ≤ count) : (count * 2 ^ shift).log2 - 52 = shift := by
  rcases hshift with rfl | hle
  · have hlog : count.log2 < 53 := by
      by_cases hzero : count = 0
      · rw [hzero]
        decide
      · exact (Nat.log2_lt hzero).mpr hlt
    rw [Nat.pow_zero, Nat.mul_one]
    omega
  · have hpos : 0 < count * 2 ^ shift := Nat.mul_pos (by omega) (Nat.two_pow_pos shift)
    have hlog : (count * 2 ^ shift).log2 = 52 + shift := by
      rw [Nat.log2_eq_iff (Nat.ne_of_gt hpos)]
      constructor
      · rw [Nat.pow_add]
        exact Nat.mul_le_mul_right _ hle
      · rw [show 52 + shift + 1 = 53 + shift by omega, Nat.pow_add]
        exact Nat.mul_lt_mul_of_pos_right hlt (Nat.two_pow_pos shift)
    omega

/-- The rank nearest to the magnitude of a rank is that rank. -/
theorem nearestRank_units (rank : Nat) : nearestRank (units rank) unitsPerOne = rank := by
  obtain ⟨count, shift, hunits, hrank, hlt, hshift⟩ := units_eq rank
  have hpos : 0 < unitsPerOne * 2 ^ shift := Nat.mul_pos unitsPerOne_pos (Nat.two_pow_pos shift)
  have hnum : units rank * unitsPerOne = count * (unitsPerOne * 2 ^ shift) := by
    rw [hunits, Nat.mul_assoc, Nat.mul_comm (2 ^ shift)]
  simp only [nearestRank, Nat.mul_div_cancel _ unitsPerOne_pos, Nat.pow_eq]
  rw [hnum, hunits, log2_sub_eq hlt hshift, roundDiv_mul_self _ hpos, ← hrank]

/-- A fraction beyond all finite magnitudes has no rank. -/
theorem le_nearestRank {n num den : Nat} (h : 2 ^ (n + 52) ≤ num * unitsPerOne / den) :
    n * 2 ^ 52 ≤ nearestRank num den := by
  have hne : num * unitsPerOne / den ≠ 0 := Nat.ne_of_gt (Nat.lt_of_lt_of_le (Nat.two_pow_pos _) h)
  have hlog : n + 52 ≤ (num * unitsPerOne / den).log2 := (Nat.le_log2 hne).mpr h
  simp only [nearestRank, Nat.pow_eq]
  exact Nat.le_trans (Nat.mul_le_mul_right _ (by omega)) (Nat.le_add_right _ _)

end JsonSurvey.Binary64
