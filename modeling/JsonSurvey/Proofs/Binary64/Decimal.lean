import JsonSurvey.Binary64.Decimal
import JsonSurvey.Proofs.Binary64

/-! Decimal numbers and binary64. A decimal number is rounded as the fraction that it is, also where
its power of ten is not written out (`ofDecimal_eq`), so the zeros of its coefficient may be counted
into its exponent (`ofDecimal_shift`). The shortest decimal of a number is rounded to the number
(`ofDecimal_shortest`). -/

namespace JsonSurvey

namespace Decimal

/-- The numerator of a decimal number as a fraction. -/
def num (d : Decimal) : Nat := d.coefficient * 10 ^ d.exponent.toNat

/-- The denominator of a decimal number as a fraction. -/
def den (d : Decimal) : Nat := 10 ^ (-d.exponent).toNat

theorem den_pos (d : Decimal) : 0 < d.den := Nat.pow_pos (by decide)

end Decimal

namespace Binary64

theorem ofRank_of_lt {rank : Nat} (negative : Bool) (h : rank < 2047 * Nat.pow 2 52) :
    ofRank negative rank = .finite negative ⟨rank, h⟩ := dif_pos h

theorem ofRank_of_le {rank : Nat} (negative : Bool) (h : 2047 * 2 ^ 52 ≤ rank) :
    ofRank negative rank = .infinite negative :=
  dif_neg (Nat.not_lt.mpr h)

theorem two_pow_le_ten_pow (n : Nat) : 2 ^ (3 * n) ≤ 10 ^ n := by
  rw [Nat.pow_mul]
  exact Nat.pow_le_pow_left (by decide) n

theorem le_nearestRank_ten_pow {coefficient k n : Nat} (hcoefficient : 0 < coefficient)
    (hn : k + 52 ≤ 3 * n + 1074) : k * 2 ^ 52 ≤ nearestRank (coefficient * 10 ^ n) 1 := by
  apply le_nearestRank
  rw [Nat.div_one, unitsPerOne_eq]
  generalize 1074 = m at hn ⊢
  calc 2 ^ (k + 52) ≤ 2 ^ (3 * n + m) := Nat.pow_le_pow_right (by decide) hn
    _ = 2 ^ (3 * n) * 2 ^ m := Nat.pow_add ..
    _ ≤ 10 ^ n * 2 ^ m := Nat.mul_le_mul_right _ (two_pow_le_ten_pow n)
    _ ≤ coefficient * 10 ^ n * 2 ^ m :=
      Nat.mul_le_mul_right _ (Nat.le_mul_of_pos_left _ hcoefficient)

theorem two_mul_lt_ten_pow {coefficient k n : Nat} (h : coefficient.log2 + k + 2 ≤ 3 * n) :
    2 * (coefficient * 2 ^ k) < 10 ^ n := by
  calc 2 * (coefficient * 2 ^ k) = coefficient * 2 ^ (k + 1) := by
        rw [Nat.mul_left_comm, ← Nat.pow_succ']
    _ < 2 ^ (coefficient.log2 + 1) * 2 ^ (k + 1) :=
      Nat.mul_lt_mul_of_pos_right Nat.lt_log2_self (Nat.two_pow_pos _)
    _ = 2 ^ (coefficient.log2 + 1 + (k + 1)) := (Nat.pow_add ..).symm
    _ ≤ 2 ^ (3 * n) := Nat.pow_le_pow_right (by decide) (by omega)
    _ ≤ 10 ^ n := two_pow_le_ten_pow n

theorem nearestRank_of_small {coefficient n : Nat} (h : coefficient.log2 + 1100 < n) :
    nearestRank coefficient (10 ^ (n + 1)) = 0 := by
  apply nearestRank_eq_zero
  rw [unitsPerOne_eq]
  apply two_mul_lt_ten_pow
  omega

/-- A decimal number is rounded as a fraction. -/
theorem ofDecimal_eq (negative : Bool) (d : Decimal) :
    ofDecimal negative d = ofRank negative (nearestRank d.num d.den) := by
  obtain ⟨coefficient, exponent⟩ := d
  unfold ofDecimal
  dsimp only
  split
  · next hzero =>
    subst hzero
    rw [Decimal.num, Nat.zero_mul, nearestRank_zero (Decimal.den_pos _)]
  · next hzero =>
    cases exponent with
    | ofNat n =>
      have hnum : Decimal.num ⟨coefficient, Int.ofNat n⟩ = coefficient * 10 ^ n := rfl
      have hden : Decimal.den ⟨coefficient, Int.ofNat n⟩ = 1 := by simp [Decimal.den]
      rw [hnum, hden]
      dsimp only
      split
      · next hn =>
        -- no finite number reaches ten to the power of 401
        have hlarge := @le_nearestRank_ten_pow coefficient 2047 n (Nat.pos_of_ne_zero hzero)
          (by omega)
        rw [ofRank_of_le _ hlarge]
      · rw [Nat.pow_eq]
    | negSucc n =>
      have hnum : Decimal.num ⟨coefficient, Int.negSucc n⟩ = coefficient := Nat.mul_one _
      have hden : Decimal.den ⟨coefficient, Int.negSucc n⟩ = 10 ^ (n + 1) := rfl
      rw [hnum, hden]
      dsimp only
      split
      · next hn => rw [nearestRank_of_small hn]
      · rw [Nat.pow_eq]

/-- Zeros at the end of a coefficient may be counted into the exponent. -/
theorem ofDecimal_shift (negative : Bool) (coefficient k : Nat) (exponent : Int) :
    ofDecimal negative ⟨coefficient * 10 ^ k, exponent⟩ =
      ofDecimal negative ⟨coefficient, exponent + k⟩ := by
  rw [ofDecimal_eq, ofDecimal_eq]
  refine congrArg _ (nearestRank_congr (Decimal.den_pos _) (Decimal.den_pos _) ?_)
  simp only [Decimal.num, Decimal.den, Nat.mul_assoc, ← Nat.pow_add]
  rw [show k + exponent.toNat + (-(exponent + k)).toNat =
    (exponent + k).toNat + (-exponent).toNat by omega]

theorem readsBack_iff {rank : Nat} (hrank : rank < 2047 * Nat.pow 2 52) {d : Decimal} :
    readsBack rank d = true ↔ nearestRank d.num d.den = rank := by
  rw [readsBack, beq_iff_eq, ofDecimal_eq, ofRank_of_lt _ hrank]
  constructor
  · intro h
    unfold ofRank at h
    split at h
    · cases h
      rfl
    · contradiction
  · intro h
    rw [h, ofRank_of_lt _ hrank]

theorem readsBack_of_candidate? {rank : Nat} {exponent : Int} {d : Decimal}
    (h : candidate? rank exponent = some d) : readsBack rank d = true := by
  have hone {e f : Decimal} (h : (if readsBack rank e then some e
      else if readsBack rank f then some f else none) = some d) : readsBack rank d = true := by
    split at h
    · next hread => cases h; exact hread
    split at h
    · next hread => cases h; exact hread
    · contradiction
  exact hone h

theorem nearestRank_fives {pow : Nat → Nat → Nat} (hpow : Nat.pow = pow) {d : Decimal}
    {count n : Nat} (hcoefficient : d.coefficient = count * pow 5 n)
    (hexponent : d.exponent = -(n : Int)) :
    nearestRank d.num d.den = nearestRank count (pow 2 n) := by
  have hnum : d.exponent.toNat = 0 := by omega
  have hden : (-d.exponent).toNat = n := by omega
  rw [Decimal.num, Decimal.den, hcoefficient, hnum, hden, Nat.pow_zero, Nat.mul_one, ← hpow,
    Nat.pow_eq, Nat.pow_eq, show (10 : Nat) = 2 * 5 from rfl, Nat.mul_pow]
  exact nearestRank_mul_right count (2 ^ n) (Nat.pow_pos (by decide))

theorem nearestRank_exactDecimal (rank : Nat) :
    nearestRank (exactDecimal rank).num (exactDecimal rank).den = rank := by
  refine Eq.trans ?_ (nearestRank_units rank)
  delta exactDecimal unitsPerOne
  -- under a name of its own, no power is written out
  generalize hpow : Nat.pow = pow
  exact nearestRank_fives hpow rfl rfl

/-- The search for the shortest decimal ends with one that is read back, or else the magnitude is
written out. -/
theorem shortest_eq (rank : Nat) :
    readsBack rank (shortest rank) = true ∨ shortest rank = exactDecimal rank := by
  simp only [shortest]
  cases hfind : (List.range 17).findSome? fun n =>
      candidate? rank (decimalExponent rank - (n + 1 : Nat)) with
  | none => exact .inr rfl
  | some d =>
    obtain ⟨n, _, hd⟩ := List.exists_of_findSome?_eq_some hfind
    exact .inl (readsBack_of_candidate? hd)

/-- The shortest decimal of a number is rounded to the number. -/
theorem nearestRank_shortest {rank : Nat} (hrank : rank < 2047 * Nat.pow 2 52) :
    nearestRank (shortest rank).num (shortest rank).den = rank := by
  rcases shortest_eq rank with hread | hexact
  · exact (readsBack_iff hrank).mp hread
  · rw [hexact, nearestRank_exactDecimal]

theorem ofDecimal_shortest (negative : Bool) (rank : Fin (2047 * Nat.pow 2 52)) :
    ofDecimal negative (shortest rank.val) = .finite negative rank := by
  rw [ofDecimal_eq, nearestRank_shortest rank.isLt, ofRank_of_lt _ rank.isLt]

theorem ofDecimal_zero (negative : Bool) (exponent : Int) {rank : Fin (2047 * Nat.pow 2 52)}
    (h : rank.val = 0) : ofDecimal negative ⟨0, exponent⟩ = .finite negative rank := by
  have hzero : ofDecimal negative ⟨0, exponent⟩ = ofRank negative 0 := if_pos rfl
  rw [hzero, ← h, ofRank_of_lt _ rank.isLt]

theorem shortest_coefficient_pos {rank : Fin (2047 * Nat.pow 2 52)} (h : rank.val ≠ 0) :
    0 < (shortest rank.val).coefficient := by
  apply Nat.pos_of_ne_zero
  intro hzero
  have hrank := nearestRank_shortest rank.isLt
  rw [Decimal.num, hzero, Nat.zero_mul, nearestRank_zero (Decimal.den_pos _)] at hrank
  exact h hrank.symm

end Binary64
end JsonSurvey
