import JsonSurvey.Proofs.Binary64.Decimal

/-! Where binary64 ends. A decimal number is rounded to an infinite one exactly if it reaches the
middle between the greatest finite magnitude and the next power of two (`isFinite_ofDecimal_iff`).
The shift of the nearest rank settles it but for one value: below that no rounding leaves the
format, and above it all do. For that value it is the count that is rounded to `2 ^ 53`, an even
number (`le_roundDiv_iff`). -/

namespace JsonSurvey

/-- Whether the magnitude reaches `2 ^ 1024 - 2 ^ 970`, which no finite number is nearest to. -/
def Decimal.Overflows (d : Decimal) : Prop := (2 ^ 54 - 1) * 2 ^ 970 * d.den ≤ d.num

namespace Binary64

/-- Neither infinite nor what is not a number. -/
def IsFinite (x : Binary64) : Prop := ∃ negative rank, x = .finite negative rank

theorem not_isFinite_nan : ¬ nan.IsFinite := by
  rintro ⟨_, _, h⟩
  contradiction

theorem not_isFinite_infinite (negative : Bool) : ¬ (infinite negative).IsFinite := by
  rintro ⟨_, _, h⟩
  contradiction

/-! ### Rounding up -/

/-- An even number is reached by rounding from half below it on. -/
theorem le_roundDiv_iff {num den k : Nat} (hden : 0 < den) (hk : k % 2 = 1) :
    k + 1 ≤ roundDiv num den ↔ (2 * k + 1) * den ≤ 2 * num := by
  have hdiv := Nat.div_add_mod num den
  have hmod := Nat.mod_lt num hden
  rw [roundDiv]
  generalize num / den = q at hdiv ⊢
  generalize num % den = r at hdiv hmod ⊢
  have hhalf : (2 * k + 1) * den = 2 * (den * k) + den := by
    rw [Nat.add_mul, Nat.one_mul, Nat.mul_assoc, Nat.mul_comm k]
  rw [hhalf]
  rcases Nat.lt_trichotomy q k with hlt | rfl | hgt
  · have hle : den * (q + 1) ≤ den * k := Nat.mul_le_mul_left den hlt
    rw [Nat.mul_succ] at hle
    split
    · omega
    split <;> omega
  · split
    · omega
    split <;> omega
  · have hle : den * (k + 1) ≤ den * q := Nat.mul_le_mul_left den hgt
    rw [Nat.mul_succ] at hle
    split
    · omega
    split <;> omega

theorem roundDiv_bounds (num den : Nat) :
    num / den ≤ roundDiv num den ∧ roundDiv num den ≤ num / den + 1 := by
  rw [roundDiv]
  split
  · omega
  split <;> omega

/-! ### Ranks -/

section
variable {num den shift : Nat}

theorem div_mul_two_pow (num den shift : Nat) :
    num / (den * 2 ^ shift) = num / den / 2 ^ shift := (Nat.div_div_eq_div_mul ..).symm

/-- The rank nearest to a fraction is a shift and a count, which are those of its units. -/
theorem exists_shift (num den : Nat) : ∃ shift,
    nearestRank num den = shift * 2 ^ 52 + roundDiv (num * 2 ^ 1074) (den * 2 ^ shift) ∧
    num * 2 ^ 1074 / den < 2 ^ (shift + 53) ∧
    (0 < shift → 2 ^ (shift + 52) ≤ num * 2 ^ 1074 / den) := by
  refine ⟨(num * 2 ^ 1074 / den).log2 - 52, ?_, ?_, fun hpos => ?_⟩
  · simp only [nearestRank, unitsPerOne_eq, Nat.pow_eq]
  · refine Nat.lt_of_lt_of_le Nat.lt_log2_self (Nat.pow_le_pow_right (by decide) ?_)
    omega
  · have hne : num * 2 ^ 1074 / den ≠ 0 := by
      intro hzero
      rw [hzero, Nat.log2_zero] at hpos
      contradiction
    refine Nat.le_trans (Nat.pow_le_pow_right (by decide) ?_) (Nat.log2_self_le hne)
    omega

theorem count_lt (h : num / den < 2 ^ (shift + 53)) : num / (den * 2 ^ shift) < 2 ^ 53 := by
  rw [div_mul_two_pow]
  apply Nat.div_lt_of_lt_mul
  rwa [← Nat.pow_add]

theorem le_count (h : 2 ^ (shift + 52) ≤ num / den) : 2 ^ 52 ≤ num / (den * 2 ^ shift) := by
  rw [div_mul_two_pow, Nat.le_div_iff_mul_le (Nat.two_pow_pos shift), ← Nat.pow_add,
    Nat.add_comm]
  exact h

/-- Ranks up to a multiple of `2 ^ 52` belong to counts below half a step before a power of two. -/
theorem le_rank_iff (hden : 0 < den) (hlt : num / den < 2 ^ (shift + 53))
    (hle : 0 < shift → 2 ^ (shift + 52) ≤ num / den) (n : Nat) :
    (n + 3) * 2 ^ 52 ≤ shift * 2 ^ 52 + roundDiv num (den * 2 ^ shift) ↔
      (2 ^ 54 - 1) * (den * 2 ^ n) ≤ num := by
  obtain ⟨hlower, hupper⟩ := roundDiv_bounds num (den * 2 ^ shift)
  rcases Nat.lt_trichotomy shift (n + 1) with hshift | rfl | hshift
  · have hcount := count_lt hlt
    have hpow : 2 ^ (shift + 53) ≤ 2 ^ (53 + n) := Nat.pow_le_pow_right (by decide) (by omega)
    have hbound := (Nat.div_lt_iff_lt_mul hden).mp (Nat.lt_of_lt_of_le hlt hpow)
    rw [Nat.pow_add, Nat.mul_assoc, Nat.mul_comm _ den] at hbound
    generalize den * 2 ^ n = unit at hbound ⊢
    omega
  · have hcount : (n + 3) * 2 ^ 52 = (n + 1) * 2 ^ 52 + (2 ^ 53 - 1 + 1) := by omega
    have hunit : den * 2 ^ (n + 1) = den * 2 ^ n * 2 := by rw [Nat.pow_succ, Nat.mul_assoc]
    rw [hcount, Nat.add_le_add_iff_left,
      le_roundDiv_iff (Nat.mul_pos hden (Nat.two_pow_pos _)) (by decide), hunit]
    generalize den * 2 ^ n = unit
    omega
  · have hcount := le_count (hle (by omega))
    have hpow : 2 ^ (54 + n) ≤ 2 ^ (shift + 52) := Nat.pow_le_pow_right (by decide) (by omega)
    have hbound := (Nat.le_div_iff_mul_le hden).mp (Nat.le_trans hpow (hle (by omega)))
    rw [Nat.pow_add, Nat.mul_assoc, Nat.mul_comm _ den] at hbound
    generalize den * 2 ^ n = unit at hbound ⊢
    omega

/-- A fraction is beyond all finite numbers from half a step above the greatest one on. -/
theorem le_nearestRank_iff (hden : 0 < den) :
    2047 * 2 ^ 52 ≤ nearestRank num den ↔ (2 ^ 54 - 1) * 2 ^ 970 * den ≤ num := by
  obtain ⟨shift, hrank, hlt, hle⟩ := exists_shift num den
  rw [hrank, le_rank_iff hden hlt hle 2044]
  -- no power is written out
  generalize hk : 970 = k
  rw [show 2044 = k + 1074 by omega, Nat.pow_add, ← Nat.mul_assoc, ← Nat.mul_assoc,
    Nat.mul_le_mul_right_iff (Nat.two_pow_pos 1074), Nat.mul_right_comm]

end

/-! ### Decimal numbers -/

theorem isFinite_ofRank_iff {negative : Bool} {rank : Nat} :
    (ofRank negative rank).IsFinite ↔ rank < 2047 * 2 ^ 52 := by
  constructor
  · rintro ⟨_, _, h⟩
    refine Nat.not_le.mp fun hle => ?_
    rw [ofRank_of_le negative hle] at h
    contradiction
  · intro h
    exact ⟨negative, ⟨rank, h⟩, ofRank_of_lt negative h⟩

/-- A decimal number is rounded to a finite one unless it is beyond the format. -/
theorem isFinite_ofDecimal_iff {negative : Bool} {d : Decimal} :
    (ofDecimal negative d).IsFinite ↔ ¬ d.Overflows := by
  rw [ofDecimal_eq, isFinite_ofRank_iff, Decimal.Overflows, ← le_nearestRank_iff d.den_pos,
    Nat.not_le]

theorem ofDecimal_ne_nan (negative : Bool) (d : Decimal) : ofDecimal negative d ≠ nan := by
  rw [ofDecimal_eq, ofRank]
  split <;> nofun

end Binary64
end JsonSurvey
