import JsonSurvey.Binary64

/-! Decimal numbers rounded to binary64, and the shortest decimal number that rounds to a given
one. -/

namespace JsonSurvey

/-- The decimal number `coefficient * 10 ^ exponent`. -/
structure Decimal where
  coefficient : Nat
  exponent : Int
deriving DecidableEq

namespace Binary64

/-- The number nearest to a decimal one. Decimals far beyond the format are settled without writing
out their power of ten: no finite number reaches `10 ^ 400`, and `10 ^ n` exceeds `2 ^ (3 * n)`. -/
def ofDecimal (negative : Bool) (d : Decimal) : Binary64 :=
  if d.coefficient = 0 then ofRank negative 0
  else match d.exponent with
    | .ofNat n =>
      if 400 < n then .infinite negative
      else ofRank negative (nearestRank (d.coefficient * Nat.pow 10 n) 1)
    | .negSucc n =>
      if d.coefficient.log2 + 1100 < n then ofRank negative 0
      else ofRank negative (nearestRank d.coefficient (Nat.pow 10 (n + 1)))

/-- The number of decimal digits of a number, one for zero. -/
def digitCount (n : Nat) : Nat := if n < 10 then 1 else digitCount (n / 10) + 1

/-- The least exponent `p` with a magnitude below `10 ^ p`, for a rank other than zero. -/
def decimalExponent (rank : Nat) : Int :=
  if unitsPerOne ≤ units rank then digitCount (units rank / unitsPerOne)
  else 1 - (digitCount ((unitsPerOne - 1) / units rank) : Int)

/-- The magnitude of a rank in multiples of `10 ^ exponent`, as a fraction. -/
def scaled (rank : Nat) (exponent : Int) : Nat × Nat :=
  match exponent with
  | .ofNat n => (units rank, unitsPerOne * Nat.pow 10 n)
  | .negSucc n => (units rank * Nat.pow 10 (n + 1), unitsPerOne)

/-- Whether a decimal number is read as the magnitude of `rank`. -/
def readsBack (rank : Nat) (d : Decimal) : Bool := ofDecimal false d == ofRank false rank

/-- The multiple of `10 ^ exponent` nearest to the magnitude of `rank` that is read as that
magnitude, if there is one; of two equally near ones it is the even one. -/
def candidate? (rank : Nat) (exponent : Int) : Option Decimal :=
  let (num, den) := scaled rank exponent
  let nearest := roundDiv num den
  let other := if nearest * den ≤ num then nearest + 1 else nearest - 1
  if readsBack rank ⟨nearest, exponent⟩ then some ⟨nearest, exponent⟩
  else if readsBack rank ⟨other, exponent⟩ then some ⟨other, exponent⟩
  else none

/-- The magnitude of a rank written out, a multiple of `10 ^ (-1074)`. -/
def exactDecimal (rank : Nat) : Decimal := ⟨units rank * Nat.pow 5 1074, -1074⟩

/-- The decimal number with the fewest digits that is read as the magnitude of `rank`. Up to 17
digits are tried; they always suffice. -/
def shortest (rank : Nat) : Decimal :=
  let p := decimalExponent rank
  ((List.range 17).findSome? fun n => candidate? rank (p - (n + 1 : Nat))).getD (exactDecimal rank)

end Binary64
end JsonSurvey
