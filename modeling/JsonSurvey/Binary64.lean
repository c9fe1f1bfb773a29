import JsonSurvey.Text

/-! Binary floating-point numbers of 64 bits. A finite number is a sign and a rank: the magnitudes
are numbered from zero upwards, so ranks order magnitudes, and the rank is also the bit pattern of
the magnitude. All arithmetic is exact, in units of the least positive number. -/

namespace JsonSurvey

/-- A number of the binary64 format. The rank of a finite number counts the smaller magnitudes. -/
inductive Binary64
  | nan
  | infinite (negative : Bool)
  | finite (negative : Bool) (rank : Fin (2047 * Nat.pow 2 52))
deriving DecidableEq

namespace Binary64

/-- The units per one: the least positive number is the inverse of this. -/
def unitsPerOne : Nat := Nat.pow 2 1074

/-- The magnitude of a rank in units. -/
def units (rank : Nat) : Nat :=
  if rank < Nat.pow 2 52 then rank
  else (Nat.pow 2 52 + rank % Nat.pow 2 52) * Nat.pow 2 (rank / Nat.pow 2 52 - 1)

/-- The finite number of a sign and a rank, infinite if the rank is out of range. -/
def ofRank (negative : Bool) (rank : Nat) : Binary64 :=
  if h : rank < 2047 * Nat.pow 2 52 then .finite negative ⟨rank, h⟩ else .infinite negative

/-- The quotient rounded to the nearest natural number, a half to the even neighbour. -/
def roundDiv (num den : Nat) : Nat :=
  let q := num / den
  let r := num % den
  if 2 * r < den then q else if den < 2 * r then q + 1 else q + q % 2

/-- The rank nearest to the fraction `num / den`, of two equally near ones the even one; it is out
of range exactly if the fraction is beyond all finite magnitudes. -/
def nearestRank (num den : Nat) : Nat :=
  let shift := (num * unitsPerOne / den).log2 - 52
  shift * Nat.pow 2 52 + roundDiv (num * unitsPerOne) (den * Nat.pow 2 shift)

/-- A finite number in units, with its sign. -/
def signedUnits (negative : Bool) (rank : Nat) : Int :=
  if negative then -(units rank : Int) else units rank

/-- The greatest integer that is not above a finite number. -/
def floor? : Binary64 → Option Int
  | .finite negative rank => some ((signedUnits negative rank.val).fdiv unitsPerOne)
  | _ => none

/-- Whether the number is zero of either sign. -/
def isZero : Binary64 → Bool
  | .finite _ rank => rank.val == 0
  | _ => false

end Binary64
end JsonSurvey
