import JsonSurvey.Binary64.Decimal

/-! How a floating-point number is written: with the fewest digits that are read back as the number,
in positional notation for decimal exponents from -4 to 15 and with an exponent otherwise. A written
number always has a point or an exponent, unless it is not finite. -/

namespace JsonSurvey.Binary64

/-- The decimal exponents below which and from which on the exponent is written. -/
def leastPositional : Int := -4

def leastScientific : Int := 16

/-- Digits with a point in them, for digits of which the first counts `10 ^ place`. -/
def positional (digits : Text) : Int → Text
  | .negSucc n => 0x30 :: 0x2E :: (List.replicate n 0x30 ++ digits)
  | .ofNat n =>
    if digits.length ≤ n + 1 then
      digits ++ (List.replicate (n + 1 - digits.length) 0x30 ++ ([0x2E, 0x30] : Text))
    else digits.take (n + 1) ++ 0x2E :: digits.drop (n + 1)

/-- An exponent with its sign and at least two digits. -/
def exponentText : Int → Text
  | .ofNat n => 0x2B :: Text.padNat 2 n
  | .negSucc n => 0x2D :: Text.padNat 2 (n + 1)

/-- Digits with the exponent of the first of them. -/
def scientific (digits : Text) (place : Int) : Text :=
  let mantissa : Text := match digits with
    | [] => []
    | [c] => [c]
    | c :: rest => c :: 0x2E :: rest
  mantissa ++ 0x65 :: exponentText place

/-- A decimal number without superfluous zeros. -/
def decimalText (d : Decimal) : Text :=
  let digits := Text.ofNat d.coefficient
  let place : Int := d.exponent + digits.length - 1
  let significant := (digits.reverse.dropWhile (· == 0x30)).reverse
  if leastPositional ≤ place ∧ place < leastScientific then positional significant place
  else scientific significant place

/-- The text of a number. -/
def toText : Binary64 → Text
  | .nan => "NaN"
  | .infinite false => "Infinity"
  | .infinite true => "-Infinity"
  | .finite negative rank =>
    let magnitude := if rank.val = 0 then Text.ofString "0.0" else decimalText (shortest rank.val)
    if negative then 0x2D :: magnitude else magnitude

end JsonSurvey.Binary64
