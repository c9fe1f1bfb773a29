import JsonSurvey.Text.Blank

/-! Integers as people write them: blanks around the numeral, a sign, digits of any script, and
single underscores between digits. -/

namespace JsonSurvey

/-- The zeros of the scripts of Unicode 14 that have decimal digits; each is followed by the other
nine digits of its script. -/
def CodePoint.zeros : List Nat := [
  0x30, 0x660, 0x6F0, 0x7C0, 0x966, 0x9E6, 0xA66, 0xAE6, 0xB66, 0xBE6, 0xC66, 0xCE6, 0xD66,
  0xDE6, 0xE50, 0xED0, 0xF20, 0x1040, 0x1090, 0x17E0, 0x1810, 0x1946, 0x19D0, 0x1A80, 0x1A90,
  0x1B50, 0x1BB0, 0x1C40, 0x1C50, 0xA620, 0xA8D0, 0xA900, 0xA9D0, 0xA9F0, 0xAA50, 0xABF0, 0xFF10,
  0x104A0, 0x10D30, 0x11066, 0x110F0, 0x11136, 0x111D0, 0x112F0, 0x11450, 0x114D0, 0x11650,
  0x116C0, 0x11730, 0x118E0, 0x11950, 0x11C50, 0x11D50, 0x11DA0, 0x16A60, 0x16AC0, 0x16B50,
  0x1D7CE, 0x1D7D8, 0x1D7E2, 0x1D7EC, 0x1D7F6, 0x1E140, 0x1E2F0, 0x1E950, 0x1FBF0]

/-- The number that a digit of any script stands for. -/
def CodePoint.digitOfScript? (c : CodePoint) : Option Nat :=
  (zeros.find? fun origin => origin ≤ c.val && c.val ≤ origin + 9).map (c.val - ·)

namespace Numeral

/-- The digits of a numeral in order. `afterDigit` tells that a digit came last, so that an
underscore may follow and the numeral may end. -/
def digits? (afterDigit : Bool) : Text → Option (List Nat)
  | [] => if afterDigit then some [] else none
  | c :: rest =>
    if c = 0x5F then if afterDigit then digits? false rest else none
    else match c.digitOfScript? with
      | some d => (digits? true rest).map (d :: ·)
      | none => none

/-- The blanks that may surround a numeral: white space, of which the four information separators
are left out. -/
def isMargin (c : CodePoint) : Bool := c.isBlank && !(0x1C ≤ c.val && c.val ≤ 0x1F)

/-- The number that the digits of a numeral without sign stand for. -/
def natural? (t : Text) : Option Nat :=
  (digits? false t).bind fun ds =>
    if ds.length ≤ Text.maxDigits then some (ds.foldl (fun n d => 10 * n + d) 0) else none

/-- The integer that a numeral stands for. -/
def integer? (t : Text) : Option Int :=
  match Text.stripWhile isMargin t with
  | [] => none
  | sign :: rest =>
    if sign = 0x2D then (natural? rest).map fun n => -(n : Int)
    else if sign = 0x2B then (natural? rest).map Int.ofNat
    else (natural? (sign :: rest)).map Int.ofNat

end Numeral
end JsonSurvey
