import JsonSurvey.Text.Blank
import JsonSurvey.Binary64.Decimal

/-! Coordinates written in strings: `geo:` in any case, a latitude, a comma and a longitude, with
white space allowed around everything but inside the numbers. A number is an optional minus sign,
digits, and optionally a point with further digits. -/

namespace JsonSurvey

/-- A written number: the digits before the point and those after it, if there is one. -/
structure Numeral.Plain where
  negative : Bool
  whole : Text
  fraction : Text
deriving DecidableEq

namespace Numeral.Plain

/-- The number as it was written. -/
def text (n : Plain) : Text :=
  Text.concat [if n.negative then [0x2D] else [], n.whole,
    if n.fraction.isEmpty then [] else 0x2E :: n.fraction]

/-- The floating-point number nearest to it. -/
def value (n : Plain) : Binary64 :=
  Binary64.ofDecimal n.negative ⟨Text.toNat (n.whole ++ n.fraction), -n.fraction.length⟩

/-- The longest fraction that a text begins with, and what comes after it. -/
def splitFraction (t : Text) : Text × Text :=
  match t with
  | c :: rest =>
    if c = 0x2E ∧ (Text.splitDigits rest).1 ≠ [] then Text.splitDigits rest else ([], t)
  | [] => ([], [])

/-- The longest number that a text of digits and points begins with. -/
def splitMagnitude (negative : Bool) (t : Text) : Option (Plain × Text) :=
  let (whole, rest) := Text.splitDigits t
  if whole = [] then none
  else some (⟨negative, whole, (splitFraction rest).1⟩, (splitFraction rest).2)

/-- The longest number that a text begins with, and what comes after it. -/
def split? (t : Text) : Option (Plain × Text) :=
  match t with
  | c :: rest => if c = 0x2D then splitMagnitude true rest else splitMagnitude false t
  | [] => none

end Numeral.Plain

/-- A latitude and a longitude. -/
structure Coordinate where
  lat : Binary64
  lng : Binary64
deriving DecidableEq

namespace Coordinate

/-- A coordinate as it was written. -/
structure Mention where
  lat : Numeral.Plain
  lng : Numeral.Plain
deriving DecidableEq

/-- The written numbers alone, by which mentions are told apart. -/
def Mention.key (m : Mention) : Text := Text.concat [m.lat.text, ",", m.lng.text]

/-- The coordinate that is meant. -/
def Mention.coordinate (m : Mention) : Coordinate := ⟨m.lat.value, m.lng.value⟩

/-- What comes after `geo:` in a text that begins with it, in letters of either case. -/
def afterScheme? : Text → Option Text
  | g :: e :: o :: colon :: rest =>
    if g.asciiLower = 0x67 ∧ e.asciiLower = 0x65 ∧ o.asciiLower = 0x6F ∧ colon = 0x3A then
      some rest
    else none
  | _ => none

/-- What comes after a comma, and after the white space around it. -/
def afterComma? (t : Text) : Option Text :=
  match t.dropWhile CodePoint.isBlank with
  | c :: rest => if c = 0x2C then some (rest.dropWhile CodePoint.isBlank) else none
  | [] => none

/-- The coordinate that a text mentions, if it is nothing but a mention of one. -/
def mention? (t : Text) : Option Mention := do
  let rest ← afterScheme? (Text.strip t)
  let (lat, rest) ← Numeral.Plain.split? (rest.dropWhile CodePoint.isBlank)
  let rest ← afterComma? rest
  let (lng, rest) ← Numeral.Plain.split? rest
  if rest = [] then some ⟨lat, lng⟩ else none

end Coordinate
end JsonSurvey
