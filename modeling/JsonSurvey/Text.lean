/-! Texts as lists of code points. A surrogate may stand alone, since the escapes of a document can
name one, so a text is not a `String`; the order of texts is the lexicographic order of lists.

Numerals are written by `Text.ofNat`, `Text.ofInt` and `Text.hex` and read back by `Text.toNat`. -/

namespace JsonSurvey

/-- A Unicode code point, surrogates included. -/
abbrev CodePoint := Fin 0x110000

instance CodePoint.neZero : @NeZero Nat Zero.ofOfNat0 0x110000 := ⟨by decide⟩

/-- A sequence of code points. -/
abbrev Text := List CodePoint

instance Text.lawfulBEq : LawfulBEq Text := inferInstance

/-- Texts are in lexicographic order. -/
instance Text.instLT : LT Text := @List.instLT CodePoint instLTFin

instance Text.instLE : LE Text := @List.instLE CodePoint instLTFin

instance Text.decidableLT (s t : Text) : Decidable (s < t) :=
  inferInstanceAs (Decidable (@LT.lt (List CodePoint) (@List.instLT CodePoint instLTFin) s t))

instance Text.decidableLE (s t : Text) : Decidable (s ≤ t) :=
  inferInstanceAs (Decidable (@LE.le (List CodePoint) (@List.instLE CodePoint instLTFin) s t))

namespace CodePoint

/-- Every character is a code point. -/
def ofChar (c : Char) : CodePoint := ⟨c.toNat, by
  have h := c.valid
  simp only [UInt32.isValidChar, Nat.isValidChar] at h
  simp only [Char.toNat]
  omega⟩

instance : Coe Char CodePoint := ⟨ofChar⟩

/-- A code point that stands for half of a character outside the basic plane. -/
def isSurrogate (c : CodePoint) : Bool := 0xD800 ≤ c.val && c.val ≤ 0xDFFF

def isHighSurrogate (c : CodePoint) : Bool := 0xD800 ≤ c.val && c.val ≤ 0xDBFF

def isLowSurrogate (c : CodePoint) : Bool := 0xDC00 ≤ c.val && c.val ≤ 0xDFFF

/-- The digits `0` to `9`. -/
def isDigit (c : CodePoint) : Bool := 0x30 ≤ c.val && c.val ≤ 0x39

/-- The last decimal digit of a number. -/
def digit (n : Nat) : CodePoint := ⟨0x30 + n % 10, by omega⟩

/-- The number that a digit stands for. -/
def digitValue (c : CodePoint) : Nat := c.val - 0x30

/-- The last hexadecimal digit of a number, in lower case. -/
def hexDigit (n : Nat) : CodePoint :=
  if n % 16 < 10 then ⟨0x30 + n % 16, by omega⟩ else ⟨0x57 + n % 16, by omega⟩

/-- The number that a hexadecimal digit of either case stands for. -/
def hexValue? (c : CodePoint) : Option Nat :=
  if 0x30 ≤ c.val && c.val ≤ 0x39 then some (c.val - 0x30)
  else if 0x41 ≤ c.val && c.val ≤ 0x46 then some (c.val - 0x37)
  else if 0x61 ≤ c.val && c.val ≤ 0x66 then some (c.val - 0x57)
  else none

/-- Lower case for the letters `A` to `Z`; every other code point is left alone. -/
def asciiLower (c : CodePoint) : CodePoint :=
  if h : 0x41 ≤ c.val ∧ c.val ≤ 0x5A then ⟨c.val + 0x20, by omega⟩ else c

end CodePoint

namespace Text

/-- The code points of a string. -/
def ofString (s : String) : Text := s.toList.map CodePoint.ofChar

instance : Coe String Text := ⟨ofString⟩

/-- Parts written one behind the other. -/
def concat (parts : List Text) : Text := parts.flatten

/-- The shortest decimal numeral of a number. -/
def ofNat (n : Nat) : Text :=
  if n < 10 then [CodePoint.digit n] else ofNat (n / 10) ++ [CodePoint.digit n]

/-- A decimal numeral, with a minus sign in front of a negative number. -/
def ofInt : Int → Text
  | .ofNat n => ofNat n
  | .negSucc n => CodePoint.ofChar '-' :: ofNat (n + 1)

/-- An integer with more digits than this is neither written nor read in decimal. -/
def maxDigits : Nat := 4300

/-- The last `width` hexadecimal digits of a number, in lower case. -/
def hex : Nat → Nat → Text
  | 0, _ => []
  | width + 1, n => hex width (n / 16) ++ [CodePoint.hexDigit n]

/-- The number that a run of digits stands for. -/
def toNat (digits : Text) : Nat := digits.foldl (fun n c => 10 * n + c.digitValue) 0

/-- Splits off the digits that a text begins with. -/
def splitDigits (t : Text) : Text × Text :=
  (t.takeWhile CodePoint.isDigit, t.dropWhile CodePoint.isDigit)

theorem splitDigits_length (t : Text) :
    (splitDigits t).1.length + (splitDigits t).2.length = t.length := by
  rw [← List.length_append, splitDigits, List.takeWhile_append_dropWhile]

/-- `t` filled up with blanks on the right to at least `width` code points. -/
def padRight (width : Nat) (t : Text) : Text := t ++ List.replicate (width - t.length) 0x20

/-- `n` in decimal, filled up with zeros on the left to at least `width` digits. -/
def padNat (width n : Nat) : Text :=
  List.replicate (width - (ofNat n).length) 0x30 ++ ofNat n

end Text
end JsonSurvey
