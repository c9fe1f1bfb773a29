import JsonSurvey.Text

/-! White space in the sense of the Unicode standard, together with the four information
separators, and its removal at both ends of a text. -/

namespace JsonSurvey

/-- The code points that count as white space. -/
def CodePoint.isBlank (c : CodePoint) : Bool :=
  (0x09 ≤ c.val && c.val ≤ 0x0D) || (0x1C ≤ c.val && c.val ≤ 0x20) || c.val == 0x85 ||
    c.val == 0xA0 || c.val == 0x1680 || (0x2000 ≤ c.val && c.val ≤ 0x200A) || c.val == 0x2028 ||
    c.val == 0x2029 || c.val == 0x202F || c.val == 0x205F || c.val == 0x3000

namespace Text

/-- `t` without the code points that `blank` accepts at its two ends. -/
def stripWhile (blank : CodePoint → Bool) (t : Text) : Text :=
  ((t.dropWhile blank).reverse.dropWhile blank).reverse

/-- `t` without white space at its two ends. -/
def strip (t : Text) : Text := stripWhile CodePoint.isBlank t

/-- A text without anything but white space. -/
def isBlank (t : Text) : Bool := t.all CodePoint.isBlank

end Text
end JsonSurvey
