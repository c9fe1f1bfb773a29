import JsonSurvey.Text.Printable

/-! Texts in quotation marks, as messages show the texts they are about. Single quotes are used
unless the text has a single quote and no double quote; the quote in use, backslashes and code
points that do not show are written as escapes. -/

namespace JsonSurvey

/-- A code point inside the quotation mark `quote`. -/
def CodePoint.quoted (quote c : CodePoint) : Text :=
  if c = quote ∨ c = 0x5C then [0x5C, c]
  else if c = 0x0A then "\\n"
  else if c = 0x0D then "\\r"
  else if c = 0x09 then "\\t"
  else if c.isPrintable then [c]
  else if c.val < 0x100 then "\\x" ++ Text.hex 2 c.val
  else if c.val < 0x10000 then "\\u" ++ Text.hex 4 c.val
  else "\\U" ++ Text.hex 8 c.val

namespace Text

/-- The quotation mark for a text. -/
def quotationMark (t : Text) : CodePoint :=
  if t.contains 0x27 && !t.contains 0x22 then 0x22 else 0x27

/-- A text in quotation marks. -/
def quoted (t : Text) : Text :=
  t.quotationMark :: t.flatMap (CodePoint.quoted t.quotationMark) ++ [t.quotationMark]

end Text
end JsonSurvey
