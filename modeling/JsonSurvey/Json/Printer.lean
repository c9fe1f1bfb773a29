import JsonSurvey.Fault
import JsonSurvey.Value
import JsonSurvey.Binary64.Notation

/-! Writing JSON texts, compact or on indented lines. Strings escape the quote, the backslash and
control characters only. The compact text leaves the writing of leaves without a JSON form to its
caller, and whether all leaves have a text is told apart from it (`textFault?`); the indented one is
a sequence of chunks, so that a file holds what came before a fault. -/

namespace JsonSurvey.Json

/-- A code point inside a string. -/
def escape (c : CodePoint) : Text :=
  if c = 0x22 ∨ c = 0x5C then [0x5C, c]
  else if c = 0x0A then "\\n"
  else if c = 0x0D then "\\r"
  else if c = 0x09 then "\\t"
  else if c = 0x08 then "\\b"
  else if c = 0x0C then "\\f"
  else if c.val < 0x20 then Text.ofString "\\u00" ++ Text.hex 2 c.val
  else [c]

/-- A text as a JSON string. -/
def quote (t : Text) : Text := 0x22 :: (t.flatMap escape ++ [0x22])

/-- The text of an integer, unless it has too many digits. -/
def integerText (i : Int) : Except Fault Text :=
  if Text.maxDigits < (Text.ofNat i.natAbs).length then .error .unwritableInteger
  else .ok (Text.ofInt i)

/-! ### Compact texts -/

mutual

/-- The fault of the first leaf without a text, in document order. -/
def textFault? : Value → Option Fault
  | .int i =>
    match integerText i with
    | .error fault => some fault
    | .ok _ => none
  | .array _ es => elementsFault? es
  | .object ms => membersFault? ms
  | .foreign leaf => some (.notWritable leaf.name)
  | _ => none

/-- The fault of the first leaf without a text in a list of values. -/
def elementsFault? : List Value → Option Fault
  | [] => none
  | v :: rest => (textFault? v).or (elementsFault? rest)

/-- The fault of the first leaf without a text in the members of an object. -/
def membersFault? : List (Text × Value) → Option Fault
  | [] => none
  | (_, v) :: rest => (textFault? v).or (membersFault? rest)

end

mutual

/-- The text of a value without any space. `leaf` writes the leaves without a JSON form. -/
def compact (leaf : Foreign → Text) : Value → Text
  | .null => "null"
  | .bool true => "true"
  | .bool false => "false"
  | .int i => Text.ofInt i
  | .float x => x.toText
  | .string t => quote t
  | .array _ [] => "[]"
  | .array _ (v :: rest) => 0x5B :: (compact leaf v ++ compactElements leaf rest)
  | .object [] => "\x7b\x7d"
  | .object ((key, v) :: rest) =>
    0x7B :: (quote key ++ 0x3A :: (compact leaf v ++ compactMembers leaf rest))
  | .foreign kind => leaf kind

/-- The further elements of an array and its end. -/
def compactElements (leaf : Foreign → Text) : List Value → Text
  | [] => [0x5D]
  | v :: rest => 0x2C :: (compact leaf v ++ compactElements leaf rest)

/-- The further members of an object and its end. -/
def compactMembers (leaf : Foreign → Text) : List (Text × Value) → Text
  | [] => [0x7D]
  | (key, v) :: rest =>
    0x2C :: (quote key ++ 0x3A :: (compact leaf v ++ compactMembers leaf rest))

end

/-! ### Indented texts -/

/-- How many containers may lie inside each other in a written value. -/
def maxWrittenDepth : Nat := 990

/-- A line end with the indentation of a level. -/
def newLine (level : Nat) : Text := 0x0A :: List.replicate (2 * level) 0x20

/-- A part of a written text, or the fault at which the writing stops. -/
abbrev Chunk := Except Fault Text

mutual

/-- The chunks of a value at a level of indentation, the first of them behind `lead`. -/
def chunks (level : Nat) (lead : Text) : Value → List Chunk
  | .null => [.ok (lead ++ Text.ofString "null")]
  | .bool true => [.ok (lead ++ Text.ofString "true")]
  | .bool false => [.ok (lead ++ Text.ofString "false")]
  | .int i => [(integerText i).map (lead ++ ·)]
  | .float x => [.ok (lead ++ x.toText)]
  | .string t => [.ok (lead ++ quote t)]
  | .array _ es =>
    .ok lead ::
      if maxWrittenDepth ≤ level then [.error .tooDeep]
      else match es with
        | [] => [.ok (Text.ofString "[]")]
        | v :: rest =>
          chunks (level + 1) (0x5B :: newLine (level + 1)) v ++ elementChunks (level + 1) rest
  | .object ms =>
    .ok lead ::
      if maxWrittenDepth ≤ level then [.error .tooDeep]
      else match ms with
        | [] => [.ok (Text.ofString "\x7b\x7d")]
        | (key, v) :: rest =>
          .ok [0x7B] :: .ok (newLine (level + 1)) :: .ok (quote key) :: .ok [0x3A, 0x20] ::
            (chunks (level + 1) [] v ++ memberChunks (level + 1) rest)
  | .foreign leaf => [.ok lead, .error (.notWritable leaf.name)]

/-- The chunks of the further elements of an array and of its end. -/
def elementChunks (level : Nat) : List Value → List Chunk
  | [] => [.ok (newLine (level - 1)), .ok [0x5D]]
  | v :: rest => chunks level (0x2C :: newLine level) v ++ elementChunks level rest

/-- The chunks of the further members of an object and of its end. -/
def memberChunks (level : Nat) : List (Text × Value) → List Chunk
  | [] => [.ok (newLine (level - 1)), .ok [0x7D]]
  | (key, v) :: rest =>
    .ok (0x2C :: newLine level) :: .ok (quote key) :: .ok [0x3A, 0x20] ::
      (chunks level [] v ++ memberChunks level rest)

end

/-- The indented text of a value in chunks. -/
def indented (v : Value) : List Chunk := chunks 0 [] v

end JsonSurvey.Json
