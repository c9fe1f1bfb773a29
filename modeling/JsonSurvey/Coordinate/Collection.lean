import JsonSurvey.Coordinate
import JsonSurvey.Log
import JsonSurvey.Value

/-! The coordinates of a document, wherever its strings mention them, in document order and each
once. The values still to be visited are kept in a list, so any depth of nesting is visited. Keys
are not looked at. -/

namespace JsonSurvey.Coordinate

/-- Visits the pending values, behind the reversed mentions `found` with the keys `seen`. -/
def collectFrom (seen : List Text) (found : List Mention) : List Value → List Mention
  | [] => found.reverse
  | .string t :: pending =>
    match mention? t with
    | some m =>
      let key := m.key
      if key ∈ seen then collectFrom seen found pending
      else collectFrom (key :: seen) (m :: found) pending
    | none => collectFrom seen found pending
  | .array _ es :: pending => collectFrom seen found (es ++ pending)
  | .object ms :: pending => collectFrom seen found (Value.values ms ++ pending)
  | _ :: pending => collectFrom seen found pending
termination_by pending => Value.sizeAll pending
decreasing_by
  · exact Nat.lt_add_of_pos_left (Value.size_pos _)
  · exact Nat.lt_add_of_pos_left (Value.size_pos _)
  · exact Nat.lt_add_of_pos_left (Value.size_pos _)
  · simp only [Value.sizeAll_append, Value.sizeAll, Value.size]
    omega
  · simp only [Value.sizeAll_append, Value.sizeAll_values, Value.sizeAll, Value.size]
    omega
  · exact Nat.lt_add_of_pos_left (Value.size_pos _)

/-- The first mention of each coordinate of a document. -/
def mentions (document : Value) : List Mention := collectFrom [] [] document.items

/-- The coordinates of a document. -/
def collect (document : Value) : List Coordinate := (mentions document).map Mention.coordinate

/-- The coordinates of a document, with their number logged. -/
def survey (document : Value) : Report (List Coordinate) := do
  let coordinates := collect document
  Report.log (Log.Source.coordinates.debug
    (Text.concat ["Collected ", Text.ofNat coordinates.length, " unique coordinate pairs"]))
  return coordinates

/-- The two numbers of a coordinate as a list. -/
def pair (c : Coordinate) : Value := .list [.float c.lat, .float c.lng]

/-- The two numbers of a coordinate under their names. -/
def record (c : Coordinate) : Value := .object [("lat", .float c.lat), ("lng", .float c.lng)]

end JsonSurvey.Coordinate
