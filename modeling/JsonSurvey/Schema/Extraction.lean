import JsonSurvey.Coordinate
import JsonSurvey.Schema

/-! The schema of a document. An object has a schema for each of its members; an array has one
schema for its elements, merged from theirs; a string that mentions a coordinate is marked. A leaf
without a JSON form has no schema, and neither has a document with a part that has none. -/

namespace JsonSurvey.Schema

/-- How many arrays and objects may lie inside each other in a document to be described. -/
def maxDepth : Nat := 490

/-- The node of a value without parts. -/
def leaf (kind : Kind) (coordinate : Bool) : Value :=
  node (.string kind.tag) none none coordinate

mutual

/-- The schema of a value of any depth. -/
def describe : Value → Except Fault Value
  | .array _ es => do
    let schemas ← describeAll es
    return node (.string Kind.array.tag) none (some (merged schemas)) false
  | .object ms => do
    let schemas ← describeMembers ms
    return node (.string Kind.object.tag) (some schemas) none false
  | .string t => .ok (leaf .string (Coordinate.mention? t).isSome)
  | v => v.kind.map (leaf · false)

/-- The schemas of the values of a list. -/
def describeAll : List Value → Except Fault (List Value)
  | [] => .ok []
  | v :: rest => do
    let schema ← describe v
    let schemas ← describeAll rest
    return schema :: schemas

/-- The schemas of the members of an object, under their keys. -/
def describeMembers : List (Text × Value) → Except Fault (List (Text × Value))
  | [] => .ok []
  | (key, v) :: rest => do
    let schema ← describe v
    let schemas ← describeMembers rest
    return (key, schema) :: schemas

end

/-- The schema of a document. -/
def extract (v : Value) : Except Fault Value :=
  if v.nestsWithin maxDepth then describe v else .error .tooDeep

end JsonSurvey.Schema
