import JsonSurvey.Fault
import JsonSurvey.Value

/-! The six kinds of JSON values. Integers and floating-point numbers are of one kind, and so are
the two forms of arrays. -/

namespace JsonSurvey

/-- A kind of JSON values. -/
inductive Kind
  | null
  | boolean
  | number
  | string
  | array
  | object
deriving DecidableEq

/-- The tag that a schema shows for the kind. -/
def Kind.tag : Kind → Text
  | .null => "null"
  | .boolean => "boolean"
  | .number => "number"
  | .string => "string"
  | .array => "array"
  | .object => "object"

/-- The kind of a value; a leaf without a JSON form has none. -/
def Value.kind : Value → Except Fault Kind
  | .null => .ok .null
  | .bool _ => .ok .boolean
  | .int _ | .float _ => .ok .number
  | .string _ => .ok .string
  | .array _ _ => .ok .array
  | .object _ => .ok .object
  | .foreign leaf => .error (.notJson leaf.name)

end JsonSurvey
