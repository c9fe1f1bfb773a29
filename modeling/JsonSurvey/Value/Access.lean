import JsonSurvey.Fault
import JsonSurvey.Value

/-! Going through the parts of a value, counting them and looking them up by key, with the faults of
values that have none. -/

namespace JsonSurvey.Value

/-- The parts of a value in order: the elements of an array, the keys of an object, the code points
of a string, and whatever a leaf without a JSON form consists of. -/
def parts : Value → Except Fault (List Value)
  | .array _ es => .ok es
  | .object ms => .ok (ms.map fun m => .string m.1)
  | .string t => .ok (t.map fun c => .string [c])
  | .foreign .set | .foreign .frozenset => .ok []
  | .foreign .bytes | .foreign .bytearray => .ok [.int 0x78]
  | .foreign .range => .ok [.int 0, .int 1, .int 2]
  | v => .error (.notIterable v.typeName)

/-- The number of parts of a value. -/
def count (v : Value) : Except Fault Nat :=
  match parts v with
  | .ok ps => .ok ps.length
  | .error _ => .error (.noLength v.typeName)

/-- What is told of a value whose parts have positions and no keys. -/
def positionsOnly? : Value → Option Text
  | .string _ => some "string indices must be integers, not 'str'"
  | .array .list _ => some "list indices must be integers or slices, not str"
  | .array .tuple _ => some "tuple indices must be integers or slices, not str"
  | .foreign .bytes => some "byte indices must be integers or slices, not str"
  | .foreign .bytearray => some "bytearray indices must be integers or slices, not str"
  | .foreign .range => some "range indices must be integers or slices, not str"
  | _ => none

/-- The part of a value under a key. -/
def under (key : Text) : Value → Except Fault Value
  | .object ms =>
    match ms.lookup key with
    | some v => .ok v
    | none => .error (.missingKey key)
  | v =>
    match v.positionsOnly? with
    | some description => .error (.positionsOnly description)
    | none => .error (.notIndexable v.typeName)

end JsonSurvey.Value
