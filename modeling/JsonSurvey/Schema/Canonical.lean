import JsonSurvey.Json.Printer
import JsonSurvey.Schema
import JsonSurvey.Sorting
import JsonSurvey.Value.Comparison

/-! The canonical form of a schema: the members of every object are in the order of their keys, and
so are the tags of a list under the key `type`, which are taken as they are. Two schemas that differ
in these orders alone have the same form, and the compact text of the form is a key for the shape
that they describe.

The form is taken of any value, since the key `type` has its meaning wherever it occurs. It exists
if every such list can be sorted, as any list of strings can. -/

namespace JsonSurvey.Schema

/-- How many arrays and objects may lie inside each other in a value with a canonical form. -/
def maxCanonicalDepth : Nat := 990

/-- Tags in order, if all pairs of them that the sort compares have an order. The order of texts is
total, so that every sort gives the same list of them. -/
def sortTags? (tags : List Value) : Option (List Value) :=
  match tags.mapM Value.text? with
  | some texts => some ((texts.mergeSort fun s t => decide (s ≤ t)).map .string)
  | none => Sorting.sort? Value.before? tags

mutual

/-- Whether all lists of tags in a value can be sorted. -/
def isSortable : Value → Bool
  | .array _ es => allSortable es
  | .object ms => membersSortable ms
  | _ => true

/-- Whether all values of a list can be brought into canonical form. -/
def allSortable : List Value → Bool
  | [] => true
  | v :: rest => isSortable v && allSortable rest

/-- Whether all members of an object can be brought into canonical form. -/
def membersSortable : List (Text × Value) → Bool
  | [] => true
  | (key, v) :: rest =>
    (if key = typeKey then
      match v with
      | .array _ tags => (sortTags? tags).isSome
      | _ => isSortable v
    else isSortable v) && membersSortable rest

end

/-- Members in the order of their keys. -/
def sortMembers (members : List (Text × Value)) : List (Text × Value) :=
  members.mergeSort fun m n => decide (m.1 ≤ n.1)

mutual

/-- The canonical form of a value whose lists of tags can be sorted. -/
def canonical : Value → Value
  | .array _ es => .list (canonicalAll es)
  | .object ms => .object (sortMembers (canonicalMembers ms))
  | v => v

/-- The canonical forms of the values of a list. -/
def canonicalAll : List Value → List Value
  | [] => []
  | v :: rest => canonical v :: canonicalAll rest

/-- The members of an object in their canonical forms and in the given order. -/
def canonicalMembers : List (Text × Value) → List (Text × Value)
  | [] => []
  | (key, v) :: rest =>
    (key, if key = typeKey then
      match v with
      | .array _ tags => .list ((sortTags? tags).getD tags)
      | _ => canonical v
    else canonical v) :: canonicalMembers rest

end

/-- The canonical form of a value. -/
def canonicalize (v : Value) : Except Fault Value :=
  if v.nestsWithin maxCanonicalDepth then
    if isSortable v then .ok (canonical v) else .error .notOrdered
  else .error .tooDeep

/-- The compact text of a value, if every leaf of it has a text. -/
def compactText (v : Value) : Except Fault Text :=
  match Json.textFault? v with
  | some fault => .error fault
  | none => .ok (Json.compact Foreign.name v)

/-- The compact text of the canonical form of a value. -/
def canonicalKey (v : Value) : Except Fault Text := do
  compactText (← canonicalize v)

end JsonSurvey.Schema
