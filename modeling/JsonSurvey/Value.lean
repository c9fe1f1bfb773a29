import JsonSurvey.Binary64

/-! Document values: the values of JSON, and beside them the fixed sequences and the leaves without
a JSON form that a caller may put into a document. Objects list their members in the order in which
the keys first came; integers have any size and are apart from floating-point numbers. -/

namespace JsonSurvey

/-- The two forms of an array. Only a list is what JSON text decodes to. -/
inductive ArrayForm
  | list
  | tuple
deriving DecidableEq

/-- The leaves that have no JSON form. Those of one kind are alike, but for objects and for what is
of any other type, each of which has an identity of its own. -/
inductive Foreign
  | set
  | frozenset
  | bytes
  | bytearray
  | complex
  | object (identity : Nat)
  | range
  | other (typeName : Text) (identity : Nat)
deriving DecidableEq

/-- A document or a part of one. -/
inductive Value
  | null
  | bool (b : Bool)
  | int (i : Int)
  | float (x : Binary64)
  | string (t : Text)
  | array (form : ArrayForm) (elements : List Value)
  | object (members : List (Text × Value))
  | foreign (leaf : Foreign)

instance : Inhabited Value := ⟨.null⟩

/-- The name of the leaf's kind, as messages show it. -/
def Foreign.name : Foreign → Text
  | .set => "set"
  | .frozenset => "frozenset"
  | .bytes => "bytes"
  | .bytearray => "bytearray"
  | .complex => "complex"
  | .object _ => "object"
  | .range => "range"
  | .other typeName _ => typeName

namespace Value

/-- An array as JSON text decodes to it. -/
@[match_pattern] abbrev list (elements : List Value) : Value := .array .list elements

/-- The name of the value's type, as messages show it. -/
def typeName : Value → Text
  | .null => "NoneType"
  | .bool _ => "bool"
  | .int _ => "int"
  | .float _ => "float"
  | .string _ => "str"
  | .array .list _ => "list"
  | .array .tuple _ => "tuple"
  | .object _ => "dict"
  | .foreign leaf => leaf.name

/-- Whether a value counts as nothing: null, false, zero and whatever is empty. -/
def isVoid : Value → Bool
  | .null => true
  | .bool b => !b
  | .int i => i == 0
  | .float x => x.isZero
  | .string t => t.isEmpty
  | .array _ es => es.isEmpty
  | .object ms => ms.isEmpty
  | .foreign .set | .foreign .frozenset => true
  | .foreign _ => false

/-- The text of a string. -/
def text? : Value → Option Text
  | .string t => some t
  | _ => none

/-- The items of a document: a list is a batch of items and anything else is one item. -/
def items : Value → List Value
  | .list es => es
  | v => [v]

/-- The members with `v` under `key`: a new key comes last, a known one keeps its place. -/
def put (members : List (Text × Value)) (key : Text) (v : Value) : List (Text × Value) :=
  match members with
  | [] => [(key, v)]
  | (k, w) :: rest => if k = key then (k, v) :: rest else (k, w) :: put rest key v

mutual

/-- The number of values in a value, itself included. -/
def size : Value → Nat
  | .array _ es => sizeAll es + 1
  | .object ms => sizeMembers ms + 1
  | _ => 1

/-- The number of values in a list of values. -/
def sizeAll : List Value → Nat
  | [] => 0
  | v :: rest => v.size + sizeAll rest

/-- The number of values in the members of an object. -/
def sizeMembers : List (Text × Value) → Nat
  | [] => 0
  | (_, v) :: rest => v.size + sizeMembers rest

end

theorem size_pos (v : Value) : 0 < v.size := by
  cases v <;> simp [size]

theorem sizeAll_append (vs ws : List Value) : sizeAll (vs ++ ws) = sizeAll vs + sizeAll ws := by
  induction vs with
  | nil => simp [sizeAll]
  | cons v vs ih => simp only [List.cons_append, sizeAll, ih]; omega

theorem sizeMembers_append (ms ns : List (Text × Value)) :
    sizeMembers (ms ++ ns) = sizeMembers ms + sizeMembers ns := by
  induction ms with
  | nil => simp [sizeMembers]
  | cons m ms ih => simp only [List.cons_append, sizeMembers, ih]; omega

/-- The values of members, without their keys. -/
def values (members : List (Text × Value)) : List Value := members.map (·.2)

theorem sizeAll_values (members : List (Text × Value)) :
    sizeAll (values members) = sizeMembers members := by
  induction members with
  | nil => rfl
  | cons m rest ih => simpa only [values, List.map_cons, sizeAll, sizeMembers] using congrArg _ ih

mutual

/-- Whether at most `limit` arrays and objects lie inside each other. -/
def nestsWithin : Nat → Value → Bool
  | 0, .array _ _ => false
  | 0, .object _ => false
  | limit + 1, .array _ es => allNestWithin limit es
  | limit + 1, .object ms => membersNestWithin limit ms
  | _, _ => true

/-- Whether all values of a list nest within a limit. -/
def allNestWithin (limit : Nat) : List Value → Bool
  | [] => true
  | v :: rest => nestsWithin limit v && allNestWithin limit rest

/-- Whether all members of an object nest within a limit. -/
def membersNestWithin (limit : Nat) : List (Text × Value) → Bool
  | [] => true
  | (_, v) :: rest => nestsWithin limit v && membersNestWithin limit rest

end

end Value
end JsonSurvey
