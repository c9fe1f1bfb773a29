import JsonSurvey.Value

/-! Equality and order of values as a union of tags and its sorting use them. Integers, Booleans and
floating-point numbers are compared by their exact amounts, objects without regard to the order of
their members, texts and arrays by their first difference. -/

namespace JsonSurvey

/-- What a number amounts to. Finite amounts are in units of the least floating-point number. -/
inductive Amount
  | nan
  | infinite (negative : Bool)
  | finite (units : Int)
deriving DecidableEq

/-- Whether one amount is strictly below another; nothing is below or above `nan`. -/
def Amount.below : Amount → Amount → Bool
  | .finite a, .finite b => a < b
  | .infinite true, .infinite false => true
  | .infinite true, .finite _ => true
  | .finite _, .infinite false => true
  | _, _ => false

/-- Whether two leaves are equal. -/
def Foreign.same : Foreign → Foreign → Bool
  | .set, .set | .set, .frozenset | .frozenset, .set | .frozenset, .frozenset => true
  | .bytes, .bytes | .bytes, .bytearray | .bytearray, .bytes | .bytearray, .bytearray => true
  | .complex, .complex => true
  | .object i, .object j => i == j
  | .range, .range => true
  | .other typeName i, .other typeName' j => typeName == typeName' && i == j
  | _, _ => false

/-- Whether two leaves have an order, in which neither is then before the other. -/
def Foreign.ordered : Foreign → Foreign → Bool
  | .set, .set | .set, .frozenset | .frozenset, .set | .frozenset, .frozenset => true
  | .bytes, .bytes | .bytes, .bytearray | .bytearray, .bytes | .bytearray, .bytearray => true
  | _, _ => false

namespace Value

/-- What a value amounts to, if it is a number or a Boolean. -/
def amount? : Value → Option Amount
  | .bool b => some (.finite (if b then Binary64.unitsPerOne else 0))
  | .int i => some (.finite (i * Binary64.unitsPerOne))
  | .float .nan => some .nan
  | .float (.infinite negative) => some (.infinite negative)
  | .float (.finite negative rank) => some (.finite (Binary64.signedUnits negative rank.val))
  | _ => none

mutual

/-- Whether two values are equal. -/
def same : Value → Value → Bool
  | .null, .null => true
  | .string s, .string t => s == t
  | .array f es, .array g fs => f == g && sameAll es fs
  | .object ms, .object ns => ms.length == ns.length && sameMembers ms ns
  | .foreign j, .foreign k => j.same k
  | v, w =>
    match v.amount?, w.amount? with
    | some a, some b => a == b
    | _, _ => false

/-- Whether two lists are equal, value by value. -/
def sameAll : List Value → List Value → Bool
  | [], [] => true
  | v :: vs, w :: ws => same v w && sameAll vs ws
  | _, _ => false

/-- Whether every member of the first list is equal to the member of the second with its key. -/
def sameMembers : List (Text × Value) → List (Text × Value) → Bool
  | [], _ => true
  | (key, v) :: rest, members =>
    (match members.lookup key with
      | some w => same v w
      | none => false) && sameMembers rest members

end

mutual

/-- Whether two values have an order. -/
def ordered : Value → Value → Bool
  | .string _, .string _ => true
  | .array f es, .array g fs => f == g && orderedAll es fs
  | .foreign j, .foreign k => j.ordered k
  | v, w => v.amount?.isSome && w.amount?.isSome

/-- Whether the first difference of two lists, if they have one, is between values with an order. -/
def orderedAll : List Value → List Value → Bool
  | v :: vs, w :: ws => if same v w then orderedAll vs ws else ordered v w
  | _, _ => true

end

mutual

/-- Whether a value is strictly before another in their order. -/
def before : Value → Value → Bool
  | .string s, .string t => s < t
  | .array f es, .array g fs => f == g && beforeAll es fs
  | v, w =>
    match v.amount?, w.amount? with
    | some a, some b => a.below b
    | _, _ => false

/-- Whether a list is before another: by their first difference, or because it ends first. -/
def beforeAll : List Value → List Value → Bool
  | v :: vs, w :: ws => if same v w then beforeAll vs ws else before v w
  | [], _ :: _ => true
  | _, [] => false

end

/-- Whether a value is strictly before another, if the two have an order. -/
def before? (v w : Value) : Option Bool := if ordered v w then some (before v w) else none

end Value
end JsonSurvey
