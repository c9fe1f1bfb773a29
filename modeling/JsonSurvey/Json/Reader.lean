import JsonSurvey.Json.Lexeme

/-! Reading JSON texts. The reader goes through the tokens once, with the containers that are still
open on a stack, so that its depth is bounded by a limit and by nothing else. The limit is what the
call stack leaves: how deep it is when reading starts takes away from it, and reading a file takes
one call more than reading a text (`maxDepth`, `maxFileDepth`). A refusal tells the cause and the
text from the place of the fault on. -/

namespace JsonSurvey.Json

/-- How many containers of a text may be open at once. The call stack holds a thousand calls, of
which seven are in use if reading is called from the outermost function. -/
def maxDepth : Nat := 993

/-- How many containers of the text of a file may be open at once: one call goes to the file. -/
def maxFileDepth : Nat := maxDepth - 1

/-- Why a text is not read. -/
inductive Refusal
  | malformed (issue : Issue) (place : Text)
  | tooManyDigits (digits : Nat)
  | tooDeep (container : Container)

/-- A container that is still open: an array with its elements in reverse order, or an object with
its members and the key whose value comes next. -/
inductive Frame
  | array (elements : List Value)
  | object (members : List (Text × Value)) (key : Text)

/-- What may come next: a value; a value or the end of an empty array; the key of a member, or also
the end of an empty object; the colon after a key; what follows a complete value. -/
inductive Expecting
  | value
  | element
  | key (members : List (Text × Value)) (mayEnd : Bool)
  | colon (members : List (Text × Value)) (key : Text)
  | complete (v : Value)

/-- The number that a written number stands for. Without a fraction and an exponent it is an
integer. -/
def Number.value (n : Number) : Except Refusal Value :=
  match n.fraction, n.exponent with
  | none, none =>
    if Text.maxDigits < n.whole.length then .error (.tooManyDigits n.whole.length)
    else .ok (.int (if n.negative then -(Text.toNat n.whole : Int) else Text.toNat n.whole))
  | fraction, exponent =>
    let digits := fraction.getD []
    let power : Int := match exponent with
      | none => 0
      | some (true, ds) => -(Text.toNat ds : Int)
      | some (false, ds) => Text.toNat ds
    .ok (.float (Binary64.ofDecimal n.negative
      ⟨Text.toNat (n.whole ++ digits), power - digits.length⟩))

/-- What the reader does with a token: it goes on with open containers and an expectation, or it
refuses. -/
abbrev Step := Except Refusal (List Frame × Expecting)

/-- Opens a container, unless as many are open as the limit allows. -/
def openContainer (limit : Nat) (stack : List Frame) (container : Container) : Step :=
  if stack.length < limit then
    .ok (stack, match container with
      | .array => .element
      | .object => .key [] true)
  else .error (.tooDeep container)

/-- Takes a token where a value is expected. -/
def takeValue (limit : Nat) (stack : List Frame) (token : Token) : Step :=
  match token.lexeme with
  | .name v => .ok (stack, .complete v)
  | .string t => .ok (stack, .complete (.string t))
  | .number n => do return (stack, .complete (← n.value))
  | .beginArray => openContainer limit stack .array
  | .beginObject => openContainer limit stack .object
  | .badString issue place => .error (.malformed issue place)
  | _ => .error (.malformed .value token.text)

/-- Takes a token where the first element of an array is expected, or the end of the array. -/
def takeElement (limit : Nat) (stack : List Frame) (token : Token) : Step :=
  match token.lexeme with
  | .endArray => .ok (stack, .complete (.list []))
  | _ => takeValue limit (.array [] :: stack) token

/-- Takes a token where the key of a member is expected. -/
def takeKey (stack : List Frame) (members : List (Text × Value)) (mayEnd : Bool)
    (token : Token) : Step :=
  match token.lexeme with
  | .string key => .ok (stack, .colon members key)
  | .endObject =>
    if mayEnd then .ok (stack, .complete (.object members))
    else .error (.malformed .propertyName token.text)
  | .badString issue place => .error (.malformed issue place)
  | _ => .error (.malformed .propertyName token.text)

/-- Takes a token where the colon after a key is expected. -/
def takeColon (stack : List Frame) (members : List (Text × Value)) (key : Text)
    (token : Token) : Step :=
  match token.lexeme with
  | .colon => .ok (.object members key :: stack, .value)
  | _ => .error (.malformed .colon token.text)

/-- Takes a token after the complete value `v`. -/
def takeNext (stack : List Frame) (v : Value) (token : Token) : Step :=
  match stack with
  | [] => .error (.malformed .extraData token.text)
  | .array elements :: stack =>
    match token.lexeme with
    | .comma => .ok (.array (v :: elements) :: stack, .value)
    | .endArray => .ok (stack, .complete (.list (v :: elements).reverse))
    | _ => .error (.malformed .comma token.text)
  | .object members key :: stack =>
    match token.lexeme with
    | .comma => .ok (stack, .key (Value.put members key v) false)
    | .endObject => .ok (stack, .complete (.object (Value.put members key v)))
    | _ => .error (.malformed .comma token.text)

/-- Takes the next token. -/
def take (limit : Nat) (stack : List Frame) (expecting : Expecting) (token : Token) : Step :=
  match expecting with
  | .value => takeValue limit stack token
  | .element => takeElement limit stack token
  | .key members mayEnd => takeKey stack members mayEnd token
  | .colon members key => takeColon stack members key token
  | .complete v => takeNext stack v token

/-- What a text that ends here stands for. -/
def finish (stack : List Frame) (expecting : Expecting) : Except Refusal Value :=
  match expecting with
  | .value | .element => .error (.malformed .value [])
  | .key .. => .error (.malformed .propertyName [])
  | .colon .. => .error (.malformed .colon [])
  | .complete v => if stack.isEmpty then .ok v else .error (.malformed .comma [])

/-- Goes through the tokens. -/
def run (limit : Nat) (stack : List Frame) (expecting : Expecting) :
    List Token → Except Refusal Value
  | [] => finish stack expecting
  | token :: rest =>
    match take limit stack expecting token with
    | .ok (stack, expecting) => run limit stack expecting rest
    | .error refusal => .error refusal

/-- The fault of a refused text. -/
def Refusal.fault (t : Text) : Refusal → Fault
  | .malformed issue place =>
    .malformed issue (Place.behind (t.take (t.length - place.length)))
  | .tooManyDigits digits => .tooManyDigits digits
  | .tooDeep container => .textTooDeep container

/-- Whether a text begins with a byte order mark. -/
def hasMark (t : Text) : Bool := t.head? == some 0xFEFF

/-- The value that a JSON text stands for, read with at most so many containers open at once. -/
def decodeWithin (limit : Nat) (t : Text) : Except Fault Value :=
  if hasMark t then .error (.malformed .byteOrderMark (Place.behind []))
  else (run limit [] .value (tokens t)).mapError (Refusal.fault t)

/-- The value that a JSON text stands for. -/
def decode (t : Text) : Except Fault Value := decodeWithin maxDepth t

end JsonSurvey.Json
