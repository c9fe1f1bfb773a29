import JsonSurvey.Text.Quoted
import JsonSurvey.Text.Utf8

/-! Everything that can go wrong, by cause, and how each cause is told. -/

namespace JsonSurvey

/-- What is wrong with a JSON text. -/
inductive Issue
  | value
  | propertyName
  | colon
  | comma
  | unterminatedString
  | controlCharacter
  | escape
  | unicodeEscape
  | extraData
  | byteOrderMark
deriving DecidableEq

/-- A place in a text: how many code points come before it, and its line and column from one. -/
structure Place where
  index : Nat
  line : Nat
  column : Nat
deriving DecidableEq

/-- The two kinds of container that a JSON text can nest. -/
inductive Container
  | array
  | object
deriving DecidableEq

/-- Why a file or directory cannot be used. -/
inductive FileTrouble
  | notFound
  | alreadyExists
  | notADirectory
  | isADirectory
  | nameTooLong
  | tooManyLinks
  /-- Any other trouble, as the operating system tells it. -/
  | other (number : Nat) (message : Text)
deriving DecidableEq

/-- Why a step has no result. -/
inductive Fault
  /-- A text is not JSON at a place. -/
  | malformed (issue : Issue) (place : Place)
  /-- An integer of a JSON text is too long. -/
  | tooManyDigits (digits : Nat)
  /-- An integer is too long to be written. -/
  | unwritableInteger
  /-- Containers of a JSON text nest too deeply; one of this kind is the first too deep. -/
  | textTooDeep (container : Container)
  /-- The values of a document or the directories of a path nest too deeply for the step. -/
  | tooDeep
  /-- Bytes are not UTF-8. -/
  | notUtf8 (flaw : Utf8.Flaw)
  /-- A text has surrogates, which cannot be written. -/
  | notEncodable (gap : Utf8.Gap)
  /-- There is no source to read. -/
  | nothingUploaded
  /-- A path or a variable of the process has a null character. -/
  | nullCharacter
  /-- A leaf has no JSON type. -/
  | notJson (typeName : Text)
  /-- A leaf has no JSON text. -/
  | notWritable (typeName : Text)
  /-- Two tags of a union have no order. -/
  | notOrdered
  /-- A value has no parts to go through. -/
  | notIterable (typeName : Text)
  /-- A value has no parts to look up. -/
  | notIndexable (typeName : Text)
  /-- Values of this description are indexed by position only. -/
  | positionsOnly (description : Text)
  /-- A value has no number of parts. -/
  | noLength (typeName : Text)
  /-- A value of this type has no such part. -/
  | lacks (typeName part : Text)
  /-- An object has no member with this key. -/
  | missingKey (key : Text)
  /-- A text names no log level. -/
  | unknownLevel (name : Text)
  /-- A value is neither a log level nor the name of one. -/
  | notALevel (description : Text)
  /-- A file or directory cannot be used. -/
  | file (trouble : FileTrouble) (path : Text)
  /-- A file has not taken all that was written to it. -/
  | incomplete (trouble : FileTrouble)

namespace Issue

/-- What is wrong, without the place. -/
def message : Issue → Text
  | value => "Expecting value"
  | propertyName => "Expecting property name enclosed in double quotes"
  | colon => "Expecting ':' delimiter"
  | comma => "Expecting ',' delimiter"
  | unterminatedString => "Unterminated string starting at"
  | controlCharacter => "Invalid control character at"
  | escape => "Invalid \\escape"
  | unicodeEscape => "Invalid \\uXXXX escape"
  | extraData => "Extra data"
  | byteOrderMark => "Unexpected UTF-8 BOM (decode using utf-8-sig)"

end Issue

namespace Place

/-- The place behind the text `before`. -/
def behind (before : Text) : Place where
  index := before.length
  line := before.count 0x0A + 1
  column := (before.reverse.takeWhile (· != 0x0A)).length + 1

def message (p : Place) : Text :=
  Text.concat ["line ", Text.ofNat p.line, " column ", Text.ofNat p.column,
    " (char ", Text.ofNat p.index, ")"]

end Place

namespace FileTrouble

/-- The number that the operating system gives the trouble. -/
def number : FileTrouble → Nat
  | notFound => 2
  | alreadyExists => 17
  | notADirectory => 20
  | isADirectory => 21
  | nameTooLong => 36
  | tooManyLinks => 40
  | other number _ => number

def message : FileTrouble → Text
  | notFound => "No such file or directory"
  | alreadyExists => "File exists"
  | notADirectory => "Not a directory"
  | isADirectory => "Is a directory"
  | nameTooLong => "File name too long"
  | tooManyLinks => "Too many levels of symbolic links"
  | other _ message => message

end FileTrouble

namespace Utf8

def Cause.message : Cause → Text
  | .invalidStart => "invalid start byte"
  | .invalidContinuation => "invalid continuation byte"
  | .unexpectedEnd => "unexpected end of data"

/-- One byte is shown, several are only placed. -/
def Flaw.message (f : Flaw) : Text :=
  let what : Text :=
    if f.length = 1 then
      Text.concat ["byte 0x", Text.hex 2 f.byte.val, " in position ", Text.ofNat f.place]
    else
      Text.concat ["bytes in position ", Text.ofNat f.place, "-",
        Text.ofNat (f.place + f.length - 1)]
  Text.concat ["'utf-8' codec can't decode ", what, ": ", f.cause.message]

/-- One surrogate is shown, several are only placed. -/
def Gap.message (g : Gap) : Text :=
  let what : Text :=
    if g.first = g.last then
      Text.concat ["character '\\u", Text.hex 4 g.surrogate.val, "' in position ",
        Text.ofNat g.first]
    else
      Text.concat ["characters in position ", Text.ofNat g.first, "-", Text.ofNat g.last]
  Text.concat ["'utf-8' codec can't encode ", what, ": surrogates not allowed"]

end Utf8

namespace Fault

/-- Whether the fault lies in what was read rather than in the reading: a bad text, bad bytes or a
name that cannot be a path. -/
def isBadContent : Fault → Bool
  | .malformed .. | .tooManyDigits _ | .unwritableInteger | .textTooDeep _ | .tooDeep | .notUtf8 _
  | .notEncodable _ | .nothingUploaded | .nullCharacter | .unknownLevel _ => true
  | _ => false

/-- Whether the fault is one of the file tree. -/
def isFileTrouble : Fault → Bool
  | .file .. | .incomplete _ => true
  | _ => false

/-- The text of a fault. -/
def message : Fault → Text
  | .malformed issue place => Text.concat [issue.message, ": ", place.message]
  | .tooManyDigits digits =>
    Text.concat ["Exceeds the limit (4300 digits) for integer string conversion: value has ",
      Text.ofNat digits,
      " digits; use sys.set_int_max_str_digits() to increase the limit"]
  | .unwritableInteger =>
    Text.concat ["Exceeds the limit (4300 digits) for integer string conversion; ",
      "use sys.set_int_max_str_digits() to increase the limit"]
  | .textTooDeep .array =>
    "maximum recursion depth exceeded while decoding a JSON array from a unicode string"
  | .textTooDeep .object =>
    "maximum recursion depth exceeded while decoding a JSON object from a unicode string"
  | .tooDeep => "maximum recursion depth exceeded"
  | .notUtf8 flaw => flaw.message
  | .notEncodable gap => gap.message
  | .nothingUploaded => "No file uploaded."
  | .nullCharacter => "embedded null byte"
  | .notJson typeName => Text.concat ["Not a JSON value: ", typeName]
  | .notWritable typeName =>
    Text.concat ["Object of type ", typeName, " is not JSON serializable"]
  | .notOrdered => "'<' not supported"
  | .notIterable typeName => Text.concat ["'", typeName, "' object is not iterable"]
  | .notIndexable typeName => Text.concat ["'", typeName, "' object is not subscriptable"]
  | .positionsOnly description => description
  | .noLength typeName => Text.concat ["object of type '", typeName, "' has no len()"]
  | .lacks typeName part =>
    Text.concat ["'", typeName, "' object has no attribute '", part, "'"]
  | .missingKey key => key.quoted
  | .unknownLevel name => Text.concat ["Unknown level: ", name.quoted]
  | .notALevel description =>
    Text.concat ["Level not an integer or a valid string: ", description]
  | .file trouble path =>
    Text.concat ["[Errno ", Text.ofNat trouble.number, "] ", trouble.message, ": ", path.quoted]
  | .incomplete trouble =>
    Text.concat ["[Errno ", Text.ofNat trouble.number, "] ", trouble.message]

end Fault
end JsonSurvey
