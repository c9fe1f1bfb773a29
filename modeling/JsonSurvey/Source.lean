import JsonSurvey.FileTree
import JsonSurvey.Json.Reader
import JsonSurvey.Log
import JsonSurvey.Text.Newline

/-! Where a document comes from, and reading it from there. Bytes are UTF-8 everywhere; a file is
read as text with all line ends unified; a stream is rewound first if it can be. -/

namespace JsonSurvey

/-- A source of a document. -/
inductive Source
  /-- Nothing was given. -/
  | absent
  | bytes (content : List Byte)
  | bytearray (content : List Byte)
  /-- A stream of text, of which `taken` code points have been read already. -/
  | textStream (content : Text) (taken : Nat) (rewinds : Bool)
  /-- A stream of bytes, of which `taken` have been read already. -/
  | byteStream (content : List Byte) (taken : Nat) (rewinds : Bool)
  /-- A path, which is brought into plain form. -/
  | path (path : Text)
  /-- The text of a path. -/
  | pathText (path : Text)
  /-- An uploaded file under its path. -/
  | upload (path : Text)
  /-- A value of a type that is no source. -/
  | unreadable (typeName : Text)

namespace Source

/-- The document of a JSON text in UTF-8. -/
def decodeBytes (content : List Byte) : Except Fault Value := do
  Json.decode (← (Utf8.decode content).mapError .notUtf8)

/-- The document of a file. -/
def readFile (tree : FileTree) (path : Text) : Report Value := do
  Report.log (Log.Source.files.debug (Text.concat ["Reading JSON from ", path]))
  let content ← Report.ofExcept (tree.read path)
  let text ← Report.ofExcept ((Utf8.decode content).mapError .notUtf8)
  Report.ofExcept (Json.decodeWithin Json.maxFileDepth text.unifyLines)

/-- The document of a source. -/
def read (tree : FileTree) : Source → Report Value
  | .absent => Report.ofExcept (.error .nothingUploaded)
  | .bytes content | .bytearray content => Report.ofExcept (decodeBytes content)
  | .textStream content taken rewinds =>
    Report.ofExcept (Json.decode (if rewinds then content else content.drop taken))
  | .byteStream content taken rewinds =>
    Report.ofExcept (decodeBytes (if rewinds then content else content.drop taken))
  | .path p => readFile tree (Path.plain p)
  | .pathText p | .upload p => readFile tree p
  | .unreadable typeName => Report.ofExcept (.error (.lacks typeName "name"))

end Source
end JsonSurvey
