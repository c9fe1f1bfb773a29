import JsonSurvey.Coordinate.Collection
import JsonSurvey.Source
import JsonSurvey.Value.Access
import JsonSurvey.Variant

/-! Analysing a source: its document is read, its variants and coordinates are collected, and a
status tells how it went. A source that cannot be read leaves both empty; a document that nests too
deeply for a schema still has its coordinates. -/

namespace JsonSurvey

/-- What an analysis shows. The results can be exported if there are variants. -/
structure Analysis where
  variants : List Variant
  coordinates : List Coordinate
  status : Text

namespace Analysis

/-- Whether there is something to export. -/
def exportable (a : Analysis) : Bool := !a.variants.isEmpty

/-- The variants as a document value. -/
def variantsValue (a : Analysis) : Value := .list (a.variants.map Variant.record)

/-- The coordinates as a document value, each under the names of its numbers. -/
def coordinatesValue (a : Analysis) : Value := .list (a.coordinates.map Coordinate.record)

/-- The coordinates as rows of a table. -/
def rowsValue (a : Analysis) : Value := .list (a.coordinates.map Coordinate.pair)

/-- The analysis of a source that could not be read. -/
def failed (status : Text) : Analysis := ⟨[], [], status⟩

/-- The status of a document with so many items, variants and coordinates. -/
def statusOfCounts (items variants coordinates : Nat) : Text :=
  Text.concat ["Successfully loaded. Items: ", Text.ofNat items, " | Schema variants: ",
    Text.ofNat variants, " | Coordinates: ", Text.ofNat coordinates]

/-- The status of a document, for variants and coordinates given as values. -/
def status? (document variants coordinates : Value) : Except Fault Text := do
  return statusOfCounts document.items.length (← variants.count) (← coordinates.count)

/-- The row of a table for the numbers under their names. -/
def row (coordinate : Value) : Except Fault Value := do
  let lat ← coordinate.under "lat"
  let lng ← coordinate.under "lng"
  return .list [lat, lng]

/-- The rows of a table for the coordinates of a value. -/
def rows (coordinates : Value) : Except Fault Value := do
  return .list (← (← coordinates.parts).mapM row)

/-- The status of a document that nests too deeply. -/
def tooDeepStatus (coordinates : Nat) : Text :=
  Text.concat ["Error: document is nested too deeply to compute schema variants. ",
    "Coordinates: ", Text.ofNat coordinates]

/-- The analysis of a document. -/
def ofDocument (document : Value) : Report Analysis :=
  let coordinates := Coordinate.survey document
  match coordinates.result with
  | .error fault => ⟨coordinates.entries, .error fault⟩
  | .ok cs =>
    let variants := Variant.survey document
    match variants.result with
    | .ok vs =>
      let status := statusOfCounts document.items.length vs.length cs.length
      ⟨coordinates.entries ++ variants.entries ++ [Log.Source.handlers.info status],
        .ok ⟨vs, cs, status⟩⟩
    | .error .tooDeep =>
      ⟨coordinates.entries ++ variants.entries ++
          [Log.Source.handlers.error "Document nesting too deep to extract a schema"],
        .ok ⟨[], cs, tooDeepStatus cs.length⟩⟩
    | .error fault => ⟨coordinates.entries ++ variants.entries, .error fault⟩

/-- The analysis of a source. -/
def ofSource (tree : FileTree) (source : Source) : Report Analysis :=
  match source with
  | .absent => pure (failed "No file uploaded.")
  | source =>
    let report := source.read tree
    match report.result with
    | .ok document =>
      let analysis := ofDocument document
      ⟨report.entries ++ analysis.entries, analysis.result⟩
    | .error fault =>
      if fault.isBadContent then
        ⟨report.entries ++ [Log.Source.handlers.warning
            (Text.concat ["Could not parse uploaded JSON: ", fault.message])],
          .ok (failed (Text.concat ["Error parsing JSON: ", fault.message]))⟩
      else if fault.isFileTrouble then
        ⟨report.entries ++ [Log.Source.handlers.warning
            (Text.concat ["Could not read uploaded file: ", fault.message])],
          .ok (failed (Text.concat ["Error reading file: ", fault.message]))⟩
      else ⟨report.entries, .error fault⟩

end Analysis
end JsonSurvey
