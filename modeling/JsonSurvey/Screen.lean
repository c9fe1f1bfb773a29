import JsonSurvey.Analysis
import JsonSurvey.Export

/-! The screen: what its components show, and what an upload, an edit of the file name and a click
on the export button do to them. An event whose handler has a fault leaves the screen as it is. -/

namespace JsonSurvey

/-- What the components show. Nothing is shown where there has been no result yet. -/
structure Screen where
  variants : Value
  coordinates : Value
  table : Value
  status : Option Text
  fileName : Option Text
  download : Option Text
  exportEnabled : Bool

namespace Screen

/-- The screen at the start. -/
def initial : Screen := ⟨.null, .null, .null, none, none, none, false⟩

/-- Shows an analysis. -/
def showAnalysis (screen : Screen) (a : Analysis) : Screen :=
  { screen with
    variants := a.variantsValue
    coordinates := a.coordinatesValue
    table := a.rowsValue
    status := some a.status
    exportEnabled := a.exportable }

/-- Shows the outcome of an export. -/
def showOutcome (screen : Screen) (outcome : Export.Outcome) : Screen :=
  { screen with download := outcome.path, status := some outcome.status }

/-- A source is uploaded. -/
def upload (screen : Screen) (tree : FileTree) (source : Source) : Report Screen := do
  return screen.showAnalysis (← Analysis.ofSource tree source)

/-- The file name is edited. -/
def typeName (screen : Screen) (name : Option Text) : Screen := { screen with fileName := name }

/-- The export button is clicked. -/
def clickExport (screen : Screen) (tree : FileTree) (temporary : Text)
    (environment : Environment) : FileTree × Report Screen :=
  let (tree, report) := Export.runWithSettings tree temporary environment screen.variants
    screen.coordinates screen.fileName
  (tree, do return screen.showOutcome (← report))

end Screen
end JsonSurvey
