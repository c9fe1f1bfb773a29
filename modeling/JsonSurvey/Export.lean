import JsonSurvey.FileTree
import JsonSurvey.Json.Printer
import JsonSurvey.Log
import JsonSurvey.Settings
import JsonSurvey.Text.Blank

/-! Exports: results written as indented JSON into a file of a directory. -/

namespace JsonSurvey.Export

/-- The name of a file whose name was left blank. -/
def defaultName : Text := "schema_variants"

def extension : Text := ".json"

/-- Whether a name has the extension already, in letters of either case. -/
def hasExtension (name : Text) : Bool :=
  (name.map CodePoint.asciiLower).reverse.take extension.length == extension.reverse

/-- The name of the file for a name that was asked for. -/
def fileName (name? : Option Text) : Text :=
  let name := match name? with
    | none => defaultName
    | some name => if name.isBlank then defaultName else name.strip
  if hasExtension name then name else name ++ extension

/-- The path of the file for a name that was asked for, in a directory. -/
def filePath (name? : Option Text) (directory : Text) : Text := Path.join directory (fileName name?)

/-- Writes results into a file of a directory, which is made if it is missing, and tells the path of
the file. -/
def write (tree : FileTree) (results : Value) (name? : Option Text) (directory : Text) :
    FileTree × Report Text :=
  match tree.makeDirectories directory with
  | (tree, some fault) => (tree, Report.ofExcept (.error fault))
  | (tree, none) =>
    match tree.write (filePath name? directory) (Json.indented results) with
    | (tree, some fault) => (tree, Report.ofExcept (.error fault))
    | (tree, none) =>
      (tree, do
        Report.log (Log.Source.files.info
          (Text.concat ["Wrote results to ", filePath name? directory]))
        return filePath name? directory)

/-- What an export tells: the path of the file, if one was written, and the status. -/
structure Outcome where
  path : Option Text
  status : Text

/-- The results that are written: variants and coordinates, which may be missing. -/
def results (variants coordinates : Value) : Value :=
  .object [("variants", variants),
    ("coordinates", if coordinates.isVoid then .list [] else coordinates)]

def nothingToExport : Outcome := ⟨none, "No data loaded."⟩

/-- Writes variants and coordinates into a file of a directory. Without variants nothing is written;
trouble with the file tree is told in the status and logged. -/
def run (tree : FileTree) (variants coordinates : Value) (name? : Option Text)
    (directory : Text) : FileTree × Report Outcome :=
  if variants.isVoid then (tree, pure nothingToExport)
  else
    let (tree, report) := write tree (results variants coordinates) name? directory
    (tree, match report.result with
      | .ok path =>
        ⟨report.entries,
          .ok ⟨some path, Text.concat ["Export successful! Saved to ", path]⟩⟩
      | .error fault =>
        if fault.isFileTrouble then
          ⟨report.entries ++ [Log.Source.handlers.error "Export failed"],
            .ok ⟨none, Text.concat ["Error during export: ", fault.message]⟩⟩
        else ⟨report.entries, .error fault⟩)

/-- Writes variants and coordinates into the directory that the settings name. -/
def runWithSettings (tree : FileTree) (temporary : Text) (environment : Environment)
    (variants coordinates : Value) (name? : Option Text) : FileTree × Report Outcome :=
  if variants.isVoid then (tree, pure nothingToExport)
  else
    let settings := Settings.load temporary environment
    match settings.result with
    | .error fault => (tree, ⟨settings.entries, .error fault⟩)
    | .ok s =>
      let (tree, report) := run tree variants coordinates name? s.exportDirectory
      (tree, ⟨settings.entries ++ report.entries, report.result⟩)

end JsonSurvey.Export
