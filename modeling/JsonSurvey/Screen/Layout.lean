import JsonSurvey.Text

/-! The layout of the screen as data: its components in order, and which events of which components
run which handler on which components. -/

namespace JsonSurvey

/-- A component of the screen. -/
inductive Component
  /-- A piece of formatted text. -/
  | markdown (text : Text)
  /-- Components side by side. -/
  | row (children : List Component)
  /-- Components one below the other, with the share of the width that they take. -/
  | column (scale : Nat) (children : List Component)
  /-- A file, of one of some types if there are any. -/
  | file (label : Text) (types : Option (List Text))
  /-- A line of text. -/
  | textbox (label : Text) (placeholder : Option Text) (interactive : Option Bool)
  | button (text variant : Text) (interactive : Bool)
  /-- A document value. -/
  | json (label : Text)
  /-- A table with a fixed number of columns. -/
  | table (label : Text) (headers columnTypes : List Text) (columns : Nat) (interactive : Bool)

/-- What the program does at an event. -/
inductive Handler
  | analyse
  | exportResults
deriving DecidableEq

/-- An event of a component, its handler, and the components that the handler reads and sets. -/
structure Wiring where
  component : Text
  event : Text
  handler : Handler
  inputs : List Text
  outputs : List Text

namespace Layout

def title : Text := "JSON Variant Extractor"

def uploadLabel : Text := "Upload JSON File"

def statusLabel : Text := "Status"

def fileNameLabel : Text := "Output Filename (optional)"

def exportText : Text := "Export Results"

def downloadLabel : Text := "Download Result"

def variantsLabel : Text := "Variants"

def coordinatesLabel : Text := "Coordinates"

def tableLabel : Text := "Coordinate Pairs"

/-- Import and export, on the left. -/
def controls : Component :=
  .column 1 [
    .markdown "### 1. Import",
    .file uploadLabel (some [".json"]),
    .textbox statusLabel none (some false),
    .markdown "### 2. Export",
    .textbox fileNameLabel (some "schema_variants") none,
    .button exportText "primary" false,
    .file downloadLabel none]

/-- The results, on the right. -/
def resultViews : Component :=
  .column 2 [
    .markdown "### Schema Variants",
    .json variantsLabel,
    .markdown "### Coordinates",
    .json coordinatesLabel,
    .table tableLabel ["lat", "lng"] ["number", "number"] 2 false]

/-- The components of the screen. -/
def components : List Component := [
  .markdown "# JSON Schema Variants and Coordinates",
  .markdown (Text.concat ["Upload a JSON file to list its distinct schema variants ",
    "and the geo coordinates it contains."]),
  .row [controls, resultViews]]

/-- The events of the screen. -/
def wirings : List Wiring := [
  { component := uploadLabel
    event := "upload"
    handler := .analyse
    inputs := [uploadLabel]
    outputs := [variantsLabel, coordinatesLabel, tableLabel, statusLabel, exportText] },
  { component := exportText
    event := "click"
    handler := .exportResults
    inputs := [variantsLabel, coordinatesLabel, fileNameLabel]
    outputs := [downloadLabel, statusLabel] }]

end Layout
end JsonSurvey
