import JsonSurvey.Screen
import JsonSurvey.Screen.Layout
import JsonSurvey.Startup
import JsonSurvey.Proofs.Schema.MergedForm
import JsonSurvey.Proofs.Schema.Shape
import JsonSurvey.Proofs.Json.Reader
import JsonSurvey.Proofs.Schema.Reordering
import JsonSurvey.Proofs.Binary64
import JsonSurvey.Proofs.Variant
import JsonSurvey.Proofs.Coordinate
import JsonSurvey.Proofs.Coordinate.Collection
import JsonSurvey.Proofs.Binary64.Decimal
import JsonSurvey.Proofs.Text.Utf8
import JsonSurvey.Proofs.Json.Number
import JsonSurvey.Proofs.Export
import JsonSurvey.Proofs.Schema.Key
import JsonSurvey.Proofs.Schema.NormalForm
import JsonSurvey.Proofs.Schema.Repetition
import JsonSurvey.Proofs.Schema.Fault
import JsonSurvey.Proofs.Variant.Agreement
import JsonSurvey.Proofs.Variant.Foreign
import JsonSurvey.Proofs.Screen
import JsonSurvey.Proofs.Source.Delivery
import JsonSurvey.Proofs.Export.Outcome
import JsonSurvey.Proofs.Coordinate.Spelling
import JsonSurvey.Proofs.FileTree.Frame
import JsonSurvey.Proofs.FileTree.Path
import JsonSurvey.Proofs.Export.Frame
import JsonSurvey.Proofs.Export.Target
import JsonSurvey.Proofs.Binary64.Overflow
import JsonSurvey.Proofs.Json.Grammar
import JsonSurvey.Proofs.Json.Standard
import JsonSurvey.Proofs.Export.Standard
import JsonSurvey.Proofs.Log
