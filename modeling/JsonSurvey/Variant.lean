import JsonSurvey.Log
import JsonSurvey.Schema.Canonical
import JsonSurvey.Schema.Extraction

/-! The variants of a document: the distinct canonical schemas of its items, in the order in which
they first occur, each with the first item that has it. Schemas are told apart by their keys. -/

namespace JsonSurvey

/-- A canonical schema and the first item that has it. -/
structure Variant where
  schema : Value
  item : Value

namespace Variant

/-- A variant as a document value. -/
def record (v : Variant) : Value := .object [("schema", v.schema), ("example", v.item)]

/-- Adds an item to the variants seen so far, which come with their keys. -/
def observe (seen : List (Text × Variant)) (item : Value) :
    Except Fault (List (Text × Variant)) := do
  let schema ← Schema.canonicalize (← Schema.extract item)
  let key ← Schema.canonicalKey schema
  return if seen.any (·.1 == key) then seen else seen ++ [(key, ⟨schema, item⟩)]

/-- The variants of a document. -/
def collect (document : Value) : Except Fault (List Variant) := do
  let seen ← document.items.foldlM observe []
  return seen.map (·.2)

/-- The variants of a document, with their number logged. -/
def survey (document : Value) : Report (List Variant) := do
  let variants ← Report.ofExcept (collect document)
  Report.log (Log.Source.variants.debug
    (Text.concat ["Found ", Text.ofNat variants.length, " schema variants across ",
      Text.ofNat document.items.length, " items"]))
  return variants

end Variant
end JsonSurvey
